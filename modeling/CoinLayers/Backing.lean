import CoinLayers.Outcome

/-!
What the lowest layer has to offer, whatever it keeps its coins in.

A store reads coins and takes batches. Reading may change the store, which may keep a count or a buffer
of its own. A store that says nothing on a matter behaves like one that knows no coin and can be
neither written nor listed.
-/
namespace CoinLayers

/-- A list of all coins of a view, with the block that the view stands at. -/
structure Scan where
  tip : Hash256
  coins : List (OutPoint × Coin)

/-- What is left when a store has been handed a batch: the entries that it did not take, and itself. -/
structure Written (σ : Type) where
  result : Except Fault Unit
  left : Entries
  store : σ
  events : List Event

/-- Whether an answer to a read shows an unspent coin. -/
def showsUnspent (found : Option Coin) : Bool :=
  found.any fun coin => !coin.isSpent

class Backing (σ : Type) where
  /-- The coin at an outpoint, which may be a spent one, or nothing if the store knows of none. -/
  read (o : OutPoint) (store : σ) : Except Fault (Option Coin) × σ := (.ok none, store)
  /-- Whether there is an unspent coin at an outpoint. -/
  holds (o : OutPoint) (store : σ) : Except Fault Bool × σ :=
    ((read o store).1.map showsUnspent, (read o store).2)
  /-- The block that the store stands at. -/
  tip (store : σ) : Hash256 × σ := (.zero, store)
  /-- The two blocks between which a write was interrupted, if one was. -/
  heads (store : σ) : List Hash256 := []
  /-- Takes a batch that leads to the given block. -/
  write (batch : Entries) (tip : Hash256) (store : σ) : Written σ :=
    ⟨.error .writeUnsupported, batch, store, []⟩
  /-- All coins, if the store can list them. -/
  scan (store : σ) : Option Scan := none
  /-- About how many bytes the store takes, or zero. -/
  sizeEstimate (store : σ) : Nat := 0

structure EmptyStore where

instance : Backing EmptyStore where

end CoinLayers
