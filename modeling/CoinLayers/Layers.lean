import CoinLayers.Backing
import CoinLayers.Eviction
import CoinLayers.Merge
import CoinLayers.ReadGuard

/-!
Layers: views of the coins, each on top of another one.

Layers are listed from the newest to the oldest. A layer reads and writes the layer right below it, or
one further down, if it skips some; a stack is a list in which none skips any. An operation names a
layer by its depth in the list. It reaches only layers below that one, so that it recurses on the list.
-/
namespace CoinLayers

/-- A layer. All but a root say how many layers below them they skip. -/
inductive Layer (ρ : Type) where
  /-- A store at the bottom of a stack. -/
  | root (store : ρ)
  /-- A layer that hands on everything. -/
  | relay (skip : Nat)
  /-- A layer that watches over reads and hands on the rest. -/
  | guarded (skip : Nat) (guard : ReadGuard)
  | cached (skip : Nat) (cache : Cache)

/-- Layers over stores of type `ρ`, newest first. -/
abbrev Layers (ρ : Type) := List (Layer ρ)

/-- What a look at a coin through a cache shows: a cached coin, which may be a tombstone, or that nothing
    is known. -/
inductive Sight where
  | cached (coin : Coin)
  | nothing
  deriving DecidableEq

/-- The coin seen. Where nothing is known it is the empty one. -/
def Sight.coin : Sight → Coin
  | cached coin => coin
  | nothing => .spent

namespace Layers

variable {ρ α : Type} [Backing ρ]

/-- The coin at an outpoint. A cache that has no entry reads the layer below and keeps what it finds. A
    read that fails leaves every cache on the way as it was. -/
def read (o : OutPoint) : Nat → Layers ρ → Outcome (Layers ρ) (Option Coin)
  | _, [] => .done none []
  | depth + 1, layer :: below => (read o depth below).mapState (layer :: ·)
  | 0, .root store :: below =>
    let (answer, store) := Backing.read o store
    .ofExcept answer (.root store :: below)
  | 0, .relay skip :: below => (read o skip below).mapState (.relay skip :: ·)
  | 0, .guarded skip guard :: below =>
    (guard.watch (read o skip below)).mapState fun (guard, below) => .guarded skip guard :: below
  | 0, .cached skip cache :: below =>
    match cache.entries[o]? with
    | some entry => .done (some entry.coin) (.cached skip (cache.touch o) :: below)
    | none => (read o skip below).settle fun found below => .cached skip (cache.learn o found) :: below

/-- Whether there is an unspent coin at an outpoint. A root is asked in its own way. A cache answers from
    its entry, and reads the layer below only without one. -/
def holds (o : OutPoint) : Nat → Layers ρ → Outcome (Layers ρ) Bool
  | _, [] => .done false []
  | depth + 1, layer :: below => (holds o depth below).mapState (layer :: ·)
  | 0, .root store :: below =>
    let (answer, store) := Backing.holds o store
    .ofExcept answer (.root store :: below)
  | 0, .relay skip :: below => (holds o skip below).mapState (.relay skip :: ·)
  | 0, .guarded skip guard :: below =>
    (guard.watch (holds o skip below)).mapState fun (guard, below) => .guarded skip guard :: below
  | 0, .cached skip cache :: below =>
    match cache.entries[o]? with
    | some entry => .done (!entry.coin.isSpent) (.cached skip (cache.touch o) :: below)
    | none =>
      ((read o skip below).settle fun found below => .cached skip (cache.learn o found) :: below).map
        showsUnspent

/-- The block that a layer stands at. A cache asks the layer below once, and stays at that answer until it
    is told another. -/
def tip : Nat → Layers ρ → Hash256 × Layers ρ
  | _, [] => (.zero, [])
  | depth + 1, layer :: below => (tip depth below).map id (layer :: ·)
  | 0, .root store :: below => (Backing.tip store).map id (.root · :: below)
  | 0, .relay skip :: below => (tip skip below).map id (.relay skip :: ·)
  | 0, .guarded skip guard :: below => (tip skip below).map id (.guarded skip guard :: ·)
  | 0, .cached skip cache :: below =>
    match cache.tip with
    | some known => (known, .cached skip cache :: below)
    | none =>
      let (found, below) := tip skip below
      (found, .cached skip { cache with tip := some found } :: below)

/-- The blocks of an interrupted write, as the root tells them. -/
def heads : Nat → Layers ρ → List Hash256
  | _, [] => []
  | depth + 1, _ :: below => heads depth below
  | 0, .root store :: _ => Backing.heads store
  | 0, .relay skip :: below => heads skip below
  | 0, .guarded skip _ :: below => heads skip below
  | 0, .cached skip _ :: below => heads skip below

/-- All coins, if the layer can list them. A cache cannot: its own changes would be missing. -/
def scan : Nat → Layers ρ → Option Scan
  | _, [] => none
  | depth + 1, _ :: below => scan depth below
  | 0, .root store :: _ => Backing.scan store
  | 0, .relay skip :: below => scan skip below
  | 0, .guarded skip _ :: below => scan skip below
  | 0, .cached _ _ :: _ => none

def sizeEstimate : Nat → Layers ρ → Nat
  | _, [] => 0
  | depth + 1, _ :: below => sizeEstimate depth below
  | 0, .root store :: _ => Backing.sizeEstimate store
  | 0, .relay skip :: below => sizeEstimate skip below
  | 0, .guarded skip _ :: below => sizeEstimate skip below
  | 0, .cached skip _ :: below => sizeEstimate skip below

/-- Hands a layer a batch that leads to the given block. What it does not take is left over. -/
def write (batch : Entries) (block : Hash256) : Nat → Layers ρ → Outcome (Entries × Layers ρ) Unit
  | _, [] => .failed (.fault .writeUnsupported) (batch, [])
  | depth + 1, layer :: below => (write batch block depth below).mapState (·.map id (layer :: ·))
  | 0, .root store :: below =>
    let written := Backing.write batch block store
    ⟨written.result.mapError .fault, (written.left, .root written.store :: below), written.events⟩
  | 0, .relay skip :: below => (write batch block skip below).mapState (·.map id (.relay skip :: ·))
  | 0, .guarded skip guard :: below =>
    (write batch block skip below).mapState (·.map id (.guarded skip guard :: ·))
  | 0, .cached skip cache :: below => (cache.merge batch block).mapState (·.map id (.cached skip · :: below))

/-- Changes a cache by an operation that needs no other layer. -/
def onCache (change : Cache → Outcome Cache α) : Nat → Layers ρ → Outcome (Layers ρ) α
  | depth + 1, layer :: below => (onCache change depth below).mapState (layer :: ·)
  | 0, .cached skip cache :: below => (change cache).mapState (.cached skip · :: below)
  | _, layers => .failed .unsupported layers

def onGuard (change : ReadGuard → α × ReadGuard) : Nat → Layers ρ → Outcome (Layers ρ) α
  | depth + 1, layer :: below => (onGuard change depth below).mapState (layer :: ·)
  | 0, .guarded skip guard :: below =>
    let (answer, guard) := change guard
    .done answer (.guarded skip guard :: below)
  | _, layers => .failed .unsupported layers

def onRoot (change : ρ → Option (α × ρ)) : Nat → Layers ρ → Outcome (Layers ρ) α
  | depth + 1, layer :: below => (onRoot change depth below).mapState (layer :: ·)
  | 0, .root store :: below =>
    match change store with
    | some (answer, store) => .done answer (.root store :: below)
    | none => .failed .unsupported (.root store :: below)
  | _, layers => .failed .unsupported layers

/-- Puts a layer on top of another one, the given number of layers below it left out. -/
def rebase (skip : Nat) : Nat → Layers ρ → Outcome (Layers ρ) Unit
  | depth + 1, layer :: below => (rebase skip depth below).mapState (layer :: ·)
  | 0, .relay _ :: below => .done () (.relay skip :: below)
  | 0, .guarded _ guard :: below => .done () (.guarded skip guard :: below)
  | 0, .cached _ cache :: below => .done () (.cached skip cache :: below)
  | _, layers => .failed .unsupported layers

/-- Looks at a coin through a cache. -/
def sight (o : OutPoint) (depth : Nat) (layers : Layers ρ) : Outcome (Layers ρ) Sight :=
  (read o depth layers).map fun
    | some coin => .cached coin
    | none => .nothing

def add (o : OutPoint) (coin : Coin) (mayOverwrite : Bool) (depth : Nat) (layers : Layers ρ) :
    Outcome (Layers ρ) Unit :=
  onCache (fun cache => cache.add o coin mayOverwrite) depth layers

/-- Spends a coin through a cache, which reads it first if need be. Answers the coin as it was, or nothing if
    no layer knows it. -/
def spend (o : OutPoint) (depth : Nat) (layers : Layers ρ) : Outcome (Layers ρ) (Option Coin) :=
  (read o depth layers).andThen fun found layers =>
    match found with
    | none => .done none layers
    | some _ => onCache (fun cache => .done (cache.spend o).1 (cache.spend o).2) depth layers

/-- The block that a cache stands at, which is asked from the layer below if it is not known yet. -/
def tipOf (cache : Cache) (skip : Nat) (below : Layers ρ) : Hash256 × Layers ρ :=
  match cache.tip with
  | some known => (known, below)
  | none => tip skip below

/-- The end of a flush, once the layer below was handed the entries. The cache is then empty; if the write
    failed, it keeps what was left over. -/
def concludeFlush (cache : Cache) (block : Hash256) (skip : Nat) (written : Outcome (Entries × Layers ρ) Unit) :
    Outcome (Layers ρ) Unit :=
  match written.result with
  | .ok () =>
    ⟨.ok (), .cached skip cache.emptied :: written.state.2,
      written.events ++ [.flushed cache.entries.size block]⟩
  | .error why =>
    ⟨.error why, .cached skip (cache.recover written.state.1) :: written.state.2, written.events⟩

/-- Writes all changes of a cache to the layer below. A cache that does not know its block asks for it
    first, and then stands there, whether the write succeeds or not. -/
def flush : Nat → Layers ρ → Outcome (Layers ρ) Unit
  | depth + 1, layer :: below => (flush depth below).mapState (layer :: ·)
  | 0, .cached skip cache :: below =>
    let (block, below) := tipOf cache skip below
    concludeFlush { cache with tip := some block } block skip (write cache.entries block skip below)
  | _, layers => .failed .unsupported layers

end Layers

end CoinLayers
