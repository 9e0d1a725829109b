import CoinLayers.Coin
import CoinLayers.OutPoint

/-!
Cache entries: a coin and how it stands to the layer below.

A dirty entry differs from the layer below and has to be written there. A fresh entry stands for a coin
that the layer below does not hold unspent; once it is spent, the entry can simply go, as nothing below
needs to hear of it.
-/
namespace CoinLayers

structure Flags where
  dirty : Bool
  fresh : Bool
  deriving DecidableEq

namespace Flags

def clean : Flags := ⟨false, false⟩

/-- The flags that the two low bits of a byte stand for. Other bits mean nothing. -/
def ofBits (bits : UInt8) : Flags :=
  ⟨bits &&& 1 != 0, bits &&& 2 != 0⟩

def bits (flags : Flags) : UInt8 :=
  (if flags.dirty then 1 else 0) ||| (if flags.fresh then 2 else 0)

/-- Whether every bit of a byte is one of the two that have a meaning. -/
def knows (bits : UInt8) : Bool :=
  (ofBits bits).bits == bits

def text (flags : Flags) : String :=
  match flags.dirty, flags.fresh with
  | false, false => "EntryFlags(0x0)"
  | true, false => "EntryFlags(DIRTY)"
  | false, true => "EntryFlags(FRESH)"
  | true, true => "EntryFlags(DIRTY | FRESH)"

end Flags

structure Entry where
  coin : Coin
  flags : Flags
  deriving DecidableEq

namespace Entry

/-- An entry that agrees with the layer below. -/
def clean (coin : Coin) : Entry := ⟨coin, .clean⟩

/-- The entry made for a coin that was read from the layer below. A spent coin there is no unspent one,
    so its entry is fresh. -/
def loaded (coin : Coin) : Entry := ⟨coin, ⟨false, coin.isSpent⟩⟩

def isDirty (entry : Entry) : Bool := entry.flags.dirty

def isFresh (entry : Entry) : Bool := entry.flags.fresh

/-- Whether the flags of an entry fit its coin. A clean unspent coin is never fresh, as the layer below
    holds it; a clean spent coin always is; and a dirty fresh coin is unspent, since spending it would
    have removed it. -/
def isValid (entry : Entry) : Bool :=
  match entry.flags.dirty, entry.flags.fresh, entry.coin.isSpent with
  | false, true, false => false
  | false, false, true => false
  | true, true, true => false
  | _, _, _ => true

def text (entry : Entry) : String :=
  "CoinsCacheEntry \x7b coin: " ++ entry.coin.text ++ ", flags: " ++ entry.flags.text ++ " \x7d"

end Entry

/-- Entries by outpoint: the contents of a cache, and the batch that one layer hands to the next. -/
abbrev Entries := Std.ExtTreeMap OutPoint Entry

namespace Entries

def footprint (entries : Entries) : Nat :=
  (entries.toList.map fun (_, entry) => entry.coin.footprint).foldr (· + ·) 0

/-- The entries that have something to write, in the order of their outpoints. -/
def dirtyList (entries : Entries) : List (OutPoint × Entry) :=
  entries.toList.filter fun (_, entry) => entry.isDirty

end Entries

end CoinLayers
