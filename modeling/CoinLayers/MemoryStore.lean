import CoinLayers.Backing

/-!
A store that keeps its coins in memory, sorted by outpoint. It holds unspent coins only: a spent coin
in a batch removes what was there.
-/
namespace CoinLayers

/-- Coins by outpoint, the block they stand at, the blocks of an interrupted write, and the number of
    batches taken so far. -/
structure MemoryStore where
  coins : Std.ExtTreeMap OutPoint Coin
  tip : Hash256
  heads : List Hash256
  /-- One for each batch, so that a word of 64 bits would last for 2 ^ 64 of them. -/
  batches : Nat

namespace MemoryStore

def empty : MemoryStore := ⟨∅, .zero, [], 0⟩

/-- The store with a coin put in, past all batches. -/
def insert (store : MemoryStore) (o : OutPoint) (coin : Coin) : MemoryStore :=
  { store with coins := store.coins.insert o coin }

def coin? (store : MemoryStore) (o : OutPoint) : Option Coin := store.coins[o]?

def contains (store : MemoryStore) (o : OutPoint) : Bool := store.coins.contains o

def size (store : MemoryStore) : Nat := store.coins.size

def isEmpty (store : MemoryStore) : Bool := store.coins.isEmpty

def setTip (store : MemoryStore) (tip : Hash256) : MemoryStore :=
  { store with tip }

/-- The store caught in a write from the old block to the new one. -/
def setHeads (store : MemoryStore) (new old : Hash256) : MemoryStore :=
  { store with heads := [new, old] }

/-- The coins after one entry of a batch. Only a dirty entry counts: its coin takes the place, or leaves
    it empty if it is spent. -/
def settle (coins : Std.ExtTreeMap OutPoint Coin) (place : OutPoint × Entry) :
    Std.ExtTreeMap OutPoint Coin :=
  if !place.2.isDirty then coins
  else if place.2.coin.isSpent then coins.erase place.1
  else coins.insert place.1 place.2.coin

/-- The store after the entries of a batch, in the order given. -/
def take (store : MemoryStore) (entries : List (OutPoint × Entry)) (tip : Hash256) : MemoryStore where
  coins := entries.foldl settle store.coins
  tip
  heads := []
  batches := store.batches + 1

/-- How many entries of a batch put in a coin. -/
def writtenCount (entries : List (OutPoint × Entry)) : Nat :=
  entries.countP fun (_, entry) => entry.isDirty && !entry.coin.isSpent

/-- How many entries of a batch take out a coin that is there. -/
def erasedCount (store : MemoryStore) (entries : List (OutPoint × Entry)) : Nat :=
  entries.countP fun (o, entry) => entry.isDirty && entry.coin.isSpent && store.contains o

/-- Takes all entries of a batch. They come in the order of their outpoints here; any other order makes no
    difference. -/
def write (batch : Entries) (tip : Hash256) (store : MemoryStore) : Written MemoryStore :=
  let entries := batch.toList
  let after := store.take entries tip
  ⟨.ok (), ∅, after, [.stored (writtenCount entries) (store.erasedCount entries) after.size tip]⟩

/-- The bytes of an outpoint and the fixed fields of its coin. -/
def coinOverhead : Nat := 80

/-- The bytes of all coins with their outpoints. -/
def sizeEstimate (store : MemoryStore) : Nat :=
  (store.coins.toList.map fun (_, coin) => coinOverhead + coin.footprint).foldr (· + ·) 0

instance : Backing MemoryStore where
  read o store := (.ok (store.coin? o), store)
  holds o store := (.ok (store.contains o), store)
  tip store := (store.tip, store)
  heads := heads
  write := write
  scan store := some ⟨store.tip, store.coins.toList⟩
  sizeEstimate := sizeEstimate

end MemoryStore

end CoinLayers
