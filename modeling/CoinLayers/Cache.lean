import CoinLayers.Draining
import CoinLayers.Outcome
import CoinLayers.Seen
import CoinLayers.Tally

/-!
The cache of one layer: the coins read from the layer below, and the changes that have not been written
there yet.

Beside its entries a cache keeps the bytes of their coins, the order in which they were last used, and
the block that it stands at. That block is taken from the layer below when it is first asked for.
-/
namespace CoinLayers

/-- A cache, apart from the layer that it lies on. -/
structure Cache where
  budget : Budget
  /-- The block that the cache stands at, once it is known. -/
  tip : Option Hash256
  entries : Entries
  /-- The bytes of the cached coins. -/
  usage : Tally
  recency : Recency
  /-- How many entries were evicted so far: never more than coins were looked up, so that a word of 64 bits would
      last for 2 ^ 64 lookups. -/
  evictions : Nat
  /-- The outpoints at which an unspent coin was overwritten. -/
  overwritten : Seen OutPoint
  /-- How batches come to the cache. -/
  draining : Draining

namespace Cache

/-- The cache that nothing was read into yet. -/
def empty (budget : Budget) (draining : Draining := .sorted) : Cache :=
  ⟨budget, none, ∅, .empty, .empty, 0, .empty, draining⟩

/-- The bytes of the coin cached at an outpoint, none if there is no entry. -/
def footprintAt (cache : Cache) (o : OutPoint) : Nat :=
  (cache.entries[o]?.map fun entry => entry.coin.footprint).getD 0

/-- Whether an unspent coin is cached at an outpoint. -/
def holds (cache : Cache) (o : OutPoint) : Bool :=
  cache.entries[o]?.any fun entry => !entry.coin.isSpent

def touch (cache : Cache) (o : OutPoint) : Cache :=
  { cache with recency := cache.recency.touch o }

/-- The cache with an entry in the place of what was there. -/
def put (cache : Cache) (o : OutPoint) (entry : Entry) : Cache :=
  { cache with
    entries := cache.entries.insert o entry
    usage := (cache.usage.remove (cache.footprintAt o)).add entry.coin.footprint }

def erase (cache : Cache) (o : OutPoint) : Cache :=
  match cache.entries[o]? with
  | none => cache
  | some entry =>
    { cache with
      entries := cache.entries.erase o
      usage := cache.usage.remove entry.coin.footprint
      recency := cache.recency.forget o }

/-- The cache with a coin that was read from the layer below. -/
def load (cache : Cache) (o : OutPoint) (coin : Coin) : Cache :=
  (cache.put o (.loaded coin)).touch o

/-- The cache after the layer below was read: a coin that was found there is kept. -/
def learn (cache : Cache) (o : OutPoint) : Except Failure (Option Coin) → Cache
  | .ok (some coin) => cache.load o coin
  | _ => cache

/-- Spends a cached coin, and answers what it was. A fresh entry goes; any other stays as a tombstone, so
    that the layer below hears of the spend. -/
def spend (cache : Cache) (o : OutPoint) : Option Coin × Cache :=
  match cache.entries[o]? with
  | none => (none, cache)
  | some entry =>
    if entry.isFresh then (some entry.coin, cache.erase o)
    else (some entry.coin, (cache.put o ⟨.spent, { entry.flags with dirty := true }⟩).touch o)

/-- Drops an entry that has nothing to write. -/
def uncache (cache : Cache) (o : OutPoint) : Cache :=
  if cache.entries[o]?.any fun entry => !entry.isDirty then cache.erase o else cache

/-- The cache after its entries were written to the layer below. -/
def emptied (cache : Cache) : Cache :=
  { cache with entries := ∅, usage := cache.usage.reset 0, recency := .empty }

/-- The cache with the entries that a failed write left over. The bytes are counted again, and uses of
    outpoints without an entry are forgotten. -/
def recover (cache : Cache) (left : Entries) : Cache :=
  { cache with
    entries := left
    usage := cache.usage.reset left.footprint
    recency := cache.recency.retain left.contains }

/-- The bytes of an entry with its outpoint, apart from the script. -/
def entryOverhead : Nat := 88

/-- The bytes of a record of use. -/
def recordOverhead : Nat := 44

def memoryUsage (cache : Cache) : Nat :=
  cache.entries.size * entryOverhead + cache.recency.size * recordOverhead + cache.usage.bytes

/-- Counts of the entries, of the dirty and the fresh ones, of the records of use, of the bytes taken and
    of the evictions so far. -/
structure Stats where
  entries : Nat
  dirty : Nat
  fresh : Nat
  records : Nat
  memoryUsage : Nat
  evictions : Nat

def stats (cache : Cache) : Stats where
  entries := cache.entries.size
  dirty := cache.entries.toList.countP fun (_, entry) => entry.isDirty
  fresh := cache.entries.toList.countP fun (_, entry) => entry.isFresh
  records := cache.recency.size
  memoryUsage := cache.memoryUsage
  evictions := cache.evictions

/-- Checks that the flags of every entry fit its coin, that the bytes are counted right, and that only
    cached outpoints have a record of use. The first thing found wrong with an entry or the count is
    reported. -/
def check (cache : Cache) : Outcome Cache Bool :=
  match cache.entries.toList.find? fun (_, entry) => !entry.isValid with
  | some (o, entry) => ⟨.ok false, cache, [.invalidEntry o entry]⟩
  | none =>
    if cache.entries.footprint ≠ cache.usage.bytes then
      ⟨.ok false, cache, [.usageMismatch cache.usage.bytes cache.entries.footprint]⟩
    else
      .done (cache.recency.size ≤ cache.entries.size &&
        cache.recency.stamps.keys.all cache.entries.contains) cache

end Cache

end CoinLayers
