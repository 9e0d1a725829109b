import CoinLayers.Cache

/-!
Eviction: a cache that holds too much drops the entries that were not used for the longest time.

Only entries without changes can go. The dirty ones that are passed on the way are counted as used, in
their old order, so that the next eviction does not meet them first again.
-/
namespace CoinLayers

/-- An eviction under way: the cache as it is, the dirty outpoints passed so far, and how many entries are
    gone. -/
structure Sweep where
  cache : Cache
  parked : List OutPoint
  gone : Nat

namespace Sweep

/-- Takes the oldest outpoint off the record, and its entry out of the cache unless that is dirty. -/
def pass (sweep : Sweep) (o : OutPoint) : Sweep :=
  let unrecorded := { sweep.cache with recency := sweep.cache.recency.forget o }
  match sweep.cache.entries[o]? with
  | none => { sweep with cache := unrecorded }
  | some entry =>
    if entry.isDirty then { sweep with cache := unrecorded, parked := sweep.parked ++ [o] }
    else { sweep with cache := sweep.cache.erase o, gone := sweep.gone + 1 }

/-- Passes outpoints, oldest first, for as long as the cache holds more than the target. -/
def run (target : Nat) (sweep : Sweep) : List OutPoint → Sweep
  | [] => sweep
  | o :: younger => if sweep.cache.usage.bytes ≤ target then sweep else run target (sweep.pass o) younger

end Sweep

namespace Cache

/-- Evicts entries until the target of the budget is met, or only dirty ones are left. -/
def shrink (cache : Cache) : Outcome Cache Unit :=
  let sweep := Sweep.run cache.budget.target ⟨cache, [], 0⟩ cache.recency.oldestFirst
  let swept := sweep.parked.foldl touch sweep.cache
  ⟨.ok (), { swept with evictions := swept.evictions + sweep.gone },
    [.evicted sweep.gone cache.usage.bytes swept.usage.bytes cache.budget]⟩

/-- Puts an entry in as the newest, and shrinks the cache if it now holds too much. -/
def keep (cache : Cache) (o : OutPoint) (entry : Entry) : Outcome Cache Unit :=
  let kept := (cache.put o entry).touch o
  if kept.budget.limit.toNat < kept.usage.bytes then kept.shrink else .done () kept

/-- Adds an unspent coin. An unspendable one is not kept. An unspent coin that is there already stays
    unless it may be overwritten, which is said aloud once for each outpoint. Without an entry, and unless
    an overwrite is allowed, the caller vouches that the layer below holds no unspent coin here, so that
    the new entry is fresh. -/
def add (cache : Cache) (o : OutPoint) (coin : Coin) (mayOverwrite : Bool) : Outcome Cache Unit :=
  if coin.isUnspendable then .done () cache
  else
    match cache.entries[o]? with
    | none => cache.keep o ⟨coin, ⟨true, !mayOverwrite⟩⟩
    | some old =>
      let entry : Entry := ⟨coin, { old.flags with dirty := true }⟩
      if old.coin.isSpent then cache.keep o entry
      else if !mayOverwrite then .done () cache
      else if cache.overwritten.isNew o then
        ({ cache with overwritten := cache.overwritten.meet o }.keep o entry).after [.overwritten o]
      else cache.keep o entry

end Cache

end CoinLayers
