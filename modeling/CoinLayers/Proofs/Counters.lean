import CoinLayers.Proofs.OverBudget

/-!
How far the counter of evictions gets. A cache evicts no more entries than coins were looked up in it
(`Layers.evictions_le_lookups`), so that a word of 64 bits holds its counter until 2 ^ 64 coins were looked up.

An eviction counts just the entries that it takes, and takes only those without changes (`Cache.evictable_shrink`).
A lookup may make one more of these, and nothing else makes any, so that the entries evicted and those that still
could be are together no more than the lookups (`Cache.Course.evictable_le`).

The batches that a store in memory has taken are counted one by one (`MemoryStore.batches_after`), so that for these
a word lasts for 2 ^ 64 batches.
-/
namespace CoinLayers

namespace Cache

variable {cache later : Cache} {o : OutPoint} {coin : Coin} {entry : Entry} {looked seen : List OutPoint}

/-- The evictions so far, and those that are still possible. -/
def evictable (cache : Cache) : Nat :=
  cache.evictions + cache.idle.length

/-- An eviction only turns entries that could go into ones that did. -/
theorem evictable_shrink : cache.shrink.state.evictable = cache.evictable := by
  obtain ⟨k, _, leaves, _⟩ := cache.shrink_evicts
  have whole := (List.take_append_drop k cache.recency.oldestFirst).symm
  have once : (cache.recency.oldestFirst.take k).Nodup := Recency.nodup_oldestFirst.sublist (List.take_sublist ..)
  rw [leaves, evictable, evictable, evictions_evicted once, idle_evicted whole, List.length_append, Nat.add_assoc]

/-- To keep an entry with a change makes no other one that could go. -/
theorem evictable_keep (dirty : entry.isDirty = true) (valid : entry.isValid = true) :
    (cache.keep o entry).state.evictable ≤ cache.evictable := by
  have fewer : ((cache.put o entry).touch o).idle.Sublist cache.idle := stepwise_idle.keep dirty valid
  have kept : ((cache.put o entry).touch o).evictable ≤ cache.evictable := Nat.add_le_add_left fewer.length_le _
  rw [keep]
  split
  · rw [evictable_shrink]
    exact kept
  · exact kept

theorem evictable_add {mayOverwrite : Bool} (unspent : coin.isSpent = false) :
    (cache.add o coin mayOverwrite).state.evictable ≤ cache.evictable := by
  by_cases stores : cache.Stores o coin mayOverwrite
  · obtain ⟨seen, _, kept⟩ := add_of_stores stores
    have valid : (cache.additionAt o coin mayOverwrite).isValid = true := by
      rw [additionAt]
      split <;> exact Entry.isValid_of_unspent unspent
    have dirty : (cache.additionAt o coin mayOverwrite).isDirty = true := by
      rw [additionAt]
      split <;> rfl
    rw [kept]
    exact evictable_keep dirty valid
  · rw [add_of_not_stores stores]
    exact Nat.le_refl _

/-- No merge evicts. -/
theorem evictions_mergeInOrder {order : List OutPoint} {batch : Entries} {block : Hash256} :
    (cache.mergeInOrder order batch block).state.2.evictions = cache.evictions := by
  cases merged : (cache.mergeInOrder order batch block).result with
  | ok => exact (SameApart.mergeInOrder_of_ok merged).evictions
  | error why => exact (SameApart.mergeInOrder_of_error merged).evictions

/-- Only an addition evicts. -/
theorem Turn.evictions {Left : Entries → Entries → Prop} (turn : Turn Left looked cache later) :
    later.evictions = cache.evictions ∨ looked = [] ∧ later.evictable ≤ cache.evictable := by
  cases turn with
  | missed | used | loaded | stood | emptied | recovered => exact .inl rfl
  | spent => exact .inl SameApart.spend.evictions
  | uncached => exact .inl SameApart.uncache.evictions
  | merged => exact .inl evictions_mergeInOrder
  | added _ _ unspent => exact .inr ⟨rfl, evictable_add unspent⟩

/-- In a turn one more entry at most can go, and only after a lookup. -/
theorem Turn.evictable_le (turn : Turn (fun batch left => left.PartOf batch) looked cache later) :
    later.evictable ≤ cache.evictable + looked.length := by
  rcases turn.evictions with same | ⟨rfl, fewer⟩
  · have idle : later.idle.length ≤ cache.idle.length + looked.length := by
      rcases turn.idle_sublist with ⟨rfl, fewer⟩ | ⟨o, rfl, moved⟩
      · exact fewer.length_le
      · calc later.idle.length
          _ ≤ (cache.idle.filter (· ≠ o) ++ [o]).length := moved.length_le
          _ = (cache.idle.filter (· ≠ o)).length + 1 := List.length_append
          _ ≤ cache.idle.length + 1 := Nat.add_le_add_right (List.length_filter_le ..) 1
    rw [evictable, same, evictable, Nat.add_assoc]
    exact Nat.add_le_add_left idle _
  · exact fewer

theorem Course.evictable_le {budget : Budget} {draining : Draining}
    (course : Course (fun batch left => left.PartOf batch) seen (.empty budget draining) cache) :
    cache.evictable ≤ seen.length := by
  refine course.holds (motive := fun seen cache => cache.evictable ≤ seen.length) ?_ fun turn before => ?_
  · rw [evictable, idle_empty]
    exact Nat.le_refl 0
  · rw [List.length_append, Nat.add_comm]
    exact Nat.le_trans turn.evictable_le (Nat.add_le_add_right before _)

end Cache

namespace Layers

/-- A cache that was new at the start of a run has evicted no more entries than coins were looked up in it, if failed
    writes leave a part of what they were handed. So it counts its evictions right in a word, as long as the lookups
    could be counted in one. -/
theorem evictions_le_lookups {ρ : Type} [Backing ρ]
    (part : ∀ (batch : Entries) (block : Hash256) (store : ρ) (why : Fault),
      (Backing.write batch block store).result = .error why → (Backing.write batch block store).left.PartOf batch)
    {layers : Layers ρ} {requests : List (Nat × Request)} {place : Nat} {budget : Budget} {draining : Draining}
    (new : cacheAt? place layers = some (.empty budget draining)) (unspent : ∀ asked ∈ requests, asked.2.AddsUnspent) :
    ∃ cache, cacheAt? place (after requests layers) = some cache ∧
      cache.evictions ≤ (lookedUp place (steps requests layers) layers).length ∧
      ((lookedUp place (steps requests layers) layers).length < UInt64.size →
        (UInt64.ofNat cache.evictions).toNat = cache.evictions) := by
  have leaves : Leaves ρ fun batch left => left.PartOf batch := ⟨fun _ _ part => part, part⟩
  obtain ⟨cache, here, course⟩ := course_of_run leaves unspent layers place _ new
  have bound : cache.evictions ≤ (lookedUp place (steps requests layers) layers).length :=
    Nat.le_trans (Nat.le_add_right ..) course.evictable_le
  exact ⟨cache, here, bound, fun few => UInt64.toNat_ofNat_of_lt (Nat.lt_of_le_of_lt bound few)⟩

end Layers

end CoinLayers
