import CoinLayers.Proofs.MergeView

/-!
The count of bytes that a cache keeps. A cache whose count is the sum over its entries (`Cache.Balanced`)
never takes more out of the count than is in it, whatever is done to it, and the count stays the sum.
-/
namespace CoinLayers

namespace Entries

variable {entries : Entries} {o : OutPoint} {entry : Entry}

theorem nodup_toList : entries.toList.Nodup := by
  refine List.nodup_iff_pairwise_ne.mpr (Std.ExtTreeMap.distinct_keys_toList.imp ?_)
  rintro place other different rfl
  exact different Std.ReflOrd.compare_self

/-- The list of all entries, with one of them in front. -/
theorem toList_perm (found : entries[o]? = some entry) :
    entries.toList.Perm ((o, entry) :: (entries.erase o).toList) := by
  have apart : (o, entry) ∉ (entries.erase o).toList := by
    rw [Std.ExtTreeMap.mem_toList_iff_getElem?_eq_some, getElem?_erase_ite]
    simp
  refine (List.perm_ext_iff_of_nodup nodup_toList (List.nodup_cons.mpr ⟨apart, nodup_toList⟩)).mpr ?_
  rintro ⟨p, other⟩
  rw [List.mem_cons, Std.ExtTreeMap.mem_toList_iff_getElem?_eq_some, Std.ExtTreeMap.mem_toList_iff_getElem?_eq_some,
    getElem?_erase_ite, Prod.mk.injEq]
  by_cases same : p = o
  · simp [same, found, eq_comm]
  · simp [same]

theorem erase_of_none (missing : entries[o]? = none) : entries.erase o = entries := by
  apply Std.ExtTreeMap.ext_getElem?
  intro p
  rw [getElem?_erase_ite]
  by_cases same : p = o
  · simp [same, missing]
  · simp [same]

@[simp] theorem erase_insert : (entries.insert o entry).erase o = entries.erase o := by
  apply Std.ExtTreeMap.ext_getElem?
  intro p
  rw [getElem?_erase_ite, getElem?_erase_ite, getElem?_insert_ite]
  split <;> rfl

@[simp] theorem footprint_empty : footprint ∅ = 0 := by
  rw [footprint, Std.ExtTreeMap.toList_eq_nil_iff.mpr rfl]
  rfl

theorem footprint_erase_add (found : entries[o]? = some entry) :
    footprint (entries.erase o) + entry.coin.footprint = footprint entries := by
  have counted : footprint entries = entry.coin.footprint + footprint (entries.erase o) :=
    ((toList_perm found).map fun place : OutPoint × Entry => place.2.coin.footprint).foldr_eq'
      (fun a _ b _ c => Nat.add_left_comm b a c) 0
  omega

theorem footprint_insert :
    footprint (entries.insert o entry) = footprint (entries.erase o) + entry.coin.footprint := by
  have found : (entries.insert o entry)[o]? = some entry := by rw [getElem?_insert_ite, if_pos rfl]
  rw [← footprint_erase_add found, erase_insert]

end Entries

namespace Cache

variable {cache : Cache} {o : OutPoint} {coin : Coin} {entry : Entry}

/-- The count of bytes is the sum over the entries, and never more was taken out of it than was in. -/
def Balanced (cache : Cache) : Prop :=
  cache.usage = ⟨cache.entries.footprint, false⟩

theorem footprint_erase (cache : Cache) (o : OutPoint) :
    Entries.footprint (cache.entries.erase o) + cache.footprintAt o = cache.entries.footprint := by
  rw [footprintAt]
  cases found : cache.entries[o]? with
  | none => simp [Entries.erase_of_none found]
  | some entry => simpa using Entries.footprint_erase_add found

theorem balanced_empty (budget : Budget) (draining : Draining) : (empty budget draining).Balanced := by
  simp [Balanced, empty, Tally.empty]

namespace Balanced

theorem touch (balanced : cache.Balanced) : (cache.touch o).Balanced := balanced

theorem put (balanced : cache.Balanced) : (cache.put o entry).Balanced := by
  have counted := footprint_erase cache o
  have room : ¬cache.entries.footprint < cache.footprintAt o := by omega
  have rest : cache.entries.footprint - cache.footprintAt o = Entries.footprint (cache.entries.erase o) := by omega
  rw [Balanced] at balanced
  simp [Balanced, Cache.put, balanced, Tally.remove, Tally.add, room, rest, Entries.footprint_insert]

theorem erase (balanced : cache.Balanced) : (cache.erase o).Balanced := by
  rw [Cache.erase]
  split
  · exact balanced
  · next entry found =>
    have counted := Entries.footprint_erase_add found
    rw [Balanced] at balanced
    simp [Balanced, balanced, Tally.remove, ← counted]

theorem load (balanced : cache.Balanced) : (cache.load o coin).Balanced :=
  balanced.put.touch

theorem spend (balanced : cache.Balanced) : (cache.spend o).2.Balanced := by
  rw [Cache.spend]
  split
  · exact balanced
  · split
    · exact balanced.erase
    · exact balanced.put.touch

theorem uncache (balanced : cache.Balanced) : (cache.uncache o).Balanced := by
  rw [Cache.uncache]
  split
  · exact balanced.erase
  · exact balanced

theorem emptied (balanced : cache.Balanced) : cache.emptied.Balanced := by
  rw [Balanced] at balanced
  simp [Balanced, Cache.emptied, balanced, Tally.reset]

theorem recover (balanced : cache.Balanced) (left : Entries) : (cache.recover left).Balanced := by
  rw [Balanced] at balanced
  simp [Balanced, Cache.recover, balanced, Tally.reset]

theorem pass {sweep : Sweep} (balanced : sweep.cache.Balanced) : (sweep.pass o).cache.Balanced := by
  rw [Sweep.pass]
  split
  · exact balanced
  · split
    · exact balanced
    · exact balanced.erase

theorem sweep (target : Nat) (places : List OutPoint) {sweep : Sweep} (balanced : sweep.cache.Balanced) :
    (sweep.run target places).cache.Balanced := by
  induction places generalizing sweep with
  | nil => exact balanced
  | cons o younger ih =>
    rw [Sweep.run]
    split
    · exact balanced
    · exact ih balanced.pass

theorem touchAll {places : List OutPoint} (balanced : cache.Balanced) : (places.foldl Cache.touch cache).Balanced := by
  induction places generalizing cache with
  | nil => exact balanced
  | cons o rest ih => exact ih balanced.touch

theorem shrink (balanced : cache.Balanced) : cache.shrink.state.Balanced := by
  have swept : (Sweep.run cache.budget.target ⟨cache, [], 0⟩ cache.recency.oldestFirst).cache.Balanced :=
    sweep cache.budget.target cache.recency.oldestFirst balanced
  exact swept.touchAll

theorem keep (balanced : cache.Balanced) : (cache.keep o entry).state.Balanced := by
  rw [Cache.keep]
  split
  · exact balanced.put.touch.shrink
  · exact balanced.put.touch

theorem add {mayOverwrite : Bool} (balanced : cache.Balanced) : (cache.add o coin mayOverwrite).state.Balanced := by
  rw [Cache.add]
  split
  · exact balanced
  split
  · exact balanced.keep
  · split
    · exact balanced.keep
    split
    · exact balanced
    split
    · have warned : Balanced { cache with overwritten := cache.overwritten.meet o } := balanced
      exact warned.keep
    · exact balanced.keep

theorem act {step : MergeStep} (balanced : cache.Balanced) : (step.act o cache).Balanced := by
  cases step with
  | erase => exact balanced.erase
  | keep entry => exact balanced.put.touch
  | idle | clash | vanish => exact balanced

theorem merging {merging : Merging} (order : List OutPoint) (balanced : merging.cache.Balanced) :
    (merging.run order).state.cache.Balanced := by
  induction order generalizing merging with
  | nil => exact balanced
  | cons o rest ih =>
    rcases Merging.run_cons merging o rest with
      ⟨_, skipped⟩ | ⟨_, _, _, ended⟩ | ⟨entry, next, _, _, _, cache, _, state⟩
    · rw [skipped]
      exact ih balanced
    · rw [ended]
      exact balanced
    · rw [state]
      exact ih (cache ▸ balanced.act)

theorem mergeInOrder {batch : Entries} {tip : Hash256} (order : List OutPoint) (balanced : cache.Balanced) :
    (cache.mergeInOrder order batch tip).state.2.Balanced := by
  have merged : (Merging.run ⟨cache, batch, 0, 0⟩ order).state.cache.Balanced := merging order balanced
  rw [Cache.mergeInOrder]
  split <;> exact merged

end Balanced

end Cache

end CoinLayers
