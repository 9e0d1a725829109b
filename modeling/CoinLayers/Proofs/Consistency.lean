import CoinLayers.Proofs.Accounts

/-!
Consistent caches: the check that a cache makes of itself succeeds, and the outpoints with a record of use are
just the cached ones. What a cache gets back after a write that failed is consistent again if it is a part of
what it had (`Consistent.recover`).
-/
namespace CoinLayers.Cache

variable {cache : Cache}

/-- The check succeeds if the flags of every entry fit its coin, the bytes are counted right, and only cached
    outpoints have a record of use. -/
theorem check_iff :
    cache.check.result = .ok true ↔
      (∀ (o : OutPoint) (entry : Entry), cache.entries[o]? = some entry → entry.isValid = true) ∧
      cache.entries.footprint = cache.usage.bytes ∧ cache.recency.size ≤ cache.entries.size ∧
      ∀ o ∈ cache.recency.stamps, o ∈ cache.entries := by
  have search : (∀ (o : OutPoint) (entry : Entry), cache.entries[o]? = some entry → entry.isValid = true) ↔
      cache.entries.toList.find? (fun place => !place.2.isValid) = none := by
    simp [List.find?_eq_none, Std.ExtTreeMap.mem_toList_iff_getElem?_eq_some]
  rw [search, check]
  cases cache.entries.toList.find? fun place => !place.2.isValid with
  | some place => simp
  | none =>
    by_cases counted : cache.entries.footprint = cache.usage.bytes
    · simp [counted, Outcome.done]
    · simp [counted]

/-- The check succeeds, and the records of use are those of the cached outpoints. -/
structure Consistent (cache : Cache) : Prop where
  checked : cache.check.result = .ok true
  recorded : ∀ o, cache.recency.contains o = cache.entries.contains o

/-- With a record of use for just the cached outpoints, only the entries and the count are left to check. -/
theorem consistent_iff :
    cache.Consistent ↔
      (∀ (o : OutPoint) (entry : Entry), cache.entries[o]? = some entry → entry.isValid = true) ∧
      cache.entries.footprint = cache.usage.bytes ∧ ∀ o, cache.recency.contains o = cache.entries.contains o := by
  constructor
  · rintro ⟨checked, recorded⟩
    obtain ⟨valid, counted, _⟩ := check_iff.mp checked
    exact ⟨valid, counted, recorded⟩
  · rintro ⟨valid, counted, recorded⟩
    have cached (o : OutPoint) (member : o ∈ cache.recency.stamps) : o ∈ cache.entries := by
      rw [← Std.ExtTreeMap.contains_iff_mem, ← recorded o]
      exact Std.ExtTreeMap.contains_iff_mem.mpr member
    refine ⟨check_iff.mpr ⟨valid, counted, ?_, cached⟩, recorded⟩
    rw [Recency.size, ← Std.ExtTreeMap.length_keys, ← Std.ExtTreeMap.length_keys]
    refine Std.ExtTreeMap.nodup_keys.length_le_of_subset fun o member => ?_
    exact Std.ExtTreeMap.mem_keys.mpr (cached o (Std.ExtTreeMap.mem_keys.mp member))

theorem consistent_empty (budget : Budget) (draining : Draining) : (empty budget draining).Consistent := by
  refine consistent_iff.mpr ⟨?_, Entries.footprint_empty, fun _ => rfl⟩
  intro o entry found
  simp [empty] at found

theorem Consistent.stand (consistent : cache.Consistent) (block : Hash256) :
    Consistent { cache with tip := some block } := by
  have parts := consistent_iff.mp consistent
  exact consistent_iff.mpr parts

/-- In a consistent cache a dirty fresh entry is unspent, so that a merge has no spend in it to leave out. -/
theorem Consistent.unspent_of_fresh {o : OutPoint} {entry : Entry} (consistent : cache.Consistent)
    (found : cache.entries[o]? = some entry) (dirty : entry.isDirty = true) (fresh : entry.isFresh = true) :
    entry.coin.isSpent = false := by
  have valid := (consistent_iff.mp consistent).1 o entry found
  rw [Entry.isDirty] at dirty
  rw [Entry.isFresh] at fresh
  rw [Entry.isValid, dirty, fresh] at valid
  cases spent : entry.coin.isSpent with
  | false => rfl
  | true => simp [spent] at valid

/-- A flush that succeeds leaves a consistent cache. -/
theorem consistent_emptied : cache.emptied.Consistent := by
  refine consistent_iff.mpr ⟨?_, Entries.footprint_empty, fun _ => rfl⟩
  intro o entry found
  simp at found

/-- So does one that fails, if what was left over is a part of what was there. -/
theorem Consistent.recover {left : Entries} (consistent : cache.Consistent)
    (part : ∀ (o : OutPoint) (entry : Entry), left[o]? = some entry → cache.entries[o]? = some entry) :
    (cache.recover left).Consistent := by
  obtain ⟨valid, _, recorded⟩ := consistent_iff.mp consistent
  refine consistent_iff.mpr ⟨fun o entry found => valid o entry (part o entry found), rfl, fun o => ?_⟩
  show (cache.recency.retain left.contains).contains o = left.contains o
  have kept : (cache.recency.retain left.contains).stamps[o]? =
      cache.recency.stamps[o]?.filter fun _ => left.contains o :=
    Std.ExtTreeMap.getElem?_filter'
  have before : cache.recency.stamps[o]?.isSome = cache.entries[o]?.isSome := by
    rw [← Std.ExtTreeMap.contains_eq_isSome_getElem?, ← Std.ExtTreeMap.contains_eq_isSome_getElem?]
    exact recorded o
  rw [Recency.contains, Std.ExtTreeMap.contains_eq_isSome_getElem?, kept, Std.ExtTreeMap.contains_eq_isSome_getElem?]
  cases found : left[o]? with
  | none => simp
  | some entry =>
    rw [part o entry found] at before
    obtain ⟨stamp, stamped⟩ := Option.isSome_iff_exists.mp before
    simp [stamped]

end CoinLayers.Cache
