import CoinLayers.Proofs.CacheView

/-!
What an eviction leaves of a cache. It passes the outpoints on record from the oldest on, and stops where the target
of the budget is met (`shrink_evicts`). Of those that it has passed, the ones with a change stay and become the newest,
in the order that they had; the entries of the others go (`shrink_leaves`).
-/
namespace CoinLayers

namespace Recency

variable {recency : Recency} {places : List OutPoint}

theorem nodup_oldestFirst : recency.oldestFirst.Nodup :=
  List.nodup_iff_pairwise_ne.mpr (pairwise_oldestFirst.imp fun older => older.ne)

/-- New outpoints that are used one after the other become the newest, in that order. -/
theorem oldestFirst_touchAll (distinct : places.Nodup) (unrecorded : ∀ o ∈ places, o ∉ recency.oldestFirst) :
    (places.foldl touch recency).oldestFirst = recency.oldestFirst ++ places := by
  induction places generalizing recency with
  | nil => simp
  | cons o rest ih =>
    obtain ⟨notAgain, others⟩ := List.nodup_cons.mp distinct
    obtain ⟨notHere, unrecorded⟩ := List.forall_mem_cons.mp unrecorded
    have touched : (recency.touch o).oldestFirst = recency.oldestFirst ++ [o] := by
      rw [oldestFirst_touch, List.filter_eq_self.mpr]
      rintro p member
      simpa using fun same : p = o => notHere (same ▸ member)
    have next : ∀ p ∈ rest, p ∉ (recency.touch o).oldestFirst := by
      intro p member
      rw [touched, List.mem_append, List.mem_singleton]
      rintro (there | rfl)
      · exact unrecorded p member there
      · exact notAgain member
    rw [List.foldl_cons, ih others next, touched, List.append_assoc, List.singleton_append]

end Recency

namespace Cache

variable {cache : Cache} {places : List OutPoint} {o p : OutPoint}

/-- Whether the entry at an outpoint has something to write. -/
def changedAt (cache : Cache) (o : OutPoint) : Bool :=
  cache.entries[o]?.any fun entry => entry.isDirty

theorem usage_touchAll : (places.foldl touch cache).usage = cache.usage := by
  induction places generalizing cache with
  | nil => rfl
  | cons o rest ih => exact ih

theorem recency_touchAll : (places.foldl touch cache).recency = places.foldl Recency.touch cache.recency := by
  induction places generalizing cache with
  | nil => rfl
  | cons o rest ih => exact ih

end Cache

namespace Sweep

variable {sweep : Sweep} {o p : OutPoint}

/-- A sweep passes outpoints until the target is met, or until there are no more. -/
theorem run_reaches (target : Nat) (sweep : Sweep) (places : List OutPoint) :
    ∃ k ≤ places.length, sweep.run target places = (places.take k).foldl pass sweep ∧
      (∀ j < k, target < ((places.take j).foldl pass sweep).cache.usage.bytes) ∧
      (k = places.length ∨ ((places.take k).foldl pass sweep).cache.usage.bytes ≤ target) := by
  induction places generalizing sweep with
  | nil => exact ⟨0, Nat.le_refl 0, rfl, nofun, .inl rfl⟩
  | cons o younger ih =>
    rw [run]
    split
    · next met => exact ⟨0, Nat.zero_le _, rfl, nofun, .inr met⟩
    · next unmet =>
      obtain ⟨k, within, passed, before, reached⟩ := ih (sweep.pass o)
      refine ⟨k + 1, Nat.succ_le_succ within, passed, fun j early => ?_, reached.imp_left (congrArg (· + 1))⟩
      cases j with
      | zero => exact Nat.lt_of_not_le unmet
      | succ j => exact before j (Nat.lt_of_succ_lt_succ early)

theorem recency_pass : (sweep.pass o).cache.recency = sweep.cache.recency.forget o := by
  rw [pass]
  split
  · rfl
  · next found =>
    split
    · rfl
    · simp [Cache.erase, found]

theorem getElem?_pass : (sweep.pass o).cache.entries[p]? =
    if p = o ∧ sweep.cache.changedAt o = false then none else sweep.cache.entries[p]? := by
  rw [pass, Cache.changedAt]
  split
  · next missing =>
    by_cases same : p = o
    · simp [same, missing]
    · simp [same]
  · next entry found =>
    cases dirty : entry.isDirty with
    | true => simp [found, dirty]
    | false => simp [found, dirty, Entries.getElem?_erase_ite]

theorem parked_pass : (sweep.pass o).parked = sweep.parked ++ [o].filter sweep.cache.changedAt := by
  rw [pass]
  cases found : sweep.cache.entries[o]? with
  | none => simp [Cache.changedAt, found]
  | some entry => cases dirty : entry.isDirty <;> simp [Cache.changedAt, found, dirty]

/-- To pass an outpoint decides nothing about the changes that are left. -/
theorem changedAt_pass : (sweep.pass o).cache.changedAt = sweep.cache.changedAt := by
  funext p
  rw [Cache.changedAt, getElem?_pass]
  split
  · next gone => rw [gone.1, gone.2]; rfl
  · rfl

variable {taken : List OutPoint}

theorem oldestFirst_passAll : (taken.foldl pass sweep).cache.recency.oldestFirst =
    sweep.cache.recency.oldestFirst.filter (· ∉ taken) := by
  induction taken generalizing sweep with
  | nil => exact (List.filter_eq_self.mpr (by simp)).symm
  | cons o rest ih =>
    rw [List.foldl_cons, ih, recency_pass, Recency.oldestFirst_forget, List.filter_filter]
    refine List.filter_congr fun p _ => ?_
    simp [Bool.and_comm]

theorem getElem?_passAll : (taken.foldl pass sweep).cache.entries[p]? =
    if p ∈ taken ∧ sweep.cache.changedAt p = false then none else sweep.cache.entries[p]? := by
  induction taken generalizing sweep with
  | nil => simp
  | cons o rest ih =>
    rw [List.foldl_cons, ih, changedAt_pass, getElem?_pass]
    by_cases same : p = o
    · subst same
      cases sweep.cache.changedAt p <;> simp
    · simp [same]

theorem parked_passAll : (taken.foldl pass sweep).parked = sweep.parked ++ taken.filter sweep.cache.changedAt := by
  induction taken generalizing sweep with
  | nil => simp
  | cons o rest ih =>
    rw [List.foldl_cons, ih, changedAt_pass, parked_pass, List.append_assoc, ← List.filter_append,
      List.singleton_append]

end Sweep

namespace Cache

variable {cache : Cache} {taken rest : List OutPoint} {o : OutPoint}

/-- The cache after an eviction that passes some outpoints. -/
def evicted (cache : Cache) (taken : List OutPoint) : Cache :=
  let sweep : Sweep := taken.foldl Sweep.pass ⟨cache, [], 0⟩
  let swept := sweep.parked.foldl touch sweep.cache
  { swept with evictions := swept.evictions + sweep.gone }

/-- An eviction passes the oldest outpoints, and no more of them than it has to. -/
theorem shrink_evicts (cache : Cache) : ∃ k ≤ cache.recency.oldestFirst.length,
    cache.shrink.state = cache.evicted (cache.recency.oldestFirst.take k) ∧
    (∀ j < k, cache.budget.target <
      ((cache.recency.oldestFirst.take j).foldl Sweep.pass ⟨cache, [], 0⟩).cache.usage.bytes) ∧
    (k = cache.recency.oldestFirst.length ∨
      ((cache.recency.oldestFirst.take k).foldl Sweep.pass ⟨cache, [], 0⟩).cache.usage.bytes ≤
        cache.budget.target) := by
  obtain ⟨k, within, passed, exact⟩ :=
    Sweep.run_reaches cache.budget.target ⟨cache, [], 0⟩ cache.recency.oldestFirst
  refine ⟨k, within, ?_, exact⟩
  rw [shrink, passed, evicted]

theorem getElem?_evicted : (cache.evicted taken).entries[o]? =
    if o ∈ taken ∧ cache.changedAt o = false then none else cache.entries[o]? := by
  show (List.foldl touch _ (taken.foldl Sweep.pass ⟨cache, [], 0⟩).parked).entries[o]? = _
  rw [entries_touchAll, Sweep.getElem?_passAll]

theorem oldestFirst_evicted (whole : cache.recency.oldestFirst = taken ++ rest) :
    (cache.evicted taken).recency.oldestFirst = rest ++ taken.filter cache.changedAt := by
  have distinct : (taken ++ rest).Nodup := whole ▸ Recency.nodup_oldestFirst
  obtain ⟨takenOnce, _, apart⟩ := List.nodup_append.mp distinct
  have left : (taken.foldl Sweep.pass ⟨cache, [], 0⟩).cache.recency.oldestFirst = rest := by
    rw [Sweep.oldestFirst_passAll, whole, List.filter_append, List.filter_eq_nil_iff.mpr (by simp),
      List.filter_eq_self.mpr, List.nil_append]
    intro o late
    simpa using fun early => apart o early o late rfl
  show (List.foldl touch _ (taken.foldl Sweep.pass ⟨cache, [], 0⟩).parked).recency.oldestFirst = _
  rw [recency_touchAll, Sweep.parked_passAll, List.nil_append, Recency.oldestFirst_touchAll, left]
  · exact takenOnce.filter _
  · intro o parked
    rw [left]
    exact fun late => apart o (List.mem_filter.mp parked).1 o late rfl

/-- An eviction passes the oldest outpoints. Those of them with a change become the newest, and the entries of
    the others go. -/
theorem shrink_leaves (cache : Cache) : ∃ taken rest, cache.recency.oldestFirst = taken ++ rest ∧
    cache.shrink.state.recency.oldestFirst = rest ++ taken.filter cache.changedAt ∧
    ∀ o : OutPoint, cache.shrink.state.entries[o]? =
      if o ∈ taken ∧ cache.changedAt o = false then none else cache.entries[o]? := by
  obtain ⟨k, _, leaves, _⟩ := cache.shrink_evicts
  have whole := (List.take_append_drop k cache.recency.oldestFirst).symm
  rw [leaves]
  exact ⟨_, _, whole, oldestFirst_evicted whole, fun o => getElem?_evicted⟩

end Cache

end CoinLayers
