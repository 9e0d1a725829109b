import CoinLayers.Merge
import CoinLayers.Proofs.CacheView

/-!
What a merge does to the view through the receiving cache. A merge goes outpoint by outpoint, and what
becomes of one depends on nothing but the two entries for it (`run_entrywise`). If the fresh entries of the
cache stand over no unspent coin, then a merge that stops half way has handed over just the entries that
are gone from the batch (`mergeInOrder_taken`), and if also the fresh entries of the batch are what they
say, it does not stop (`mergeInOrder_shown`). The order of the outpoints is free.
-/
namespace CoinLayers

namespace MergeStep

variable {cache : Cache} {old : Option Entry} {entry : Entry} {o p : OutPoint}

/-- The entry for an outpoint after a step. -/
def outcome (old : Option Entry) : MergeStep → Option Entry
  | .erase => none
  | .keep entry => some entry
  | .idle | .clash | .vanish => old

/-- The entry for an outpoint after a merge, from the entry of the cache and that of the batch. -/
def received (old new : Option Entry) : Option Entry :=
  match new with
  | some entry => (of old entry).outcome old
  | none => old

/-- The cache after a step for an outpoint. -/
def act (o : OutPoint) (cache : Cache) : MergeStep → Cache
  | .erase => cache.erase o
  | .keep entry => (cache.put o entry).touch o
  | .idle | .clash | .vanish => cache

theorem getElem?_act {step : MergeStep} :
    (step.act o cache).entries[p]? = if p = o then step.outcome cache.entries[o]? else cache.entries[p]? := by
  cases step with
  | erase => rw [act, Cache.entries_erase, Entries.getElem?_erase_ite, outcome]
  | keep entry => rw [act, Cache.entries_touch, Cache.entries_put, Entries.getElem?_insert_ite, outcome]
  | idle | clash | vanish =>
    by_cases same : p = o
    · simp [act, outcome, same]
    · simp [act, same]

/-- A clash takes a dirty fresh entry of the batch over an unspent one of the cache. -/
theorem of_eq_clash_iff :
    of old entry = .clash ↔
      entry.isDirty = true ∧ entry.isFresh = true ∧ ∃ mine, old = some mine ∧ mine.coin.isSpent = false := by
  cases old with
  | none => grind [of]
  | some mine => grind [of]

/-- What is seen at an outpoint after its step, if it does not clash: what the batch says, or what was seen
    before if the batch has nothing to say. A dropped spend shows the view below, which has no unspent coin
    there: that is what fresh flags are for. -/
theorem outcome_shown {below : Option Coin} (noClash : of old entry ≠ .clash)
    (fresh : ∀ mine, old = some mine → mine.isFresh = true → below = none)
    (vanishing : old = none → entry.isDirty = true → entry.isFresh = true → entry.coin.isSpent = true →
      below = none) :
    Entries.through ((of old entry).outcome old) below =
      if entry.isDirty then entry.coin.unspent? else Entries.through old below := by
  cases old with
  | none => grind [of, outcome, Entries.through, Coin.unspent?]
  | some mine => grind [of, outcome, Entries.through, Coin.unspent?]

/-- If the flags of the cache's entry are sound, and a fresh entry of the batch stands over no unspent coin,
    then the entry after the step has sound flags, and there was no clash. -/
theorem outcome_fits {below : Option Coin} (sound : ∀ mine, old = some mine → mine.Fits below)
    (fresh : entry.isDirty = true → entry.isFresh = true → Entries.through old below = none) :
    of old entry ≠ .clash ∧ ∀ after, (of old entry).outcome old = some after → after.Fits below := by
  cases old with
  | none => grind [of, outcome, Entries.through, Entry.Fits, Entry.isDirty, Entry.isFresh]
  | some mine => grind [of, outcome, Entries.through, Entry.Fits, Entry.isDirty, Entry.isFresh, Coin.unspent?]

end MergeStep

namespace Merging

/-- The ways in which a merge comes to an outpoint: the batch has no entry for it, or there is a clash and
    the merge ends, or the step is made and the merge goes on. -/
theorem run_cons (merging : Merging) (o : OutPoint) (rest : List OutPoint) :
    merging.left[o]? = none ∧ merging.run (o :: rest) = merging.run rest ∨
    (∃ entry : Entry, merging.left[o]? = some entry ∧ MergeStep.of merging.cache.entries[o]? entry = .clash ∧
      merging.run (o :: rest) = ⟨.error (.fault (.freshMisapplied o)), merging, [.freshMisapplied o]⟩) ∨
    ∃ (entry : Entry) (next : Merging), merging.left[o]? = some entry ∧
      MergeStep.of merging.cache.entries[o]? entry ≠ .clash ∧
      next.left = merging.left.erase o ∧
      next.cache = (MergeStep.of merging.cache.entries[o]? entry).act o merging.cache ∧
      (merging.run (o :: rest)).result = (next.run rest).result ∧
      (merging.run (o :: rest)).state = (next.run rest).state := by
  cases found : merging.left[o]? with
  | none => exact .inl ⟨rfl, by simp [run, found]⟩
  | some entry =>
    right
    cases step : MergeStep.of merging.cache.entries[o]? entry with
    | clash => exact .inl ⟨entry, rfl, step, by simp [run, found, step]⟩
    | idle =>
      refine .inr ⟨entry, { merging with left := merging.left.erase o }, rfl, by simp [step], rfl, ?_⟩
      simp [run, found, step, MergeStep.act]
    | vanish =>
      refine .inr ⟨entry, { merging with left := merging.left.erase o, dropped := merging.dropped + 1 }, rfl,
        by simp [step], rfl, ?_⟩
      simp [run, found, step, MergeStep.act]
    | erase =>
      refine .inr ⟨entry, { merging with
        cache := merging.cache.erase o, left := merging.left.erase o, dropped := merging.dropped + 1 }, rfl,
        by simp [step], rfl, ?_⟩
      simp [run, found, step, MergeStep.act, Outcome.after]
    | keep kept =>
      refine .inr ⟨entry, { merging with
        cache := (merging.cache.put o kept).touch o, left := merging.left.erase o, kept := merging.kept + 1 },
        rfl, by simp [step], rfl, ?_⟩
      simp [run, found, step, MergeStep.act]

/-- What becomes of one outpoint in a merge: the merge does not come to it, or it makes its step. -/
theorem run_entrywise (merging : Merging) (order : List OutPoint) (o : OutPoint) :
    (merging.run order).state.left[o]? = merging.left[o]? ∧
      (merging.run order).state.cache.entries[o]? = merging.cache.entries[o]? ∨
    ∃ entry, merging.left[o]? = some entry ∧ MergeStep.of merging.cache.entries[o]? entry ≠ .clash ∧
      (merging.run order).state.left[o]? = none ∧
      (merging.run order).state.cache.entries[o]? =
        (MergeStep.of merging.cache.entries[o]? entry).outcome merging.cache.entries[o]? := by
  induction order generalizing merging with
  | nil => exact .inl ⟨rfl, rfl⟩
  | cons p rest ih =>
    rcases run_cons merging p rest with
      ⟨_, skipped⟩ | ⟨_, _, _, ended⟩ | ⟨entry, next, found, noClash, left, cache, _, state⟩
    · rw [skipped]
      exact ih merging
    · rw [ended]
      exact .inl ⟨rfl, rfl⟩
    · rw [state]
      by_cases same : o = p
      · -- The step was made here, and later steps find nothing more to take.
        subst same
        have gone : next.left[o]? = none := by rw [left, Entries.getElem?_erase_ite, if_pos rfl]
        have stepped : next.cache.entries[o]? =
            (MergeStep.of merging.cache.entries[o]? entry).outcome merging.cache.entries[o]? := by
          rw [cache, MergeStep.getElem?_act, if_pos rfl]
        rcases ih next with ⟨leftSame, cacheSame⟩ | ⟨_, found', _⟩
        · exact .inr ⟨entry, found, noClash, leftSame.trans gone, cacheSame.trans stepped⟩
        · rw [gone] at found'
          cases found'
      · have leftSame : next.left[o]? = merging.left[o]? := by
          rw [left, Entries.getElem?_erase_ite, if_neg same]
        have cacheSame : next.cache.entries[o]? = merging.cache.entries[o]? := by
          rw [cache, MergeStep.getElem?_act, if_neg same]
        rw [← leftSame, ← cacheSame]
        exact ih next

/-- A merge comes to the end of the batch, or stops at a clash. -/
theorem run_result (merging : Merging) (order : List OutPoint) :
    (merging.run order).result = .ok () ∧ (∀ o ∈ order, (merging.run order).state.left[o]? = none) ∨
    ∃ (o : OutPoint) (entry : Entry), (merging.run order).result = .error (.fault (.freshMisapplied o)) ∧
      merging.left[o]? = some entry ∧ MergeStep.of merging.cache.entries[o]? entry = .clash := by
  induction order generalizing merging with
  | nil => exact .inl ⟨rfl, by simp⟩
  | cons p rest ih =>
    rcases run_cons merging p rest with
      ⟨missing, skipped⟩ | ⟨entry, found, clash, ended⟩ | ⟨entry, next, found, noClash, left, cache, result, state⟩
    · have gone : (merging.run rest).state.left[p]? = none := by
        rcases run_entrywise merging rest p with ⟨same, _⟩ | ⟨_, _, _, gone, _⟩
        · exact same.trans missing
        · exact gone
      rw [skipped]
      exact (ih merging).imp_left fun ⟨ok, all⟩ => ⟨ok, List.forall_mem_cons.mpr ⟨gone, all⟩⟩
    · rw [ended]
      exact .inr ⟨p, entry, rfl, found, clash⟩
    · have erased : next.left[p]? = none := by rw [left, Entries.getElem?_erase_ite, if_pos rfl]
      have gone : (next.run rest).state.left[p]? = none := by
        rcases run_entrywise next rest p with ⟨same, _⟩ | ⟨_, _, _, gone, _⟩
        · exact same.trans erased
        · exact gone
      rw [result, state]
      rcases ih next with ⟨ok, all⟩ | ⟨o, other, stopped, found', clash⟩
      · exact .inl ⟨ok, List.forall_mem_cons.mpr ⟨gone, all⟩⟩
      · have different : o ≠ p := by
          rintro rfl
          rw [erased] at found'
          cases found'
        rw [left, Entries.getElem?_erase_ite, if_neg different] at found'
        rw [cache, MergeStep.getElem?_act, if_neg different] at clash
        exact .inr ⟨o, other, stopped, found', clash⟩

end Merging

namespace Cache

variable {cache : Cache} {shown : Shown} {batch : Entries} {order : List OutPoint} {tip : Hash256}

theorem left_mergeInOrder :
    (cache.mergeInOrder order batch tip).state.1 = (Merging.run ⟨cache, batch, 0, 0⟩ order).state.left := by
  rw [mergeInOrder]
  split <;> rfl

theorem entries_mergeInOrder : (cache.mergeInOrder order batch tip).state.2.entries =
    (Merging.run ⟨cache, batch, 0, 0⟩ order).state.cache.entries := by
  rw [mergeInOrder]
  split <;> rfl

theorem result_mergeInOrder :
    (cache.mergeInOrder order batch tip).result = (Merging.run ⟨cache, batch, 0, 0⟩ order).result := by
  rw [mergeInOrder]
  split
  · next failed => exact failed.symm
  · next ok => exact ok.symm

/-- A merge that comes to the end leaves nothing of the batch, and what becomes of an outpoint hangs on the two
    entries for it alone. -/
theorem merged_of_ok (covers : ∀ o, o ∈ batch → o ∈ order) (ok : (cache.mergeInOrder order batch tip).result = .ok ()) :
    (cache.mergeInOrder order batch tip).state.1 = ∅ ∧
      ∀ o : OutPoint, (cache.mergeInOrder order batch tip).state.2.entries[o]? =
        MergeStep.received cache.entries[o]? batch[o]? := by
  rw [result_mergeInOrder] at ok
  have gone (o : OutPoint) (entry : Entry) (found : batch[o]? = some entry) :
      (Merging.run ⟨cache, batch, 0, 0⟩ order).state.left[o]? = none := by
    rcases Merging.run_result ⟨cache, batch, 0, 0⟩ order with ⟨_, all⟩ | ⟨_, _, failed, _, _⟩
    · exact all o (covers o (Std.ExtTreeMap.mem_iff_isSome_getElem?.mpr (by simp [found])))
    · rw [failed] at ok
      cases ok
  rw [left_mergeInOrder, entries_mergeInOrder]
  refine ⟨Std.ExtTreeMap.ext_getElem? fun {o} => ?_, fun o => ?_⟩
  · rw [Std.ExtTreeMap.getElem?_empty]
    rcases Merging.run_entrywise ⟨cache, batch, 0, 0⟩ order o with ⟨same, _⟩ | ⟨_, _, _, taken, _⟩
    · cases found : batch[o]? with
      | none => exact same.trans found
      | some entry => exact gone o entry found
    · exact taken
  · rcases Merging.run_entrywise ⟨cache, batch, 0, 0⟩ order o with ⟨left, same⟩ | ⟨entry, found, _, _, stepped⟩
    · cases found : batch[o]? with
      | none => exact same
      | some entry =>
        -- The entry would still be there.
        rw [gone o entry found] at left
        cases left.trans found
    · rw [stepped, show batch[o]? = some entry from found]
      rfl

/-- A merge has handed over what is gone from the batch, whether it came to the end or not. -/
theorem mergeInOrder_taken (order : List OutPoint) (tip : Hash256)
    (fresh : ∀ (o : OutPoint) (mine : Entry), cache.entries[o]? = some mine → mine.isFresh = true → shown o = none)
    (vanishing : ∀ (o : OutPoint) (entry : Entry), batch[o]? = some entry → entry.isDirty = true →
      entry.isFresh = true → entry.coin.isSpent = true → cache.entries.atop shown o = none) :
    Entries.Taken batch (cache.mergeInOrder order batch tip).state.1 (cache.entries.atop shown)
      ((cache.mergeInOrder order batch tip).state.2.entries.atop shown) := by
  intro o
  rw [left_mergeInOrder, entries_mergeInOrder]
  rcases Merging.run_entrywise ⟨cache, batch, 0, 0⟩ order o with
    ⟨leftSame, cacheSame⟩ | ⟨entry, found, noClash, gone, stepped⟩
  · refine .inl ⟨leftSame, ?_⟩
    simp only [Entries.atop, cacheSame]
  · refine .inr ⟨gone, ?_⟩
    have seen := MergeStep.outcome_shown noClash (fresh o) fun missing dirty isFresh spent => by
      rw [← vanishing o entry found dirty isFresh spent, Entries.atop_of_none missing]
    rw [Entries.atop, stepped, seen]
    simp only [Entries.patch, Entries.atop]
    rw [show batch[o]? = some entry from found]

/-- A merge over sound flags of a batch whose fresh entries stand over no unspent coin succeeds in every
    order, is seen as a write of the batch, and leaves the flags sound. -/
theorem mergeInOrder_shown (order : List OutPoint) (tip : Hash256) (sound : cache.entries.SoundOver shown)
    (fresh : ∀ (o : OutPoint) (entry : Entry), batch[o]? = some entry → entry.isDirty = true →
      entry.isFresh = true → cache.entries.atop shown o = none)
    (covers : ∀ o, o ∈ batch → o ∈ order) :
    (cache.mergeInOrder order batch tip).result = .ok () ∧
      (cache.mergeInOrder order batch tip).state.1 = ∅ ∧
      (cache.mergeInOrder order batch tip).state.2.entries.SoundOver shown ∧
      (cache.mergeInOrder order batch tip).state.2.entries.atop shown =
        batch.patch (cache.entries.atop shown) := by
  have step (o : OutPoint) (entry : Entry) (found : batch[o]? = some entry) :=
    MergeStep.outcome_fits (sound o) (fresh o entry found)
  have ok : (cache.mergeInOrder order batch tip).result = .ok () := by
    rw [result_mergeInOrder]
    rcases Merging.run_result ⟨cache, batch, 0, 0⟩ order with ⟨ended, _⟩ | ⟨o, entry, _, found, clash⟩
    · exact ended
    · exact absurd clash (step o entry found).1
  have emptied : (cache.mergeInOrder order batch tip).state.1 = ∅ := (merged_of_ok covers ok).1
  refine ⟨ok, emptied, ?_, ?_⟩
  · intro o after found
    rw [entries_mergeInOrder] at found
    rcases Merging.run_entrywise ⟨cache, batch, 0, 0⟩ order o with ⟨_, same⟩ | ⟨entry, taken, _, _, stepped⟩
    · exact sound o after (same ▸ found)
    · exact (step o entry taken).2 after (stepped ▸ found)
  · have taken := mergeInOrder_taken order tip (fun o mine found => (sound o mine found).fresh)
      fun o entry found dirty isFresh _ => fresh o entry found dirty isFresh
    rw [emptied] at taken
    exact taken.eq_patch

end Cache

end CoinLayers
