import CoinLayers.Proofs.Conflict

/-!
Merges in different orders.

What becomes of an outpoint in a merge that comes to its end hangs on the two entries for it and on nothing else, and
whether it comes to its end does not hang on the order at all. So merges of one batch in two orders leave caches that
differ at most in which outpoints were used last (`merged_any_order`). Entries of the batch without changes could as
well be left out of it (`mergeInOrder_changes`).
-/
namespace CoinLayers

/-- The entries with something to write. -/
def Entries.changes (entries : Entries) : Entries :=
  entries.filter fun _ entry => entry.isDirty

section Changes

variable {entries : Entries} {o : OutPoint} {entry : Entry}

theorem Entries.getElem?_changes : entries.changes[o]? = entries[o]?.filter Entry.isDirty :=
  Std.ExtTreeMap.getElem?_filter'

theorem Entries.changes_erase : changes (entries.erase o) = entries.changes.erase o := by
  refine Std.ExtTreeMap.ext_getElem? fun {p} => ?_
  rw [getElem?_changes, getElem?_erase_ite, getElem?_erase_ite, getElem?_changes]
  split <;> rfl

theorem Entries.changes_erase_idle (found : entries[o]? = some entry) (idle : entry.isDirty = false) :
    changes (entries.erase o) = entries.changes := by
  refine Std.ExtTreeMap.ext_getElem? fun {p} => ?_
  rw [getElem?_changes, getElem?_erase_ite, getElem?_changes]
  split
  · next same => rw [same, found, Option.filter_none, Option.filter_some, idle, if_neg Bool.false_ne_true]
  · rfl

end Changes

namespace Merging

/-- A merge that still has the changes of a batch to make, and nothing else. -/
def ofChanges (merging : Merging) : Merging :=
  { merging with left := merging.left.changes }

/-- Entries without changes may be left out of a merge. -/
theorem run_ofChanges (merging : Merging) (order : List OutPoint) :
    merging.ofChanges.run order = (merging.run order).mapState ofChanges := by
  induction order generalizing merging with
  | nil => rfl
  | cons o rest ih =>
    have listed : merging.ofChanges.left[o]? = merging.left[o]?.filter Entry.isDirty := Entries.getElem?_changes
    cases found : merging.left[o]? with
    | none =>
      rw [found, Option.filter_none] at listed
      simp only [run, found, listed]
      exact ih merging
    | some entry =>
      cases dirty : entry.isDirty with
      | false =>
        -- The whole batch takes an idle step here, the changes do not come to it.
        have idle : MergeStep.of merging.cache.entries[o]? entry = .idle := by simp [MergeStep.of, dirty]
        rw [found, Option.filter_some, dirty, if_neg Bool.false_ne_true] at listed
        simp only [run, found, listed, idle]
        rw [← ih { merging with left := merging.left.erase o }]
        simp only [ofChanges, Entries.changes_erase_idle found dirty]
      | true =>
        rw [found, Option.filter_some, dirty, if_pos rfl] at listed
        have onward (cache : Cache) (kept dropped : Nat) :
            run ⟨cache, merging.ofChanges.left.erase o, kept, dropped⟩ rest =
              (run ⟨cache, merging.left.erase o, kept, dropped⟩ rest).mapState ofChanges := by
          rw [← ih, ofChanges, ofChanges, Entries.changes_erase]
        simp only [run, found, listed]
        rw [show merging.ofChanges.cache = merging.cache from rfl]
        cases MergeStep.of merging.cache.entries[o]? entry with
        | clash => rfl
        | idle | vanish | keep kept => exact onward ..
        | erase => exact congrArg (Outcome.after [.spentFreshDropped o]) (onward ..)

end Merging

namespace MergeStep

variable {old : Option Entry} {entry : Entry}

/-- An entry without a change leaves the one that is there. -/
theorem received_idle (idle : entry.isDirty = false) : received old (some entry) = old := by
  simp [received, of, idle, outcome]

end MergeStep

namespace Cache

variable {cache first second : Cache} {batch : Entries} {order other : List OutPoint} {tip : Hash256} {o : OutPoint}

/-- Entries without changes may be left out of a batch. -/
theorem mergeInOrder_changes (order : List OutPoint) (batch : Entries) (tip : Hash256) :
    (cache.mergeInOrder order batch.changes tip).result = (cache.mergeInOrder order batch tip).result ∧
      (cache.mergeInOrder order batch.changes tip).state.2 = (cache.mergeInOrder order batch tip).state.2 := by
  have ofChanges : Merging.run ⟨cache, batch.changes, 0, 0⟩ order =
      (Merging.run ⟨cache, batch, 0, 0⟩ order).mapState Merging.ofChanges :=
    Merging.run_ofChanges ⟨cache, batch, 0, 0⟩ order
  rw [mergeInOrder, mergeInOrder, ofChanges]
  dsimp only [Outcome.mapState]
  split <;> exact ⟨rfl, rfl⟩

/-- Two caches that differ at most in the order in which their entries were used. -/
structure SameButOrder (first second : Cache) : Prop where
  entries : second.entries = first.entries
  usage : second.usage = first.usage
  records : second.recency.oldestFirst.Perm first.recency.oldestFirst
  apart : SameApart first second

/-- Caches with the same entries and their books in order differ at most in the order of use. -/
theorem sameButOrder_of_entries (entries : second.entries = first.entries) (apart : SameApart first second)
    (firstCounts : first.Balanced) (secondCounts : second.Balanced)
    (firstRecords : ∀ o, first.recency.contains o = first.entries.contains o)
    (secondRecords : ∀ o, second.recency.contains o = second.entries.contains o) : SameButOrder first second where
  entries := entries
  usage := by rw [firstCounts, secondCounts, entries]
  records := by
    refine (List.perm_ext_iff_of_nodup Recency.nodup_oldestFirst Recency.nodup_oldestFirst).mpr fun o => ?_
    rw [← Recency.contains_iff, ← Recency.contains_iff, secondRecords, firstRecords, entries]
  apart := apart

/-- What a merge leaves that comes to its end: what the batch says has been received, outpoint by outpoint. -/
structure Receives (cache : Cache) (batch : Entries) (tip : Hash256) (later : Cache) : Prop where
  /-- What there is at an outpoint hangs on the two entries for it alone. -/
  entries : ∀ o : OutPoint, later.entries[o]? = MergeStep.received cache.entries[o]? batch[o]?
  /-- Nothing happens where the batch has no change. -/
  others : ∀ o : OutPoint, batch.changes[o]? = none → later.entries[o]? = cache.entries[o]?
  tip : later.tip = some tip

theorem receives_of_ok (enumerates : order.Perm batch.keys)
    (ok : (cache.mergeInOrder order batch tip).result = .ok ()) :
    cache.Receives batch tip (cache.mergeInOrder order batch tip).state.2 := by
  have received := (merged_of_ok (covers_of_perm enumerates) ok).2
  refine ⟨received, fun o unchanged => ?_, (SameApart.mergeInOrder_of_ok ok).tip⟩
  rw [received]
  rw [Entries.getElem?_changes] at unchanged
  cases found : batch[o]? with
  | none => rfl
  | some entry =>
    rw [show batch[o]? = some entry from found] at unchanged
    exact MergeStep.received_idle (by simpa using unchanged)

/-- A merge of nothing only moves the cache to the block. -/
theorem mergeInOrder_nothing (enumerates : order.Perm (∅ : Entries).keys) :
    (cache.mergeInOrder order ∅ tip).result = .ok () ∧
      (cache.mergeInOrder order ∅ tip).state.2 = { cache with tip := some tip } := by
  obtain rfl : order = [] := enumerates.eq_nil
  exact ⟨rfl, rfl⟩

/-- Whether a merge fails does not hang on the order. -/
theorem fails_in_any_order (enumerates : order.Perm batch.keys) (otherwise : other.Perm batch.keys) :
    (∃ why, (cache.mergeInOrder order batch tip).result = .error why) ↔
      ∃ why, (cache.mergeInOrder other batch tip).result = .error why :=
  (fails_iff_clashes enumerates).trans (fails_iff_clashes otherwise).symm

/-- Nor does what it leaves, if it comes to its end, but for the order of use. -/
theorem sameButOrder_of_ok (consistent : cache.Consistent) (balanced : cache.Balanced)
    (enumerates : order.Perm batch.keys) (otherwise : other.Perm batch.keys)
    (ok : (cache.mergeInOrder order batch tip).result = .ok ())
    (okToo : (cache.mergeInOrder other batch tip).result = .ok ()) :
    SameButOrder (cache.mergeInOrder order batch tip).state.2 (cache.mergeInOrder other batch tip).state.2 := by
  have received := (merged_of_ok (covers_of_perm enumerates) ok).2
  have receivedToo := (merged_of_ok (covers_of_perm otherwise) okToo).2
  have merged (order : List OutPoint) : Turn (fun batch left => left.PartOf batch) [] cache
      (cache.mergeInOrder order batch tip).state.2 := .merged order batch tip
  refine sameButOrder_of_entries ?_ ?_ ((merged order).balanced balanced) ((merged other).balanced balanced)
    ((merged order).recorded consistent.recorded) ((merged other).recorded consistent.recorded)
  · exact Std.ExtTreeMap.ext_getElem? fun {o} => (receivedToo o).trans (received o).symm
  · exact (SameApart.mergeInOrder_of_ok ok).symm.trans (SameApart.mergeInOrder_of_ok okToo)

/-- Let a batch be merged into a consistent cache that counts its bytes right, in two orders. Either both merges fail,
    or both take in the whole batch, and the caches that they leave differ at most in the order of use. It is the same
    with the entries without changes left out of the batch, and a merge of nothing only moves the cache to the block. -/
theorem merged_in_any_order (consistent : cache.Consistent) (balanced : cache.Balanced)
    (enumerates : order.Perm batch.keys) (otherwise : other.Perm batch.keys) (tip : Hash256) :
    ((∃ why, (cache.mergeInOrder order batch tip).result = .error why) ∧
        (∃ why, (cache.mergeInOrder other batch tip).result = .error why) ∨
      ((cache.mergeInOrder order batch tip).result = .ok () ∧ (cache.mergeInOrder order batch tip).state.1 = ∅) ∧
        ((cache.mergeInOrder other batch tip).result = .ok () ∧ (cache.mergeInOrder other batch tip).state.1 = ∅) ∧
        SameButOrder (cache.mergeInOrder order batch tip).state.2 (cache.mergeInOrder other batch tip).state.2 ∧
        cache.Receives batch tip (cache.mergeInOrder order batch tip).state.2) ∧
    ((cache.mergeInOrder order batch.changes tip).result = (cache.mergeInOrder order batch tip).result ∧
      (cache.mergeInOrder order batch.changes tip).state.2 = (cache.mergeInOrder order batch tip).state.2) ∧
    (batch = ∅ → (cache.mergeInOrder order batch tip).result = .ok () ∧
      (cache.mergeInOrder order batch tip).state.2 = { cache with tip := some tip }) := by
  refine ⟨?_, mergeInOrder_changes order batch tip, ?_⟩
  · have together := @fails_in_any_order cache batch order other tip enumerates otherwise
    cases ended : (cache.mergeInOrder order batch tip).result with
    | error why => exact .inl ⟨⟨why, rfl⟩, together.mp ⟨why, ended⟩⟩
    | ok _ =>
      cases endedToo : (cache.mergeInOrder other batch tip).result with
      | error why =>
        obtain ⟨why, failed⟩ := together.mpr ⟨why, endedToo⟩
        cases ended.symm.trans failed
      | ok _ =>
        exact .inr ⟨⟨rfl, (merged_of_ok (covers_of_perm enumerates) ended).1⟩,
          ⟨rfl, (merged_of_ok (covers_of_perm otherwise) endedToo).1⟩,
          sameButOrder_of_ok consistent balanced enumerates otherwise ended endedToo, receives_of_ok enumerates ended⟩
  · rintro rfl
    exact mergeInOrder_nothing enumerates

/-- A spend of a coin that was read, a new coin, and one without a change. -/
def mixedChanges : Entries :=
  let coin : Coin := ⟨5, 1, false, .empty, false⟩
  (((∅ : Entries).insert ⟨.zero, 0⟩ ⟨.spent, ⟨true, false⟩⟩).insert ⟨.zero, 1⟩ ⟨coin, ⟨true, true⟩⟩).insert ⟨.zero, 2⟩
    ⟨coin, .clean⟩

/-- The spend and the new coin go over in both orders, and the one that went last is the newest. -/
theorem mixedChanges_in_two_orders :
    Layers.readOnce.Consistent ∧ Layers.readOnce.Balanced ∧ shuffled.Perm mixedChanges.keys ∧
    shuffled.reverse.Perm mixedChanges.keys ∧
    (Layers.readOnce.mergeInOrder shuffled mixedChanges .zero).result = .ok () ∧
    SameButOrder (Layers.readOnce.mergeInOrder shuffled mixedChanges .zero).state.2
      (Layers.readOnce.mergeInOrder shuffled.reverse mixedChanges .zero).state.2 ∧
    (Layers.readOnce.mergeInOrder shuffled mixedChanges .zero).state.2.recency.oldestFirst =
      [⟨.zero, 0⟩, ⟨.zero, 1⟩] ∧
    (Layers.readOnce.mergeInOrder shuffled.reverse mixedChanges .zero).state.2.recency.oldestFirst =
      [⟨.zero, 1⟩, ⟨.zero, 0⟩] ∧
    Layers.readOnce.Receives mixedChanges .zero (Layers.readOnce.mergeInOrder shuffled mixedChanges .zero).state.2 := by
  have reading : Course (fun batch left => left.PartOf batch) [⟨.zero, 0⟩] (.empty .standard) Layers.readOnce :=
    (Turn.loaded _ (by simp [Cache.empty])).course
  have enumerates : shuffled.Perm mixedChanges.keys := by decide
  have backwards : shuffled.reverse.Perm mixedChanges.keys := by decide
  obtain ⟨⟨⟨_, failed⟩, _⟩ | ⟨⟨ok, _⟩, _, same, receives⟩, _⟩ :=
    merged_in_any_order reading.consistent reading.balanced enumerates backwards .zero
  · cases failed
  · exact ⟨reading.consistent, reading.balanced, enumerates, backwards, ok, same, by decide, by decide, receives⟩

end Cache

end CoinLayers
