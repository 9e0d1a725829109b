import CoinLayers.Proofs.Apart
import CoinLayers.Proofs.Records

/-!
Conflicts: a batch that calls a coin fresh which the receiving cache holds unspent.

A merge stops just if there is a conflict, and names the outpoint of one (`fails_iff_clashes`). Every entry of the
batch is then either still in the batch or has gone over to the cache. Which entries have gone over hangs on the order,
but each of them was merged as it would have been alone (`conflict_conserves`).
-/
namespace CoinLayers

/-- The batch of a single entry. -/
def Entries.single (o : OutPoint) (entry : Entry) : Entries :=
  (∅ : Entries).insert o entry

theorem Entries.getElem?_single {o p : OutPoint} {entry : Entry} :
    (single o entry)[p]? = if p = o then some entry else none := by
  rw [single, getElem?_insert_ite, Std.ExtTreeMap.getElem?_empty]

namespace Cache

variable {cache : Cache} {batch : Entries} {order : List OutPoint} {tip : Hash256} {o : OutPoint} {entry : Entry}
  {why : Failure}

/-- A batch calls the coin at an outpoint fresh, and the cache holds it unspent. -/
def Clashes (cache : Cache) (batch : Entries) (o : OutPoint) : Prop :=
  (∃ entry : Entry, batch[o]? = some entry ∧ entry.isDirty = true ∧ entry.isFresh = true) ∧ cache.holds o = true

theorem clashes_iff (found : batch[o]? = some entry) :
    cache.Clashes batch o ↔ MergeStep.of cache.entries[o]? entry = .clash := by
  rw [MergeStep.of_eq_clash_iff, Clashes, found, holds]
  cases cache.entries[o]? <;> simp [and_assoc]

/-- A merge that fails names the outpoint of a conflict. -/
theorem clashes_of_error (failed : (cache.mergeInOrder order batch tip).result = .error why) :
    ∃ o, cache.Clashes batch o ∧ why = .fault (.freshMisapplied o) := by
  rw [result_mergeInOrder] at failed
  rcases Merging.run_result ⟨cache, batch, 0, 0⟩ order with ⟨ok, _⟩ | ⟨o, entry, stopped, found, clash⟩
  · rw [ok] at failed
    cases failed
  · rw [stopped] at failed
    cases failed
    exact ⟨o, (clashes_iff found).mpr clash, rfl⟩

/-- Where there is a conflict both entries stay as they are, whatever the merge comes to. -/
theorem stays_of_clashes (clashes : cache.Clashes batch o) :
    (cache.mergeInOrder order batch tip).state.1[o]? = batch[o]? ∧
      (cache.mergeInOrder order batch tip).state.2.entries[o]? = cache.entries[o]? := by
  rw [left_mergeInOrder, entries_mergeInOrder]
  rcases Merging.run_entrywise ⟨cache, batch, 0, 0⟩ order o with stays | ⟨entry, found, noClash, _⟩
  · exact stays
  · exact absurd ((clashes_iff found).mp clashes) noClash

theorem covers_of_perm (enumerates : order.Perm batch.keys) (o : OutPoint) (member : o ∈ batch) : o ∈ order :=
  enumerates.mem_iff.mpr (Std.ExtTreeMap.mem_keys.mpr member)

theorem fails_iff_clashes (enumerates : order.Perm batch.keys) :
    (∃ why, (cache.mergeInOrder order batch tip).result = .error why) ↔ ∃ o, cache.Clashes batch o := by
  constructor
  · rintro ⟨why, failed⟩
    obtain ⟨o, clashes, _⟩ := clashes_of_error failed
    exact ⟨o, clashes⟩
  · rintro ⟨o, clashes⟩
    cases ended : (cache.mergeInOrder order batch tip).result with
    | error why => exact ⟨why, rfl⟩
    | ok _ =>
      -- Nothing would be left of the batch, but the entry in conflict is.
      have stays : (cache.mergeInOrder order batch tip).state.1[o]? = batch[o]? := (stays_of_clashes clashes).1
      obtain ⟨⟨entry, found, _⟩, _⟩ := clashes
      rw [(merged_of_ok (covers_of_perm enumerates) ended).1, found] at stays
      simp at stays

/-- An entry without a conflict can be merged alone. -/
theorem merged_single (tip : Hash256) (noClash : MergeStep.of cache.entries[o]? entry ≠ .clash) :
    (cache.mergeInOrder [o] (.single o entry) tip).result = .ok () ∧
      (cache.mergeInOrder [o] (.single o entry) tip).state.2.entries[o]? =
        (MergeStep.of cache.entries[o]? entry).outcome cache.entries[o]? := by
  have found : (Entries.single o entry)[o]? = some entry := Entries.getElem?_single.trans (if_pos rfl)
  have alone (p : OutPoint) (member : p ∈ Entries.single o entry) : p ∈ [o] := by
    rw [Std.ExtTreeMap.mem_iff_isSome_getElem?, Entries.getElem?_single] at member
    simpa using member
  have ok : (cache.mergeInOrder [o] (.single o entry) tip).result = .ok () := by
    cases ended : (cache.mergeInOrder [o] (.single o entry) tip).result with
    | ok _ => rfl
    | error why =>
      obtain ⟨p, clashes, _⟩ := clashes_of_error ended
      obtain ⟨other, there, _⟩ := clashes.1
      have member : p ∈ Entries.single o entry := Std.ExtTreeMap.mem_iff_isSome_getElem?.mpr (by simp [there])
      obtain rfl : p = o := List.mem_singleton.mp (alone p member)
      exact absurd ((clashes_iff found).mp clashes) noClash
  refine ⟨ok, ?_⟩
  rw [(merged_of_ok alone ok).2, found]
  rfl

/-- What a merge leaves that stopped at an outpoint: a part of the batch, and the cache with the rest of it. -/
structure Conserves (cache : Cache) (batch : Entries) (tip : Hash256) (stopped : OutPoint) (left : Entries)
    (later : Cache) : Prop where
  /-- The two entries in conflict are as before. -/
  conflict : left[stopped]? = batch[stopped]? ∧ later.entries[stopped]? = cache.entries[stopped]?
  /-- Any other entry of the batch is still there, and the cache as before, or it is gone, and the cache has what it has
      after a merge of this entry alone. -/
  others : ∀ (o : OutPoint) (entry : Entry), batch[o]? = some entry →
    left[o]? = some entry ∧ later.entries[o]? = cache.entries[o]? ∨
    left[o]? = none ∧ (cache.mergeInOrder [o] (.single o entry) tip).result = .ok () ∧
      later.entries[o]? = (cache.mergeInOrder [o] (.single o entry) tip).state.2.entries[o]?
  outside : ∀ o : OutPoint, batch[o]? = none → left[o]? = none ∧ later.entries[o]? = cache.entries[o]?
  /-- The cache stands at the block where it stood. -/
  apart : SameApart cache later
  consistent : later.Consistent
  balanced : later.Balanced

/-- Let a batch be merged into a consistent cache that counts its bytes right, in any order. The merge fails just if
    there is a conflict, at an outpoint of one. Then no entry is lost, and the cache is consistent and counts right. -/
theorem conflict_conserves (consistent : cache.Consistent) (balanced : cache.Balanced)
    (enumerates : order.Perm batch.keys) (tip : Hash256) :
    ((∃ why, (cache.mergeInOrder order batch tip).result = .error why) ↔ ∃ o, cache.Clashes batch o) ∧
    ∀ why, (cache.mergeInOrder order batch tip).result = .error why →
      ∃ o, cache.Clashes batch o ∧ why = .fault (.freshMisapplied o) ∧
        cache.Conserves batch tip o (cache.mergeInOrder order batch tip).state.1
          (cache.mergeInOrder order batch tip).state.2 := by
  refine ⟨fails_iff_clashes enumerates, fun why failed => ?_⟩
  obtain ⟨o, clashes, named⟩ := clashes_of_error failed
  have merged : Turn (fun batch left => left.PartOf batch) [] cache (cache.mergeInOrder order batch tip).state.2 :=
    .merged order batch tip
  have entrywise (p : OutPoint) := Merging.run_entrywise ⟨cache, batch, 0, 0⟩ order p
  rw [← @left_mergeInOrder cache batch order tip, ← @entries_mergeInOrder cache batch order tip] at entrywise
  refine ⟨o, clashes, named, stays_of_clashes clashes, fun p entry found => ?_, fun p missing => ?_,
    .mergeInOrder_of_error failed, merged.consistent consistent balanced, merged.balanced balanced⟩
  · rcases entrywise p with ⟨left, same⟩ | ⟨other, there, noClash, gone, stepped⟩
    · exact .inl ⟨left.trans found, same⟩
    · cases there.symm.trans found
      obtain ⟨ok, alone⟩ := merged_single tip noClash
      exact .inr ⟨gone, ok, stepped.trans alone.symm⟩
  · rcases entrywise p with ⟨left, same⟩ | ⟨_, there, _⟩
    · exact ⟨left.trans missing, same⟩
    · cases there.symm.trans missing

/-- Three entries: two coins called fresh, and a spend. -/
def threeChanges : Entries :=
  let coin : Coin := ⟨5, 1, false, .empty, false⟩
  (((∅ : Entries).insert ⟨.zero, 0⟩ ⟨coin, ⟨true, true⟩⟩).insert ⟨.zero, 1⟩ ⟨coin, ⟨true, true⟩⟩).insert ⟨.zero, 2⟩
    ⟨.spent, ⟨true, false⟩⟩

/-- The outpoints of the three entries, not in their order. -/
def shuffled : List OutPoint :=
  [⟨.zero, 2⟩, ⟨.zero, 0⟩, ⟨.zero, 1⟩]

/-- The cache has the first coin already. Of the three entries only the spend goes over, which comes first. -/
theorem threeChanges_conserved :
    Layers.readOnce.Consistent ∧ Layers.readOnce.Balanced ∧ shuffled.Perm threeChanges.keys ∧
    Layers.readOnce.Clashes threeChanges ⟨.zero, 0⟩ ∧
    (Layers.readOnce.mergeInOrder shuffled threeChanges .zero).result = .error (.fault (.freshMisapplied ⟨.zero, 0⟩)) ∧
    Layers.readOnce.Conserves threeChanges .zero ⟨.zero, 0⟩
      (Layers.readOnce.mergeInOrder shuffled threeChanges .zero).state.1
      (Layers.readOnce.mergeInOrder shuffled threeChanges .zero).state.2 ∧
    (Layers.readOnce.mergeInOrder shuffled threeChanges .zero).state.1.keys = [⟨.zero, 0⟩, ⟨.zero, 1⟩] ∧
    (Layers.readOnce.mergeInOrder shuffled threeChanges .zero).state.2.entries[(⟨.zero, 2⟩ : OutPoint)]? =
      some ⟨.spent, ⟨true, false⟩⟩ := by
  have reading : Course (fun batch left => left.PartOf batch) [⟨.zero, 0⟩] (.empty .standard) Layers.readOnce :=
    (Turn.loaded _ (by simp [Cache.empty])).course
  have enumerates : shuffled.Perm threeChanges.keys := by decide
  obtain ⟨_, conserves⟩ := conflict_conserves reading.consistent reading.balanced enumerates .zero
  obtain ⟨o, clashes, named, conserved⟩ := conserves _ rfl
  cases named
  exact ⟨reading.consistent, reading.balanced, enumerates, clashes, rfl, conserved, by decide, by decide⟩

end Cache

end CoinLayers
