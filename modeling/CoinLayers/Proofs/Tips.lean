import CoinLayers.Proofs.Apart
import CoinLayers.Proofs.Drain
import CoinLayers.Proofs.Shape

/-!
The block that layers stand at.

A question for it moves nobody, and neither does a batch that is not taken: every layer still answers the same
(`SameTips`). A batch that is taken moves the layer that takes it to the block of the batch. So a flush hands down the
block of the cache (`tip_flush`), and a drained stack stands at the block of its top (`tip_drain`).
-/
namespace CoinLayers

variable {ρ α : Type}

namespace Cache

variable {cache : Cache} {entry : Entry} {coin : Coin} {o : OutPoint} {batch : Entries} {block : Hash256} {why : Failure}

theorem tip_keep : (cache.keep o entry).state.tip = cache.tip := by
  rw [keep]
  split
  · exact ((SameApart.sweep _ _ _).trans .touchAll).tip
  · rfl

theorem tip_add {mayOverwrite : Bool} : (cache.add o coin mayOverwrite).state.tip = cache.tip := by
  rw [add]
  split
  · rfl
  split
  · exact tip_keep
  · split
    · exact tip_keep
    split
    · rfl
    split
    · exact tip_keep
    · exact tip_keep

/-- A merge that fails leaves the cache at the block where it stood. -/
theorem tip_merge_of_error (failed : (cache.merge batch block).result = .error why) :
    (cache.merge batch block).state.2.tip = cache.tip :=
  (SameApart.mergeInOrder_of_error failed).tip

theorem tip_merge_of_ok (ok : (cache.merge batch block).result = .ok ()) :
    (cache.merge batch block).state.2.tip = some block :=
  (SameApart.mergeInOrder_of_ok ok).tip

end Cache

/-- Stores that stand at the block of the last batch that they took. No question moves them, and no batch that they
    refuse. -/
structure Standing (ρ : Type) [Backing ρ] : Prop where
  asked : ∀ store : ρ, (Backing.tip (Backing.tip store).2).1 = (Backing.tip store).1
  taken : ∀ (batch : Entries) (block : Hash256) (store : ρ), (Backing.write batch block store).result = .ok () →
    (Backing.tip (Backing.write batch block store).store).1 = block
  refused : ∀ (batch : Entries) (block : Hash256) (store : ρ) (why : Fault),
    (Backing.write batch block store).result = .error why →
    (Backing.tip (Backing.write batch block store).store).1 = (Backing.tip store).1

namespace Layers

variable [Backing ρ] {layers below before between after lower : Layers ρ} {layer later : Layer ρ} {depth place skip : Nat}
  {batch : Entries} {block : Hash256} {cache : Cache} {why : Failure}

theorem tip_cached : (tip 0 (.cached skip cache :: below)).1 = cache.tip.getD (tip skip below).1 := by
  rw [tip]
  cases cache.tip <;> rfl

theorem tipOf_eq : (tipOf cache skip below).1 = cache.tip.getD (tip skip below).1 := by
  rw [tipOf]
  cases cache.tip <;> rfl

/-- Every layer stands at the block where it stood. -/
def SameTips (before after : Layers ρ) : Prop :=
  ∀ depth, (tip depth after).1 = (tip depth before).1

namespace SameTips

theorem refl : SameTips layers layers :=
  fun _ => rfl

theorem trans (first : SameTips before between) (second : SameTips between after) : SameTips before after :=
  fun depth => (second depth).trans (first depth)

theorem cons (first : (tip 0 (later :: after)).1 = (tip 0 (layer :: before)).1) (rest : SameTips before after) :
    SameTips (layer :: before) (later :: after)
  | 0 => first
  | depth + 1 => rest depth

/-- A layer stands where it stood if all layers below do. -/
theorem under (layer : Layer ρ) (rest : SameTips before after) : SameTips (layer :: before) (layer :: after) := by
  refine cons ?_ rest
  cases layer with
  | root => rfl
  | relay skip | guarded skip => exact rest skip
  | cached skip cache => rw [tip_cached, tip_cached, rest skip]

end SameTips

variable (laws : Standing ρ)
include laws

/-- A question moves nobody. -/
theorem sameTips_tip (depth : Nat) (layers : Layers ρ) : SameTips layers (tip depth layers).2 := by
  refine related_at_depth SameTips .refl (fun layer _ _ => .under layer) (fun depth layers => (tip depth layers).2)
    (fun _ _ _ => rfl) (fun depth => congrArg _ (tip_nil depth)) (fun layer below lower => ?_) depth layers
  cases layer with
  | root store => exact .cons (laws.asked store) .refl
  | relay skip | guarded skip => exact .under _ (lower skip)
  | cached skip cache =>
    show SameTips _ (tip 0 (.cached skip cache :: below)).2
    rw [tip]
    split
    · exact .refl
    · next unknown =>
      refine .cons ?_ (lower skip)
      rw [tip_cached, tip_cached, unknown]
      rfl

theorem sameTips_tipOf (cache : Cache) (skip : Nat) (below : Layers ρ) : SameTips below (tipOf cache skip below).2 := by
  rw [tipOf]
  split
  · exact .refl
  · exact sameTips_tip laws skip below

/-- A batch that is not taken moves nobody. -/
theorem sameTips_write (failed : (write batch block depth layers).result = .error why) :
    SameTips layers (write batch block depth layers).state.2 := by
  induction layers generalizing depth with
  | nil => cases depth <;> exact .refl
  | cons layer below ih =>
    cases depth with
    | succ depth => exact .under layer (ih failed)
    | zero =>
      cases layer with
      | root store =>
        obtain ⟨cause, result⟩ := error_of_mapError failed
        exact .cons (laws.refused batch block store cause result) .refl
      | relay skip | guarded skip => exact .under _ (ih failed)
      | cached skip cache =>
        refine .cons ?_ .refl
        show (tip 0 (.cached skip (cache.merge batch block).state.2 :: below)).1 = _
        rw [tip_cached, tip_cached, Cache.tip_merge_of_error failed]

/-- A flush that fails moves nobody. -/
theorem sameTips_flush (failed : (flush depth layers).result = .error why) : SameTips layers (flush depth layers).state := by
  induction layers generalizing depth with
  | nil => cases depth <;> exact .refl
  | cons layer below ih =>
    cases depth with
    | succ depth => exact .under layer (ih failed)
    | zero =>
      cases layer with
      | root | relay | guarded => exact .refl
      | cached skip cache =>
        rw [flush_cached, concludeFlush] at failed ⊢
        split at failed
        · cases failed
        · next refused =>
          refine .cons ?_ ((sameTips_tipOf laws cache skip below).trans (sameTips_write laws refused))
          rw [tip_cached, tip_cached]
          exact tipOf_eq

/-- A batch that is taken moves the layer to its block. -/
theorem tip_write (ok : (write batch block depth layers).result = .ok ()) :
    (tip depth (write batch block depth layers).state.2).1 = block := by
  induction layers generalizing depth with
  | nil => cases depth <;> cases ok
  | cons layer below ih =>
    cases depth with
    | succ depth => exact ih ok
    | zero =>
      cases layer with
      | root store =>
        exact laws.taken batch block store (ok_of_mapError ok)
      | relay skip | guarded skip => exact ih ok
      | cached skip cache =>
        show (tip 0 (.cached skip (cache.merge batch block).state.2 :: below)).1 = _
        rw [tip_cached, Cache.tip_merge_of_ok ok]
        rfl

/-- A flush moves the layer below to the block of the cache. -/
theorem tip_flush (stack : Stack Any layers) (ok : (flush depth layers).result = .ok ()) :
    (tip (depth + 1) (flush depth layers).state).1 = (tip depth layers).1 := by
  induction stack generalizing depth with
  | root =>
    cases depth with
    | zero => cases ok
    | succ depth => cases depth <;> cases ok
  | relay _ ih | guarded _ _ ih =>
    cases depth with
    | zero => cases ok
    | succ depth => exact ih ok
  | @cached below cache _ ih =>
    cases depth with
    | succ depth => exact ih ok
    | zero =>
      rw [flush_cached, concludeFlush] at ok ⊢
      split at ok
      · next taken => exact (tip_write laws taken).trans (tipOf_eq.trans tip_cached.symm)
      · cases ok

omit laws in
/-- A flush moves no layer above, and neither the cache itself. -/
theorem tip_flush_above (stack : Stack Any layers) (ok : (flush depth layers).result = .ok ()) (above : place ≤ depth) :
    (tip place (flush depth layers).state).1 = (tip place layers).1 := by
  induction stack generalizing depth place with
  | root =>
    cases depth with
    | zero => cases ok
    | succ depth => cases depth <;> cases ok
  | relay _ ih | guarded _ _ ih =>
    cases depth with
    | zero => cases ok
    | succ depth =>
      cases place with
      | zero => exact ih ok (Nat.zero_le _)
      | succ place => exact ih ok (Nat.le_of_succ_le_succ above)
  | @cached below cache _ ih =>
    cases place with
    | succ place =>
      cases depth with
      | zero => cases above
      | succ depth => exact ih ok (Nat.le_of_succ_le_succ above)
    | zero =>
      cases depth with
      | zero =>
        rw [flush_cached, concludeFlush] at ok ⊢
        split at ok
        · rw [tip_cached, tip_cached]
          exact tipOf_eq
        · cases ok
      | succ depth =>
        show (tip 0 (.cached 0 cache :: (flush depth below).state)).1 = _
        rw [tip_cached, tip_cached, ih ok (Nat.zero_le _)]

omit laws in
/-- A layer that is no cache stands where the next one does. -/
theorem tip_succ (stack : Stack Any layers) (noCache : cacheAt? depth layers = none) (inside : depth + 1 < layers.length) :
    (tip (depth + 1) layers).1 = (tip depth layers).1 := by
  induction stack generalizing depth with
  | root => simp at inside
  | relay _ ih | guarded _ _ ih =>
    cases depth with
    | zero => rfl
    | succ depth => exact ih noCache (Nat.lt_of_succ_lt_succ inside)
  | cached _ _ ih =>
    cases depth with
    | zero => cases noCache
    | succ depth => exact ih noCache (Nat.lt_of_succ_lt_succ inside)

private theorem tip_flushEach (count : Nat) (stack : Stack Any layers) (uncovered : Uncovered depth layers)
    (down : ∀ place ≤ depth, place < layers.length → (tip place layers).1 = block)
    (ok : (flushEach (List.range' depth count) layers).result = .ok ()) :
    (∀ place ≤ depth + count, place < layers.length →
      (tip place (flushEach (List.range' depth count) layers).state).1 = block) ∧
      Uncovered (depth + count) (flushEach (List.range' depth count) layers).state ∧
      shape (flushEach (List.range' depth count) layers).state = shape layers := by
  induction count generalizing depth layers with
  | zero => exact ⟨down, uncovered, rfl⟩
  | succ count ih =>
    rw [List.range'_succ, flushEach] at ok ⊢
    cases acting : cacheAt? depth layers with
    | none =>
      have next : ∀ place ≤ depth + 1, place < layers.length → (tip place layers).1 = block := by
        intro place above inside
        rcases Nat.le_succ_iff.mp above with above | rfl
        · exact down place above inside
        · rw [tip_succ stack acting inside]
          exact down depth (Nat.le_refl _) (Nat.lt_of_succ_lt inside)
      simp only [acting, Option.isSome_none, Bool.false_eq_true, if_false, Outcome.andThen, Outcome.done,
        Outcome.after] at ok ⊢
      rw [← Nat.add_assoc, Nat.add_right_comm]
      exact ih stack (uncovered_of_noCache uncovered acting) next ok
    | some cache =>
      simp only [acting, Option.isSome_some, if_true, Outcome.andThen] at ok ⊢
      cases flushed : (flush depth layers).result with
      | error why => simp [flushed] at ok
      | ok =>
        have same := shape_flush depth layers
        have next : ∀ place ≤ depth + 1, place < (flush depth layers).state.length →
            (tip place (flush depth layers).state).1 = block := by
          intro place above inside
          rw [length_of_shape same] at inside
          rcases Nat.le_succ_iff.mp above with above | rfl
          · rw [tip_flush_above stack flushed above]
            exact down place above inside
          · rw [tip_flush laws stack flushed]
            exact down depth (Nat.le_refl _) (Nat.lt_of_succ_lt inside)
        simp only [flushed, Outcome.after] at ok ⊢
        rw [← Nat.add_assoc, Nat.add_right_comm]
        obtain ⟨stands, bare, kept⟩ := ih (stack.of_shape same) (uncovered_flush flushed uncovered) next ok
        rw [length_of_shape same] at stands
        exact ⟨stands, bare, kept.trans same⟩

/-- A stack that was drained has no entries left in any cache, and stands at the block where its top stood. -/
theorem tip_drain (stack : Stack Any layers) (ok : (drain layers).result = .ok ()) :
    (∀ depth < layers.length, (tip depth (drain layers).state).1 = (tip 0 layers).1) ∧
      EveryCache (fun cache => cache.entries = ∅) (drain layers).state := by
  rw [drain, List.range_eq_range'] at ok ⊢
  have top : ∀ place ≤ 0, place < layers.length → (tip place layers).1 = (tip 0 layers).1 := by
    intro place above _
    rw [Nat.le_zero.mp above]
  obtain ⟨stands, bare, same⟩ := tip_flushEach laws layers.length stack uncovered_zero top ok
  rw [Nat.zero_add] at stands bare
  refine ⟨fun depth inside => stands depth (Nat.le_of_lt inside) inside, ?_⟩
  rwa [Uncovered, List.take_of_length_le (Nat.le_of_eq (length_of_shape same))] at bare

end Layers

end CoinLayers
