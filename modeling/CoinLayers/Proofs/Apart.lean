import CoinLayers.Proofs.MergeView
import CoinLayers.Proofs.Sweeping

/-!
What the operations on entries leave alone. They change the entries of a cache, and with them the books on the
entries: the count of bytes and the records of use. The budget, the block that the cache stands at, the number of
evictions, the list of overwritten outpoints and the way in which batches come are as before (`Cache.SameApart`).
-/
namespace CoinLayers.Cache

variable {cache later last : Cache} {o : OutPoint} {coin : Coin} {entry : Entry}

/-- Two caches that differ at most in their entries and the books on them. -/
structure SameApart (cache later : Cache) : Prop where
  budget : later.budget = cache.budget
  tip : later.tip = cache.tip
  evictions : later.evictions = cache.evictions
  overwritten : later.overwritten = cache.overwritten
  draining : later.draining = cache.draining

namespace SameApart

theorem refl : SameApart cache cache :=
  ⟨rfl, rfl, rfl, rfl, rfl⟩

theorem symm (same : SameApart cache later) : SameApart later cache :=
  ⟨same.budget.symm, same.tip.symm, same.evictions.symm, same.overwritten.symm, same.draining.symm⟩

theorem trans (first : SameApart cache later) (second : SameApart later last) : SameApart cache last where
  budget := second.budget.trans first.budget
  tip := second.tip.trans first.tip
  evictions := second.evictions.trans first.evictions
  overwritten := second.overwritten.trans first.overwritten
  draining := second.draining.trans first.draining

theorem touch : SameApart cache (cache.touch o) :=
  ⟨rfl, rfl, rfl, rfl, rfl⟩

theorem put : SameApart cache ((cache.put o entry).touch o) :=
  ⟨rfl, rfl, rfl, rfl, rfl⟩

theorem erase : SameApart cache (cache.erase o) := by
  rw [Cache.erase]
  split
  · exact refl
  · exact ⟨rfl, rfl, rfl, rfl, rfl⟩

theorem learn {answer : Except Failure (Option Coin)} : SameApart cache (cache.learn o answer) := by
  cases answer with
  | error why => exact refl
  | ok found =>
    cases found with
    | none => exact refl
    | some coin => exact put

theorem spend : SameApart cache (cache.spend o).2 := by
  rw [Cache.spend]
  split
  · exact refl
  · split
    · exact erase
    · exact put

theorem uncache : SameApart cache (cache.uncache o) := by
  rw [Cache.uncache]
  split
  · exact erase
  · exact refl

/-! ### Evicting -/

theorem pass {sweep : Sweep} : SameApart sweep.cache (sweep.pass o).cache := by
  rw [Sweep.pass]
  split
  · exact ⟨rfl, rfl, rfl, rfl, rfl⟩
  · split
    · exact ⟨rfl, rfl, rfl, rfl, rfl⟩
    · exact erase

theorem passAll {places : List OutPoint} {sweep : Sweep} :
    SameApart sweep.cache (places.foldl Sweep.pass sweep).cache := by
  induction places generalizing sweep with
  | nil => exact refl
  | cons o rest ih => exact pass.trans ih

theorem sweep (target : Nat) (places : List OutPoint) (sweep : Sweep) :
    SameApart sweep.cache (sweep.run target places).cache := by
  obtain ⟨k, _, passed, _⟩ := Sweep.run_reaches target sweep places
  rw [passed]
  exact passAll

theorem touchAll {places : List OutPoint} : SameApart cache (places.foldl Cache.touch cache) := by
  induction places generalizing cache with
  | nil => exact refl
  | cons o rest ih => exact touch.trans ih

/-! ### Merging -/

theorem act {step : MergeStep} : SameApart cache (step.act o cache) := by
  cases step with
  | erase => exact erase
  | keep kept => exact put
  | idle | clash | vanish => exact refl

theorem merging (merging : Merging) (order : List OutPoint) :
    SameApart merging.cache (merging.run order).state.cache := by
  induction order generalizing merging with
  | nil => exact refl
  | cons o rest ih =>
    rcases Merging.run_cons merging o rest with
      ⟨_, skipped⟩ | ⟨_, _, _, ended⟩ | ⟨entry, next, _, _, _, cache, _, state⟩
    · rw [skipped]
      exact ih merging
    · rw [ended]
      exact refl
    · rw [state]
      exact (cache ▸ act).trans (ih next)

variable {order : List OutPoint} {batch : Entries} {block : Hash256} {why : Failure}

/-- A merge that fails leaves even the block. -/
theorem mergeInOrder_of_error (failed : (cache.mergeInOrder order batch block).result = .error why) :
    SameApart cache (cache.mergeInOrder order batch block).state.2 := by
  have merged := merging ⟨cache, batch, 0, 0⟩ order
  rw [mergeInOrder] at failed ⊢
  split at failed
  · exact merged
  · cases failed

/-- One that succeeds moves the cache to the block of the batch. -/
theorem mergeInOrder_of_ok (ok : (cache.mergeInOrder order batch block).result = .ok ()) :
    SameApart { cache with tip := some block } (cache.mergeInOrder order batch block).state.2 := by
  have merged := merging ⟨cache, batch, 0, 0⟩ order
  rw [mergeInOrder] at ok ⊢
  split at ok
  · cases ok
  · exact ⟨merged.budget, rfl, merged.evictions, merged.overwritten, merged.draining⟩

end SameApart

end CoinLayers.Cache
