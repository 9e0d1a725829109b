import Mathlib.Data.List.Induction
import CoinLayers.Proofs.OverBudget

/-!
The size to shrink to, and that a cache with too much in it always has something to pass.

In numbers without bounds the size is the percentage of the limit, rounded down: the hundreds of the limit give whole
bytes, so that only the rest is rounded (`target_eq_share`). In words no step needs more room than the result, but for
the product that is still to be divided, and that one is small. So the steps give the same as long as it fits in a word
(`target?_eq_some_iff`). Settings leave no percentage above a hundred (`build_eq`), and then the size is not above the
limit, and fits. So a cache above its limit is above the size to shrink to, and an eviction, which comes after a use,
finds an outpoint to pass (`shrink_passes_oldest`).
-/
namespace CoinLayers

namespace Budget

variable {budget : Budget} {settings : List Setting} {a b target : UInt64}

/-! ### The share of the limit -/

/-- The percentage of the limit, rounded down. -/
def share (budget : Budget) : Nat :=
  budget.limit.toNat * budget.percent.toNat / 100

/-- The hundreds of the limit come to whole bytes, so that nothing is lost if only the rest is divided. -/
theorem target_eq_share (budget : Budget) : budget.target = budget.share := by
  have parted : budget.limit.toNat * budget.percent.toNat =
      budget.limit.toNat % 100 * budget.percent.toNat + 100 * (budget.limit.toNat / 100 * budget.percent.toNat) := by
    rw [← Nat.mul_assoc, ← Nat.add_mul, Nat.mod_add_div]
  rw [share, parted, Nat.add_mul_div_left _ _ (by decide), Nat.add_comm, target]

theorem share_le_limit (clamped : budget.percent.toNat ≤ 100) : budget.share ≤ budget.limit.toNat := by
  refine Nat.div_le_of_le_mul ?_
  rw [Nat.mul_comm 100]
  exact Nat.mul_le_mul_left _ clamped

/-! ### In words -/

theorem product?_of_fits (fits : a.toNat * b.toNat < UInt64.size) : product? a b = some (a * b) :=
  if_pos fits

theorem sum?_of_fits (fits : a.toNat + b.toNat < UInt64.size) : sum? a b = some (a + b) :=
  if_pos fits

/-- What is left beside the hundreds is small enough for any percentage. -/
theorem product?_rest (budget : Budget) : product? (budget.limit % 100) budget.percent.toUInt64 =
    some (budget.limit % 100 * budget.percent.toUInt64) := by
  have below : (budget.limit % 100).toNat < 100 := by
    rw [UInt64.toNat_mod]
    exact Nat.mod_lt _ (by decide)
  have byte : budget.percent.toUInt64.toNat < 256 := by
    rw [UInt8.toNat_toUInt64]
    exact budget.percent.toNat_lt
  exact product?_of_fits (Nat.lt_trans (Nat.mul_lt_mul'' below byte) (by decide))

/-- If the share fits in a word, no step on the way to it needs more. -/
theorem target?_of_fits (fits : budget.share < UInt64.size) : budget.target? =
    some (budget.limit / 100 * budget.percent.toUInt64 + budget.limit % 100 * budget.percent.toUInt64 / 100) := by
  have whole : (budget.limit / 100).toNat * budget.percent.toUInt64.toNat +
      (budget.limit % 100).toNat * budget.percent.toUInt64.toNat / 100 < UInt64.size := by
    rw [← target_eq_share] at fits
    simpa [target] using fits
  have hundreds := product?_of_fits (Nat.lt_of_le_of_lt (Nat.le_add_right ..) whole)
  rw [← toNat_product? hundreds, ← toNat_product? budget.product?_rest] at whole
  rw [target?, hundreds, budget.product?_rest]
  exact sum?_of_fits (by rwa [UInt64.toNat_div])

/-- The steps in words end with the share of the limit, and with nothing if that does not fit in a word. -/
theorem target?_eq_some_iff : budget.target? = some target ↔ target.toNat = budget.share := by
  constructor
  · intro computed
    rw [toNat_target? computed, target_eq_share]
  · intro exact
    have computed := target?_of_fits (exact ▸ target.toNat_lt_size)
    rw [computed, Option.some_inj, ← UInt64.toNat_inj, toNat_target? computed, target_eq_share, exact]

example : (⟨1001, 80⟩ : Budget).target? = some 800 := by decide

/-! ### Settings -/

/-- The limit that a setting gives. -/
def Setting.limit? : Setting → Option UInt64
  | .limit bytes => some bytes
  | .percent _ => none

/-- The percentage that a setting gives, however large. -/
def Setting.percent? : Setting → Option UInt8
  | .limit _ => none
  | .percent share => some share

/-- The last limit given, or the standard one if none is. -/
def lastLimit (settings : List Setting) : UInt64 :=
  (settings.filterMap Setting.limit?).getLastD standard.limit

/-- The last percentage given, or the standard one if none is. -/
def lastPercent (settings : List Setting) : UInt8 :=
  (settings.filterMap Setting.percent?).getLastD standard.percent

/-- One more setting counts for more than all of its kind before it. -/
theorem set_last (setting : Setting) :
    (⟨lastLimit settings, min (lastPercent settings) 100⟩ : Budget).set setting =
      ⟨lastLimit (settings ++ [setting]), min (lastPercent (settings ++ [setting])) 100⟩ := by
  cases setting <;> simp [set, lastLimit, lastPercent, Setting.limit?, Setting.percent?, List.filterMap_append]

/-- In the end the last limit and the last percentage count, the latter as a hundred if it is more. -/
theorem build_eq (settings : List Setting) :
    build settings = ⟨lastLimit settings, min (lastPercent settings) 100⟩ := by
  induction settings using List.reverseRecOn with
  | nil => decide
  | append_singleton earlier setting ih =>
    rw [build, List.foldl_concat]
    exact (congrArg (·.set setting) ih).trans (set_last setting)

example : build [.limit 1000, .percent 150] = ⟨1000, 100⟩ := by decide

theorem share_build : (build settings).share =
    (lastLimit settings).toNat * min (lastPercent settings).toNat 100 / 100 := by
  rw [build_eq, share, UInt8.toNat_min]
  rfl

theorem share_build_le : (build settings).share ≤ (lastLimit settings).toNat := by
  have clamped : (build settings).percent.toNat ≤ 100 := by
    rw [build_eq, UInt8.toNat_min]
    exact Nat.min_le_right ..
  have within := share_le_limit clamped
  rwa [build_eq] at within ⊢

end Budget

namespace Cache

variable {cache later : Cache} {o : OutPoint} {coin : Coin} {entry : Entry} {mayOverwrite : Bool}
  {gone before after : Nat} {logged : Budget}

/-- What is left of a cache when an eviction has passed the least recently used outpoint, and maybe those after it. -/
def PassesOldest (cache later : Cache) : Prop :=
  ∃ (oldest : OutPoint) (others rest : List OutPoint),
    cache.recency.oldestFirst = oldest :: (others ++ rest) ∧ later = cache.evicted (oldest :: others)

theorem shrink_passes_oldest (above : cache.budget.target < cache.usage.bytes) (used : cache.recency.oldestFirst ≠ []) :
    cache.PassesOldest cache.shrink.state := by
  obtain ⟨k, _, leaves, _, reached⟩ := cache.shrink_evicts
  cases k with
  | zero =>
    -- To stop before the first record takes a target that is met, or no record.
    rcases reached with unused | met
    · exact absurd (List.length_eq_zero_iff.mp unused.symm) used
    · exact absurd met (Nat.not_le_of_lt above)
  | succ k =>
    obtain ⟨oldest, younger, order⟩ := List.exists_cons_of_ne_nil used
    refine ⟨oldest, younger.take k, younger.drop k, ?_, ?_⟩
    · rw [order, List.take_append_drop]
    · rw [leaves, order, List.take_succ_cons]

/-- To keep an entry evicts only above the limit. -/
theorem keep_of_evicted (evicts : .evicted gone before after logged ∈ (cache.keep o entry).events) :
    cache.budget.limit.toNat < before ∧ before = ((cache.put o entry).touch o).usage.bytes ∧
    (cache.keep o entry).state = ((cache.put o entry).touch o).shrink.state := by
  rw [keep] at evicts ⊢
  split at evicts
  · next exceeds =>
    rw [if_pos exceeds]
    cases List.mem_singleton.mp evicts
    exact ⟨exceeds, rfl, rfl⟩
  · simp [Outcome.done] at evicts

/-- An addition evicts only if that brings the cache above its limit. -/
theorem add_of_evicted (evicts : .evicted gone before after logged ∈ (cache.add o coin mayOverwrite).events) :
    cache.budget.limit.toNat < before ∧ before = (cache.stored o coin mayOverwrite).usage.bytes ∧
    ∃ seen : Seen OutPoint, (cache.add o coin mayOverwrite).state =
      (shrink { cache.stored o coin mayOverwrite with overwritten := seen }).state := by
  by_cases stores : cache.Stores o coin mayOverwrite
  · obtain ⟨seen, said, warned, kept⟩ := add_eq_keep stores
    rw [kept] at evicts ⊢
    have notSaid : .evicted gone before after logged ∉ said := fun told => by cases warned _ told
    obtain ⟨exceeds, bytes, state⟩ := keep_of_evicted ((List.mem_append.mp evicts).resolve_left notSaid)
    exact ⟨exceeds, bytes, seen, state⟩
  · rw [add_of_not_stores stores] at evicts
    cases evicts

end Cache

namespace Budget

/-- After any settings the steps to the size to shrink to stay within words. The size is the last percentage given, or a
    hundred if that is more, of the last limit given, rounded down, and so is not above the limit. Therefore a cache with
    such a budget that holds more than the limit holds more than the size, and an addition that makes it evict passes at
    least the least recently used outpoint. For any budget, with a percentage above a hundred too, the steps stay within
    words and come to the share of the limit if that fits in a word. -/
theorem target_exact :
    (∀ settings : List Setting, ∃ target : UInt64,
      (build settings).target? = some target ∧
      target.toNat = (lastLimit settings).toNat * min (lastPercent settings).toNat 100 / 100 ∧
      (build settings).limit = lastLimit settings ∧ target ≤ lastLimit settings ∧
      ∀ cache : Cache, cache.budget = build settings →
        ((lastLimit settings).toNat < cache.usage.bytes → target.toNat < cache.usage.bytes) ∧
        ∀ (o : OutPoint) (coin : Coin) (mayOverwrite : Bool) (gone before after : Nat) (logged : Budget),
          .evicted gone before after logged ∈ (cache.add o coin mayOverwrite).events →
          before = (cache.stored o coin mayOverwrite).usage.bytes ∧ target.toNat < before ∧
          ∃ seen : Seen OutPoint, Cache.PassesOldest { cache.stored o coin mayOverwrite with overwritten := seen }
            (cache.add o coin mayOverwrite).state) ∧
    ∀ budget : Budget, budget.share < UInt64.size →
      ∃ target : UInt64, budget.target? = some target ∧ target.toNat = budget.share := by
  constructor
  · intro settings
    obtain ⟨target, computed⟩ : ∃ target, (build settings).target? = some target :=
      ⟨_, target?_of_fits (Nat.lt_of_le_of_lt share_build_le (lastLimit settings).toNat_lt_size)⟩
    have exact := target?_eq_some_iff.mp computed
    have within : target.toNat ≤ (lastLimit settings).toNat := exact ▸ share_build_le
    have limit : (build settings).limit = lastLimit settings := by rw [build_eq]
    refine ⟨target, computed, exact.trans share_build, limit, UInt64.le_iff_toNat_le.mpr within, ?_⟩
    intro cache budget
    refine ⟨Nat.lt_of_le_of_lt within, ?_⟩
    intro o coin mayOverwrite gone before after logged evicts
    obtain ⟨exceeds, bytes, seen, state⟩ := Cache.add_of_evicted evicts
    rw [budget, limit] at exceeds
    have above : target.toNat < before := Nat.lt_of_le_of_lt within exceeds
    refine ⟨bytes, above, seen, ?_⟩
    rw [state]
    apply Cache.shrink_passes_oldest
    · show cache.budget.target < (cache.stored o coin mayOverwrite).usage.bytes
      rw [budget, target_eq_share, ← exact, ← bytes]
      exact above
    · show (cache.stored o coin mayOverwrite).recency.oldestFirst ≠ []
      simp [Cache.stored, Cache.touch, Recency.oldestFirst_touch]
  · intro budget fits
    have computed := target?_of_fits fits
    exact ⟨_, computed, target?_eq_some_iff.mp computed⟩

/-- Settings for the budget of the crowded cache, with a percentage above a hundred that does not count. -/
def crowdedSettings : List Setting := [.percent 200, .limit 14, .percent 60]

/-- A budget whose share, more than twice its limit, is the largest number that fits in a word. -/
def widest : Budget := ⟨7234017283807667300, 255⟩

theorem crowdedSettings_exact :
    Cache.crowded.budget = build crowdedSettings ∧ (lastLimit crowdedSettings).toNat < 16 ∧
    .evicted 2 16 8 (build crowdedSettings) ∈ (Cache.crowded.add ⟨.zero, 3⟩ Layers.smallCoin false).events ∧
    (∃ target : UInt64, (build crowdedSettings).target? = some target ∧ target.toNat = 8 ∧ target.toNat < 16 ∧
      ∃ seen : Seen OutPoint, Cache.PassesOldest
        { Cache.crowded.stored ⟨.zero, 3⟩ Layers.smallCoin false with overwritten := seen }
        (Cache.crowded.add ⟨.zero, 3⟩ Layers.smallCoin false).state) ∧
    widest.share < UInt64.size ∧
    ∃ target : UInt64, widest.target? = some target ∧ target.toNat + 1 = UInt64.size := by
  have evicts : .evicted 2 16 8 (build crowdedSettings) ∈
      (Cache.crowded.add ⟨.zero, 3⟩ Layers.smallCoin false).events := by decide
  have fits : widest.share < UInt64.size := by decide
  obtain ⟨built, any⟩ := target_exact
  obtain ⟨target, computed, exact, _, _, evictions⟩ := built crowdedSettings
  obtain ⟨_, above, passes⟩ := (evictions Cache.crowded rfl).2 _ _ _ _ _ _ _ evicts
  obtain ⟨wide, wideComputed, wideExact⟩ := any widest fits
  refine ⟨rfl, by decide, evicts, ⟨target, computed, exact.trans (by decide), above, passes⟩, fits, wide, wideComputed, ?_⟩
  rw [wideExact]
  decide

end Budget

end CoinLayers
