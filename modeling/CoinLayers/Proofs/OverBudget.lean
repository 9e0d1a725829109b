import CoinLayers.Proofs.Apart
import CoinLayers.Proofs.LeastRecent

/-!
What an addition evicts that brings a cache over its limit.

The entries are passed from the least recently used on, the new coin being the last. Only entries without changes go,
and an eviction that passes some outpoints takes their bytes off the count (`Sweep.bytes_passAll`). So it passes as many
as it takes to come down to the target (`Cache.reach`), and it takes nothing that it has not passed (`add_evicts`).
-/
namespace CoinLayers

namespace Budget

variable {budget : Budget} {a b c target : UInt64}

theorem toNat_product? (fits : product? a b = some c) : c.toNat = a.toNat * b.toNat := by
  rw [product?, Option.ite_none_right_eq_some] at fits
  obtain ⟨small, product⟩ := fits
  cases product
  rw [UInt64.toNat_mul]
  exact Nat.mod_eq_of_lt small

theorem toNat_sum? (fits : sum? a b = some c) : c.toNat = a.toNat + b.toNat := by
  rw [sum?, Option.ite_none_right_eq_some] at fits
  obtain ⟨small, sum⟩ := fits
  cases sum
  rw [UInt64.toNat_add]
  exact Nat.mod_eq_of_lt small

/-- If no step leaves the range of a word, the words come to the size to shrink to. -/
theorem toNat_target? (fits : budget.target? = some target) : target.toNat = budget.target := by
  simp only [target?, Option.bind_eq_bind, Option.bind_eq_some_iff] at fits
  obtain ⟨hundreds, whole, rest, part, sum⟩ := fits
  rw [toNat_sum? sum, UInt64.toNat_div, toNat_product? whole, toNat_product? part, UInt64.toNat_div, UInt64.toNat_mod,
    UInt8.toNat_toUInt64]
  rfl

end Budget

namespace Cache

variable {cache : Cache} {target k : Nat}

/-- The bytes of the entries without changes at some outpoints. -/
def idleBytes (cache : Cache) (places : List OutPoint) : Nat :=
  ((places.filter cache.idleAt).map cache.footprintAt).foldr (· + ·) 0

theorem idleBytes_cons (o : OutPoint) (places : List OutPoint) :
    cache.idleBytes (o :: places) = cache.idleBytes [o] + cache.idleBytes places := by
  cases idle : cache.idleAt o <;> simp [idleBytes, idle]

/-- How many of the least recently used outpoints have to be passed for the bytes to come down to a target: the least
    number that will do, or all of them if none does. -/
def reach (cache : Cache) (target : Nat) : Nat :=
  (List.range cache.recency.oldestFirst.length).findIdx fun k =>
    cache.usage.bytes - cache.idleBytes (cache.recency.oldestFirst.take k) ≤ target

/-- The outpoints that are passed to come down to a target. -/
def passedFor (cache : Cache) (target : Nat) : List OutPoint :=
  cache.recency.oldestFirst.take (cache.reach target)

/-- The outpoints that are not. -/
def sparedBy (cache : Cache) (target : Nat) : List OutPoint :=
  cache.recency.oldestFirst.drop (cache.reach target)

theorem eq_reach (within : k ≤ cache.recency.oldestFirst.length)
    (before : ∀ j < k, target < cache.usage.bytes - cache.idleBytes (cache.recency.oldestFirst.take j))
    (reached : k = cache.recency.oldestFirst.length ∨
      cache.usage.bytes - cache.idleBytes (cache.recency.oldestFirst.take k) ≤ target) : k = cache.reach target := by
  have early (j : Nat) (less : j < k) :
      decide (cache.usage.bytes - cache.idleBytes (cache.recency.oldestFirst.take j) ≤ target) = false :=
    decide_eq_false (Nat.not_le_of_lt (before j less))
  rcases Nat.lt_or_eq_of_le within with inside | whole
  · have met := reached.resolve_left (Nat.ne_of_lt inside)
    have listed : k < (List.range cache.recency.oldestFirst.length).length := by rwa [List.length_range]
    refine ((List.findIdx_eq listed).mpr ⟨?_, fun j less => ?_⟩).symm
    · rw [List.getElem_range]
      exact decide_eq_true met
    · rw [List.getElem_range]
      exact early j less
  · rw [reach, List.findIdx_eq_length_of_false, List.length_range, whole]
    intro j listed
    exact early j (whole ▸ List.mem_range.mp listed)

end Cache

/-! ### Passing outpoints -/

namespace Sweep

variable {sweep : Sweep} {taken : List OutPoint} {o p : OutPoint}

/-- To pass an outpoint decides nothing about the entries at others. -/
theorem filter_idleAt_pass (others : o ∉ taken) :
    taken.filter (sweep.pass o).cache.idleAt = taken.filter sweep.cache.idleAt := by
  refine List.filter_congr fun p member => ?_
  have different : p ≠ o := fun same => others (same ▸ member)
  rw [Cache.idleAt, getElem?_pass, if_neg (different ·.1), Cache.idleAt]

theorem idleBytes_pass (others : o ∉ taken) : (sweep.pass o).cache.idleBytes taken = sweep.cache.idleBytes taken := by
  rw [Cache.idleBytes, filter_idleAt_pass others, Cache.idleBytes]
  refine congrArg (List.foldr (· + ·) 0) (List.map_congr_left fun p member => ?_)
  have different : p ≠ o := fun same => others (same ▸ (List.mem_filter.mp member).1)
  rw [Cache.footprintAt, getElem?_pass, if_neg (different ·.1), Cache.footprintAt]

/-- The bytes of an entry that goes are taken off the count. -/
theorem bytes_pass (balanced : sweep.cache.Balanced) :
    (sweep.pass o).cache.usage.bytes + sweep.cache.idleBytes [o] = sweep.cache.usage.bytes := by
  cases found : sweep.cache.entries[o]? with
  | none => simp [pass, Cache.idleBytes, Cache.idleAt, found]
  | some entry =>
    cases dirty : entry.isDirty with
    | true => simp [pass, Cache.idleBytes, Cache.idleAt, found, dirty]
    | false =>
      have counted := Entries.footprint_erase_add found
      have passed : (sweep.pass o).cache = sweep.cache.erase o := by simp [pass, found, dirty]
      rw [passed, balanced.erase, balanced, Cache.entries_erase]
      simp [Cache.idleBytes, Cache.idleAt, Cache.footprintAt, found, dirty, counted]

theorem gone_pass : (sweep.pass o).gone = sweep.gone + ([o].filter sweep.cache.idleAt).length := by
  cases found : sweep.cache.entries[o]? with
  | none => simp [pass, Cache.idleAt, found]
  | some entry => cases dirty : entry.isDirty <;> simp [pass, Cache.idleAt, found, dirty]

theorem bytes_passAll (sweep : Sweep) (balanced : sweep.cache.Balanced) (once : taken.Nodup) :
    (taken.foldl pass sweep).cache.usage.bytes + sweep.cache.idleBytes taken = sweep.cache.usage.bytes := by
  induction taken generalizing sweep with
  | nil => rfl
  | cons o rest ih =>
    obtain ⟨others, once⟩ := List.nodup_cons.mp once
    have first := bytes_pass (o := o) balanced
    have later := ih (sweep.pass o) balanced.pass once
    rw [idleBytes_pass others] at later
    rw [List.foldl_cons, Cache.idleBytes_cons]
    omega

theorem gone_passAll (once : taken.Nodup) :
    (taken.foldl pass sweep).gone = sweep.gone + (taken.filter sweep.cache.idleAt).length := by
  induction taken generalizing sweep with
  | nil => rfl
  | cons o rest ih =>
    obtain ⟨others, once⟩ := List.nodup_cons.mp once
    rw [List.foldl_cons, ih once, filter_idleAt_pass others, gone_pass, Nat.add_assoc, ← List.length_append,
      ← List.filter_append, List.singleton_append]

end Sweep

/-! ### Evictions -/

namespace Cache

variable {cache later : Cache} {taken rest : List OutPoint} {o p : OutPoint} {coin : Coin} {mayOverwrite : Bool}
  {target : UInt64}

/-- What is left of a cache when some outpoints in its order of use have been passed, and the rest have not. -/
structure Evicts (cache : Cache) (taken rest : List OutPoint) (later : Cache) : Prop where
  /-- Just the entries without changes that were passed are gone. -/
  entries : ∀ p : OutPoint,
    later.entries[p]? = if p ∈ taken ∧ cache.idleAt p = true then none else cache.entries[p]?
  evictions : later.evictions = cache.evictions + (taken.filter cache.idleAt).length
  /-- Those with changes that were passed have become the newest. -/
  order : later.recency.oldestFirst = rest ++ taken.filter cache.changedAt
  bytes : later.usage.bytes = cache.usage.bytes - cache.idleBytes taken
  balanced : later.Balanced

/-- An entry goes if it has nothing to write, and so does nothing where there is no entry. -/
theorem getElem?_evicted_idle : (cache.evicted taken).entries[p]? =
    if p ∈ taken ∧ cache.idleAt p = true then none else cache.entries[p]? := by
  rw [getElem?_evicted, idleAt, changedAt]
  cases found : cache.entries[p]? with
  | none => simp
  | some entry => cases dirty : entry.isDirty <;> simp [dirty]

theorem bytes_evicted (balanced : cache.Balanced) (once : taken.Nodup) :
    (cache.evicted taken).usage.bytes + cache.idleBytes taken = cache.usage.bytes := by
  show (List.foldl touch _ (taken.foldl Sweep.pass ⟨cache, [], 0⟩).parked).usage.bytes + _ = _
  rw [usage_touchAll]
  exact Sweep.bytes_passAll ⟨cache, [], 0⟩ balanced once

theorem evictions_evicted (once : taken.Nodup) :
    (cache.evicted taken).evictions = cache.evictions + (taken.filter cache.idleAt).length := by
  have same := @SameApart.passAll taken ⟨cache, [], 0⟩
  show (List.foldl touch _ (taken.foldl Sweep.pass ⟨cache, [], 0⟩).parked).evictions + _ = _
  rw [(same.trans .touchAll).evictions, Sweep.gone_passAll once, Nat.zero_add]

/-- An eviction passes the least recently used outpoints, as many as it takes to come down to the target. -/
theorem evicts_shrink (balanced : cache.Balanced) :
    cache.Evicts (cache.passedFor cache.budget.target) (cache.sparedBy cache.budget.target) cache.shrink.state := by
  obtain ⟨k, within, leaves, before, reached⟩ := cache.shrink_evicts
  have once (j : Nat) : (cache.recency.oldestFirst.take j).Nodup :=
    Recency.nodup_oldestFirst.sublist (List.take_sublist ..)
  have bytes (j : Nat) := Nat.eq_sub_of_add_eq (Sweep.bytes_passAll ⟨cache, [], 0⟩ balanced (once j))
  have here : k = cache.reach cache.budget.target :=
    eq_reach within (fun j less => bytes j ▸ before j less) (bytes k ▸ reached)
  have balancedLater := balanced.shrink
  rw [passedFor, sparedBy, ← here]
  rw [leaves] at balancedLater ⊢
  exact ⟨fun _ => getElem?_evicted_idle, evictions_evicted (once k),
    oldestFirst_evicted (List.take_append_drop k _).symm, Nat.eq_sub_of_add_eq (bytes_evicted balanced (once k)),
    balancedLater⟩

/-- An eviction that has passed everything on record leaves changes only, if all entries are on record. -/
theorem met_or_changed (recorded : ∀ o, cache.recency.contains o = cache.entries.contains o) :
    cache.shrink.state.usage.bytes ≤ cache.budget.target ∨
      ∀ (p : OutPoint) (entry : Entry), cache.shrink.state.entries[p]? = some entry → entry.isDirty = true := by
  obtain ⟨k, within, leaves, _, ⟨rfl⟩ | met⟩ := cache.shrink_evicts
  · right
    intro p entry found
    rw [leaves, List.take_length, getElem?_evicted_idle] at found
    split at found
    · cases found
    · next stays =>
      have passed : p ∈ cache.recency.oldestFirst := by
        rw [← Recency.contains_iff, recorded, Std.ExtTreeMap.contains_eq_isSome_getElem?, found]
        rfl
      have notIdle : cache.idleAt p ≠ true := fun idle => stays ⟨passed, idle⟩
      simpa [idleAt, found] using notIdle
  · left
    rw [leaves]
    show (List.foldl touch _ (List.foldl Sweep.pass ⟨cache, [], 0⟩ _).parked).usage.bytes ≤ _
    rw [usage_touchAll]
    exact met

/-- What becomes of a cache that has to come down to a target. -/
structure ComesDown (cache : Cache) (target : Nat) (later : Cache) : Prop where
  evicts : cache.Evicts (cache.passedFor target) (cache.sparedBy target) later
  /-- The target is met, or nothing is left that could go. -/
  met : later.usage.bytes ≤ target ∨
    ∀ (p : OutPoint) (entry : Entry), later.entries[p]? = some entry → entry.isDirty = true
  changes : ∀ (p : OutPoint) (entry : Entry), cache.entries[p]? = some entry → entry.isDirty = true →
    later.entries[p]? = some entry
  /-- Just the entries that are left have a record of use. -/
  recorded : ∀ p, later.recency.contains p = later.entries.contains p

theorem comesDown_shrink (recorded : ∀ o, cache.recency.contains o = cache.entries.contains o)
    (balanced : cache.Balanced) : cache.ComesDown cache.budget.target cache.shrink.state where
  evicts := evicts_shrink balanced
  met := met_or_changed recorded
  changes p entry found dirty := by
    have notIdle : ¬cache.idleAt p = true := by simp [idleAt, found, dirty]
    rw [(evicts_shrink balanced).entries, if_neg fun both => notIdle both.2, found]
  recorded p := by
    rcases Matches.shrink p with together | ⟨record, entry⟩
    · exact together
    · rw [record, entry, recorded]

/-- Which outpoints were overwritten is of no matter. -/
theorem ComesDown.unwarned {seen : Seen OutPoint} {target : Nat}
    (down : ComesDown { cache with overwritten := seen } target later) : cache.ComesDown target later :=
  ⟨⟨down.evicts.entries, down.evicts.evictions, down.evicts.order, down.evicts.bytes, down.evicts.balanced⟩,
    down.met, down.changes, down.recorded⟩

/-! ### Additions -/

/-- Whether an addition puts the coin in: one that can be spent, and takes the place of no unspent one unless it may. -/
def Stores (cache : Cache) (o : OutPoint) (coin : Coin) (mayOverwrite : Bool) : Prop :=
  coin.isUnspendable = false ∧ (cache.holds o = true → mayOverwrite = true)

/-- The entry that an addition puts in. -/
def additionAt (cache : Cache) (o : OutPoint) (coin : Coin) (mayOverwrite : Bool) : Entry :=
  match cache.entries[o]? with
  | none => ⟨coin, ⟨true, !mayOverwrite⟩⟩
  | some old => ⟨coin, ⟨true, old.isFresh⟩⟩

/-- The cache with the coin put in as the newest, before anything is evicted. -/
def stored (cache : Cache) (o : OutPoint) (coin : Coin) (mayOverwrite : Bool) : Cache :=
  (cache.put o (cache.additionAt o coin mayOverwrite)).touch o

theorem balanced_stored (balanced : cache.Balanced) : (cache.stored o coin mayOverwrite).Balanced :=
  (balanced.put (o := o)).touch (o := o)

theorem recorded_stored (recorded : ∀ o, cache.recency.contains o = cache.entries.contains o) (p : OutPoint) :
    (cache.stored o coin mayOverwrite).recency.contains p = (cache.stored o coin mayOverwrite).entries.contains p := by
  rcases Matches.put p with together | ⟨record, entry⟩
  · exact together
  · rw [stored, record, entry, recorded]

/-- An addition that puts the coin in keeps it. Before, it may remember that it overwrites another, and say so. -/
theorem add_eq_keep (stores : cache.Stores o coin mayOverwrite) : ∃ (seen : Seen OutPoint) (said : List Event),
    (∀ event ∈ said, event = .overwritten o) ∧ cache.add o coin mayOverwrite =
      (keep { cache with overwritten := seen } o (cache.additionAt o coin mayOverwrite)).after said := by
  obtain ⟨spendable, free⟩ := stores
  rw [add, if_neg (by simp [spendable]), additionAt]
  cases found : cache.entries[o]? with
  | none => exact ⟨cache.overwritten, [], by simp, rfl⟩
  | some old =>
    cases spent : old.coin.isSpent with
    | true => exact ⟨cache.overwritten, [], by simp, by simp [spent, Entry.isFresh, Outcome.after]⟩
    | false =>
      obtain rfl : mayOverwrite = true := free (by simp [holds, found, spent])
      cases isNew : cache.overwritten.isNew o with
      | true => exact ⟨cache.overwritten.meet o, [.overwritten o], by simp, by simp [spent, Entry.isFresh]⟩
      | false => exact ⟨cache.overwritten, [], by simp, by simp [spent, Entry.isFresh, Outcome.after]⟩

/-- What a caller sees of it is what is kept. -/
theorem add_of_stores (stores : cache.Stores o coin mayOverwrite) : ∃ seen : Seen OutPoint,
    (cache.add o coin mayOverwrite).result =
      (keep { cache with overwritten := seen } o (cache.additionAt o coin mayOverwrite)).result ∧
    (cache.add o coin mayOverwrite).state =
      (keep { cache with overwritten := seen } o (cache.additionAt o coin mayOverwrite)).state := by
  obtain ⟨seen, said, _, kept⟩ := add_eq_keep stores
  rw [kept]
  exact ⟨seen, rfl, rfl⟩

/-- Any other addition does nothing. -/
theorem add_of_not_stores (ignored : ¬cache.Stores o coin mayOverwrite) :
    cache.add o coin mayOverwrite = .done () cache := by
  rw [add]
  split
  · rfl
  · next spendable =>
    have kept : cache.holds o = true ∧ mayOverwrite = false := by simpa [Stores, spendable] using ignored
    obtain ⟨old, found, unspent⟩ := (Option.any_eq_true ..).mp kept.1
    simp [show cache.entries[o]? = some old from found, show old.coin.isSpent = false by simpa using unspent, kept.2]

/-- Let a coin be put into a cache that counts its bytes right and has records of use for just its entries, let that
    bring the cache over its limit, and let the size to shrink to fit in a word. Then the cache comes down to that size,
    if changes do not keep it above: the outpoints are passed in the order of use, the new coin's being the last, as few
    of them as will do, and of their entries just those without changes go. -/
theorem add_comes_down (recorded : ∀ o, cache.recency.contains o = cache.entries.contains o) (balanced : cache.Balanced)
    (fits : cache.budget.target? = some target) (stores : cache.Stores o coin mayOverwrite)
    (exceeds : cache.budget.limit.toNat < (cache.stored o coin mayOverwrite).usage.bytes) :
    (cache.add o coin mayOverwrite).result = .ok () ∧
    (cache.stored o coin mayOverwrite).recency.oldestFirst = cache.recency.oldestFirst.filter (· ≠ o) ++ [o] ∧
    (cache.stored o coin mayOverwrite).ComesDown target.toNat (cache.add o coin mayOverwrite).state ∧
    (cache.add o coin mayOverwrite).state.entries[o]? = some (cache.additionAt o coin mayOverwrite) := by
  obtain ⟨seen, result, state⟩ := add_of_stores stores
  have kept : keep { cache with overwritten := seen } o (cache.additionAt o coin mayOverwrite) =
      shrink { cache.stored o coin mayOverwrite with overwritten := seen } := if_pos exceeds
  have warned : ComesDown { cache.stored o coin mayOverwrite with overwritten := seen } cache.budget.target
      (shrink { cache.stored o coin mayOverwrite with overwritten := seen }).state :=
    comesDown_shrink (recorded_stored recorded) (balanced_stored balanced)
  have down : (cache.stored o coin mayOverwrite).ComesDown target.toNat (cache.add o coin mayOverwrite).state := by
    rw [state, kept, Budget.toNat_target? fits]
    exact warned.unwarned
  refine ⟨?_, Recency.oldestFirst_touch, down, down.changes o _ ?_ ?_⟩
  · rw [result, kept]
    rfl
  · rw [stored, entries_touch, entries_put, Entries.getElem?_insert_ite, if_pos rfl]
  · rw [additionAt]
    split <;> rfl

/-- A cache for fourteen bytes, that shrinks to eight. It was given a coin, and has read two. -/
def crowded : Cache :=
  let given := ((Cache.empty ⟨14, 60⟩).add ⟨.zero, 1⟩ Layers.smallCoin false).state
  (given.load ⟨.zero, 0⟩ Layers.smallCoin).load ⟨.zero, 2⟩ Layers.smallCoin

/-- One coin more, and all three are passed. Those that were read go. -/
theorem crowded_comes_down :
    (∀ o, crowded.recency.contains o = crowded.entries.contains o) ∧ crowded.Balanced ∧
    crowded.budget.target? = some 8 ∧ crowded.Stores ⟨.zero, 3⟩ Layers.smallCoin false ∧
    crowded.budget.limit.toNat < (crowded.stored ⟨.zero, 3⟩ Layers.smallCoin false).usage.bytes ∧
    (crowded.stored ⟨.zero, 3⟩ Layers.smallCoin false).passedFor 8 = [⟨.zero, 1⟩, ⟨.zero, 0⟩, ⟨.zero, 2⟩] ∧
    (crowded.stored ⟨.zero, 3⟩ Layers.smallCoin false).ComesDown 8
      (crowded.add ⟨.zero, 3⟩ Layers.smallCoin false).state ∧
    (crowded.add ⟨.zero, 3⟩ Layers.smallCoin false).state.entries.keys = [⟨.zero, 1⟩, ⟨.zero, 3⟩] ∧
    (crowded.add ⟨.zero, 3⟩ Layers.smallCoin false).state.recency.oldestFirst = [⟨.zero, 3⟩, ⟨.zero, 1⟩] ∧
    (crowded.add ⟨.zero, 3⟩ Layers.smallCoin false).state.evictions = 2 := by
  have reading : Course (fun batch left => left.PartOf batch) [⟨.zero, 2⟩, ⟨.zero, 0⟩] (.empty ⟨14, 60⟩) crowded :=
    ((Turn.added _ _ rfl).course.step (.loaded _ (by decide))).step (.loaded _ (by decide))
  have fits : crowded.budget.target? = some 8 := rfl
  have stores : crowded.Stores ⟨.zero, 3⟩ Layers.smallCoin false := ⟨by decide, by decide⟩
  have exceeds : crowded.budget.limit.toNat < (crowded.stored ⟨.zero, 3⟩ Layers.smallCoin false).usage.bytes := by
    decide
  obtain ⟨_, _, down, _⟩ := add_comes_down reading.consistent.recorded reading.balanced fits stores exceeds
  exact ⟨reading.consistent.recorded, reading.balanced, fits, stores, exceeds, by decide, down, by decide, by decide,
    by decide⟩

end Cache

end CoinLayers
