import CoinLayers.Proofs.Inputs
import CoinLayers.Proofs.Lookups

/-!
The search for the first unspent output of a transaction.

The outputs are looked up one after the other (`lookUp`). As long as they are found to be spent, or are not found at all,
the search goes on (`firstUnspentFrom_skips`); it ends with the first one that is unspent, or that cannot be looked up.
Whichever it is, the search has done no more than look up coins of this transaction (`browses_firstUnspentFrom`), so that
nothing is disturbed by it (`Undisturbed`).
-/
namespace CoinLayers

variable {ρ : Type} {truth : Shown} {txid : Hash256} {o : OutPoint} {coin : Coin}

/-- A cache in which nothing was disturbed but for outputs of one transaction: it has the same to write, has lost no entry,
    and has evicted none, and the others are no more there than before, and were not used. -/
structure Cache.Undisturbed (txid : Hash256) (cache later : Cache) : Prop where
  changes : ∀ (o : OutPoint) (entry : Entry), entry.isDirty = true →
    (later.entries[o]? = some entry ↔ cache.entries[o]? = some entry)
  kept : ∀ (o : OutPoint) (entry : Entry), cache.entries[o]? = some entry → later.entries[o]? = some entry
  evictions : later.evictions = cache.evictions
  others : ∀ o : OutPoint, o.txid ≠ txid → later.entries[o]? = cache.entries[o]?
  unused : later.recency.oldestFirst.filter (·.txid ≠ txid) = cache.recency.oldestFirst.filter (·.txid ≠ txid)

/-- So it is in a cache in which outputs of the transaction were looked up. -/
theorem Cache.Browsed.undisturbed {cache later : Cache} {places : List OutPoint} (browsed : cache.Browsed places later)
    (searched : ∀ o ∈ places, o.txid = txid) : cache.Undisturbed txid later where
  changes _ _ dirty := browsed.filled.dirty_iff dirty
  kept _ _ found := browsed.filled.still found
  evictions := browsed.apart.evictions
  others o other := (browsed.entries o).resolve_right fun looked => other (searched o looked.1)
  unused := by
    have through (order : List OutPoint) :
        order.filter (·.txid ≠ txid) = (order.filter (· ∉ places)).filter (·.txid ≠ txid) := by
      rw [List.filter_filter]
      refine List.filter_congr fun o _ => ?_
      by_cases looked : o ∈ places
      · simp [looked, searched o looked]
      · simp [looked]
    rw [through, browsed.order, ← through]

namespace Layers

variable [Backing ρ] {Proper : ρ → Prop} {layers : Layers ρ} {depth number count : Nat} {said : List Event} {why : Failure}
  {found : Option Coin}

/-! ### Lookups -/

theorem browse_concat {places : List OutPoint} :
    browse depth (places ++ [o]) layers = (read o depth (browse depth places layers)).state := by
  rw [browse, List.map_append, after_append]
  rfl

theorem fetched_browse (laws : Truthful Proper truth) (proper : EveryRoot Proper layers) (depth : Nat)
    (places : List OutPoint) : Fetched Proper truth layers (browse depth places layers) := by
  induction places generalizing layers with
  | nil => exact .refl proper
  | cons o rest ih =>
    have first := fetched_read laws proper o depth
    exact first.trans (ih first.proper)

/-- The lookup of an output, after those of all before it. -/
def lookUp (txid : Hash256) (depth number : Nat) (layers : Layers ρ) : Outcome (Layers ρ) (Option Coin) :=
  read (Transaction.place txid number) depth (browse depth ((List.range number).map (Transaction.place txid)) layers)

/-- It tells what was seen at the start. -/
theorem lookUp_tells (laws : Truthful Proper truth) (proper : EveryRoot Proper layers)
    (told : (lookUp txid depth number layers).result = .ok found) :
    unspentIn (.ok found) = sees truth depth layers (Transaction.place txid number) := by
  have fetched := fetched_browse laws proper depth ((List.range number).map (Transaction.place txid))
  rw [read_tells laws fetched.proper told, fetched.sees]

/-- All outputs before a number can be looked up, and none of them is unspent. -/
def NoneBefore (truth : Shown) (txid : Hash256) (depth number : Nat) (layers : Layers ρ) : Prop :=
  ∀ earlier < number, (∃ found, (lookUp txid depth earlier layers).result = .ok found) ∧
    sees truth depth layers (Transaction.place txid earlier) = none

/-! ### One output -/

theorem firstUnspentFrom_spent (told : (read (Transaction.place txid number) depth layers).result = .ok found)
    (spent : unspentIn (.ok found) = none) :
    firstUnspentFrom txid depth (count + 1) number said layers =
      firstUnspentFrom txid depth count (number + 1)
        (said ++ (read (Transaction.place txid number) depth layers).events)
        (read (Transaction.place txid number) depth layers).state := by
  rw [firstUnspentFrom, sight, Outcome.map, told]
  cases found with
  | none => rfl
  | some coin =>
    have isSpent : coin.isSpent = true := Coin.unspent?_eq_none.mp spent
    exact if_pos isSpent

theorem firstUnspentFrom_fails (failed : (read (Transaction.place txid number) depth layers).result = .error why) :
    (firstUnspentFrom txid depth (count + 1) number said layers).result = .error why := by
  rw [firstUnspentFrom, sight, Outcome.map, failed]
  rfl

/-- An unspent output is found, and is found again by the second look at it. -/
theorem firstUnspentFrom_unspent (there : (cacheAt? depth layers).isSome = true)
    (told : (read (Transaction.place txid number) depth layers).result = .ok (some coin)) (unspent : coin.isSpent = false) :
    (firstUnspentFrom txid depth (count + 1) number said layers).result = .ok (.cached coin) := by
  obtain ⟨above, skip, cache, below, reached, -, -, again⟩ := found_again there told
  obtain ⟨-, -, sighted⟩ := again below
  rw [← reached] at sighted
  have ends : firstUnspentFrom txid depth (count + 1) number said layers =
      (sight (Transaction.place txid number) depth (read (Transaction.place txid number) depth layers).state).after
        (said ++ (read (Transaction.place txid number) depth layers).events) := by
    rw [firstUnspentFrom, sight, Outcome.map, told]
    exact if_neg (Bool.eq_false_iff.mp unspent)
  rw [ends, sighted]
  rfl

/-- Whatever the search finds, it has looked up outputs of the transaction. -/
theorem browses_firstUnspentFrom (txid : Hash256) (depth count number : Nat) (said : List Event) (layers : Layers ρ) :
    ∃ searched : List OutPoint, (∀ o ∈ searched, o.txid = txid) ∧
      (firstUnspentFrom txid depth count number said layers).state = browse depth searched layers := by
  induction count generalizing number said layers with
  | zero => exact ⟨[], List.forall_mem_nil _, rfl⟩
  | succ count ih =>
    rw [firstUnspentFrom]
    rcases looked : sight (Transaction.place txid number) depth layers with ⟨_ | seen, lower, events⟩
    · exact ⟨[Transaction.place txid number], List.forall_mem_singleton.mpr rfl, (congrArg Outcome.state looked).symm⟩
    · obtain rfl : (read (Transaction.place txid number) depth layers).state = lower := congrArg Outcome.state looked
      dsimp only
      split
      · obtain ⟨searched, known, ends⟩ := ih (number + 1) (said ++ events)
          (read (Transaction.place txid number) depth layers).state
        exact ⟨Transaction.place txid number :: searched, List.forall_mem_cons.mpr ⟨rfl, known⟩, ends⟩
      · refine ⟨[Transaction.place txid number, Transaction.place txid number], ?_, rfl⟩
        exact List.forall_mem_cons.mpr ⟨rfl, List.forall_mem_singleton.mpr rfl⟩

/-! ### The search -/

section Search

variable (laws : Truthful Proper truth) (proper : EveryRoot Proper layers)
include laws proper

/-- The search passes over outputs that are not unspent. -/
theorem firstUnspentFrom_skips (passed : NoneBefore truth txid depth number layers) (rest : Nat) : ∃ said,
    firstUnspentFrom txid depth (number + rest) 0 [] layers =
      firstUnspentFrom txid depth rest number said
        (browse depth ((List.range number).map (Transaction.place txid)) layers) := by
  induction number generalizing rest with
  | zero =>
    rw [Nat.zero_add]
    exact ⟨[], rfl⟩
  | succ number ih =>
    obtain ⟨⟨found, told⟩, unseen⟩ := passed number (Nat.lt_succ_self number)
    obtain ⟨said, skipped⟩ := ih (fun earlier less => passed earlier (Nat.lt_succ_of_lt less)) (rest + 1)
    have spent : unspentIn (.ok found) = none := (lookUp_tells laws proper told).trans unseen
    refine ⟨said ++ (lookUp txid depth number layers).events, ?_⟩
    rw [Nat.add_right_comm, Nat.add_assoc, skipped, firstUnspentFrom_spent told spent]
    rw [List.range_succ, List.map_append, List.map_singleton, browse_concat]
    rfl

theorem isSome_cacheAt?_browse (there : (cacheAt? depth layers).isSome = true) (places : List OutPoint) :
    (cacheAt? depth (browse depth places layers)).isSome = true := by
  obtain ⟨cache, here⟩ := Option.isSome_iff_exists.mp there
  obtain ⟨later, still, _⟩ := (fetched_browse laws proper depth places).caches depth cache here
  exact Option.isSome_iff_exists.mpr ⟨later, still⟩

/-- It ends with the first unspent output, -/
theorem firstUnspent_found (there : (cacheAt? depth layers).isSome = true) (inside : number < Transaction.maxOutputs)
    (passed : NoneBefore truth txid depth number layers) (looked : (lookUp txid depth number layers).result = .ok found)
    (seen : sees truth depth layers (Transaction.place txid number) = some coin) :
    (firstUnspent txid depth layers).result = .ok (.cached coin) := by
  obtain ⟨same, unspent⟩ := unspentIn_eq_some.mp ((lookUp_tells laws proper looked).trans seen)
  obtain ⟨rest, split⟩ := Nat.exists_eq_add_of_lt inside
  obtain ⟨said, skipped⟩ := firstUnspentFrom_skips laws proper passed (rest + 1)
  rw [firstUnspent, split, Nat.add_assoc, skipped]
  refine firstUnspentFrom_unspent (isSome_cacheAt?_browse laws proper there _) ?_ unspent
  exact looked.trans same

/-- with the first one that cannot be looked up, -/
theorem firstUnspent_fails (inside : number < Transaction.maxOutputs) (passed : NoneBefore truth txid depth number layers)
    (failed : (lookUp txid depth number layers).result = .error why) :
    (firstUnspent txid depth layers).result = .error why := by
  obtain ⟨rest, split⟩ := Nat.exists_eq_add_of_lt inside
  obtain ⟨said, skipped⟩ := firstUnspentFrom_skips laws proper passed (rest + 1)
  rw [firstUnspent, split, Nat.add_assoc, skipped]
  exact firstUnspentFrom_fails failed

/-- or after the last one that there can be. -/
theorem firstUnspent_nothing (passed : NoneBefore truth txid depth Transaction.maxOutputs layers) :
    (firstUnspent txid depth layers).result = .ok .nothing := by
  obtain ⟨said, skipped⟩ := firstUnspentFrom_skips laws proper passed 0
  rw [firstUnspent, ← Nat.add_zero Transaction.maxOutputs, skipped]
  rfl

omit laws proper in
/-- Among the outputs before a number there is one of these kinds, or none. -/
theorem ends_or_none (truth : Shown) (txid : Hash256) (depth count : Nat) (layers : Layers ρ) :
    NoneBefore truth txid depth count layers ∨ ∃ number < count, NoneBefore truth txid depth number layers ∧
      ((∃ why, (lookUp txid depth number layers).result = .error why) ∨
        ∃ found coin, (lookUp txid depth number layers).result = .ok found ∧
          sees truth depth layers (Transaction.place txid number) = some coin) := by
  induction count with
  | zero => exact .inl fun _ inside => absurd inside (Nat.not_lt_zero _)
  | succ count ih =>
    rcases ih with passed | ⟨number, inside, ends⟩
    · cases looked : (lookUp txid depth count layers).result with
      | error why => exact .inr ⟨count, Nat.lt_succ_self count, passed, .inl ⟨why, looked⟩⟩
      | ok found =>
        cases seen : sees truth depth layers (Transaction.place txid count) with
        | some coin => exact .inr ⟨count, Nat.lt_succ_self count, passed, .inr ⟨found, coin, looked, seen⟩⟩
        | none =>
          refine .inl fun earlier inside => ?_
          rcases Nat.lt_succ_iff_lt_or_eq.mp inside with less | rfl
          · exact passed earlier less
          · exact ⟨⟨found, looked⟩, seen⟩
    · exact .inr ⟨number, Nat.lt_succ_of_lt inside, ends⟩

end Search

/-- What it means that a search finds the first unspent output of a transaction. -/
structure FindsFirst (truth : Shown) (txid : Hash256) (depth : Nat) (layers : Layers ρ) : Prop where
  /-- It answers an unspent coin that is seen, if all outputs before can be looked up and none of them is unspent. -/
  found_iff : ∀ coin, (firstUnspent txid depth layers).result = .ok (.cached coin) ↔
    ∃ number < Transaction.maxOutputs, NoneBefore truth txid depth number layers ∧
      (∃ found, (lookUp txid depth number layers).result = .ok found) ∧
      sees truth depth layers (Transaction.place txid number) = some coin
  /-- It answers nothing if all outputs can be looked up and none is unspent. -/
  nothing_iff : (firstUnspent txid depth layers).result = .ok .nothing ↔
    NoneBefore truth txid depth Transaction.maxOutputs layers
  /-- It fails as the lookup of an output does, if all before it can be looked up and none of them is unspent. -/
  fails_iff : ∀ why, (firstUnspent txid depth layers).result = .error why ↔
    ∃ number < Transaction.maxOutputs, NoneBefore truth txid depth number layers ∧
      (lookUp txid depth number layers).result = .error why

theorem finds_first (laws : Truthful Proper truth) (proper : EveryRoot Proper layers)
    (there : (cacheAt? depth layers).isSome = true) (txid : Hash256) : FindsFirst truth txid depth layers := by
  have finds {number : Nat} {coin : Coin} (inside : number < Transaction.maxOutputs)
      (passed : NoneBefore truth txid depth number layers)
      (looked : ∃ found, (lookUp txid depth number layers).result = .ok found)
      (seen : sees truth depth layers (Transaction.place txid number) = some coin) :
      (firstUnspent txid depth layers).result = .ok (.cached coin) :=
    have ⟨_, looked⟩ := looked
    firstUnspent_found laws proper there inside passed looked seen
  constructor
  · intro coin
    refine ⟨fun ended => ?_, fun ⟨number, inside, passed, looked, seen⟩ => finds inside passed looked seen⟩
    rcases ends_or_none truth txid depth Transaction.maxOutputs layers with
      passed | ⟨number, inside, passed, ⟨why, failed⟩ | ⟨found, other, looked, seen⟩⟩
    · cases ended.symm.trans (firstUnspent_nothing laws proper passed)
    · cases ended.symm.trans (firstUnspent_fails laws proper inside passed failed)
    · cases ended.symm.trans (finds inside passed ⟨found, looked⟩ seen)
      exact ⟨number, inside, passed, ⟨found, looked⟩, seen⟩
  · refine ⟨fun ended => ?_, firstUnspent_nothing laws proper⟩
    rcases ends_or_none truth txid depth Transaction.maxOutputs layers with
      passed | ⟨number, inside, passed, ⟨why, failed⟩ | ⟨found, other, looked, seen⟩⟩
    · exact passed
    · cases ended.symm.trans (firstUnspent_fails laws proper inside passed failed)
    · cases ended.symm.trans (finds inside passed ⟨found, looked⟩ seen)
  · intro why
    refine ⟨fun ended => ?_, fun ⟨number, inside, passed, failed⟩ => firstUnspent_fails laws proper inside passed failed⟩
    rcases ends_or_none truth txid depth Transaction.maxOutputs layers with
      passed | ⟨number, inside, passed, ⟨cause, failed⟩ | ⟨found, other, looked, seen⟩⟩
    · cases ended.symm.trans (firstUnspent_nothing laws proper passed)
    · cases ended.symm.trans (firstUnspent_fails laws proper inside passed failed)
      exact ⟨number, inside, passed, failed⟩
    · cases ended.symm.trans (finds inside passed ⟨found, looked⟩ seen)

/-- Layers in which nothing was disturbed but for outputs of one transaction. Every layer shows what it did, and any read of
    them tells so. -/
structure Undisturbed (truth : Shown) (txid : Hash256) (before after : Layers ρ) : Prop where
  sees : ∀ depth, sees truth depth after = sees truth depth before
  reads : ReadsAs truth after
  caches : ∀ place cache, cacheAt? place before = some cache →
    ∃ later, cacheAt? place after = some later ∧ cache.Undisturbed txid later

/-- Let some layers lie over stores that tell the truth whenever they can be read. Then a cache among them finds the first
    unspent output of a transaction, if the search does not come to one that cannot be looked up before. Whatever it finds,
    it disturbs nothing. -/
theorem first_unspent_found (laws : Truthful Proper truth) (proper : EveryRoot Proper layers)
    (there : (cacheAt? depth layers).isSome = true) (txid : Hash256) :
    ReadsAs truth layers ∧ FindsFirst truth txid depth layers ∧
      Undisturbed truth txid layers (firstUnspent txid depth layers).state := by
  refine ⟨fun _ _ _ told => read_tells laws proper told, finds_first laws proper there txid, ?_⟩
  obtain ⟨searched, known, ends⟩ := browses_firstUnspentFrom txid depth Transaction.maxOutputs 0 [] layers
  have fetched := fetched_browse laws proper depth searched
  rw [firstUnspent, ends]
  refine ⟨fetched.sees, fun _ _ _ told => read_tells laws fetched.proper told, fun place cache here => ?_⟩
  obtain ⟨later, still, browsed⟩ := browsed_browse (fun _ => id) depth layers place cache here
  exact ⟨later, still, browsed.undisturbed known⟩

/-- A store with the first and the third output of a transaction. One place of it cannot be read. -/
def thirdStore (unreadable : UInt32) : ScriptedStore :=
  ⟨MemoryStore.oneCoin.insert ⟨.zero, 2⟩ ⟨7, 1, false, .empty, false⟩,
    [(⟨.zero, unreadable⟩, .io "corrupted block file")], [], false, [], [], 0⟩

/-- The first output is spent in a cache over it. -/
def thirdLeft (unreadable : UInt32) : Layers ScriptedStore :=
  [.cached 0 ((Cache.empty .standard).put ⟨.zero, 0⟩ ⟨.spent, ⟨true, false⟩⟩), .guarded 0 ⟨1, false, []⟩,
    .root (thirdStore unreadable)]

/-- The third output is found, even if the fourth cannot be read; but not if the second cannot. -/
theorem thirdLeft_found :
    (firstUnspent .zero 0 (thirdLeft 3)).result = .ok (.cached ⟨7, 1, false, .empty, false⟩) ∧
    (firstUnspent .zero 0 (thirdLeft 1)).result = .error corrupted ∧
    ∀ unreadable, Undisturbed (storeShows (thirdStore unreadable)) .zero (thirdLeft unreadable)
      (firstUnspent .zero 0 (thirdLeft unreadable)).state := by
  have proper (unreadable : UInt32) : EveryRoot (fun later => True ∧ ∀ o, (Backing.read o later).1 =
      (Backing.read o (thirdStore unreadable)).1) (thirdLeft unreadable) :=
    everyRoot_cached.mpr (everyRoot_guarded.mpr (everyRoot_root.mpr ⟨⟨trivial, fun _ => rfl⟩, nofun⟩))
  have found (unreadable : UInt32) : _ ∧ FindsFirst _ .zero 0 (thirdLeft unreadable) ∧ _ :=
    first_unspent_found (ScriptedStore.steady.truthful (thirdStore unreadable)) (proper unreadable) rfl .zero
  refine ⟨((found 3).2.1.found_iff _).mpr ⟨2, by decide, ?_, ⟨_, rfl⟩, rfl⟩,
    ((found 1).2.1.fails_iff _).mpr ⟨1, by decide, ?_, rfl⟩, fun unreadable => (found unreadable).2.2⟩
  · rintro (_ | _ | earlier) inside
    · exact ⟨⟨_, rfl⟩, rfl⟩
    · exact ⟨⟨_, rfl⟩, rfl⟩
    · omega
  · rintro (_ | earlier) inside
    · exact ⟨⟨_, rfl⟩, rfl⟩
    · omega

end Layers

end CoinLayers
