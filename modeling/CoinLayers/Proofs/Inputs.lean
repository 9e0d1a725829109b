import CoinLayers.Proofs.Fetching
import CoinLayers.Proofs.Guarding
import CoinLayers.Proofs.TransactionView

/-!
Spending the inputs of a transaction: all of them, or none.

The check of the inputs asks the same questions as the plain question whether all of them are there
(`checkSources_iff`). It fetches their coins into the cache, and nothing that it fetched goes while it lasts, so that
every spend after it finds its coin cached (`spendSources_held`) and no read can fail any more. A check that fails has
done no more than fetch coins (`fetched_check`).
-/
namespace CoinLayers

theorem Script.fault?_of_andThen {ρ α β : Type} [Backing ρ] {script : Script α} {next : α → Script β} {depth : Nat}
    {layers : Layers ρ} (unharmed : (script.andThen next).fault? depth layers = none) :
    script.fault? depth layers = none := by
  induction script generalizing layers with
  | ends result => rfl
  | call request replied ih =>
    rw [Script.andThen, fault?] at unharmed
    rw [fault?]
    cases called : Layers.callFault? depth layers request with
    | some cause =>
      rw [called] at unharmed
      cases unharmed
    | none =>
      rw [called] at unharmed
      cases answered : (Layers.perform request depth layers).result with
      | error why => rfl
      | ok reply =>
        rw [answered] at unharmed
        exact ih reply unharmed

theorem Cache.holds_eq_true {cache : Cache} {o : OutPoint} :
    cache.holds o = true ↔ ∃ entry, cache.entries[o]? = some entry ∧ entry.coin.isSpent = false := by
  rw [holds, Option.any_eq_true]
  simp

/-- A cache after cached coins at some outpoints were spent: they are those that were seen through it, and can be seen
    no more. -/
structure Cache.Spends (sources : List OutPoint) (spends : List (OutPoint × Coin)) (before after : Cache) : Prop where
  listed : spends.map (·.1) = sources
  seen : ∀ shown : Shown, ∀ place ∈ spends, before.entries.atop shown place.1 = some place.2
  gone : ∀ shown : Shown,
    (∀ o ∈ sources, ∀ entry, before.entries[o]? = some entry → entry.isFresh = true → shown o = none) →
      after.entries.atop shown = (before.entries.atop shown).spendAll sources

namespace Cache.Spends

variable {cache later : Cache} {o : OutPoint} {entry : Entry} {rest : List OutPoint} {spends : List (OutPoint × Coin)}

theorem nil : Spends [] [] cache cache :=
  ⟨rfl, fun _ => List.forall_mem_nil _, fun _ _ => rfl⟩

/-- One coin is spent, and then the others, whose entries are as they were. -/
theorem cons (spent : Spends rest spends ((cache.touch o).spend o).2 later) (found : cache.entries[o]? = some entry)
    (unspent : entry.coin.isSpent = false) (notAgain : o ∉ rest) :
    Spends (o :: rest) ((o, entry.coin) :: spends) cache later := by
  have other (p : OutPoint) (member : p ∈ rest) : ((cache.touch o).spend o).2.entries[p]? = cache.entries[p]? :=
    getElem?_spend_other (ne_of_mem_of_not_mem member notAgain)
  refine ⟨by rw [List.map_cons, spent.listed], fun shown => ?_, fun shown fresh => ?_⟩
  · rw [List.forall_mem_cons]
    refine ⟨by rw [Entries.atop_of_some found, Coin.unspent?_of_unspent unspent], fun place member => ?_⟩
    have among : place.1 ∈ rest := spent.listed ▸ List.mem_map_of_mem member
    rw [← spent.seen shown place member, Entries.atop, Entries.atop, other place.1 among]
  · obtain ⟨freshHere, freshThere⟩ := List.forall_mem_cons.mp fresh
    have others := spent.gone shown fun p member mine there => freshThere p member mine ((other p member).symm.trans there)
    have once : ((cache.touch o).spend o).2.entries.atop shown = Shown.spend (cache.entries.atop shown) o :=
      atop_spend found (freshHere entry found)
    rw [others, once]
    rfl

end Cache.Spends

namespace Layers

variable {ρ : Type} [Backing ρ] {Proper : ρ → Prop} {truth : Shown} {layers below : Layers ρ} {depth skip : Nat}
  {cache : Cache} {o : OutPoint} {earlier sources : List OutPoint}

/-! ### The check -/

/-- The check passes if the outpoints are distinct and new, and all of them are said to be there. -/
theorem checkSources_iff :
    (checkSources depth earlier sources layers).result = .ok () ↔
      sources.Nodup ∧ (∀ o ∈ sources, o ∉ earlier) ∧ (holdsAll depth sources layers).result = .ok true := by
  induction sources generalizing earlier layers with
  | nil => simp [checkSources, holdsAll, Outcome.done]
  | cons o rest ih =>
    rw [checkSources]
    split
    · next again =>
      have member : o ∈ earlier := by simpa using again
      simp [Outcome.failed, member]
    · next new =>
      have notEarlier : o ∉ earlier := by simpa using new
      rw [holdsAll, Outcome.andThen, Outcome.andThen]
      cases (holds o depth layers).result with
      | error why => simp
      | ok held =>
        cases held with
        | false => simp [Outcome.failed, Outcome.done, Outcome.after]
        | true =>
          show (checkSources depth (o :: earlier) rest (holds o depth layers).state).result = .ok () ↔
            _ ∧ _ ∧ (holdsAll depth rest (holds o depth layers).state).result = .ok true
          rw [ih]
          grind

section Acting

variable (laws : Truthful Proper truth)
include laws

/-- The check only fetches coins. If it passes, all of them are cached. -/
theorem fetched_check (proper : EveryRoot Proper layers) (acting : layers.drop depth = .cached skip cache :: below)
    (earlier sources : List OutPoint) :
    Fetched Proper truth layers (checkSources depth earlier sources layers).state ∧
      ((checkSources depth earlier sources layers).result = .ok () →
        ∀ later, cacheAt? depth (checkSources depth earlier sources layers).state = some later →
          ∀ o ∈ sources, later.holds o = true) := by
  induction sources generalizing earlier layers cache below with
  | nil => exact ⟨.refl proper, fun _ _ _ => List.forall_mem_nil _⟩
  | cons o rest ih =>
    rw [checkSources]
    split
    · exact ⟨.refl proper, fun passed => by cases passed⟩
    · have fetched := fetched_holds acting laws proper o
      rw [Outcome.andThen]
      cases told : (holds o depth layers).result with
      | error why => exact ⟨fetched, fun passed => by cases passed⟩
      | ok held =>
        cases held with
        | false => exact ⟨fetched, fun passed => by cases passed⟩
        | true =>
          obtain ⟨later, lower, still, -, -⟩ := fetched.acting acting
          obtain ⟨further, cached⟩ := ih fetched.proper still (o :: earlier)
          refine ⟨fetched.trans further, fun ok last there => ?_⟩
          rw [List.forall_mem_cons]
          refine ⟨?_, cached ok last there⟩
          obtain ⟨_, mine, here, held⟩ := holds_tells acting laws proper told
          obtain ⟨_, same, filled⟩ := further.caches depth mine here
          cases there.symm.trans same
          obtain ⟨entry, found, unspent⟩ := Cache.holds_eq_true.mp held
          exact Cache.holds_eq_true.mpr ⟨entry, filled.still found, unspent⟩

/-- A check that fails, though no read does, names the first outpoint that holds no unspent coin or has come before. -/
theorem check_missing (proper : EveryRoot Proper layers) (acting : layers.drop depth = .cached skip cache :: below)
    (unharmed : (Script.checkSources earlier sources).fault? depth layers = none) {why : Failure}
    (failed : (checkSources depth earlier sources layers).result = .error why) :
    ∃ early o late, sources = early ++ o :: late ∧ why = .fault (.missingInput o) ∧
      (o ∈ earlier ∨ o ∈ early ∨ sees truth depth layers o = none) ∧ early.Nodup ∧
      ∀ p ∈ early, p ∉ earlier ∧ sees truth depth layers p ≠ none := by
  induction sources generalizing earlier layers cache below with
  | nil => cases failed
  | cons o rest ih =>
    rw [checkSources] at failed
    rw [Script.checkSources] at unharmed
    split at failed
    · next again =>
      cases failed
      exact ⟨[], o, rest, rfl, rfl, .inl (by simpa using again), List.nodup_nil, List.forall_mem_nil _⟩
    · next new =>
      rw [if_neg new, Script.fault?] at unharmed
      cases called : callFault? depth layers (.holds o) with
      | some cause =>
        rw [called] at unharmed
        cases unharmed
      | none =>
        obtain ⟨⟨held, told⟩, _⟩ := holds_unharmed depth layers called
        obtain ⟨seen, _⟩ := holds_tells acting laws proper told
        have replied : (perform (.holds o) depth layers).result = .ok (.truth held) := Outcome.result_map told
        rw [called, replied] at unharmed
        rw [Outcome.andThen, told] at failed
        cases held with
        | false =>
          cases failed
          exact ⟨[], o, rest, rfl, rfl, .inr (.inr (by simpa using seen.symm)), List.nodup_nil, List.forall_mem_nil _⟩
        | true =>
          have fetched := fetched_holds acting laws proper o
          obtain ⟨later, lower, still, -, -⟩ := fetched.acting acting
          obtain ⟨early, p, late, split, missing, why, distinct, fine⟩ := ih fetched.proper still unharmed failed
          rw [fetched.sees] at why fine
          refine ⟨o :: early, p, late, by rw [split]; rfl, missing, ?_, ?_, ?_⟩
          · grind
          · exact List.nodup_cons.mpr ⟨fun again => (fine o again).1 List.mem_cons_self, distinct⟩
          · rw [List.forall_mem_cons]
            refine ⟨⟨by simpa using new, Option.isSome_iff_ne_none.mp seen.symm⟩, fun q member => ?_⟩
            exact ⟨fun old => (fine q member).1 (List.mem_cons_of_mem o old), (fine q member).2⟩

end Acting

/-! ### The spends -/

/-- A cached coin is spent at the cache alone. -/
theorem spend_acting {entry : Entry} (acting : layers.drop depth = .cached skip cache :: below)
    (found : cache.entries[o]? = some entry) :
    (spend o depth layers).result = .ok (some entry.coin) ∧
      (spend o depth layers).state.take depth = layers.take depth ∧
      (spend o depth layers).state.drop depth = .cached skip ((cache.touch o).spend o).2 :: below := by
  have there : (cache.touch o).entries[o]? = some entry := found
  have here : spend o 0 (.cached skip cache :: below) =
      .done ((cache.touch o).spend o).1 (.cached skip ((cache.touch o).spend o).2 :: below) := by
    rw [spend, read, found]
    rfl
  have inside : depth < layers.length := lt_length_of_cacheAt? (cacheAt?_eq_some.mpr ⟨skip, below, acting⟩)
  have above : (layers.take depth).length = depth := List.length_take_of_le (Nat.le_of_lt inside)
  rw [descends_spend.eq_drop inside, acting, here, Cache.spend_answers there]
  refine ⟨rfl, ?_, ?_⟩
  · exact List.take_left' above
  · exact List.drop_left' above

/-- Distinct outpoints whose coins are cached can be spent one after the other, which changes nothing but the cache. -/
theorem spendSources_held (acting : layers.drop depth = .cached skip cache :: below)
    (held : ∀ o ∈ sources, cache.holds o = true) (distinct : sources.Nodup) (undo : Undo) :
    ∃ spends later, (spendSources depth undo sources layers).result = .ok ⟨undo.spends ++ spends⟩ ∧
      (spendSources depth undo sources layers).state.take depth = layers.take depth ∧
      (spendSources depth undo sources layers).state.drop depth = .cached skip later :: below ∧
      Cache.Spends sources spends cache later := by
  induction sources generalizing undo layers cache with
  | nil => exact ⟨[], cache, by simp [spendSources, Outcome.done], rfl, acting, .nil⟩
  | cons o rest ih =>
    obtain ⟨notAgain, distinct⟩ := List.nodup_cons.mp distinct
    obtain ⟨here, there⟩ := List.forall_mem_cons.mp held
    obtain ⟨entry, found, unspent⟩ := Cache.holds_eq_true.mp here
    obtain ⟨answer, above, acted⟩ := spend_acting acting found
    have stillHeld : ∀ p ∈ rest, ((cache.touch o).spend o).2.holds p = true := by
      intro p member
      rw [Cache.holds, Cache.getElem?_spend_other (ne_of_mem_of_not_mem member notAgain)]
      exact there p member
    obtain ⟨spends, later, result, kept, left, spent⟩ := ih acted stillHeld distinct (undo.record o entry.coin)
    have stepped : spendSources depth undo (o :: rest) layers =
        (spendSources depth (undo.record o entry.coin) rest (spend o depth layers).state).after
          (spend o depth layers).events := by
      rw [spendSources, Outcome.andThen, answer]
      simp [unspent]
    rw [stepped]
    refine ⟨(o, entry.coin) :: spends, later, ?_, kept.trans above, left, spent.cons found unspent notAgain⟩
    show (spendSources depth (undo.record o entry.coin) rest (spend o depth layers).state).result = _
    rw [result, Undo.record, List.append_assoc, List.singleton_append]

/-! ### All or none -/

/-- The fresh entries of the cache at a depth stand over no unspent coin. -/
def FreshSound (truth : Shown) (depth : Nat) (layers : Layers ρ) : Prop :=
  ∀ skip cache below, layers.drop depth = .cached skip cache :: below →
    ∀ (o : OutPoint) (entry : Entry), cache.entries[o]? = some entry → entry.isFresh = true →
      sees truth skip below o = none

/-- What it means that the inputs of a transaction are spent, all of them or none. -/
structure AllOrNone (truth : Shown) (tx : Transaction) (depth : Nat) (layers : Layers ρ) : Prop where
  /-- They are spent if they are distinct and all of them are said to be there, and only then. -/
  succeeds : (∃ undo, (spendInputs tx depth layers).result = .ok undo) ↔
    tx.sources.Nodup ∧ (hasInputs tx depth layers).result = .ok true
  /-- Then the coins that could be seen are recorded in the order of the inputs. -/
  recorded : ∀ undo, (spendInputs tx depth layers).result = .ok undo →
    undo.spends.map (·.1) = tx.sources ∧ ∀ place ∈ undo.spends, sees truth depth layers place.1 = some place.2
  /-- They can be seen no more, and all else can as before, if no fresh entry of the cache stands over an unspent coin. -/
  spent : ∀ undo, (spendInputs tx depth layers).result = .ok undo → FreshSound truth depth layers →
    ∀ o, sees truth depth (spendInputs tx depth layers).state o =
      if o ∈ tx.sources then none else sees truth depth layers o
  /-- If they are not spent, though no read fails, the first that cannot be spent is named: there is no unspent coin, or
      it has come before. -/
  missing : ∀ why, (spendInputs tx depth layers).result = .error why → fault? (.spendInputs tx) depth layers = none →
    ∃ early o late, tx.sources = early ++ o :: late ∧ why = .fault (.missingInput o) ∧
      (o ∈ early ∨ sees truth depth layers o = none) ∧ early.Nodup ∧ ∀ p ∈ early, sees truth depth layers p ≠ none
  /-- If they are not spent, for whatever reason, every layer shows what it showed before, and every cache has the same
      to write. -/
  unchanged : ∀ why, (spendInputs tx depth layers).result = .error why →
    (∀ place, sees truth place (spendInputs tx depth layers).state = sees truth place layers) ∧
      ∀ place cache, cacheAt? place layers = some cache →
        ∃ later, cacheAt? place (spendInputs tx depth layers).state = some later ∧
          ∀ (o : OutPoint) (entry : Entry), entry.isDirty = true →
            (later.entries[o]? = some entry ↔ cache.entries[o]? = some entry)

/-- Any read of the layers that is answered tells what they show. -/
def ReadsAs (truth : Shown) (layers : Layers ρ) : Prop :=
  ∀ depth o found, (read o depth layers).result = .ok found → unspentIn (.ok found) = sees truth depth layers o

variable {tx : Transaction}

theorem hasInputs_eq (ordinary : tx.isCoinbase = false) :
    hasInputs tx depth layers = holdsAll depth tx.sources layers := by
  simp [hasInputs, ordinary]

theorem spendInputs_eq (ordinary : tx.isCoinbase = false) :
    spendInputs tx depth layers = (checkSources depth [] tx.sources layers).andThen fun _ layers =>
      spendSources depth .empty tx.sources layers := by
  simp [spendInputs, ordinary]

/-- If no read fails in all, none fails in the check. -/
theorem checkSources_unharmed (acting : layers.drop depth = .cached skip cache :: below)
    (ordinary : tx.isCoinbase = false) (unharmed : fault? (.spendInputs tx) depth layers = none) :
    (Script.checkSources [] tx.sources).fault? depth layers = none := by
  have taken : takes (.spendInputs tx) depth layers = true := by
    rw [takes, cacheAt?_eq_some.mpr ⟨skip, below, acting⟩]
    rfl
  rw [fault?, if_pos taken, Request.script, Script.map] at unharmed
  have whole := Script.fault?_of_andThen unharmed
  rw [Script.spendInputs, ordinary] at whole
  exact Script.fault?_of_andThen whole

omit [Backing ρ] in
/-- A change to one cache leaves the stores as they are. -/
theorem EveryRoot.changed {Holds : ρ → Prop} {after : Layers ρ} {later : Cache} (every : EveryRoot Holds layers)
    (acting : layers.drop depth = .cached skip cache :: below) (above : after.take depth = layers.take depth)
    (changed : after.drop depth = .cached skip later :: below) : EveryRoot Holds after := by
  intro store member
  rw [← List.take_append_drop depth after, above, changed, List.mem_append, List.mem_cons] at member
  refine every store ?_
  rw [← List.take_append_drop depth layers, acting, List.mem_append, List.mem_cons]
  rcases member with early | same | late
  · exact .inl early
  · cases same
  · exact .inr (.inr late)

section Acting

variable (laws : Truthful Proper truth) (proper : EveryRoot Proper layers)
  (acting : layers.drop depth = .cached skip cache :: below) (ordinary : tx.isCoinbase = false)
include laws proper acting ordinary

/-- When the check passes, all inputs are spent. -/
theorem spendInputs_checked (passes : (checkSources depth [] tx.sources layers).result = .ok ()) :
    ∃ undo, (spendInputs tx depth layers).result = .ok undo ∧ EveryRoot Proper (spendInputs tx depth layers).state ∧
      undo.spends.map (·.1) = tx.sources ∧ (∀ place ∈ undo.spends, sees truth depth layers place.1 = some place.2) ∧
      (FreshSound truth depth layers → sees truth depth (spendInputs tx depth layers).state =
        (sees truth depth layers).spendAll tx.sources) := by
  obtain ⟨fetched, cached⟩ := fetched_check laws proper acting [] tx.sources
  obtain ⟨mine, lower, still, filled, same⟩ := fetched.acting acting
  have held := cached passes mine (cacheAt?_eq_some.mpr ⟨skip, lower, still⟩)
  obtain ⟨spends, later, result, above, left, spent⟩ :=
    spendSources_held still held (checkSources_iff.mp passes).1 .empty
  have recorded := spent.seen (sees truth skip lower)
  have gone := spent.gone (sees truth skip lower)
  rw [← sees_acting still, fetched.sees] at recorded gone
  rw [spendInputs_eq ordinary, Outcome.andThen, passes]
  refine ⟨⟨spends⟩, result, fetched.proper.changed still above left, spent.listed, recorded, fun fresh => ?_⟩
  rw [← gone]
  · exact sees_acting left
  · -- What is fresh and unspent was so before.
    intro o member entry found isFresh
    obtain ⟨other, here, unspent⟩ := Cache.holds_eq_true.mp (held o member)
    cases found.symm.trans here
    rw [same]
    exact fresh skip cache below acting o entry (filled.fresh found isFresh unspent) isFresh

theorem allOrNone_checked (passes : (checkSources depth [] tx.sources layers).result = .ok ()) :
    AllOrNone truth tx depth layers := by
  obtain ⟨undo, ok, _, listed, recorded, spent⟩ := spendInputs_checked laws proper acting ordinary passes
  have succeeded {why : Failure} (failed : (spendInputs tx depth layers).result = .error why) : False := by
    rw [ok] at failed
    cases failed
  constructor
  · obtain ⟨distinct, _, all⟩ := checkSources_iff.mp passes
    rw [hasInputs_eq ordinary]
    exact ⟨fun _ => ⟨distinct, all⟩, fun _ => ⟨undo, ok⟩⟩
  · intro other same
    cases ok.symm.trans same
    exact ⟨listed, recorded⟩
  · intro _ _ fresh o
    rw [spent fresh, Shown.spendAll_apply]
  · exact fun _ failed => (succeeded failed).elim
  · exact fun _ failed => (succeeded failed).elim

/-- When it fails, none is. -/
theorem spendInputs_unchecked {why : Failure} (fails : (checkSources depth [] tx.sources layers).result = .error why) :
    (spendInputs tx depth layers).result = .error why ∧
      Fetched Proper truth layers (spendInputs tx depth layers).state := by
  rw [spendInputs_eq ordinary, Outcome.andThen, fails]
  exact ⟨rfl, (fetched_check laws proper acting [] tx.sources).1⟩

theorem allOrNone_unchecked {why : Failure} (fails : (checkSources depth [] tx.sources layers).result = .error why) :
    AllOrNone truth tx depth layers := by
  obtain ⟨failed, fetched⟩ := spendInputs_unchecked laws proper acting ordinary fails
  have didFail {undo : Undo} (ok : (spendInputs tx depth layers).result = .ok undo) : False := by
    rw [failed] at ok
    cases ok
  constructor
  · rw [hasInputs_eq ordinary]
    refine ⟨fun ⟨_, ok⟩ => (didFail ok).elim, fun ⟨distinct, all⟩ => ?_⟩
    cases fails.symm.trans (checkSources_iff.mpr ⟨distinct, fun _ _ => List.not_mem_nil, all⟩)
  · exact fun _ ok => (didFail ok).elim
  · exact fun _ ok => (didFail ok).elim
  · intro cause met unharmed
    cases failed.symm.trans met
    obtain ⟨early, o, late, split, named, reason, distinct, fine⟩ :=
      check_missing laws proper acting (checkSources_unharmed acting ordinary unharmed) fails
    exact ⟨early, o, late, split, named, reason.resolve_left List.not_mem_nil, distinct,
      fun p member => (fine p member).2⟩
  · refine fun _ _ => ⟨fetched.sees, fun place cache here => ?_⟩
    obtain ⟨later, still, filled⟩ := fetched.caches place cache here
    exact ⟨later, still, fun o entry dirty => filled.dirty_iff dirty⟩

end Acting

/-- Let some layers lie over stores that tell the truth whenever they can be read. Then a cache among them spends the
    inputs of a transaction all or none, and a coinbase transaction has none to spend. What can be seen before and after
    is what is read there. -/
theorem inputs_all_or_none (laws : Truthful Proper truth) (proper : EveryRoot Proper layers)
    (there : (cacheAt? depth layers).isSome = true) (tx : Transaction) :
    (tx.isCoinbase = true → spendInputs tx depth layers = .done .empty layers) ∧
    (tx.isCoinbase = false → AllOrNone truth tx depth layers) ∧
    ReadsAs truth layers ∧ ReadsAs truth (spendInputs tx depth layers).state := by
  have reads {layers : Layers ρ} (proper : EveryRoot Proper layers) : ReadsAs truth layers :=
    fun _ _ _ told => read_tells laws proper told
  obtain ⟨cache, here⟩ := Option.isSome_iff_exists.mp there
  obtain ⟨skip, below, acting⟩ := cacheAt?_eq_some.mp here
  have nothing (coinbase : tx.isCoinbase = true) : spendInputs tx depth layers = .done .empty layers := by
    rw [spendInputs, if_pos coinbase]
  have spends (ordinary : tx.isCoinbase = false) :
      AllOrNone truth tx depth layers ∧ ReadsAs truth (spendInputs tx depth layers).state := by
    cases checked : (checkSources depth [] tx.sources layers).result with
    | error why =>
      obtain ⟨_, fetched⟩ := spendInputs_unchecked laws proper acting ordinary checked
      exact ⟨allOrNone_unchecked laws proper acting ordinary checked, reads fetched.proper⟩
    | ok _ =>
      obtain ⟨_, _, still, _⟩ := spendInputs_checked laws proper acting ordinary checked
      exact ⟨allOrNone_checked laws proper acting ordinary checked, reads still⟩
  refine ⟨nothing, fun ordinary => (spends ordinary).1, reads proper, ?_⟩
  cases made : tx.isCoinbase with
  | true =>
    rw [nothing made]
    exact reads proper
  | false => exact (spends made).2

/-- The store below `brokenDisk`. -/
def brokenStore : ScriptedStore :=
  ⟨.oneCoin, [(⟨.zero, 1⟩, .io "corrupted block file")], [], false, [], [], 0⟩

/-- A transaction with the given inputs, over `brokenDisk`. -/
def spendOverBroken (places : List OutPoint) : Outcome (Layers ScriptedStore) Undo :=
  spendInputs ⟨1, places.map fun place => ⟨place, .empty, 0⟩, [], 0⟩ 0 (brokenDisk false)

/-- The coin can be spent. A transaction that names it twice, or together with one that cannot be read, spends
    nothing. -/
theorem brokenDisk_all_or_none :
    ((spendOverBroken [⟨.zero, 0⟩]).result = .ok ⟨[(⟨.zero, 0⟩, ⟨5, 1, false, .empty, false⟩)]⟩ ∧
      sees (storeShows brokenStore) 0 (spendOverBroken [⟨.zero, 0⟩]).state ⟨.zero, 0⟩ = none) ∧
    ((spendOverBroken [⟨.zero, 0⟩, ⟨.zero, 0⟩]).result = .error (.fault (.missingInput ⟨.zero, 0⟩)) ∧
      ∀ depth, sees (storeShows brokenStore) depth (spendOverBroken [⟨.zero, 0⟩, ⟨.zero, 0⟩]).state =
        sees (storeShows brokenStore) depth (brokenDisk false)) ∧
    (spendOverBroken [⟨.zero, 0⟩, ⟨.zero, 1⟩]).result =
        .error (.fault (.unrecoverableRead "IO error: corrupted block file")) ∧
      ∀ depth, sees (storeShows brokenStore) depth (spendOverBroken [⟨.zero, 0⟩, ⟨.zero, 1⟩]).state =
        sees (storeShows brokenStore) depth (brokenDisk false) := by
  have laws := ScriptedStore.steady.truthful brokenStore
  have proper : EveryRoot (fun later => True ∧ ∀ o, (Backing.read o later).1 = (Backing.read o brokenStore).1)
      (brokenDisk false) := by
    intro store member
    have same : store = brokenStore := by simpa [brokenDisk, brokenStore] using member
    exact ⟨trivial, fun o => by rw [same]⟩
  have spends (tx : Transaction) (ordinary : tx.isCoinbase = false) :
      AllOrNone (storeShows brokenStore) tx 0 (brokenDisk false) :=
    (inputs_all_or_none laws proper rfl tx).2.1 ordinary
  have fresh : FreshSound (storeShows brokenStore) 0 (brokenDisk false) := by
    rintro _ _ _ ⟨⟩ o entry found
    simp [Cache.empty] at found
  have once : (spendOverBroken [⟨.zero, 0⟩]).result = .ok ⟨[(⟨.zero, 0⟩, ⟨5, 1, false, .empty, false⟩)]⟩ := rfl
  have twice : (spendOverBroken [⟨.zero, 0⟩, ⟨.zero, 0⟩]).result = .error (.fault (.missingInput ⟨.zero, 0⟩)) := rfl
  have broken : (spendOverBroken [⟨.zero, 0⟩, ⟨.zero, 1⟩]).result =
      .error (.fault (.unrecoverableRead "IO error: corrupted block file")) := rfl
  exact ⟨⟨once, (spends _ rfl).spent _ once fresh ⟨.zero, 0⟩⟩, ⟨twice, ((spends _ rfl).unchanged _ twice).1⟩,
    broken, ((spends _ rfl).unchanged _ broken).1⟩

end Layers

end CoinLayers
