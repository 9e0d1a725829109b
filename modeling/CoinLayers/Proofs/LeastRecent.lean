import Mathlib.Data.List.Basic
import CoinLayers.Proofs.Records

/-!
Eviction takes the least recently used first, over whole courses.

The entries without changes, in the order of their records (`Cache.idle`), stand in the order in which they were
last looked up (`Aged`). To use or to load one makes it the last; all else that happens to a cache takes some of
them away, or moves only entries with changes, and so leaves the order as it is (`Turn.idle_sublist`). As an
eviction takes the first ones in this order, what it takes was looked up before what it leaves.
-/
namespace CoinLayers

namespace Cache

variable {cache later : Cache} {o a b : OutPoint} {coin : Coin} {entry : Entry} {seen : List OutPoint}

/-- Whether there is an entry at an outpoint that has nothing to write. -/
def idleAt (cache : Cache) (o : OutPoint) : Bool :=
  cache.entries[o]?.any fun entry => !entry.isDirty

/-- The outpoints of the entries that have nothing to write, from the least to the most recently used. -/
def idle (cache : Cache) : List OutPoint :=
  cache.recency.oldestFirst.filter cache.idleAt

theorem idle_empty {budget : Budget} {draining : Draining} : (empty budget draining).idle = [] := by
  rw [idle, show (empty budget draining).recency.oldestFirst = [] from Recency.oldestFirst_empty]
  rfl

/-- With fewer records in the same order, and no more entries without changes, those that are left keep their
    order. -/
theorem idle_sublist (records : later.recency.oldestFirst.Sublist cache.recency.oldestFirst)
    (fewer : ∀ o, later.idleAt o = true → cache.idleAt o = true) : later.idle.Sublist cache.idle :=
  (records.filter _).trans (List.monotone_filter_right _ fewer)

/-- A use moves an outpoint to the end, and the others keep their order. -/
theorem idle_touch (used : later.recency = cache.recency.touch o)
    (fewer : ∀ p, p ≠ o → later.idleAt p = true → cache.idleAt p = true) :
    later.idle.Sublist (cache.idle.filter (· ≠ o) ++ [o].filter later.idleAt) := by
  rw [idle, used, Recency.oldestFirst_touch, List.filter_append, idle, List.filter_filter, List.filter_filter]
  refine List.Sublist.append (List.monotone_filter_right _ fun p => ?_) (List.Sublist.refl _)
  simp only [Bool.and_eq_true, decide_eq_true_eq]
  rintro ⟨idle, different⟩
  exact ⟨different, fewer p different idle⟩

theorem idleAt_put (p : OutPoint) :
    ((cache.put o entry).touch o).idleAt p = if p = o then !entry.isDirty else cache.idleAt p := by
  rw [idleAt, entries_touch, entries_put, Entries.getElem?_insert_ite]
  split <;> rfl

theorem idleAt_erase (p : OutPoint) : (cache.erase o).idleAt p = if p = o then false else cache.idleAt p := by
  rw [idleAt, entries_erase, Entries.getElem?_erase_ite]
  split <;> rfl

/-- Of the outpoints that an eviction passes, those without changes are the first of their kind, and they go. The
    others keep their order. -/
theorem idle_evicted {taken rest : List OutPoint} (whole : cache.recency.oldestFirst = taken ++ rest) :
    cache.idle = taken.filter cache.idleAt ++ (cache.evicted taken).idle := by
  have distinct : (taken ++ rest).Nodup := whole ▸ Recency.nodup_oldestFirst
  obtain ⟨_, _, apart⟩ := List.nodup_append.mp distinct
  have parked : (taken.filter cache.changedAt).filter (cache.evicted taken).idleAt = [] := by
    rw [List.filter_filter, List.filter_eq_nil_iff]
    intro o _
    rw [idleAt, getElem?_evicted, changedAt]
    cases found : cache.entries[o]? with
    | none => simp
    | some entry => cases dirty : entry.isDirty <;> simp [dirty]
  have late : rest.filter (cache.evicted taken).idleAt = rest.filter cache.idleAt := by
    refine List.filter_congr fun o member => ?_
    rw [idleAt, getElem?_evicted, if_neg fun both => apart o both.1 o member rfl, idleAt]
  rw [idle, whole, idle, oldestFirst_evicted whole, List.filter_append, List.filter_append, parked, late,
    List.append_nil]

/-- An eviction takes the first of the entries without changes, and leaves the others in their order. -/
theorem idle_shrink : ∃ taken, cache.idle = taken ++ cache.shrink.state.idle := by
  obtain ⟨k, _, leaves, _⟩ := cache.shrink_evicts
  rw [leaves]
  exact ⟨_, idle_evicted (List.take_append_drop k _).symm⟩

theorem stepwise_idle : Stepwise fun cache later => later.idle.Sublist cache.idle where
  trans first second := second.trans first
  same entries recency := idle_sublist (by rw [recency]) fun o => by rw [idleAt, entries, idleAt]; exact id
  keep {cache o entry} dirty _ := by
    -- The kept entry has a change, so that it is not among the others.
    have moved : ((cache.put o entry).touch o).idle.Sublist
        (cache.idle.filter (· ≠ o) ++ [o].filter ((cache.put o entry).touch o).idleAt) :=
      idle_touch rfl fun p different there => by rwa [idleAt_put, if_neg different] at there
    rw [List.filter_singleton, idleAt_put, if_pos rfl, dirty] at moved
    simpa using moved.trans (List.Sublist.append List.filter_sublist (List.Sublist.refl _))
  erase {cache o} := by
    refine idle_sublist ?_ fun p there => ?_
    · rw [erase]
      split
      · exact .refl _
      · rw [Recency.oldestFirst_forget]
        exact List.filter_sublist
    · rw [idleAt_erase] at there
      split at there
      · cases there
      · exact there
  shrink {cache} := by
    obtain ⟨taken, whole⟩ := cache.idle_shrink
    rw [whole]
    exact List.sublist_append_right ..

/-- In a turn the entries without changes keep their order, but for one that is looked up and comes last. What
    failed writes leave over is taken to be a part of what they were handed. -/
theorem Turn.idle_sublist {looked : List OutPoint} (turn : Turn (fun batch left => left.PartOf batch) looked cache later) :
    looked = [] ∧ later.idle.Sublist cache.idle ∨
    ∃ o, looked = [o] ∧ later.idle.Sublist (cache.idle.filter (· ≠ o) ++ [o]) := by
  have stepwise := stepwise_idle
  cases turn with
  | @missed _ o missing =>
    refine .inr ⟨o, rfl, ?_⟩
    rw [List.filter_eq_self.mpr]
    · exact List.sublist_append_left ..
    · intro p there
      rw [decide_eq_true_eq]
      rintro rfl
      simp [idle, idleAt, missing] at there
  | @used _ o _ =>
    have moved : (cache.touch o).idle.Sublist (cache.idle.filter (· ≠ o) ++ [o].filter (cache.touch o).idleAt) :=
      idle_touch rfl fun _ _ => id
    exact .inr ⟨o, rfl, moved.trans (List.Sublist.append (.refl _) List.filter_sublist)⟩
  | @loaded _ o coin _ =>
    have moved : (cache.load o coin).idle.Sublist (cache.idle.filter (· ≠ o) ++ [o].filter (cache.load o coin).idleAt) :=
      idle_touch rfl fun p different there => by rwa [load, idleAt_put, if_neg different] at there
    exact .inr ⟨o, rfl, moved.trans (List.Sublist.append (.refl _) List.filter_sublist)⟩
  | spent => exact .inl ⟨rfl, stepwise.spend⟩
  | added _ _ unspent => exact .inl ⟨rfl, stepwise.add unspent⟩
  | uncached => exact .inl ⟨rfl, stepwise.uncache⟩
  | stood => exact .inl ⟨rfl, stepwise.same rfl rfl⟩
  | merged order => exact .inl ⟨rfl, stepwise.merge order⟩
  | emptied =>
    refine .inl ⟨rfl, ?_⟩
    rw [idle, show cache.emptied.recency.oldestFirst = [] from Recency.oldestFirst_empty]
    exact List.nil_sublist _
  | @recovered _ left part =>
    refine .inl ⟨rfl, Cache.idle_sublist ?_ fun p there => ?_⟩
    · rw [show (cache.recover left).recency.oldestFirst = cache.recency.oldestFirst.filter left.contains from
        Recency.oldestFirst_retain]
      exact List.filter_sublist
    · obtain ⟨entry, found, clean⟩ := (Option.any_eq_true ..).mp there
      exact (Option.any_eq_true ..).mpr ⟨entry, part p entry found, clean⟩

/-- The entries without changes stand in the order in which they were last looked up. The outpoints looked up
    are given, the last one first. -/
structure Aged (seen : List OutPoint) (cache : Cache) : Prop where
  known : ∀ o ∈ cache.idle, o ∈ seen
  ordered : cache.idle.Pairwise fun a b => seen.idxOf b < seen.idxOf a

theorem Aged.sublist (aged : Aged seen cache) (fewer : later.idle.Sublist cache.idle) : Aged seen later :=
  ⟨fun o there => aged.known o (fewer.subset there), aged.ordered.sublist fewer⟩

/-- An outpoint that is looked up becomes the one looked up last, and the others stay as far apart. -/
theorem Aged.looked (aged : Aged seen cache) (moved : later.idle.Sublist (cache.idle.filter (· ≠ o) ++ [o])) :
    Aged (o :: seen) later := by
  have others : ∀ p ∈ cache.idle.filter (· ≠ o), p ∈ cache.idle ∧ (o :: seen).idxOf p = seen.idxOf p + 1 := by
    intro p there
    obtain ⟨there, different⟩ := List.mem_filter.mp there
    rw [decide_eq_true_eq] at different
    exact ⟨there, List.idxOf_cons_ne seen different.symm⟩
  constructor
  · intro p there
    rcases List.mem_append.mp (moved.subset there) with other | itself
    · exact List.mem_cons_of_mem _ (aged.known p (others p other).1)
    · rw [List.mem_singleton.mp itself]
      exact List.mem_cons_self
  · refine List.Pairwise.sublist moved (List.pairwise_append.mpr ⟨?_, List.pairwise_singleton .., ?_⟩)
    · refine (aged.ordered.filter _).imp_of_mem fun first second before => ?_
      rw [(others _ first).2, (others _ second).2]
      exact Nat.succ_lt_succ before
    · intro p there q itself
      rw [List.mem_singleton.mp itself, List.idxOf_cons_self, (others p there).2]
      exact Nat.succ_pos _

theorem Turn.aged {looked : List OutPoint} (turn : Turn (fun batch left => left.PartOf batch) looked cache later)
    (aged : Aged seen cache) : Aged (looked ++ seen) later := by
  rcases turn.idle_sublist with ⟨rfl, fewer⟩ | ⟨o, rfl, moved⟩
  · exact aged.sublist fewer
  · exact aged.looked moved

theorem Course.aged {budget : Budget} {draining : Draining}
    (course : Course (fun batch left => left.PartOf batch) seen (.empty budget draining) cache) : Aged seen cache := by
  refine course.holds ?_ Turn.aged
  constructor <;> simp [idle_empty]

/-- What a kept entry makes an eviction take comes before what the eviction leaves. -/
theorem keep_evicts (dirty : entry.isDirty = true) (valid : entry.isValid = true) (here : a ∈ cache.idle)
    (gone : (cache.keep o entry).state.entries[a]? = none) (stays : b ∈ (cache.keep o entry).state.idle) :
    [a, b].Sublist cache.idle := by
  have fewer : ((cache.put o entry).touch o).idle.Sublist cache.idle := stepwise_idle.keep dirty valid
  obtain ⟨recorded, clean⟩ := List.mem_filter.mp here
  have different : a ≠ o := by
    rintro rfl
    rcases thinned_keep a with same | ⟨_, other, found, undirty⟩
    · rw [same, Entries.getElem?_insert_ite, if_pos rfl] at gone
      cases gone
    · rw [Entries.getElem?_insert_ite, if_pos rfl] at found
      cases found
      rw [dirty] at undirty
      cases undirty
  have still : a ∈ ((cache.put o entry).touch o).idle := by
    refine List.mem_filter.mpr ⟨?_, by rwa [idleAt_put, if_neg different]⟩
    rw [touch, Recency.oldestFirst_touch]
    exact List.mem_append_left _ (List.mem_filter.mpr ⟨recorded, by simpa using different⟩)
  rw [Cache.keep] at gone stays
  split at gone
  · next exceeds =>
    rw [if_pos exceeds] at stays
    obtain ⟨taken, whole⟩ := ((cache.put o entry).touch o).idle_shrink
    rw [whole] at still fewer
    have passed : a ∈ taken := (List.mem_append.mp still).resolve_right fun left => by
      simp [idle, idleAt, gone] at left
    have pair : ([a] ++ [b]).Sublist (taken ++ ((cache.put o entry).touch o).shrink.state.idle) :=
      (List.singleton_sublist.mpr passed).append (List.singleton_sublist.mpr stays)
    exact pair.trans fewer
  · -- Without an eviction nothing goes.
    have there := (List.mem_filter.mp still).2
    rw [idleAt, show ((cache.put o entry).touch o).entries[a]? = none from gone] at there
    cases there

theorem Consistent.mem_idle (consistent : cache.Consistent) (found : cache.entries[o]? = some entry)
    (clean : entry.isDirty = false) : o ∈ cache.idle := by
  refine List.mem_filter.mpr ⟨?_, by simp [idleAt, found, clean]⟩
  rw [← Recency.contains_iff, consistent.recorded, Std.ExtTreeMap.contains_eq_isSome_getElem?, found]
  rfl

/-- If an entry without changes goes, and another one stays, then the first was last looked up before the other
    was. The outpoints looked up are given, the last one first. -/
def OldestGoes (seen : List OutPoint) (cache later : Cache) : Prop :=
  ∀ (a b : OutPoint) (gone kept : Entry), cache.entries[a]? = some gone → gone.isDirty = false →
    later.entries[a]? = none → later.entries[b]? = some kept → kept.isDirty = false →
    a ∈ seen ∧ seen.idxOf b < seen.idxOf a

theorem Course.oldest_goes {budget : Budget} {draining : Draining} {mayOverwrite : Bool}
    (course : Course (fun batch left => left.PartOf batch) seen (.empty budget draining) cache)
    (unspent : coin.isSpent = false) : OldestGoes seen cache (cache.add o coin mayOverwrite).state := by
  intro a b gone kept found clean missing stays idle
  have here := course.consistent.mem_idle found clean
  have there := (course.step (.added o mayOverwrite unspent)).consistent.mem_idle stays idle
  suffices pair : [a, b].Sublist cache.idle by
    have before := course.aged.ordered.sublist pair
    exact ⟨course.aged.known a here, by simpa using before⟩
  rcases cache.add_cases o coin mayOverwrite with unchanged | ⟨warned, fresh, entries, recency, kept⟩
  · rw [unchanged, found] at missing
    cases missing
  · have same : warned.idle = cache.idle := by
      rw [Cache.idle, Cache.idle, recency, show warned.idleAt = cache.idleAt from funext fun p => by
        rw [idleAt, entries, idleAt]]
    rw [kept] at missing there
    rw [← same] at here ⊢
    exact keep_evicts rfl (Entry.isValid_of_unspent unspent) here missing there

end Cache

namespace Layers

theorem cacheAt?_onCache {ρ α : Type} {layers : Layers ρ} {depth : Nat} {cache : Cache}
    (change : Cache → Outcome Cache α) (here : cacheAt? depth layers = some cache) :
    cacheAt? depth (onCache change depth layers).state = some (change cache).state := by
  induction layers generalizing depth with
  | nil =>
    rw [cacheAt?_nil] at here
    cases here
  | cons layer below ih =>
    cases depth with
    | succ depth => exact ih here
    | zero =>
      cases layer with
      | root | relay | guarded => cases here
      | cached skip top =>
        cases here
        rfl

/-- When a coin is added to a cache that was new at the start of its course, and entries go, the ones without
    changes that go were last looked up before those that stay, if failed writes leave a part of what they were
    handed. The same holds of a new cache anywhere among any layers, and of every addition to it that is made in
    a run, be it asked for or part of a transaction; it is then told of the outpoints that were looked up in the
    cache in the steps before. -/
theorem oldest_evicted :
    (∀ (seen : List OutPoint) (budget : Budget) (draining : Draining) (cache : Cache),
      Cache.Course (fun batch left => left.PartOf batch) seen (.empty budget draining) cache →
      ∀ (o : OutPoint) (coin : Coin) (mayOverwrite : Bool), coin.isSpent = false →
        Cache.OldestGoes seen cache (cache.add o coin mayOverwrite).state) ∧
    ∀ (ρ : Type) [Backing ρ],
      (∀ (batch : Entries) (block : Hash256) (store : ρ) (why : Fault),
        (Backing.write batch block store).result = .error why →
        (Backing.write batch block store).left.PartOf batch) →
      ∀ (layers : Layers ρ) (requests : List (Nat × Request)) (place : Nat) (budget : Budget) (draining : Draining),
        cacheAt? place layers = some (.empty budget draining) → (∀ asked ∈ requests, asked.2.AddsUnspent) →
        ∀ (early late : List (Nat × Request)) (o : OutPoint) (coin : Coin) (mayOverwrite : Bool),
          steps requests layers = early ++ (place, .add o coin mayOverwrite) :: late →
          ∃ cache later, cacheAt? place (after early layers) = some cache ∧
            cacheAt? place (perform (.add o coin mayOverwrite) place (after early layers)).state = some later ∧
            Cache.OldestGoes (lookedUp place early layers) cache later := by
  refine ⟨fun _ _ _ _ course _ _ _ unspent => course.oldest_goes unspent, ?_⟩
  intro ρ _ part layers requests place budget draining new unspent early late o coin mayOverwrite whole
  have plain := plain_steps unspent layers
  rw [whole, List.forall_mem_append, List.forall_mem_cons] at plain
  have leaves : Leaves ρ fun batch left => left.PartOf batch := ⟨fun _ _ part => part, part⟩
  obtain ⟨cache, here, course⟩ := course_of_steps leaves plain.1 layers place _ new
  have added := cacheAt?_onCache (fun cache => cache.add o coin mayOverwrite) here
  exact ⟨cache, _, here, added, course.oldest_goes plain.2.1.2⟩

/-- A coin of four bytes. -/
def smallCoin : Coin := ⟨5, 1, false, ⟨#[1, 2, 3, 4]⟩, false⟩

/-- A new cache for ten bytes, that shrinks to eight, over a store with two coins. -/
def tightCache : Layers MemoryStore :=
  [.cached 0 (.empty ⟨10, 80⟩), .root ((MemoryStore.empty.insert ⟨.zero, 0⟩ smallCoin).insert ⟨.zero, 1⟩ smallCoin)]

/-- Both coins are read, and the first once more. -/
def readTwice : List (Nat × Request) :=
  [(0, .read ⟨.zero, 0⟩), (0, .read ⟨.zero, 1⟩), (0, .read ⟨.zero, 0⟩)]

/-- The cache after the two coins were read. -/
def tight : Cache :=
  (((Cache.empty ⟨10, 80⟩).load ⟨.zero, 0⟩ smallCoin).load ⟨.zero, 1⟩ smallCoin).touch ⟨.zero, 0⟩

theorem evicts_tight :
    tight.entries[(⟨.zero, 1⟩ : OutPoint)]? = some (.loaded smallCoin) ∧
    (tight.add ⟨.zero, 2⟩ smallCoin false).state.entries[(⟨.zero, 1⟩ : OutPoint)]? = none ∧
    (tight.add ⟨.zero, 2⟩ smallCoin false).state.entries[(⟨.zero, 0⟩ : OutPoint)]? = some (.loaded smallCoin) := by
  decide

/-- A third coin makes the second one go, which was not read again, and the first one stays. -/
theorem readTwice_evicts :
    cacheAt? 0 tightCache = some (.empty ⟨10, 80⟩) ∧
    steps (readTwice ++ [(0, .add ⟨.zero, 2⟩ smallCoin false)]) tightCache =
      readTwice ++ [(0, .add ⟨.zero, 2⟩ smallCoin false)] ∧
    cacheAt? 0 (after readTwice tightCache) = some tight ∧
    tight.entries[(⟨.zero, 1⟩ : OutPoint)]? = some (.loaded smallCoin) ∧
    (tight.add ⟨.zero, 2⟩ smallCoin false).state.entries[(⟨.zero, 1⟩ : OutPoint)]? = none ∧
    (tight.add ⟨.zero, 2⟩ smallCoin false).state.entries[(⟨.zero, 0⟩ : OutPoint)]? = some (.loaded smallCoin) ∧
    (⟨.zero, 1⟩ : OutPoint) ∈ lookedUp 0 readTwice tightCache ∧
    (lookedUp 0 readTwice tightCache).idxOf ⟨.zero, 0⟩ < (lookedUp 0 readTwice tightCache).idxOf ⟨.zero, 1⟩ ∧
    Cache.OldestGoes [⟨.zero, 0⟩, ⟨.zero, 1⟩, ⟨.zero, 0⟩] tight (tight.add ⟨.zero, 2⟩ smallCoin false).state := by
  have reading : Cache.Course (fun batch left => left.PartOf batch) [⟨.zero, 0⟩, ⟨.zero, 1⟩, ⟨.zero, 0⟩]
      (.empty ⟨10, 80⟩) tight :=
    ((Cache.Turn.loaded _ (by decide)).course.step (.loaded _ (by decide))).step (.used (by decide))
  have unspent : ∀ asked ∈ readTwice ++ [(0, .add ⟨.zero, 2⟩ smallCoin false)], asked.2.AddsUnspent := by
    simp [readTwice, Request.AddsUnspent, smallCoin]
  obtain ⟨onCourse, inRuns⟩ := oldest_evicted
  have whole (batch : Entries) (block : Hash256) (store : MemoryStore) (why : Fault)
      (failed : (Backing.write batch block store).result = .error why) :
      (Backing.write batch block store).left.PartOf batch := by
    cases failed
  obtain ⟨cache, later, here, there, goes⟩ := inRuns MemoryStore whole tightCache _ 0 ⟨10, 80⟩ .sorted rfl unspent
    readTwice [] ⟨.zero, 2⟩ smallCoin false rfl
  obtain rfl : tight = cache := Option.some.inj here
  obtain rfl : (tight.add ⟨.zero, 2⟩ smallCoin false).state = later := Option.some.inj there
  obtain ⟨found, gone, stays⟩ := evicts_tight
  obtain ⟨known, before⟩ := goes _ _ _ _ found rfl gone stays rfl
  exact ⟨rfl, rfl, here, found, gone, stays, known, before, onCourse _ _ _ _ reading _ _ _ rfl⟩

end Layers

end CoinLayers
