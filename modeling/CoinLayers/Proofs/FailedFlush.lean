import CoinLayers.ScriptedStore
import CoinLayers.Proofs.Consistency
import CoinLayers.Proofs.Drain

/-!
Flushes that fail. A layer that refuses a batch may have taken some of its entries; it leaves the rest in the
batch, and shows what the others say (`Entries.Taken`). However much it took, the cache that gets the rest back
is consistent, its flags are as sound as they were (`Leftover`), and through it everything is seen as before
(`concludeFlush_failed`). A layer that is itself a cache keeps to this as soon as its own fresh entries are sound
(`Cache.mergeInOrder_taken`).

Over a store in memory it does not matter how often and how far writes get before one succeeds: the store ends
with the coins of a single write.
-/
namespace CoinLayers

namespace Layers

variable {ρ : Type} [Backing ρ] {layers below : Layers ρ} {cache : Cache} {skip : Nat} {block : Hash256}
  {why : Failure}

/-! ### Asking for the block -/

/-- What a layer shows depends on nothing but what the layers below show. -/
private theorem shows_cons (layer : Layer ρ) {after : Layers ρ}
    (same : ∀ depth, shows (after.drop depth) = shows (below.drop depth)) :
    shows (layer :: after) = shows (layer :: below) := by
  cases layer with
  | root store => rfl
  | relay skip => rw [shows_relay, shows_relay, same]
  | guarded skip guard => rw [shows_guarded, shows_guarded, same]
  | cached skip cache => rw [shows_cached, shows_cached, same]

/-- Where stores can be asked for their block without a change, layers can. -/
theorem shows_tip (calm : ∀ store : ρ, storeShows (Backing.tip store).2 = storeShows store) (place depth : Nat) :
    shows ((tip place layers).2.drop depth) = shows (layers.drop depth) := by
  induction layers generalizing place depth with
  | nil => cases place <;> rfl
  | cons layer below ih =>
    cases place with
    | succ place =>
      cases depth with
      | zero => exact shows_cons layer (ih place)
      | succ depth => exact ih place depth
    | zero =>
      cases layer with
      | root store =>
        cases depth with
        | zero => exact calm store
        | succ depth => rfl
      | relay skip =>
        cases depth with
        | zero => exact shows_cons _ (ih skip)
        | succ depth => exact ih skip depth
      | guarded skip guard =>
        cases depth with
        | zero => exact shows_cons _ (ih skip)
        | succ depth => exact ih skip depth
      | cached skip cache =>
        rw [tip]
        cases cache.tip with
        | some known => rfl
        | none =>
          cases depth with
          | zero =>
            show shows (.cached skip { cache with tip := _ } :: (tip skip below).2) = shows (.cached skip cache :: below)
            rw [shows_cached, shows_cached, ih]
          | succ depth => exact ih skip depth

/-! ### One failure -/

/-- What is left of a cache once the layer below took a part of its entries. The cache is consistent, its entries
    are some of those that were there, unchanged, and the flags that told the truth about what was below tell it
    about what is there now. -/
structure Leftover (cache later : Cache) (before after : Shown) : Prop where
  consistent : later.Consistent
  part : later.entries.PartOf cache.entries
  agrees : later.entries.AgreesWith after
  fresh : cache.entries.FreshOver before → later.entries.FreshOver after

theorem Leftover.trans {later last : Cache} {before between after : Shown} (first : Leftover cache later before between)
    (second : Leftover later last between after) : Leftover cache last before after where
  consistent := second.consistent
  part o entry found := first.part o entry (second.part o entry found)
  agrees := second.agrees
  fresh fresh := second.fresh (first.fresh fresh)

/-- A flush that failed without harm: it tells why, what is seen through the cache has not changed, and the
    entries that were not taken are left in the cache as they were. -/
structure FailsSafely (why : Failure) (skip : Nat) (cache : Cache) (below : Layers ρ)
    (flushed : Outcome (Layers ρ) Unit) : Prop where
  result : flushed.result = .error why
  shows : shows flushed.state = shows (.cached skip cache :: below)
  rest : ∃ later lower, flushed.state = .cached skip later :: lower ∧
    Leftover cache later (Layers.shows (below.drop skip)) (Layers.shows (lower.drop skip))

/-- However much of the entries was taken before the write failed, the flush fails without harm. -/
theorem concludeFlush_failed {written : Outcome (Entries × Layers ρ) Unit} (consistent : cache.Consistent)
    (agrees : cache.entries.AgreesWith (shows (below.drop skip))) (failed : written.result = .error why)
    (taken : Entries.Taken cache.entries written.state.1 (shows (below.drop skip))
      (shows (written.state.2.drop skip))) :
    FailsSafely why skip cache below (concludeFlush { cache with tip := some block } block skip written) := by
  rw [concludeFlush, failed]
  refine ⟨rfl, ?_, _, _, rfl, (consistent.stand block).recover taken.part, taken.part, taken.agrees agrees, taken.fresh⟩
  rw [shows_cached, shows_cached, Cache.entries_recover]
  exact taken.atop agrees

/-- A flush that does no harm to what an earlier failure left does none to what was there before it. -/
theorem FailsSafely.after {later : Cache} {lower : Layers ρ} {flushed : Outcome (Layers ρ) Unit}
    (fails : FailsSafely why skip later lower flushed)
    (same : Layers.shows (.cached skip later :: lower) = Layers.shows (.cached skip cache :: below))
    (left : Leftover cache later (Layers.shows (below.drop skip)) (Layers.shows (lower.drop skip))) :
    FailsSafely why skip cache below flushed := by
  obtain ⟨last, lowest, state, leftLater⟩ := fails.rest
  exact ⟨fails.result, fails.shows.trans same, last, lowest, state, left.trans leftLater⟩

/-- Only what the layers below show counts. -/
theorem FailsSafely.beneath {lower : Layers ρ} {flushed : Outcome (Layers ρ) Unit}
    (fails : FailsSafely why 0 cache lower flushed) (view : Layers.shows lower = Layers.shows below) :
    FailsSafely why 0 cache below flushed := by
  obtain ⟨later, lowest, state, left⟩ := fails.rest
  refine ⟨fails.result, ?_, later, lowest, state, ?_⟩
  · rw [fails.shows, shows_cached, shows_cached, List.drop_zero, List.drop_zero, view]
  · rw [List.drop_zero, ← view]
    exact left

/-- What comes of it when all entries of a cache are handed to the layer below, which is asked for its block
    first if need be. -/
def handDown (cache : Cache) (skip : Nat) (below : Layers ρ) : Outcome (Entries × Layers ρ) Unit :=
  write cache.entries (tipOf cache skip below).1 skip (tipOf cache skip below).2

/-- A flush into a layer that takes some of the entries and then fails is without harm. -/
theorem flush_failed (consistent : cache.Consistent) (agrees : cache.entries.AgreesWith (shows (below.drop skip)))
    (failed : (handDown cache skip below).result = .error why)
    (taken : Entries.Taken cache.entries (handDown cache skip below).state.1 (shows (below.drop skip))
      (shows ((handDown cache skip below).state.2.drop skip))) :
    FailsSafely why skip cache below (flush 0 (.cached skip cache :: below)) :=
  concludeFlush_failed consistent agrees failed taken

/-- A flush into a cache that meets a clash is without harm if the fresh entries of that cache are sound, in
    whatever order the outpoints are taken. -/
theorem flush_clashed {parent : Cache} {lower : Layers ρ} {deeper : Nat} (order : List OutPoint)
    (consistent : cache.Consistent) (fresh : parent.entries.FreshOver (shows (lower.drop deeper)))
    (agrees : cache.entries.AgreesWith (shows (.cached deeper parent :: lower)))
    (failed : (parent.mergeInOrder order cache.entries block).result = .error why) :
    FailsSafely why 0 cache (.cached deeper parent :: lower)
      (concludeFlush { cache with tip := some block } block 0
        ((parent.mergeInOrder order cache.entries block).mapState (·.map id (.cached deeper · :: lower)))) := by
  refine concludeFlush_failed consistent agrees failed ?_
  show Entries.Taken cache.entries (parent.mergeInOrder order cache.entries block).state.1
    (shows (.cached deeper parent :: lower))
    (shows (.cached deeper (parent.mergeInOrder order cache.entries block).state.2 :: lower))
  rw [shows_cached, shows_cached]
  refine Cache.mergeInOrder_taken order block fresh fun o entry found dirty isFresh spent => ?_
  rw [consistent.unspent_of_fresh found dirty isFresh] at spent
  cases spent

/-- A cache that is asked for its block changes neither its entries nor what lies below it. -/
private theorem tipOf_cached (calm : ∀ store : ρ, storeShows (Backing.tip store).2 = storeShows store)
    (cache parent : Cache) (deeper : Nat) (lower : Layers ρ) :
    ∃ block asked rest, tipOf cache 0 (.cached deeper parent :: lower) = (block, .cached deeper asked :: rest) ∧
      asked.entries = parent.entries ∧ shows (rest.drop deeper) = shows (lower.drop deeper) := by
  rw [tipOf]
  cases cache.tip with
  | some known => exact ⟨known, parent, lower, rfl, rfl, rfl⟩
  | none =>
    rw [tip]
    cases parent.tip with
    | some known => exact ⟨known, parent, lower, rfl, rfl, rfl⟩
    | none => exact ⟨_, _, _, rfl, rfl, shows_tip calm deeper deeper⟩

/-- The same of a flush as the layers carry it out. -/
theorem flush_onto_cache_failed (calm : ∀ store : ρ, storeShows (Backing.tip store).2 = storeShows store)
    {parent : Cache} {lower : Layers ρ} {deeper : Nat} (consistent : cache.Consistent)
    (fresh : parent.entries.FreshOver (shows (lower.drop deeper)))
    (agrees : cache.entries.AgreesWith (shows (.cached deeper parent :: lower)))
    (failed : (flush 0 (.cached 0 cache :: .cached deeper parent :: lower)).result = .error why) :
    FailsSafely why 0 cache (.cached deeper parent :: lower)
      (flush 0 (.cached 0 cache :: .cached deeper parent :: lower)) := by
  obtain ⟨block, asked, rest, told, entries, seen⟩ := tipOf_cached calm cache parent deeper lower
  have view : shows (.cached deeper asked :: rest) = shows (.cached deeper parent :: lower) := by
    rw [shows_cached, shows_cached, entries, seen]
  have flushed : flush 0 (.cached 0 cache :: .cached deeper parent :: lower) =
      concludeFlush { cache with tip := some block } block 0
        ((asked.merge cache.entries block).mapState (·.map id (.cached deeper · :: rest))) := by
    rw [flush, told]
    rfl
  rw [← entries, ← seen] at fresh
  rw [← view] at agrees
  rw [flushed] at failed ⊢
  have clashed : (asked.merge cache.entries block).result = .error why := by
    cases merged : (asked.merge cache.entries block).result with
    | ok => simp [concludeFlush, Outcome.mapState, merged] at failed
    | error cause => simpa [concludeFlush, Outcome.mapState, merged] using failed
  exact (flush_clashed (asked.drained cache.entries) consistent fresh agrees clashed).beneath view

end Layers

namespace ScriptedStore

/-- A store in memory that refuses the next batches, one for each cause, after it applied the entries of the
    batch at the given outpoints. It takes the batches after these. -/
def refusing (memory : MemoryStore) (attempts : List (Fault × List OutPoint)) : ScriptedStore :=
  ⟨memory, [], [], false, attempts.map fun (cause, applied) => some ⟨cause, applied, none⟩, [], 0⟩

theorem storeShows_refusing (memory : MemoryStore) (attempts : List (Fault × List OutPoint)) :
    storeShows (refusing memory attempts) = storeShows memory := rfl

/-- A refused batch is taken in part, and the store then goes on to the next refusal. -/
theorem write_refusing (memory : MemoryStore) (cause : Fault) (applied : List OutPoint)
    (rest : List (Fault × List OutPoint)) (batch : Entries) (block : Hash256) : ∃ later,
    (ScriptedStore.write batch block (refusing memory ((cause, applied) :: rest))).result = .error cause ∧
    (ScriptedStore.write batch block (refusing memory ((cause, applied) :: rest))).store = refusing later rest ∧
    Entries.Taken batch (ScriptedStore.write batch block (refusing memory ((cause, applied) :: rest))).left
      (fun o => memory.coins[o]?) (fun o => later.coins[o]?) := by
  have refused : ScriptedStore.write batch block (refusing memory ((cause, applied) :: rest)) =
      refuse ⟨cause, applied, none⟩ batch (refusing memory rest) := rfl
  have taken := Entries.taken_filter batch (fun o => memory.coins[o]?) fun o => applied.contains o
  rw [refused, refuse]
  split
  · next nothing =>
    rw [Std.ExtTreeMap.isEmpty_iff] at nothing
    refine ⟨memory, rfl, rfl, ?_⟩
    rw [nothing] at taken
    exact taken
  · refine ⟨(MemoryStore.write (batch.filter fun o _ => applied.contains o) memory.tip memory).store, rfl, rfl, ?_⟩
    rw [show (fun o => (MemoryStore.write _ memory.tip memory).store.coins[o]?) = _ from
      funext fun o => MemoryStore.getElem?_write]
    exact taken

end ScriptedStore

namespace Layers

/-! ### Many failures -/

/-- The layers after the cache on top was flushed a number of times. -/
def reflushed {ρ : Type} [Backing ρ] : Nat → Layers ρ → Layers ρ
  | 0, layers => layers
  | count + 1, layers => reflushed count (flush 0 layers).state

section Refusing

variable {cache : Cache} {memory : MemoryStore} {attempts : List (Fault × List OutPoint)}

/-- A cache right on a store that refuses batches. -/
abbrev overRefusing (cache : Cache) (memory : MemoryStore) (attempts : List (Fault × List OutPoint)) :
    Layers ScriptedStore :=
  [.cached 0 cache, .root (.refusing memory attempts)]

/-- A flush asks the store for its block and hands it the entries. -/
private theorem flush_overRefusing (cache : Cache) (memory : MemoryStore) (attempts : List (Fault × List OutPoint)) :
    ∃ block, flush 0 (overRefusing cache memory attempts) =
      concludeFlush { cache with tip := some block } block 0
        (write cache.entries block 0 [.root (ScriptedStore.refusing memory attempts)]) := by
  rw [overRefusing, flush, tipOf]
  cases cache.tip with
  | some known => exact ⟨known, rfl⟩
  | none => exact ⟨memory.tip, rfl⟩

/-- One refusal: the flush fails without harm, and the rest of the entries waits for the next one. -/
private theorem flush_refused (cause : Fault) (applied : List OutPoint) (rest : List (Fault × List OutPoint))
    (consistent : cache.Consistent)
    (agrees : cache.entries.AgreesWith (storeShows memory)) :
    FailsSafely (.fault cause) 0 cache [.root (.refusing memory ((cause, applied) :: rest))]
      (flush 0 (overRefusing cache memory ((cause, applied) :: rest))) ∧
    ∃ later memory', (flush 0 (overRefusing cache memory ((cause, applied) :: rest))).state =
        overRefusing later memory' rest ∧ Leftover cache later (storeShows memory) (storeShows memory') ∧
      Entries.Taken cache.entries later.entries (fun o => memory.coins[o]?) (fun o => memory'.coins[o]?) := by
  obtain ⟨block, flushed⟩ := flush_overRefusing cache memory ((cause, applied) :: rest)
  obtain ⟨memory', failed, store, taken⟩ := ScriptedStore.write_refusing memory cause applied rest cache.entries block
  have result : (write cache.entries block 0
      [.root (ScriptedStore.refusing memory ((cause, applied) :: rest))]).result = .error (.fault cause) := by
    show (ScriptedStore.write cache.entries block _).result.mapError Failure.fault = .error (.fault cause)
    rw [failed]
    rfl
  have lower : (write cache.entries block 0
      [.root (ScriptedStore.refusing memory ((cause, applied) :: rest))]).state.2 =
        [.root (ScriptedStore.refusing memory' rest)] := by
    show [Layer.root (ScriptedStore.write cache.entries block _).store] = _
    rw [store]
  have shown : Entries.Taken cache.entries (ScriptedStore.write cache.entries block
      (.refusing memory ((cause, applied) :: rest))).left (storeShows memory) (storeShows memory') := by
    rw [MemoryStore.storeShows_eq_bind, MemoryStore.storeShows_eq_bind]
    exact taken.unspent
  have safe : FailsSafely (.fault cause) 0 cache [.root (.refusing memory ((cause, applied) :: rest))]
      (flush 0 (overRefusing cache memory ((cause, applied) :: rest))) := by
    rw [flushed]
    refine concludeFlush_failed consistent agrees result ?_
    rw [lower]
    exact shown
  have state : (flush 0 (overRefusing cache memory ((cause, applied) :: rest))).state =
      overRefusing (Cache.recover { cache with tip := some block } (ScriptedStore.write cache.entries block
        (.refusing memory ((cause, applied) :: rest))).left) memory' rest := by
    rw [flushed, concludeFlush, result]
    exact congrArg (Layer.cached 0 _ :: ·) lower
  refine ⟨safe, _, memory', state, ?_, taken⟩
  obtain ⟨later, below, same, left⟩ := safe.rest
  rw [state] at same
  cases same
  exact left

/-- All refusals in turn. What is left in the cache and what is in the store make up the entries of the start. -/
private theorem reflushed_refused (consistent : cache.Consistent)
    (agrees : cache.entries.AgreesWith (storeShows memory)) :
    (∀ (n : Nat) (inside : n < attempts.length),
      FailsSafely (.fault attempts[n].1) 0 cache [.root (.refusing memory attempts)]
        (flush 0 (reflushed n (overRefusing cache memory attempts)))) ∧
    ∃ later memory', reflushed attempts.length (overRefusing cache memory attempts) = overRefusing later memory' [] ∧
      Entries.Taken cache.entries later.entries (fun o => memory.coins[o]?) (fun o => memory'.coins[o]?) := by
  induction attempts generalizing cache memory with
  | nil => exact ⟨nofun, cache, memory, rfl, .refl⟩
  | cons attempt rest ih =>
    obtain ⟨cause, applied⟩ := attempt
    obtain ⟨safe, later, memory', state, left, taken⟩ := flush_refused cause applied rest consistent agrees
    obtain ⟨fails, last, memory'', ended, takenRest⟩ := ih left.consistent left.agrees
    have seen := safe.shows
    rw [state] at seen
    refine ⟨?_, last, memory'', ?_, taken.trans takenRest⟩
    · intro n inside
      cases n with
      | zero => exact safe
      | succ n =>
        rw [reflushed, state]
        exact (fails n (Nat.lt_of_succ_lt_succ inside)).after seen left
    · rw [List.length_cons, reflushed, state]
      exact ended

/-- A flush over a store that refuses nothing more. -/
private theorem flush_accepted (cache : Cache) (memory : MemoryStore) :
    (flush 0 (overRefusing cache memory [])).result = .ok () ∧
    ∃ later store, (flush 0 (overRefusing cache memory [])).state = [.cached 0 later, .root store] ∧
      later.entries = ∅ ∧ later.Consistent ∧
      ∀ o, store.memory.coins[o]? = cache.entries.patch (fun o => memory.coins[o]?) o := by
  obtain ⟨block, flushed⟩ := flush_overRefusing cache memory []
  rw [flushed]
  exact ⟨rfl, Cache.emptied { cache with tip := some block }, _, rfl, rfl, Cache.consistent_emptied,
    fun _ => MemoryStore.getElem?_write⟩

end Refusing

/-- A failed flush loses nothing, and a later one repairs it. First, whatever part of the entries the layer below
    took before it failed, the flush tells why it failed, leaves everything to be seen through the cache as it
    was, and leaves a consistent cache, in which the entries that were not taken are as they were and flags that
    were sound still are (`Leftover`). The same is true if the layer below is a cache with sound fresh entries that
    meets a clash, in whatever order it takes the outpoints. And over a store in memory that refuses any number of
    batches, each after it took a part of its own, every flush but the last fails in this way, measured against the
    cache and the store of the start; the last one succeeds, and leaves an empty cache and the coins that a single
    flush would have written. -/
theorem failed_flush_repaired :
    (∀ {ρ : Type} [Backing ρ] (cache : Cache) (skip : Nat) (below : Layers ρ) (why : Failure),
      cache.Consistent → cache.entries.AgreesWith (shows (below.drop skip)) →
      (handDown cache skip below).result = .error why →
      Entries.Taken cache.entries (handDown cache skip below).state.1 (shows (below.drop skip))
        (shows ((handDown cache skip below).state.2.drop skip)) →
      FailsSafely why skip cache below (flush 0 (.cached skip cache :: below))) ∧
    (∀ {ρ : Type} [Backing ρ] (cache parent : Cache) (deeper : Nat) (lower : Layers ρ) (why : Failure),
      cache.Consistent → parent.entries.FreshOver (shows (lower.drop deeper)) →
      cache.entries.AgreesWith (shows (.cached deeper parent :: lower)) →
      (∀ (order : List OutPoint) (block : Hash256),
        (parent.mergeInOrder order cache.entries block).result = .error why →
        FailsSafely why 0 cache (.cached deeper parent :: lower)
          (concludeFlush { cache with tip := some block } block 0
            ((parent.mergeInOrder order cache.entries block).mapState (·.map id (.cached deeper · :: lower))))) ∧
      ((∀ store : ρ, storeShows (Backing.tip store).2 = storeShows store) →
        (flush 0 (.cached 0 cache :: .cached deeper parent :: lower)).result = .error why →
        FailsSafely why 0 cache (.cached deeper parent :: lower)
          (flush 0 (.cached 0 cache :: .cached deeper parent :: lower)))) ∧
    ∀ (cache : Cache) (memory : MemoryStore) (attempts : List (Fault × List OutPoint)),
      cache.Consistent → cache.entries.AgreesWith (storeShows memory) →
      (∀ (n : Nat) (inside : n < attempts.length),
        FailsSafely (.fault attempts[n].1) 0 cache [.root (.refusing memory attempts)]
          (flush 0 (reflushed n (overRefusing cache memory attempts)))) ∧
      (flush 0 (reflushed attempts.length (overRefusing cache memory attempts))).result = .ok () ∧
      ∃ later store single,
        (flush 0 (reflushed attempts.length (overRefusing cache memory attempts))).state =
          [.cached 0 later, .root store] ∧
        later.entries = ∅ ∧ later.Consistent ∧
        root? (flush 0 [.cached 0 cache, .root memory]).state = some single ∧ store.memory.coins = single.coins := by
  refine ⟨?_, ?_, ?_⟩
  · intro ρ _ cache skip below why consistent agrees failed taken
    exact flush_failed consistent agrees failed taken
  · intro ρ _ cache parent deeper lower why consistent fresh agrees
    exact ⟨fun order block => flush_clashed order consistent fresh agrees,
      fun calm => flush_onto_cache_failed calm consistent fresh agrees⟩
  · intro cache memory attempts consistent agrees
    obtain ⟨fails, left, memory', ended, taken⟩ := reflushed_refused consistent agrees
    obtain ⟨ok, later, store, state, empty, stillConsistent, written⟩ := flush_accepted left memory'
    obtain ⟨_, single, bottom, writtenOnce⟩ := flush_onto_memory cache memory
    rw [ended]
    refine ⟨fails, ok, later, store, single, state, empty, stillConsistent, bottom, ?_⟩
    have total := (taken.trans .whole).eq_patch
    apply Std.ExtTreeMap.ext_getElem?
    intro o
    rw [written, writtenOnce]
    exact congrFun total o

/-! ### Two coins on their way -/

/-- A cache with two new coins that are not written yet. -/
def twoPending : Cache :=
  { Cache.empty .standard with
    entries := ((∅ : Entries).insert ⟨.zero, 0⟩ ⟨⟨5, 1, false, .empty, false⟩, ⟨true, true⟩⟩).insert ⟨.zero, 1⟩
      ⟨⟨7, 1, false, .empty, false⟩, ⟨true, true⟩⟩
    recency := (Recency.empty.touch ⟨.zero, 0⟩).touch ⟨.zero, 1⟩ }

/-- A cache that holds the first of the two coins unspent. -/
def clashing : Cache :=
  { Cache.empty .standard with
    entries := (∅ : Entries).insert ⟨.zero, 0⟩ ⟨⟨5, 1, false, .empty, false⟩, ⟨true, false⟩⟩ }

theorem consistent_twoPending : twoPending.Consistent where
  checked := rfl
  recorded o := by
    simp only [twoPending, Recency.contains, Recency.touch, Recency.empty, Std.ExtTreeMap.contains_insert,
      Std.ExtTreeMap.contains_empty]

theorem agrees_twoPending {shown : Shown} : twoPending.entries.AgreesWith shown := by
  intro o entry found clean
  simp only [twoPending, Entries.getElem?_insert_ite, Std.ExtTreeMap.getElem?_empty] at found
  split at found
  · cases found
    cases clean
  · split at found
    · cases found
      cases clean
    · cases found

theorem stale_clashing (o : OutPoint) (mine : Entry) (found : clashing.entries[o]? = some mine) :
    mine.isFresh = false := by
  simp only [clashing, Entries.getElem?_insert_ite, Std.ExtTreeMap.getElem?_empty] at found
  split at found
  · cases found
    rfl
  · cases found

/-- The store is full after the first coin, a cache in between would not have it, and the second attempt to write
    succeeds. -/
theorem twoPending_repaired :
    twoPending.Consistent ∧
    FailsSafely (.fault (.io "disk full")) 0 twoPending [.root (.refusing .empty [(.io "disk full", [⟨.zero, 0⟩])])]
      (flush 0 (overRefusing twoPending .empty [(.io "disk full", [⟨.zero, 0⟩])])) ∧
    FailsSafely (.fault (.freshMisapplied ⟨.zero, 0⟩)) 0 twoPending [.cached 0 clashing, .root MemoryStore.empty]
      (flush 0 [.cached 0 twoPending, .cached 0 clashing, .root MemoryStore.empty]) ∧
    (flush 0 (reflushed 1 (overRefusing twoPending .empty [(.io "disk full", [⟨.zero, 0⟩])]))).result = .ok () := by
  obtain ⟨once, clash, again⟩ := failed_flush_repaired
  refine ⟨consistent_twoPending, ?_, ?_, ?_⟩
  · obtain ⟨later, failed, store, taken⟩ :=
      ScriptedStore.write_refusing .empty (.io "disk full") [⟨.zero, 0⟩] [] twoPending.entries .zero
    refine once twoPending 0 [.root _] _ consistent_twoPending agrees_twoPending ?_ ?_
    · show (ScriptedStore.write twoPending.entries .zero _).result.mapError Failure.fault = _
      rw [failed]
      rfl
    · show Entries.Taken twoPending.entries (ScriptedStore.write twoPending.entries .zero _).left
        (storeShows MemoryStore.empty) (storeShows (ScriptedStore.write twoPending.entries .zero _).store)
      rw [store, ScriptedStore.storeShows_refusing, MemoryStore.storeShows_eq_bind, MemoryStore.storeShows_eq_bind]
      exact taken.unspent
  · have fresh : clashing.entries.FreshOver (shows [.root MemoryStore.empty]) := by
      intro o mine found isFresh
      rw [stale_clashing o mine found] at isFresh
      cases isFresh
    exact (clash twoPending clashing 0 [.root MemoryStore.empty] _ consistent_twoPending fresh agrees_twoPending).2
      (fun _ => rfl) rfl
  · exact (again twoPending .empty [(.io "disk full", [⟨.zero, 0⟩])] consistent_twoPending agrees_twoPending).2.1

end Layers

end CoinLayers
