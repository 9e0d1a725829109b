import CoinLayers.Proofs.Consistency
import CoinLayers.Proofs.Run
import CoinLayers.Proofs.Sweeping

/-!
The books that a cache keeps along its course: the count of bytes, the outpoints with a record of use, and the
flags of its entries.

Whatever a failed write leaves over, the count is the sum over the entries, and only cached outpoints have a
record (`Course.balanced`, `Course.cached`). If failed writes only take entries away, then just the cached
outpoints have a record, and all flags fit their coins (`Course.consistent`). Nothing is asked of the coins that
are read, of the batches that are merged, or of the store below.
-/
namespace CoinLayers

/-- The entry of a coin that was read is valid, be the coin spent or not. -/
theorem Entry.isValid_loaded (coin : Coin) : (Entry.loaded coin).isValid = true := by
  cases spent : coin.isSpent <;> simp [isValid, loaded, spent]

/-- A dirty entry for an unspent coin is valid, be it fresh or not. -/
theorem Entry.isValid_of_unspent {coin : Coin} {fresh : Bool} (unspent : coin.isSpent = false) :
    Entry.isValid ⟨coin, ⟨true, fresh⟩⟩ = true := by
  simp [isValid, unspent]

theorem Entries.contains_insert_ite {α : Type} {coins : Std.ExtTreeMap OutPoint α} {value : α} {o p : OutPoint} :
    (coins.insert o value).contains p = if p = o then true else coins.contains p := by
  rw [Std.ExtTreeMap.contains_eq_isSome_getElem?, getElem?_insert_ite, Std.ExtTreeMap.contains_eq_isSome_getElem?]
  split <;> rfl

theorem Entries.contains_erase_ite {α : Type} {coins : Std.ExtTreeMap OutPoint α} {o p : OutPoint} :
    (coins.erase o).contains p = if p = o then false else coins.contains p := by
  rw [Std.ExtTreeMap.contains_eq_isSome_getElem?, getElem?_erase_ite, Std.ExtTreeMap.contains_eq_isSome_getElem?]
  split <;> rfl

namespace Recency

variable {recency : Recency} {o p : OutPoint}

theorem contains_iff : recency.contains o = true ↔ o ∈ recency.oldestFirst :=
  mem_oldestFirst.symm

theorem contains_touch : (recency.touch o).contains p = if p = o then true else recency.contains p :=
  Entries.contains_insert_ite

theorem contains_forget : (recency.forget o).contains p = if p = o then false else recency.contains p :=
  Entries.contains_erase_ite

theorem contains_retain {keep : OutPoint → Bool} : (recency.retain keep).contains o = (recency.contains o && keep o) := by
  have kept : (recency.retain keep).stamps[o]? = recency.stamps[o]?.filter fun _ => keep o :=
    Std.ExtTreeMap.getElem?_filter'
  rw [contains, contains, Std.ExtTreeMap.contains_eq_isSome_getElem?, kept, Std.ExtTreeMap.contains_eq_isSome_getElem?]
  cases recency.stamps[o]? with
  | none => rfl
  | some stamp => cases keep o <;> rfl

end Recency

/-- Whatever a batch says, an entry that a merge keeps is dirty and valid. -/
theorem MergeStep.valid_of_keep {old : Option Entry} {entry kept : Entry} (keeps : of old entry = .keep kept) :
    kept.isDirty = true ∧ kept.isValid = true := by
  cases old with
  | none => grind [of, Entry.isValid, Entry.isDirty, Entry.isFresh]
  | some mine => grind [of, Entry.isValid, Entry.isDirty, Entry.isFresh]

namespace Cache

variable {cache later last : Cache} {o : OutPoint} {coin : Coin} {entry : Entry} {Left : Entries → Entries → Prop}
  {looked seen : List OutPoint}

/-! ### What a cache does on its own -/

/-- An addition changes nothing, or keeps the coin in a dirty entry. -/
theorem add_cases (cache : Cache) (o : OutPoint) (coin : Coin) (mayOverwrite : Bool) :
    (cache.add o coin mayOverwrite).state = cache ∨
    ∃ (warned : Cache) (fresh : Bool), warned.entries = cache.entries ∧ warned.recency = cache.recency ∧
      (cache.add o coin mayOverwrite).state = (warned.keep o ⟨coin, ⟨true, fresh⟩⟩).state := by
  rw [add]
  split
  · exact .inl rfl
  split
  · exact .inr ⟨cache, _, rfl, rfl, rfl⟩
  · split
    · exact .inr ⟨cache, _, rfl, rfl, rfl⟩
    split
    · exact .inl rfl
    split
    · exact .inr ⟨{ cache with overwritten := cache.overwritten.meet o }, _, rfl, rfl, rfl⟩
    · exact .inr ⟨cache, _, rfl, rfl, rfl⟩

/-- Relations between a cache and what becomes of it that hold of each single thing that an operation does to it:
    to keep a valid dirty entry as the newest, to erase an entry, and to evict. Then they hold of the operation. -/
structure Stepwise (Rel : Cache → Cache → Prop) : Prop where
  trans : ∀ {cache later last : Cache}, Rel cache later → Rel later last → Rel cache last
  same : ∀ {cache later : Cache}, later.entries = cache.entries → later.recency = cache.recency → Rel cache later
  keep : ∀ {cache : Cache} {o : OutPoint} {entry : Entry}, entry.isDirty = true → entry.isValid = true →
    Rel cache ((cache.put o entry).touch o)
  erase : ∀ {cache : Cache} {o : OutPoint}, Rel cache (cache.erase o)
  shrink : ∀ {cache : Cache}, Rel cache cache.shrink.state

namespace Stepwise

variable {Rel : Cache → Cache → Prop}

theorem refl (rel : Stepwise Rel) : Rel cache cache :=
  rel.same rfl rfl

theorem kept (rel : Stepwise Rel) (dirty : entry.isDirty = true) (valid : entry.isValid = true) :
    Rel cache (cache.keep o entry).state := by
  rw [Cache.keep]
  split
  · exact rel.trans (rel.keep dirty valid) rel.shrink
  · exact rel.keep dirty valid

theorem add (rel : Stepwise Rel) {mayOverwrite : Bool} (unspent : coin.isSpent = false) :
    Rel cache (cache.add o coin mayOverwrite).state := by
  rcases cache.add_cases o coin mayOverwrite with unchanged | ⟨warned, fresh, entries, recency, kept⟩
  · rw [unchanged]
    exact rel.refl
  · rw [kept]
    exact rel.trans (rel.same entries recency) (rel.kept rfl (Entry.isValid_of_unspent unspent))

theorem spend (rel : Stepwise Rel) : Rel cache (cache.spend o).2 := by
  rw [Cache.spend]
  split
  · exact rel.refl
  · split
    · exact rel.erase
    · next stale =>
      rw [Entry.isFresh, Bool.not_eq_true] at stale
      exact rel.keep rfl (by simp [Entry.isValid, stale])

theorem uncache (rel : Stepwise Rel) : Rel cache (cache.uncache o) := by
  rw [Cache.uncache]
  split
  · exact rel.erase
  · exact rel.refl

theorem merging (rel : Stepwise Rel) (merging : Merging) (order : List OutPoint) :
    Rel merging.cache (merging.run order).state.cache := by
  induction order generalizing merging with
  | nil => exact rel.refl
  | cons o rest ih =>
    rcases Merging.run_cons merging o rest with
      ⟨_, skipped⟩ | ⟨_, _, _, ended⟩ | ⟨entry, next, _, _, _, stepped, _, state⟩
    · rw [skipped]
      exact ih merging
    · rw [ended]
      exact rel.refl
    · rw [state]
      refine rel.trans ?_ (ih next)
      rw [stepped]
      cases step : MergeStep.of merging.cache.entries[o]? entry with
      | erase => exact rel.erase
      | keep kept =>
        obtain ⟨dirty, valid⟩ := MergeStep.valid_of_keep step
        exact rel.keep dirty valid
      | idle | clash | vanish => exact rel.refl

theorem merge (rel : Stepwise Rel) {batch : Entries} {block : Hash256} (order : List OutPoint) :
    Rel cache (cache.mergeInOrder order batch block).state.2 := by
  have merged := rel.merging ⟨cache, batch, 0, 0⟩ order
  rw [mergeInOrder]
  split
  · exact merged
  · exact rel.trans merged (rel.same rfl rfl)

end Stepwise

/-! ### Records of use -/

/-- At every outpoint the record of use and the entry are there as before, or both are there, or neither is. -/
def Matches (cache later : Cache) : Prop :=
  ∀ o, later.recency.contains o = later.entries.contains o ∨
    later.recency.contains o = cache.recency.contains o ∧ later.entries.contains o = cache.entries.contains o

namespace Matches

theorem trans (first : Matches cache later) (second : Matches later last) : Matches cache last := by
  intro o
  rcases second o with together | ⟨record, entry⟩
  · exact .inl together
  · rw [record, entry]
    exact first o

theorem touch (there : o ∈ cache.entries) : Matches cache (cache.touch o) := by
  intro p
  rw [Cache.touch, Recency.contains_touch]
  by_cases same : p = o
  · rw [if_pos same, same]
    exact .inl (Std.ExtTreeMap.contains_iff_mem.mpr there).symm
  · rw [if_neg same]
    exact .inr ⟨rfl, rfl⟩

theorem put : Matches cache ((cache.put o entry).touch o) := by
  intro p
  rw [Cache.touch, Recency.contains_touch, entries_put, Entries.contains_insert_ite]
  by_cases same : p = o
  · rw [if_pos same, if_pos same]
    exact .inl rfl
  · rw [if_neg same, if_neg same]
    exact .inr ⟨rfl, rfl⟩

theorem erase : Matches cache (cache.erase o) := by
  rw [Cache.erase]
  split
  · exact fun _ => .inr ⟨rfl, rfl⟩
  · intro p
    rw [Recency.contains_forget, Entries.contains_erase_ite]
    by_cases same : p = o
    · rw [if_pos same, if_pos same]
      exact .inl rfl
    · rw [if_neg same, if_neg same]
      exact .inr ⟨rfl, rfl⟩

/-- An outpoint that an eviction passes has a record and an entry afterwards, if there was a change in it, and
    else neither. -/
theorem shrink : Matches cache cache.shrink.state := by
  obtain ⟨taken, rest, whole, order, entries⟩ := cache.shrink_leaves
  have distinct : (taken ++ rest).Nodup := whole ▸ Recency.nodup_oldestFirst
  obtain ⟨_, _, apart⟩ := List.nodup_append.mp distinct
  intro o
  have recorded : cache.shrink.state.recency.contains o = true ↔ o ∈ rest ∨ o ∈ taken ∧ cache.changedAt o = true := by
    rw [Recency.contains_iff, order, List.mem_append, List.mem_filter]
  have recordedBefore : cache.recency.contains o = true ↔ o ∈ taken ∨ o ∈ rest := by
    rw [Recency.contains_iff, whole, List.mem_append]
  rw [Std.ExtTreeMap.contains_eq_isSome_getElem?, entries]
  by_cases passed : o ∈ taken
  · have notLate : o ∉ rest := fun late => apart o passed o late rfl
    left
    cases changed : cache.changedAt o with
    | true =>
      obtain ⟨entry, found, _⟩ := (Option.any_eq_true ..).mp changed
      simpa [found, changed, passed] using recorded
    | false => simpa [passed, notLate, changed] using recorded
  · right
    rw [if_neg fun both => passed both.1, ← Std.ExtTreeMap.contains_eq_isSome_getElem?]
    refine ⟨Bool.eq_iff_iff.mpr ?_, rfl⟩
    rw [recorded, recordedBefore]
    simp [passed]

theorem stepwise : Stepwise Matches where
  trans := trans
  same entries recency _ := .inr ⟨by rw [recency], by rw [entries]⟩
  keep _ _ := put
  erase := erase
  shrink := shrink

end Matches

/-- Every turn keeps records and entries together, but for one in which a write fails. -/
theorem Turn.matches (turn : Turn Left looked cache later) :
    Matches cache later ∨ ∃ left, Left cache.entries left ∧ later = cache.recover left := by
  have stepwise := Matches.stepwise
  cases turn with
  | missed | stood => exact .inl (stepwise.same rfl rfl)
  | used there => exact .inl (.touch there)
  | loaded => exact .inl .put
  | spent => exact .inl stepwise.spend
  | added _ _ unspent => exact .inl (stepwise.add unspent)
  | uncached => exact .inl stepwise.uncache
  | merged order => exact .inl (stepwise.merge order)
  | emptied => exact .inl fun _ => .inl rfl
  | recovered leaves => exact .inr ⟨_, leaves, rfl⟩

/-- Only cached outpoints have a record of use. -/
theorem Course.cached {budget : Budget} {draining : Draining} (course : Course Left seen (.empty budget draining) cache)
    (o : OutPoint) (recorded : cache.recency.contains o = true) : cache.entries.contains o = true := by
  refine course.holds (motive := fun _ cache => cache.recency.contains o = true → cache.entries.contains o = true) id
    (fun turn cached recorded => ?_) recorded
  rcases turn.matches with matching | ⟨left, _, rfl⟩
  · rcases matching o with together | ⟨record, entry⟩
    · rw [← together, recorded]
    · rw [entry]
      exact cached (record ▸ recorded)
  · have kept : (Recency.retain _ left.contains).contains o = true := recorded
    rw [Recency.contains_retain, Bool.and_eq_true] at kept
    exact kept.2

/-! ### Flags -/

/-- The flags of every entry fit its coin. -/
def Valid (cache : Cache) : Prop :=
  ∀ (o : OutPoint) (entry : Entry), cache.entries[o]? = some entry → entry.isValid = true

namespace Valid

theorem put (valid : cache.Valid) (fits : entry.isValid = true) : ((cache.put o entry).touch o).Valid := by
  intro p other found
  rw [entries_touch, entries_put, Entries.getElem?_insert_ite] at found
  split at found
  · cases found
    exact fits
  · exact valid p other found

theorem thinned (valid : cache.Valid) (thinned : Entries.Thinned cache.entries later.entries) : later.Valid := by
  intro o entry found
  rcases thinned o with same | ⟨gone, _⟩
  · exact valid o entry (same ▸ found)
  · rw [gone] at found
    cases found

theorem erase (valid : cache.Valid) : (cache.erase o).Valid := by
  intro p other found
  rw [entries_erase, Entries.getElem?_erase_ite] at found
  split at found
  · cases found
  · exact valid p other found

theorem stepwise : Stepwise fun cache later => cache.Valid → later.Valid where
  trans first second valid := second (first valid)
  same entries _ valid := by rwa [Valid, entries]
  keep _ fits valid := valid.put fits
  erase := erase
  shrink valid := valid.thinned (thinned_shrink _)

end Valid

/-- What failed writes leave over is taken to be a part of what they were handed. -/
theorem Turn.valid (turn : Turn (fun batch left => left.PartOf batch) looked cache later) (valid : cache.Valid) :
    later.Valid := by
  have stepwise := Valid.stepwise
  cases turn with
  | missed | used | stood => exact valid
  | loaded coin => exact valid.put (Entry.isValid_loaded coin)
  | spent => exact stepwise.spend valid
  | added _ _ unspent => exact stepwise.add unspent valid
  | uncached => exact stepwise.uncache valid
  | merged order => exact stepwise.merge order valid
  | emptied => exact nofun
  | recovered part => exact fun o entry found => valid o entry (part o entry found)

/-! ### Courses -/

theorem Turn.balanced (turn : Turn Left looked cache later) (balanced : cache.Balanced) : later.Balanced := by
  cases turn with
  | missed | used | stood => exact balanced
  | loaded => exact balanced.load
  | spent => exact balanced.spend
  | added => exact balanced.add
  | uncached => exact balanced.uncache
  | merged order => exact balanced.mergeInOrder order
  | emptied => exact balanced.emptied
  | recovered => exact balanced.recover _

/-- The count of bytes is right all along. -/
theorem Course.balanced {budget : Budget} {draining : Draining} (course : Course Left seen (.empty budget draining) cache) :
    cache.Balanced :=
  course.holds (motive := fun _ => Balanced) (balanced_empty budget draining) Turn.balanced

/-- If failed writes leave a part, a cache with records of use for just its entries stays one. -/
theorem Turn.recorded (turn : Turn (fun batch left => left.PartOf batch) looked cache later)
    (recorded : ∀ o, cache.recency.contains o = cache.entries.contains o) (o : OutPoint) :
    later.recency.contains o = later.entries.contains o := by
  rcases turn.matches with matching | ⟨left, part, rfl⟩
  · rcases matching o with together | ⟨record, entry⟩
    · exact together
    · rw [record, entry, recorded]
  · show (Recency.retain _ left.contains).contains o = left.contains o
    rw [Recency.contains_retain, recorded, Std.ExtTreeMap.contains_eq_isSome_getElem?,
      Std.ExtTreeMap.contains_eq_isSome_getElem?]
    cases found : left[o]? with
    | none => simp
    | some entry => simp [part o entry found]

/-- If failed writes leave a part, a cache that counts its bytes right stays consistent. -/
theorem Turn.consistent (turn : Turn (fun batch left => left.PartOf batch) looked cache later)
    (consistent : cache.Consistent) (balanced : cache.Balanced) : later.Consistent := by
  obtain ⟨valid, _, recorded⟩ := consistent_iff.mp consistent
  have counted : later.usage.bytes = later.entries.footprint := congrArg Tally.bytes (turn.balanced balanced)
  exact consistent_iff.mpr ⟨turn.valid valid, counted.symm, turn.recorded recorded⟩

/-- So it is consistent all along. -/
theorem Course.consistent {budget : Budget} {draining : Draining}
    (course : Course (fun batch left => left.PartOf batch) seen (.empty budget draining) cache) : cache.Consistent := by
  have both : cache.Consistent ∧ cache.Balanced :=
    course.holds (motive := fun _ cache => cache.Consistent ∧ cache.Balanced)
      ⟨consistent_empty budget draining, balanced_empty budget draining⟩
      fun turn before => ⟨turn.consistent before.1 before.2, turn.balanced before.2⟩
  exact both.1

/-- Just the cached outpoints have a record of use, each one of them; all flags fit their coins; and the cache
    finds nothing wrong with itself. -/
structure Orderly (cache : Cache) : Prop where
  once : cache.recency.oldestFirst.Nodup
  recorded : ∀ o, o ∈ cache.recency.oldestFirst ↔ o ∈ cache.entries
  valid : cache.Valid
  checked : cache.check.result = .ok true

theorem Consistent.orderly (consistent : cache.Consistent) : cache.Orderly where
  once := Recency.nodup_oldestFirst
  recorded o := by rw [← Recency.contains_iff, consistent.recorded, Std.ExtTreeMap.contains_iff_mem]
  valid := (consistent_iff.mp consistent).1
  checked := consistent.checked

end Cache

namespace Layers

/-- A new cache keeps its count of bytes along every course, and records of use for cached outpoints only,
    whatever failed writes leave over. If they leave a part of what they were handed, the records are those of
    just the cached outpoints, and all flags fit. The same holds of a new cache anywhere among any layers over
    any store, after any requests that add unspent coins only. -/
theorem books_kept :
    (∀ (Left : Entries → Entries → Prop) (seen : List OutPoint) (budget : Budget) (draining : Draining) (cache : Cache),
      Cache.Course Left seen (.empty budget draining) cache →
      cache.Balanced ∧ ∀ o ∈ cache.recency.oldestFirst, o ∈ cache.entries) ∧
    (∀ (seen : List OutPoint) (budget : Budget) (draining : Draining) (cache : Cache),
      Cache.Course (fun batch left => left.PartOf batch) seen (.empty budget draining) cache → cache.Orderly) ∧
    ∀ (ρ : Type) [Backing ρ] (layers : Layers ρ) (requests : List (Nat × Request)) (place : Nat) (budget : Budget)
      (draining : Draining), cacheAt? place layers = some (.empty budget draining) →
      (∀ asked ∈ requests, asked.2.AddsUnspent) →
      ∃ cache, cacheAt? place (after requests layers) = some cache ∧ cache.Balanced ∧
        (∀ o ∈ cache.recency.oldestFirst, o ∈ cache.entries) ∧
        ((∀ (batch : Entries) (block : Hash256) (store : ρ) (why : Fault),
            (Backing.write batch block store).result = .error why →
            (Backing.write batch block store).left.PartOf batch) →
          cache.Orderly) := by
  have cached (Left : Entries → Entries → Prop) (seen : List OutPoint) (budget : Budget) (draining : Draining)
      (cache : Cache) (course : Cache.Course Left seen (.empty budget draining) cache) (o : OutPoint)
      (recorded : o ∈ cache.recency.oldestFirst) : o ∈ cache.entries :=
    Std.ExtTreeMap.contains_iff_mem.mp (course.cached o (Recency.contains_iff.mpr recorded))
  refine ⟨fun Left seen budget draining cache course => ⟨course.balanced, cached Left seen budget draining cache course⟩,
    fun _ _ _ _ course => course.consistent.orderly, ?_⟩
  intro ρ _ layers requests place budget draining new unspent
  obtain ⟨cache, here, course⟩ := course_of_run leaves_anything unspent layers place _ new
  refine ⟨cache, here, course.balanced, cached _ _ budget draining cache course, fun part => ?_⟩
  have leaves : Leaves ρ fun batch left => left.PartOf batch := ⟨fun _ _ part => part, part⟩
  obtain ⟨same, there, course⟩ := course_of_run leaves unspent layers place _ new
  obtain rfl : cache = same := Option.some.inj (here.symm.trans there)
  exact course.consistent.orderly

/-- A new cache over a store that takes no batch. -/
def onNothing : Layers EmptyStore :=
  [.cached 0 (.empty .standard), .root ⟨⟩]

/-- A coin is added, and cannot be written. -/
def addedInVain : List (Nat × Request) :=
  [(0, .add ⟨.zero, 0⟩ ⟨5, 1, false, .empty, false⟩ false), (0, .flush)]

/-- A cache that has read one coin. -/
def readOnce : Cache :=
  (Cache.empty .standard).load ⟨.zero, 0⟩ ⟨5, 1, false, .empty, false⟩

/-- A batch that makes no sense: its only coin is spent, but neither dirty nor fresh. -/
def senseless : Entries :=
  (∅ : Entries).insert ⟨.zero, 1⟩ ⟨.spent, .clean⟩

/-- The cache keeps the coin that cannot be written, and its books are in order. A cache that gets back a batch
    that makes no sense still counts it right, and one that gets back nothing is in order. -/
theorem addedInVain_kept :
    cacheAt? 0 onNothing = some (.empty .standard) ∧ (∀ asked ∈ addedInVain, asked.2.AddsUnspent) ∧
    (flush 0 (after (addedInVain.take 1) onNothing)).result = .error (.fault .writeUnsupported) ∧
    (∃ cache, cacheAt? 0 (after addedInVain onNothing) = some cache ∧ cache.Balanced ∧ cache.Orderly) ∧
    (readOnce.recover senseless).Balanced ∧ (readOnce.recover ∅).Orderly := by
  have unspent : ∀ asked ∈ addedInVain, asked.2.AddsUnspent := by
    simp [addedInVain, Request.AddsUnspent]
  have reading {Left : Entries → Entries → Prop} : Cache.Course Left [⟨.zero, 0⟩] (.empty .standard) readOnce :=
    (Cache.Turn.loaded _ (by simp [Cache.empty])).course
  obtain ⟨counts, keeps, runs⟩ := books_kept
  obtain ⟨cache, here, balanced, _, orderly⟩ := runs EmptyStore onNothing addedInVain 0 .standard .sorted rfl unspent
  have kept : cache.Orderly := orderly fun _ _ _ _ _ => .refl
  refine ⟨rfl, unspent, rfl, ⟨cache, here, balanced, kept⟩, ?_, ?_⟩
  · exact (counts (fun _ _ => True) _ .standard .sorted _ (reading.step (.recovered trivial))).1
  · exact keeps _ .standard .sorted _ (reading.step (.recovered fun o entry found => by simp at found))

end Layers

end CoinLayers
