import CoinLayers.ScriptedStore
import CoinLayers.Proofs.Shape

/-!
Reading from stores that fail now and then.

A store that tells the truth whenever it answers at all (`Truthful`) may fail to read a coin and find it the next time.
What can be seen through layers then hangs on no read: it is what their caches make of the truth (`sees`). A read that
is answered tells it (`read_tells`), and whether it is answered or not, it does no more than fetch coins into caches,
where they repeat what was seen without them (`fetched_read`).
-/
namespace CoinLayers

variable {ρ α : Type} {Proper : ρ → Prop} {truth : Shown} {o : OutPoint}

/-- Stores that tell the truth whenever they answer a read. -/
structure Truthful [Backing ρ] (Proper : ρ → Prop) (truth : Shown) : Prop where
  stays : ∀ (o : OutPoint) (store : ρ), Proper store → Proper (Backing.read o store).2
  tells : ∀ (o : OutPoint) (store : ρ) (found : Option Coin), Proper store → (Backing.read o store).1 = .ok found →
    unspentIn (.ok found) = truth o

/-- A store of which questions change no answer tells the truth about what it shows: a read may fail, but then it always
    does. -/
theorem Steady.truthful [Backing ρ] (laws : Steady Proper) (store : ρ) :
    Truthful (fun later => Proper later ∧ ∀ o, (Backing.read o later).1 = (Backing.read o store).1)
      (storeShows store) where
  stays o later kept := by
    obtain ⟨proper, same⟩ := laws.read o later kept.1
    exact ⟨proper, fun p => (same p).trans (kept.2 p)⟩
  tells o later found kept answered := by
    rw [storeShows, ← kept.2 o, answered]
    rfl

theorem ScriptedStore.steady : Steady fun _ : ScriptedStore => True where
  read _ _ _ := ⟨trivial, fun _ => rfl⟩
  holds _ _ _ := ⟨trivial, fun _ => rfl⟩
  tip _ _ := ⟨trivial, fun _ => rfl⟩

/-- An answer shows an unspent coin if one is found in it. -/
theorem showsUnspent_eq_isSome {found : Option Coin} : showsUnspent found = (unspentIn (.ok found)).isSome := by
  cases found with
  | none => rfl
  | some coin =>
    show (!coin.isSpent) = coin.unspent?.isSome
    rw [Coin.unspent?]
    cases coin.isSpent <;> rfl

namespace Entries

variable {entries later last : Entries} {entry : Entry}

/-- All entries are still there, and any others hold coins that were read from the layer below. -/
def Filled (entries later : Entries) : Prop :=
  ∀ o : OutPoint, later[o]? = entries[o]? ∨ entries[o]? = none ∧ ∃ coin : Coin, later[o]? = some (.loaded coin)

theorem Filled.refl : Filled entries entries :=
  fun _ => .inl rfl

theorem Filled.trans (first : Filled entries later) (second : Filled later last) : Filled entries last := by
  intro o
  rcases second o with same | ⟨missing, loaded⟩
  · rw [same]
    exact first o
  · rcases first o with same | ⟨_, coin, there⟩
    · exact .inr ⟨same.symm.trans missing, loaded⟩
    · rw [missing] at there
      cases there

theorem Filled.still (filled : Filled entries later) (found : entries[o]? = some entry) : later[o]? = some entry := by
  rcases filled o with same | ⟨missing, _⟩
  · exact same.trans found
  · rw [found] at missing
    cases missing

/-- What has something to write was there before. -/
theorem Filled.dirty_iff (filled : Filled entries later) (dirty : entry.isDirty = true) :
    later[o]? = some entry ↔ entries[o]? = some entry := by
  refine ⟨fun found => ?_, filled.still⟩
  rcases filled o with same | ⟨_, coin, loaded⟩
  · exact same.symm.trans found
  · cases loaded.symm.trans found
    cases dirty

/-- So was an entry that is fresh and not spent: a coin that was read is fresh only if it is spent. -/
theorem Filled.fresh (filled : Filled entries later) (found : later[o]? = some entry) (fresh : entry.isFresh = true)
    (unspent : entry.coin.isSpent = false) : entries[o]? = some entry := by
  rcases filled o with same | ⟨_, coin, loaded⟩
  · exact same.symm.trans found
  · cases loaded.symm.trans found
    cases fresh.symm.trans unspent

end Entries

theorem Cache.filled_learn {cache : Cache} {answer : Except Failure (Option Coin)}
    (missing : cache.entries[o]? = none) : cache.entries.Filled (cache.learn o answer).entries := by
  match answer with
  | .ok (some coin) =>
    intro p
    rw [learn, entries_load, Entries.getElem?_insert_ite]
    by_cases same : p = o
    · subst same
      exact .inr ⟨missing, coin, if_pos rfl⟩
    · exact .inl (if_neg same)
  | .ok none => exact .refl
  | .error _ => exact .refl

namespace Layers

variable {layers below lower before between after : Layers ρ} {layer later : Layer ρ} {depth : Nat}

/-- Every store among the layers has a property. -/
def EveryRoot (Holds : ρ → Prop) (layers : Layers ρ) : Prop :=
  ∀ store, Layer.root store ∈ layers → Holds store

theorem everyRoot_cons {Holds : ρ → Prop} :
    EveryRoot Holds (layer :: below) ↔ (∀ store, layer = .root store → Holds store) ∧ EveryRoot Holds below := by
  simp only [EveryRoot, List.mem_cons]
  constructor
  · intro all
    exact ⟨fun store same => all store (.inl same.symm), fun store member => all store (.inr member)⟩
  · rintro ⟨first, rest⟩ store (same | member)
    · exact first store same.symm
    · exact rest store member

/-- What the layer at a depth shows where the stores tell the truth: the truth, as the caches on the way have it. -/
def sees (truth : Shown) : Nat → Layers ρ → Shown
  | _, [] => fun _ => none
  | depth + 1, _ :: below => sees truth depth below
  | 0, .root _ :: _ => truth
  | 0, .relay skip :: below => sees truth skip below
  | 0, .guarded skip _ :: below => sees truth skip below
  | 0, .cached skip cache :: below => cache.entries.atop (sees truth skip below)

theorem cacheAt?_eq_some {cache : Cache} :
    cacheAt? depth layers = some cache ↔ ∃ skip below, layers.drop depth = .cached skip cache :: below := by
  induction layers generalizing depth with
  | nil => simp [cacheAt?_nil]
  | cons layer below ih =>
    cases depth with
    | succ depth => exact ih
    | zero => cases layer <;> simp [cacheAt?]

theorem isSome_cacheAt? :
    (cacheAt? depth layers).isSome = true ↔ ∃ skip cache below, layers.drop depth = .cached skip cache :: below := by
  simp only [Option.isSome_iff_exists, cacheAt?_eq_some]
  exact exists_comm

theorem sees_drop {further : Nat} : sees truth further (layers.drop depth) = sees truth (depth + further) layers := by
  induction layers generalizing depth with
  | nil => cases depth <;> cases further <;> rfl
  | cons layer below ih =>
    cases depth with
    | zero => rw [List.drop_zero, Nat.zero_add]
    | succ depth =>
      rw [Nat.add_right_comm]
      exact ih

theorem sees_below (here : layers.drop depth = layer :: below) (further : Nat) :
    sees truth further below = sees truth (depth + (further + 1)) layers := by
  have same : sees truth (further + 1) (layers.drop depth) = sees truth (depth + (further + 1)) layers := sees_drop
  rwa [here] at same

/-- What a cache shows. -/
theorem sees_acting {skip : Nat} {cache : Cache} (acting : layers.drop depth = .cached skip cache :: below) :
    sees truth depth layers = cache.entries.atop (sees truth skip below) := by
  have here : sees truth 0 (layers.drop depth) = sees truth depth layers := sees_drop
  rw [← here, acting]
  rfl

/-- Some layers after coins were fetched into their caches. Each of them shows what it showed before. -/
structure Fetched (Proper : ρ → Prop) (truth : Shown) (before after : Layers ρ) : Prop where
  proper : EveryRoot Proper after
  shape : shape after = shape before
  sees : ∀ depth, sees truth depth after = sees truth depth before
  caches : ∀ place cache, cacheAt? place before = some cache →
    ∃ later, cacheAt? place after = some later ∧ cache.entries.Filled later.entries

namespace Fetched

theorem refl (proper : EveryRoot Proper layers) : Fetched Proper truth layers layers :=
  ⟨proper, rfl, fun _ => rfl, fun _ cache here => ⟨cache, here, .refl⟩⟩

theorem trans (first : Fetched Proper truth before between) (second : Fetched Proper truth between after) :
    Fetched Proper truth before after where
  proper := second.proper
  shape := second.shape.trans first.shape
  sees depth := (second.sees depth).trans (first.sees depth)
  caches place cache here := by
    obtain ⟨later, there, filled⟩ := first.caches place cache here
    obtain ⟨last, still, filledAgain⟩ := second.caches place later there
    exact ⟨last, still, filled.trans filledAgain⟩

/-- A layer on top may change too, if it is a cache, by what is fetched into it. -/
theorem cons (fetched : Fetched Proper truth below lower) (proper : ∀ store, later = .root store → Proper store)
    (same : later.shape = layer.shape)
    (seen : Layers.sees truth 0 (later :: lower) = Layers.sees truth 0 (layer :: below))
    (cache : ∀ skip cache, layer = .cached skip cache →
      ∃ mine, later = .cached skip mine ∧ cache.entries.Filled mine.entries) :
    Fetched Proper truth (layer :: below) (later :: lower) where
  proper := everyRoot_cons.mpr ⟨proper, fetched.proper⟩
  shape := shape_cons same fetched.shape
  sees
    | 0 => seen
    | depth + 1 => fetched.sees depth
  caches
    | 0, top, here => by
      cases layer with
      | root | relay | guarded => cases here
      | cached skip _ =>
        cases here
        obtain ⟨mine, rfl, filled⟩ := cache skip top rfl
        exact ⟨mine, rfl, filled⟩
    | place + 1, other, here => fetched.caches place other here

theorem root {store later : ρ} (fetched : Fetched Proper truth below lower) (proper : Proper later) :
    Fetched Proper truth (.root store :: below) (.root later :: lower) := by
  refine fetched.cons ?_ rfl rfl nofun
  rintro _ ⟨⟩
  exact proper

theorem relay {skip : Nat} (fetched : Fetched Proper truth below lower) :
    Fetched Proper truth (.relay skip :: below) (.relay skip :: lower) :=
  fetched.cons nofun rfl (fetched.sees skip) nofun

theorem guarded {skip : Nat} {guard told : ReadGuard} (fetched : Fetched Proper truth below lower) :
    Fetched Proper truth (.guarded skip guard :: below) (.guarded skip told :: lower) :=
  fetched.cons nofun rfl (fetched.sees skip) nofun

theorem cached {skip : Nat} {cache mine : Cache} (fetched : Fetched Proper truth below lower)
    (filled : cache.entries.Filled mine.entries)
    (same : mine.entries.atop (Layers.sees truth skip below) = cache.entries.atop (Layers.sees truth skip below)) :
    Fetched Proper truth (.cached skip cache :: below) (.cached skip mine :: lower) := by
  refine fetched.cons nofun rfl ?_ ?_
  · show mine.entries.atop (Layers.sees truth skip lower) = cache.entries.atop (Layers.sees truth skip below)
    rw [fetched.sees, same]
  · rintro _ _ ⟨⟩
    exact ⟨mine, rfl, filled⟩

/-- Layers above do not matter. -/
theorem under (fetched : Fetched Proper truth below lower) (proper : EveryRoot Proper (layer :: below)) :
    Fetched Proper truth (layer :: below) (layer :: lower) := by
  cases layer with
  | root store => exact fetched.root ((everyRoot_cons.mp proper).1 store rfl)
  | relay skip => exact fetched.relay
  | guarded skip guard => exact fetched.guarded
  | cached skip cache => exact fetched.cached .refl rfl

/-- A cache is still one, with more coins, on layers that show what they showed before. -/
theorem acting {skip : Nat} {cache : Cache} (fetched : Fetched Proper truth before after)
    (acting : before.drop depth = .cached skip cache :: below) :
    ∃ later lower, after.drop depth = .cached skip later :: lower ∧ cache.entries.Filled later.entries ∧
      Layers.sees truth skip lower = Layers.sees truth skip below := by
  obtain ⟨later, there, filled⟩ := fetched.caches depth cache (cacheAt?_eq_some.mpr ⟨skip, below, acting⟩)
  obtain ⟨others, lower, still⟩ := cacheAt?_eq_some.mp there
  have shapes : Layers.shape (after.drop depth) = Layers.shape (before.drop depth) := by
    rw [shape_drop, shape_drop, fetched.shape]
  rw [still, acting] at shapes
  cases (List.cons.inj shapes).1
  refine ⟨later, lower, still, filled, ?_⟩
  rw [sees_below still, sees_below acting, fetched.sees]

end Fetched

variable [Backing ρ]

/-- A read that is answered tells what the layer shows. -/
theorem read_tells (laws : Truthful Proper truth) {found : Option Coin} (proper : EveryRoot Proper layers)
    (told : (read o depth layers).result = .ok found) : unspentIn (.ok found) = sees truth depth layers o := by
  induction layers generalizing depth with
  | nil =>
    rw [read_nil] at told
    cases told
    cases depth <;> rfl
  | cons layer below ih =>
    obtain ⟨first, rest⟩ := everyRoot_cons.mp proper
    cases depth with
    | succ depth => exact ih rest told
    | zero =>
      cases layer with
      | root store =>
        exact laws.tells o store found (first store rfl) (ok_of_mapError told)
      | relay skip => exact ih rest told
      | guarded skip guard => exact ih rest (ok_of_watch told)
      | cached skip cache =>
        rw [read] at told
        show _ = cache.entries.atop (sees truth skip below) o
        cases there : cache.entries[o]? with
        | some entry =>
          rw [there] at told
          cases told
          rw [Entries.atop_of_some there]
          rfl
        | none =>
          rw [there] at told
          rw [Entries.atop_of_none there]
          exact ih rest told

theorem survives_fetched (laws : Truthful Proper truth) (o : OutPoint) :
    SurvivesReads (ρ := ρ) o fun before after => EveryRoot Proper before → Fetched Proper truth before after where
  empty := .refl
  under _ _ _ fetched proper := (fetched (everyRoot_cons.mp proper).2).under proper
  root store _ proper :=
    have ⟨first, rest⟩ := everyRoot_cons.mp proper
    (Fetched.refl rest).root (laws.stays o store (first store rfl))
  guarded _ _ _ _ _ fetched proper := (fetched (everyRoot_cons.mp proper).2).guarded
  touched _ _ _ _ proper := (Fetched.refl (everyRoot_cons.mp proper).2).cached .refl rfl
  learned skip cache below missing fetched proper := by
    have rest := (everyRoot_cons.mp proper).2
    refine (fetched rest).cached (Cache.filled_learn missing) ?_
    cases told : (read o skip below).result with
    | error why => rfl
    | ok found => exact Cache.atop_learn missing (read_tells laws rest told)

/-- To read a coin fetches it, at most. -/
theorem fetched_read (laws : Truthful Proper truth) (proper : EveryRoot Proper layers) (o : OutPoint) (depth : Nat) :
    Fetched Proper truth layers (read o depth layers).state :=
  (survives_fetched laws o).read depth layers proper

/-! ### At a cache -/

section Acting

variable {skip : Nat} {cache : Cache} (acting : layers.drop depth = .cached skip cache :: below)
include acting

omit [Backing ρ] in
/-- An operation does at a depth what it does on top. -/
theorem Descends.at_cache {op : Nat → Layers ρ → Outcome (Layers ρ) α} (descends : Descends op) :
    (op depth layers).result = (op 0 (.cached skip cache :: below)).result ∧
      (op depth layers).state.drop depth = (op 0 (.cached skip cache :: below)).state := by
  have inside : depth < layers.length := lt_length_of_cacheAt? (cacheAt?_eq_some.mpr ⟨skip, below, acting⟩)
  rw [descends.eq_drop inside, acting]
  refine ⟨rfl, ?_⟩
  show (layers.take depth ++ _).drop depth = _
  rw [List.drop_left' (List.length_take_of_le (Nat.le_of_lt inside))]

/-- A cache that is asked for an unspent coin reads it. -/
theorem holds_acting (o : OutPoint) : holds o depth layers = (read o depth layers).map showsUnspent := by
  have here : holds o 0 (.cached skip cache :: below) = (read o 0 (.cached skip cache :: below)).map showsUnspent := by
    rw [holds, read]
    split <;> rfl
  have inside : depth < layers.length := lt_length_of_cacheAt? (cacheAt?_eq_some.mpr ⟨skip, below, acting⟩)
  have asked : holds o depth layers = (holds o 0 (layers.drop depth)).mapState (layers.take depth ++ ·) :=
    Descends.eq_drop (fun _ _ _ => rfl) inside
  have looked : read o depth layers = (read o 0 (layers.drop depth)).mapState (layers.take depth ++ ·) :=
    Descends.eq_drop (fun _ _ _ => rfl) inside
  rw [asked, looked, acting, here]
  rfl

theorem fetched_holds (laws : Truthful Proper truth) (proper : EveryRoot Proper layers) (o : OutPoint) :
    Fetched Proper truth layers (holds o depth layers).state := by
  rw [holds_acting acting]
  exact fetched_read laws proper o depth

/-- The answer tells what the cache shows, and the cache has the coin, if there is one. -/
theorem holds_tells (laws : Truthful Proper truth) (proper : EveryRoot Proper layers) {held : Bool}
    (told : (holds o depth layers).result = .ok held) :
    held = (sees truth depth layers o).isSome ∧
      ∃ later, cacheAt? depth (holds o depth layers).state = some later ∧ later.holds o = held := by
  rw [holds_acting acting] at told ⊢
  cases answered : (read o depth layers).result with
  | error why =>
    rw [Outcome.map, answered] at told
    cases told
  | ok found =>
    rw [Outcome.map, answered] at told
    cases told
    refine ⟨?_, ?_⟩
    · rw [showsUnspent_eq_isSome, read_tells laws proper answered]
    · have descends : Descends (read (ρ := ρ) o) := fun _ _ _ => rfl
      obtain ⟨result, state⟩ := descends.at_cache acting
      obtain ⟨later, lower, left, kept⟩ := read_caches (result.symm.trans answered)
      refine ⟨later, cacheAt?_eq_some.mpr ⟨skip, lower, state.trans left⟩, ?_⟩
      rw [← kept, Cache.holds, showsUnspent, Option.any_map]

end Acting

end Layers

end CoinLayers
