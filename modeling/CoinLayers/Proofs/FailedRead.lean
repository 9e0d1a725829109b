import CoinLayers.Proofs.Apart
import CoinLayers.Proofs.Fetching
import CoinLayers.Proofs.Twins

/-!
Reads that fail.

A lookup that fails has come down to a store that could not be read. On the way back no cache learns anything, so that
all that can have changed is the store, and what the guards remember of their calls (`tried_of_failed`). Once such a
store has recovered, nobody can tell that the lookup was tried. A row of lookups that stops at one that fails has done
no more than those before it (`StopsAt`): they have fetched coins, and used entries.
-/
namespace CoinLayers

variable {ρ σ α β : Type}

theorem error_of_map {x : Except Failure α} {f : α → β} {why : Failure} (failed : x.map f = .error why) :
    x = .error why := by
  cases x with
  | ok value => cases failed
  | error cause =>
    cases failed
    rfl

/-- A guard keeps its rules. -/
theorem ReadGuard.sameRules_watch (guard : ReadGuard) (read : Outcome σ α) :
    guard.SameRules (guard.watch read).state.1 ∧ (guard.watch read).state.2 = read.state := by
  rw [watch]
  split
  · next fault _ =>
    refine ⟨?_, rfl⟩
    show guard.SameRules (guard.meet (α := α) fault).state
    rw [meet]
    split <;> exact ⟨rfl, rfl⟩
  · exact ⟨⟨rfl, rfl⟩, rfl⟩

/-- What fails above a guard has failed below it. -/
theorem ReadGuard.error_of_watch {guard : ReadGuard} {read : Outcome σ α} {why : Failure}
    (failed : (guard.watch read).result = .error why) : ∃ cause, read.result = .error cause := by
  cases result : read.result with
  | error cause => exact ⟨cause, rfl⟩
  | ok value =>
    rw [watch_ok result] at failed
    cases result.symm.trans failed

/-- A store, and itself or what a question that it could not answer has left of it. -/
inductive Tried [Backing ρ] : ρ → ρ → Prop
  | not (store : ρ) : Tried store store
  | read {o : OutPoint} {store : ρ} {fault : Fault} : (Backing.read o store).1 = .error fault →
      Tried store (Backing.read o store).2
  | holds {o : OutPoint} {store : ρ} {fault : Fault} : (Backing.holds o store).1 = .error fault →
      Tried store (Backing.holds o store).2

namespace Layers

variable {layers others below lower : Layers ρ} {layer : Layer ρ} {o : OutPoint} {depth : Nat} {why : Failure}

theorem twins_refl {Same : ρ → ρ → Prop} (same : ∀ store, Same store store) (layers : Layers ρ) :
    Twins Same layers layers := by
  refine List.forall₂_same.mpr fun layer _ => ?_
  cases layer with
  | root store => exact .root (same store)
  | relay skip => exact .relay skip
  | guarded skip guard => exact .guarded skip ⟨rfl, rfl⟩
  | cached skip cache => exact .cached skip cache

variable [Backing ρ]

/-- The layers as they are, but for what is below. -/
theorem tried_cons (layer : Layer ρ) (tried : Twins Tried below lower) :
    Twins Tried (layer :: below) (layer :: lower) :=
  have alone : Twins Tried [layer] [layer] := twins_refl .not [layer]
  match alone with
  | .cons twin _ => .cons twin tried

theorem tried_guarded {skip : Nat} {guard : ReadGuard} {x : Outcome (Layers ρ) α} (tried : Twins Tried below x.state) :
    Twins Tried (.guarded skip guard :: below)
      ((guard.watch x).mapState fun (guard, below) => Layer.guarded skip guard :: below).state := by
  obtain ⟨rules, state⟩ := guard.sameRules_watch x
  show Twins Tried _ (Layer.guarded skip (guard.watch x).state.1 :: (guard.watch x).state.2)
  rw [state]
  exact .cons (.guarded skip rules) tried

/-- A read that fails leaves every cache as it was. -/
theorem tried_read (failed : (read o depth layers).result = .error why) :
    Twins Tried layers (read o depth layers).state := by
  induction layers generalizing depth why with
  | nil =>
    rw [read_nil] at failed
    cases failed
  | cons layer below ih =>
    cases depth with
    | succ depth => exact tried_cons layer (ih failed)
    | zero =>
      cases layer with
      | root store =>
        obtain ⟨fault, result⟩ := error_of_mapError failed
        exact .cons (.root (.read result)) (twins_refl .not below)
      | relay skip => exact tried_cons (.relay skip) (ih failed)
      | guarded skip guard =>
        obtain ⟨cause, result⟩ := ReadGuard.error_of_watch failed
        exact tried_guarded (ih result)
      | cached skip cache =>
        rw [read] at failed ⊢
        cases there : cache.entries[o]? with
        | some entry =>
          rw [there] at failed
          cases failed
        | none =>
          rw [there] at failed
          have result : (read o skip below).result = .error why := failed
          show Twins Tried _ (.cached skip (cache.learn o (read o skip below).result) :: (read o skip below).state)
          rw [result]
          exact tried_cons (.cached skip cache) (ih result)

theorem tried_holds (failed : (holds o depth layers).result = .error why) :
    Twins Tried layers (holds o depth layers).state := by
  induction layers generalizing depth why with
  | nil =>
    rw [holds_nil] at failed
    cases failed
  | cons layer below ih =>
    cases depth with
    | succ depth => exact tried_cons layer (ih failed)
    | zero =>
      cases layer with
      | root store =>
        obtain ⟨fault, result⟩ := error_of_mapError failed
        exact .cons (.root (.holds result)) (twins_refl .not below)
      | relay skip => exact tried_cons (.relay skip) (ih failed)
      | guarded skip guard =>
        obtain ⟨cause, result⟩ := ReadGuard.error_of_watch failed
        exact tried_guarded (ih result)
      | cached skip cache =>
        -- A cache reads the coin itself.
        have acting : (Layer.cached skip cache :: below).drop 0 = .cached skip cache :: below := rfl
        rw [holds_acting acting] at failed ⊢
        exact tried_read (error_of_map failed)

omit [Backing ρ] in
/-- What a cache does on its own does not fail. -/
theorem ok_onCache (answer : Cache → α) (change : Cache → Cache) (there : (cacheAt? depth layers).isSome = true) :
    ∃ value, (onCache (fun cache => .done (answer cache) (change cache)) depth layers).result = .ok value := by
  obtain ⟨cache, here⟩ := Option.isSome_iff_exists.mp there
  obtain ⟨skip, below, acting⟩ := cacheAt?_eq_some.mp here
  have descends : Descends (onCache (ρ := ρ) fun cache => .done (answer cache) (change cache)) := fun _ _ _ => rfl
  exact ⟨answer cache, (descends.at_cache acting).1⟩

theorem isSome_cacheAt?_read (there : (cacheAt? depth layers).isSome = true) (o : OutPoint) :
    (cacheAt? depth (read o depth layers).state).isSome = true :=
  Script.isSome_cacheAt?_perform (.read o) ⟨rfl, trivial⟩ there

/-- Of a spend only the read can fail. -/
theorem tried_spend (there : (cacheAt? depth layers).isSome = true)
    (failed : (spend o depth layers).result = .error why) : Twins Tried layers (spend o depth layers).state := by
  have still := isSome_cacheAt?_read there o
  rw [spend, Outcome.andThen] at failed ⊢
  cases result : (read o depth layers).result with
  | error cause => exact tried_read result
  | ok found =>
    rw [result] at failed
    cases found with
    | none => cases failed
    | some coin =>
      obtain ⟨value, ok⟩ := ok_onCache (fun cache => (cache.spend o).1) (fun cache => (cache.spend o).2) still
      cases ok.symm.trans failed

end Layers

/-- Requests to look a coin up, or to spend it. -/
def Request.seeks : Request → Bool
  | .read _ | .holds _ | .sight _ | .spend _ => true
  | _ => false

namespace Layers

variable [Backing ρ] {layers : Layers ρ} {request : Request} {o : OutPoint} {depth : Nat} {why : Failure}

theorem tried_ifCache {op : Nat → Layers ρ → Outcome (Layers ρ) α}
    (failed : (ifCache op depth layers).result = .error why)
    (tried : (cacheAt? depth layers).isSome = true → (op depth layers).result = .error why →
      Twins Tried layers (op depth layers).state) : Twins Tried layers (ifCache op depth layers).state := by
  rw [ifCache] at failed ⊢
  split at failed
  · next there =>
    rw [if_pos there]
    exact tried there failed
  · next missing =>
    rw [if_neg missing]
    exact twins_refl .not layers

/-- A lookup or a spend that fails has at most tried to read a store. -/
theorem tried_of_failed (seeks : request.seeks = true) (failed : (perform request depth layers).result = .error why) :
    Twins Tried layers (perform request depth layers).state := by
  cases request with
  | read o => exact tried_read (error_of_map failed)
  | holds o => exact tried_holds (error_of_map failed)
  | sight o => exact tried_ifCache (error_of_map failed) fun _ failed => tried_read (error_of_map failed)
  | spend o => exact tried_ifCache (error_of_map failed) fun there failed => tried_spend there failed
  | _ => cases seeks

/-! ### Recovery -/

/-- The layers once something has happened to the stores. -/
def mapStores (recover : ρ → ρ) (layers : Layers ρ) : Layers ρ :=
  layers.map fun
    | .root store => .root (recover store)
    | layer => layer

omit [Backing ρ] in
theorem twins_mapStores {Rel Same : ρ → ρ → Prop} {recover : ρ → ρ} {others : Layers ρ}
    (recovers : ∀ store later, Rel store later → Same (recover store) (recover later))
    (twins : Twins Rel layers others) : Twins Same (mapStores recover layers) (mapStores recover others) := by
  induction twins with
  | nil => exact .nil
  | cons twin _ ih =>
    refine .cons ?_ ih
    cases twin with
    | root related => exact .root (recovers _ _ related)
    | relay skip => exact .relay skip
    | guarded skip same => exact .guarded skip same
    | cached skip cache => exact .cached skip cache

end Layers

/-! ### Rows of lookups -/

namespace Cache

variable {cache later last : Cache} {places : List OutPoint} {o p : OutPoint} {entry : Entry}

/-- A cache in which coins were looked up at some outpoints. -/
structure Browsed (places : List OutPoint) (cache later : Cache) : Prop where
  /-- Some of the outpoints that had no entry may have one, with a coin that was read. -/
  entries : ∀ p : OutPoint, later.entries[p]? = cache.entries[p]? ∨
    p ∈ places ∧ cache.entries[p]? = none ∧ ∃ coin : Coin, later.entries[p]? = some (.loaded coin)
  /-- The order of use is as before for all others. -/
  order : later.recency.oldestFirst.filter (· ∉ places) = cache.recency.oldestFirst.filter (· ∉ places)
  apart : SameApart cache later
  balanced : cache.Balanced → later.Balanced

namespace Browsed

theorem refl : Browsed places cache cache :=
  ⟨fun _ => .inl rfl, rfl, .refl, id⟩

theorem filled (browsed : Browsed places cache later) : cache.entries.Filled later.entries :=
  fun p => (browsed.entries p).imp_right And.right

theorem trans (first : Browsed places cache later) (second : Browsed places later last) :
    Browsed places cache last where
  entries p := by
    rcases second.entries p with same | ⟨member, missing, coin, loaded⟩
    · rw [same]
      exact first.entries p
    · refine .inr ⟨member, ?_, coin, loaded⟩
      rcases first.entries p with same | ⟨_, missing, _⟩
      · exact same.symm.trans missing
      · exact missing
  order := second.order.trans first.order
  apart := first.apart.trans second.apart
  balanced := second.balanced ∘ first.balanced

/-- A use moves an outpoint to the end. -/
theorem order_touch {recency : Recency} (member : o ∈ places) :
    (recency.touch o).oldestFirst.filter (· ∉ places) = recency.oldestFirst.filter (· ∉ places) := by
  have moved : [o].filter (· ∉ places) = [] := List.filter_eq_nil_iff.mpr (by simpa using member)
  rw [Recency.oldestFirst_touch, List.filter_append, List.filter_filter, moved, List.append_nil]
  refine List.filter_congr fun p _ => ?_
  by_cases same : p = o
  · simp [same, member]
  · simp [same]

theorem touch (member : o ∈ places) : Browsed places cache (cache.touch o) :=
  ⟨fun _ => .inl rfl, order_touch member, .touch, Balanced.touch⟩

theorem learn {answer : Except Failure (Option Coin)} (member : o ∈ places) (missing : cache.entries[o]? = none) :
    Browsed places cache (cache.learn o answer) := by
  match answer with
  | .error why => exact refl
  | .ok none => exact refl
  | .ok (some coin) =>
    refine ⟨fun p => ?_, order_touch member, .learn, Balanced.load⟩
    rw [Cache.learn, entries_load, Entries.getElem?_insert_ite]
    by_cases same : p = o
    · subst same
      exact .inr ⟨member, missing, coin, if_pos rfl⟩
    · exact .inl (if_neg same)

end Browsed

end Cache

namespace Layers

variable {layers below lower before between reached : Layers ρ} {layer later : Layer ρ} {places earlier : List OutPoint}
  {o : OutPoint} {depth : Nat} {why : Failure}

/-- Coins were looked up at some outpoints, in some of the caches. -/
def Browsed (places : List OutPoint) (before later : Layers ρ) : Prop :=
  ∀ (place : Nat) (cache : Cache), cacheAt? place before = some cache →
    ∃ mine, cacheAt? place later = some mine ∧ cache.Browsed places mine

namespace Browsed

theorem refl : Browsed places layers layers :=
  fun _ cache here => ⟨cache, here, .refl⟩

theorem trans (first : Browsed places before between) (second : Browsed places between reached) :
    Browsed places before reached := by
  intro place cache here
  obtain ⟨middle, there, browsed⟩ := first place cache here
  obtain ⟨later, last, more⟩ := second place middle there
  exact ⟨later, last, browsed.trans more⟩

theorem cons
    (top : ∀ cache, cacheAt? 0 (layer :: below) = some cache →
      ∃ mine, cacheAt? 0 (later :: lower) = some mine ∧ cache.Browsed places mine)
    (browsed : Browsed places below lower) : Browsed places (layer :: below) (later :: lower)
  | 0, cache, here => top cache here
  | place + 1, cache, here => browsed place cache here

end Browsed

variable [Backing ρ]

theorem survives_browsed (member : o ∈ places) : SurvivesReads (ρ := ρ) o (Browsed places) where
  empty := .refl
  under _ _ _ browsed := browsed.cons fun cache here => ⟨cache, cacheAt?_cons_zero.trans here, .refl⟩
  root _ _ := Browsed.refl.cons nofun
  guarded _ _ _ _ _ browsed := browsed.cons nofun
  touched _ cache _ _ := by
    refine Browsed.refl.cons ?_
    rintro _ ⟨⟩
    exact ⟨_, rfl, .touch member⟩
  learned _ cache _ missing browsed := by
    refine browsed.cons ?_
    rintro _ ⟨⟩
    exact ⟨_, rfl, .learn member missing⟩

/-- The layers after coins were looked up at a layer, one after the other. -/
def browse (depth : Nat) (places : List OutPoint) (layers : Layers ρ) : Layers ρ :=
  after (places.map fun o => (depth, .read o)) layers

theorem browsed_browse (known : ∀ o ∈ earlier, o ∈ places) (depth : Nat) (layers : Layers ρ) :
    Browsed places layers (browse depth earlier layers) := by
  induction earlier generalizing layers with
  | nil => exact .refl
  | cons o rest ih =>
    obtain ⟨member, others⟩ := List.forall_mem_cons.mp known
    exact ((survives_browsed member).read depth layers).trans (ih others (read o depth layers).state)

/-- What has become of some layers when lookups were made at one of them, one after the other, and one has failed. -/
structure StopsAt (depth : Nat) (earlier : List OutPoint) (o : OutPoint) (why : Failure) (layers reached : Layers ρ) :
    Prop where
  failed : (read o depth (browse depth earlier layers)).result = .error why
  /-- The caches are as those before it left them. -/
  caches : ∀ place, cacheAt? place reached = cacheAt? place (browse depth earlier layers)
  browsed : Browsed earlier layers reached
  /-- No cache has lost or got an entry with something to write. -/
  changes : ∀ (place : Nat) (cache later : Cache), cacheAt? place layers = some cache →
    cacheAt? place reached = some later → ∀ (p : OutPoint) (entry : Entry), entry.isDirty = true →
    (later.entries[p]? = some entry ↔ cache.entries[p]? = some entry)

theorem stopsAt_of_read (failed : (read o depth (browse depth earlier layers)).result = .error why)
    (ends : reached = (read o depth (browse depth earlier layers)).state) :
    StopsAt depth earlier o why layers reached := by
  have caches (place : Nat) : cacheAt? place reached = cacheAt? place (browse depth earlier layers) := by
    rw [ends]
    exact cacheAt?_twins (tried_read failed) place
  have browsed : Browsed earlier layers reached := by
    intro place cache here
    rw [caches]
    exact browsed_browse (fun _ => id) depth layers place cache here
  refine ⟨failed, caches, browsed, fun place cache later here there p entry dirty => ?_⟩
  obtain ⟨mine, found, entries⟩ := browsed place cache here
  obtain rfl : mine = later := Option.some.inj (found.symm.trans there)
  exact entries.filled.dirty_iff dirty

/-- A question for some coins fails at the first one that cannot be looked up. -/
theorem holdsAll_stops {sources : List OutPoint} (there : (cacheAt? depth layers).isSome = true)
    (failed : (holdsAll depth sources layers).result = .error why) : ∃ earlier o rest, sources = earlier ++ o :: rest ∧
      (read o depth (browse depth earlier layers)).result = .error why ∧
      (holdsAll depth sources layers).state = (read o depth (browse depth earlier layers)).state := by
  induction sources generalizing layers with
  | nil => cases failed
  | cons o rest ih =>
    obtain ⟨cache, here⟩ := Option.isSome_iff_exists.mp there
    obtain ⟨skip, below, acting⟩ := cacheAt?_eq_some.mp here
    rw [holdsAll, holds_acting acting, Outcome.andThen_map] at failed ⊢
    rw [Outcome.andThen] at failed ⊢
    cases result : (read o depth layers).result with
    | error cause =>
      rw [result] at failed
      cases failed
      exact ⟨[], o, rest, rfl, result, rfl⟩
    | ok found =>
      rw [result] at failed
      cases shows : showsUnspent found with
      | false => simp [shows, Outcome.done, Outcome.after] at failed
      | true =>
        simp only [shows, if_true] at failed ⊢
        obtain ⟨earlier, p, late, whole, stopped, state⟩ := ih (isSome_cacheAt?_read there o) failed
        exact ⟨o :: earlier, p, late, congrArg (o :: ·) whole, stopped, state⟩

/-- A look at a coin that was just found does not fail. -/
theorem ok_read_again {coin : Coin} (there : (cacheAt? depth layers).isSome = true)
    (found : (read o depth layers).result = .ok (some coin)) :
    ∃ again, (read o depth (read o depth layers).state).result = .ok again := by
  obtain ⟨cache, here⟩ := Option.isSome_iff_exists.mp there
  obtain ⟨skip, below, acting⟩ := cacheAt?_eq_some.mp here
  have descends : Descends (read (ρ := ρ) o) := fun _ _ _ => rfl
  obtain ⟨result, state⟩ := descends.at_cache acting
  obtain ⟨later, lower, left, kept⟩ := read_caches (result.symm.trans found)
  obtain ⟨entry, cached, _⟩ := Option.map_eq_some_iff.mp kept
  obtain ⟨again, _⟩ := descends.at_cache (state.trans left)
  refine ⟨some entry.coin, again.trans ?_⟩
  rw [read, cached]
  rfl

/-- An unspent coin is seen where one was found. -/
theorem found_of_sight {seen : Sight} (shown : (sight o depth layers).result = .ok seen)
    (unspent : ¬seen.coin.isSpent = true) : ∃ coin, (read o depth layers).result = .ok (some coin) := by
  rw [sight, Outcome.map] at shown
  cases result : (read o depth layers).result with
  | error cause =>
    rw [result] at shown
    cases shown
  | ok found =>
    rw [result] at shown
    cases shown
    cases found with
    | none => exact absurd rfl unspent
    | some coin => exact ⟨coin, rfl⟩

/-- The search for an unspent output fails at the first output that cannot be looked up. -/
theorem firstUnspentFrom_stops {txid : Hash256} {count number : Nat} {said : List Event}
    (there : (cacheAt? depth layers).isSome = true)
    (failed : (firstUnspentFrom txid depth count number said layers).result = .error why) : ∃ n < count,
      (read (Transaction.place txid (number + n)) depth
        (browse depth ((List.range' number n).map (Transaction.place txid)) layers)).result = .error why ∧
      (firstUnspentFrom txid depth count number said layers).state =
        (read (Transaction.place txid (number + n)) depth
          (browse depth ((List.range' number n).map (Transaction.place txid)) layers)).state := by
  induction count generalizing number said layers with
  | zero => cases failed
  | succ count ih =>
    have still := isSome_cacheAt?_read there (Transaction.place txid number)
    rw [firstUnspentFrom] at failed ⊢
    rcases looked : sight (Transaction.place txid number) depth layers with ⟨_ | seen, lower, events⟩
    · rw [looked] at failed
      cases failed
      have result : (read (Transaction.place txid number) depth layers).result = .error why :=
        error_of_map (congrArg Outcome.result looked)
      have state : lower = (read (Transaction.place txid number) depth layers).state :=
        (congrArg Outcome.state looked).symm
      exact ⟨0, Nat.succ_pos count, result, state⟩
    · obtain rfl : (read (Transaction.place txid number) depth layers).state = lower := congrArg Outcome.state looked
      rw [looked] at failed
      dsimp only at failed ⊢
      split at failed
      · next spent =>
        obtain ⟨n, inside, stopped, state⟩ := ih still failed
        rw [if_pos spent]
        refine ⟨n + 1, Nat.succ_lt_succ inside, ?_⟩
        rw [List.range'_succ, Nat.add_comm n 1, ← Nat.add_assoc]
        exact ⟨stopped, state⟩
      · next unspent =>
        -- The second look is at a coin that the first one has found.
        obtain ⟨coin, result⟩ := found_of_sight (congrArg Outcome.result looked) unspent
        obtain ⟨again, ok⟩ := ok_read_again there result
        cases ok.symm.trans (error_of_map failed)

/-- A lookup or a spend that fails leaves all caches as they are. Once the stores have recovered from it nobody can tell
    that it was made: all requests are answered as if it had not been, but for those for the calls that guards made.
    A question for the inputs of a transaction, or for the first of its outputs that is unspent, fails at a lookup that
    does. All that the caches have of it is from the lookups before, and no entry with something to write has changed. -/
theorem failed_read_harmless (depth : Nat) (layers : Layers ρ) :
    (∀ request why, request.seeks = true → (perform request depth layers).result = .error why →
      (∀ place, cacheAt? place (perform request depth layers).state = cacheAt? place layers) ∧
      ∀ (recover : ρ → ρ) (Same : ρ → ρ → Prop), Indistinct Same →
        (∀ store later, Tried store later → Same (recover store) (recover later)) →
        ∀ requests : List (Nat × Request), (∀ asked ∈ requests, asked.2.recalls = false) →
          (conduct requests (mapStores recover (perform request depth layers).state)).1 =
            (conduct requests (mapStores recover layers)).1) ∧
    ((cacheAt? depth layers).isSome = true →
      (∀ tx why, (perform (.hasInputs tx) depth layers).result = .error why →
        ∃ earlier o rest, tx.sources = earlier ++ o :: rest ∧
          StopsAt depth earlier o why layers (perform (.hasInputs tx) depth layers).state) ∧
      ∀ txid why, (perform (.firstUnspent txid) depth layers).result = .error why →
        ∃ n < Transaction.maxOutputs, StopsAt depth ((List.range n).map (Transaction.place txid))
          (Transaction.place txid n) why layers (perform (.firstUnspent txid) depth layers).state) := by
  refine ⟨fun request why seeks failed => ?_, fun there => ⟨fun tx why failed => ?_, fun txid why failed => ?_⟩⟩
  · have tried := tried_of_failed seeks failed
    refine ⟨cacheAt?_twins tried, fun recover Same laws recovers requests recalls => ?_⟩
    exact conduct_alike laws recalls (twins_mapStores recovers tried)
  · rw [perform, ifCache_of_isSome there, hasInputs] at failed ⊢
    split at failed
    · cases failed
    · next noCoinbase =>
      obtain ⟨earlier, o, rest, whole, stopped, ends⟩ := holdsAll_stops there (error_of_map failed)
      refine ⟨earlier, o, rest, whole, stopsAt_of_read stopped ?_⟩
      rw [if_neg noCoinbase]
      exact ends
  · rw [perform, ifCache_of_isSome there] at failed ⊢
    obtain ⟨n, inside, stopped, ends⟩ := firstUnspentFrom_stops there (error_of_map failed)
    rw [← List.range_eq_range', Nat.zero_add] at stopped ends
    exact ⟨n, inside, stopsAt_of_read stopped ends⟩

end Layers

namespace ScriptedStore

/-- Stores that differ at most in how often they were read. -/
def SameButReads (store later : ScriptedStore) : Prop :=
  ∃ reads, later = { store with reads }

theorem indistinct_sameButReads : Indistinct SameButReads where
  read := by
    rintro _ store _ ⟨reads, rfl⟩
    exact ⟨rfl, reads + 1, rfl⟩
  holds := by
    rintro _ store _ ⟨reads, rfl⟩
    exact ⟨rfl, reads + 1, rfl⟩
  tip := by
    rintro store _ ⟨reads, rfl⟩
    exact ⟨rfl, reads, rfl⟩
  heads _ := rfl
  write := by
    rintro batch block store _ ⟨reads, rfl⟩
    simp only [Backing.write, write, refuse]
    split
    · split <;> exact ⟨rfl, rfl, rfl, reads, rfl⟩
    · exact ⟨rfl, rfl, rfl, reads, rfl⟩
    · exact ⟨rfl, rfl, rfl, reads, rfl⟩
  scan _ := rfl
  sizeEstimate _ := rfl

/-- The store when all its coins can be read again. -/
def mended (store : ScriptedStore) : ScriptedStore :=
  { store with unreadable := [] }

theorem mended_of_tried (store later : ScriptedStore) (tried : Tried store later) :
    SameButReads store.mended later.mended := by
  cases tried with
  | not => exact ⟨store.reads, rfl⟩
  | read | holds => exact ⟨store.reads + 1, rfl⟩

end ScriptedStore

namespace Layers

/-- A cache over a store with three coins, one of which cannot be read. Another has been spent. -/
def halfSpent : Layers ScriptedStore :=
  let coin : Coin := ⟨7, 1, false, .empty, false⟩
  after [(0, .spend ⟨.zero, 0⟩)]
    [.cached 0 (.empty .standard), .guarded 0 ⟨1, false, []⟩,
      .root ⟨(MemoryStore.oneCoin.insert ⟨.zero, 1⟩ coin).insert ⟨.zero, 2⟩ coin,
        [(⟨.zero, 1⟩, .io "corrupted block file")], [], false, [], [], 0⟩]

/-- A transaction that spends the third coin and the one that cannot be read. -/
def spendsBoth : Transaction :=
  ⟨1, [⟨⟨.zero, 2⟩, .empty, 0⟩, ⟨⟨.zero, 1⟩, .empty, 0⟩], [], 0⟩

/-- Why the coin cannot be read. -/
def corrupted : Failure :=
  .fault (.unrecoverableRead "IO error: corrupted block file")

/-- The spend fails, and can be made once the store is mended. The question for both inputs has fetched the third coin
    and fails at the second, and so does the search among the outputs, which has seen that the first one is spent. -/
theorem halfSpent_unharmed :
    (perform (.spend ⟨.zero, 1⟩) 0 halfSpent).result = .error corrupted ∧
    (∀ place, cacheAt? place (perform (.spend ⟨.zero, 1⟩) 0 halfSpent).state = cacheAt? place halfSpent) ∧
    (conduct [(0, .spend ⟨.zero, 1⟩), (0, .flush)]
        (mapStores ScriptedStore.mended (perform (.spend ⟨.zero, 1⟩) 0 halfSpent).state)).1 =
      [.ok (.coin (some ⟨7, 1, false, .empty, false⟩)), .ok .nothing] ∧
    (perform (.hasInputs spendsBoth) 0 halfSpent).result = .error corrupted ∧
    (∃ earlier o rest, spendsBoth.sources = earlier ++ o :: rest ∧
      StopsAt 0 earlier o corrupted halfSpent (perform (.hasInputs spendsBoth) 0 halfSpent).state) ∧
    (perform (.firstUnspent .zero) 0 halfSpent).result = .error corrupted ∧
    ∃ n < Transaction.maxOutputs, StopsAt 0 ((List.range n).map (Transaction.place .zero)) (Transaction.place .zero n)
      corrupted halfSpent (perform (.firstUnspent .zero) 0 halfSpent).state := by
  have failed : (perform (.spend ⟨.zero, 1⟩) 0 halfSpent).result = .error corrupted := rfl
  have unanswered : (perform (.hasInputs spendsBoth) 0 halfSpent).result = .error corrupted := rfl
  have unseen : (perform (.firstUnspent .zero) 0 halfSpent).result = .error corrupted := rfl
  obtain ⟨harmless, stops⟩ := failed_read_harmless 0 halfSpent
  obtain ⟨caches, unnoticed⟩ := harmless (.spend ⟨.zero, 1⟩) corrupted rfl failed
  have recovered := unnoticed ScriptedStore.mended ScriptedStore.SameButReads ScriptedStore.indistinct_sameButReads
    ScriptedStore.mended_of_tried [(0, .spend ⟨.zero, 1⟩), (0, .flush)] (by simp [Request.recalls])
  obtain ⟨inputs, outputs⟩ := stops rfl
  exact ⟨failed, caches, recovered.trans rfl, unanswered, inputs spendsBoth corrupted unanswered, unseen,
    outputs .zero corrupted unseen⟩

end Layers

end CoinLayers
