import CoinLayers.Proofs.Change

/-!
The course of one cache through the calls that are made of it and of the layers around it.

Whatever is asked of whichever layer, a cache only takes turns of a few kinds: a coin is looked up in it, a
coin is added or spent, a batch is merged, its entries are written to the layer below (`Cache.Turn`). What the
layer below answers, and what a failed write leaves over, is open. A course is a row of turns, together with
the outpoints that were looked up on the way. Every call to any layer takes each cache through such a course
(`course_of_call`), so that what holds along all courses holds in all runs.
-/
namespace CoinLayers

/-- Requests that are one call to a layer. The others apply a transaction, or look for the coins of one, by
    several such calls. -/
def Request.isCall : Request → Bool
  | .addOutputs .. | .hasInputs _ | .firstUnspent _ | .spendInputs _ | .apply .. => false
  | _ => true

/-- Coins that are added on request are unspent. -/
def Request.AddsUnspent : Request → Prop
  | .add _ coin _ => coin.isSpent = false
  | _ => True

namespace Cache

/-- A turn of a cache, and the outpoints that are looked up in it. `Left` tells what a failed write may leave
    of the entries that it was handed. -/
inductive Turn (Left : Entries → Entries → Prop) : List OutPoint → Cache → Cache → Prop
  /-- A coin is looked up that is not cached, and that the layer below does not know or fails to read. -/
  | missed {cache : Cache} {o : OutPoint} : cache.entries[o]? = none → Turn Left [o] cache cache
  | used {cache : Cache} {o : OutPoint} : o ∈ cache.entries → Turn Left [o] cache (cache.touch o)
  | loaded {cache : Cache} {o : OutPoint} (coin : Coin) : cache.entries[o]? = none →
      Turn Left [o] cache (cache.load o coin)
  | spent {cache : Cache} (o : OutPoint) : Turn Left [] cache (cache.spend o).2
  | added {cache : Cache} (o : OutPoint) {coin : Coin} (mayOverwrite : Bool) : coin.isSpent = false →
      Turn Left [] cache (cache.add o coin mayOverwrite).state
  | uncached {cache : Cache} (o : OutPoint) : Turn Left [] cache (cache.uncache o)
  /-- The block of the cache is set, or taken from the layer below. -/
  | stood {cache : Cache} (block : Hash256) : Turn Left [] cache { cache with tip := some block }
  /-- A batch is merged, in any order and to its end or not. -/
  | merged {cache : Cache} (order : List OutPoint) (batch : Entries) (block : Hash256) :
      Turn Left [] cache (cache.mergeInOrder order batch block).state.2
  /-- The layer below took all entries. -/
  | emptied {cache : Cache} : Turn Left [] cache cache.emptied
  /-- The layer below failed to take all entries, and the cache has what is left. -/
  | recovered {cache : Cache} {left : Entries} : Left cache.entries left → Turn Left [] cache (cache.recover left)

/-- Turns one after the other, with the outpoints looked up, the last one first. -/
inductive Course (Left : Entries → Entries → Prop) : List OutPoint → Cache → Cache → Prop
  | refl {cache : Cache} : Course Left [] cache cache
  | step {looked seen : List OutPoint} {first cache later : Cache} : Course Left seen first cache →
      Turn Left looked cache later → Course Left (looked ++ seen) first later

variable {Left : Entries → Entries → Prop} {looked seen : List OutPoint} {first cache later : Cache}

theorem Turn.course (turn : Turn Left looked cache later) : Course Left looked cache later := by
  have alone := Course.refl.step turn
  rwa [List.append_nil] at alone

theorem Course.trans (course : Course Left seen first cache) (next : Course Left looked cache later) :
    Course Left (looked ++ seen) first later := by
  induction next with
  | refl => exact course
  | step _ turn ih =>
    rw [List.append_assoc]
    exact (ih course).step turn

/-- What is true at the start of a course, and stays true with every turn, is true at its end. It may be a matter of
    the outpoints looked up so far. -/
theorem Course.holds {motive : List OutPoint → Cache → Prop} (course : Course Left seen first cache)
    (start : motive [] first)
    (turns : ∀ {looked seen : List OutPoint} {cache later : Cache}, Turn Left looked cache later → motive seen cache →
      motive (looked ++ seen) later) : motive seen cache := by
  induction course with
  | refl => exact start
  | step _ turn ih => exact turns turn (ih start)

/-- A coin that is looked up in vain is asked from the layer below, whatever the answer. -/
theorem Course.learned {o : OutPoint} (missing : cache.entries[o]? = none) (answer : Except Failure (Option Coin)) :
    Course Left [o] cache (cache.learn o answer) :=
  match answer with
  | .ok (some coin) => (Turn.loaded coin missing).course
  | .ok none => (Turn.missed missing).course
  | .error _ => (Turn.missed missing).course

/-- A cache that checks itself stays as it is. -/
theorem state_check (cache : Cache) : cache.check.state = cache := by
  rw [check]
  split
  · rfl
  · split <;> rfl

end Cache

namespace Layers

variable {ρ α : Type} {Left : Entries → Entries → Prop} {looked seen : Nat → List OutPoint} {o : OutPoint}
  {depth : Nat} {layer : Layer ρ} {layers below before between after : Layers ρ}

/-- Whether a coin that is read at a depth is looked up in the layer at a place: every layer hands the question
    on to the layer that it reads, but a root, and a cache that has an entry. -/
def asks (o : OutPoint) : (place depth : Nat) → Layers ρ → Bool
  | _, _, [] => false
  | 0, depth, _ :: _ => depth == 0
  | place + 1, depth + 1, _ :: below => asks o place depth below
  | _ + 1, 0, .root _ :: _ => false
  | place + 1, 0, .relay skip :: below => asks o place skip below
  | place + 1, 0, .guarded skip _ :: below => asks o place skip below
  | place + 1, 0, .cached skip cache :: below => !cache.entries.contains o && asks o place skip below

theorem asks_cached {place skip : Nat} {cache : Cache} :
    asks o (place + 1) 0 (.cached skip cache :: below) = (!cache.entries.contains o && asks o place skip below) := rfl

/-- The outpoints looked up at a place in a call to the layer of the given depth. -/
def lookups (place depth : Nat) (layers : Layers ρ) : Request → List OutPoint
  | .read o | .holds o => if asks o place depth layers then [o] else []
  | .sight o | .spend o => if (cacheAt? depth layers).isSome && asks o place depth layers then [o] else []
  | _ => []

/-- Every cache went through a course of its own, with the outpoints looked up at its place. -/
def Moves (Left : Entries → Entries → Prop) (looked : Nat → List OutPoint) (before after : Layers ρ) : Prop :=
  ∀ (place : Nat) (cache : Cache), cacheAt? place before = some cache →
    ∃ later, cacheAt? place after = some later ∧ Cache.Course Left (looked place) cache later

namespace Moves

theorem refl : Moves Left (fun _ => []) layers layers :=
  fun _ cache here => ⟨cache, here, .refl⟩

theorem trans (first : Moves Left seen before between) (second : Moves Left looked between after) :
    Moves Left (fun place => looked place ++ seen place) before after := by
  intro place cache here
  obtain ⟨middle, there, course⟩ := first place cache here
  obtain ⟨later, last, next⟩ := second place middle there
  exact ⟨later, last, course.trans next⟩

/-- Moves in which nothing is looked up, one after the other. -/
theorem quietly (first : Moves Left (fun _ => []) before between) (second : Moves Left (fun _ => []) between after) :
    Moves Left (fun _ => []) before after :=
  first.trans second

/-- Moves of the layers below a layer that is no cache. -/
theorem under {later : Layer ρ} (noCache : ∀ skip cache, layer ≠ .cached skip cache)
    (moves : Moves Left (fun _ => []) below after) : Moves Left (fun _ => []) (layer :: below) (later :: after) := by
  intro place cache here
  cases place with
  | zero =>
    cases layer with
    | root | relay | guarded => cases here
    | cached skip top => exact absurd rfl (noCache skip top)
  | succ place => exact moves place cache here

theorem cached {skip skip' : Nat} {cache later : Cache} (course : Cache.Course Left [] cache later)
    (moves : Moves Left (fun _ => []) below after) :
    Moves Left (fun _ => []) (.cached skip cache :: below) (.cached skip' later :: after) := by
  intro place other here
  cases place with
  | zero =>
    cases here
    exact ⟨later, rfl, course⟩
  | succ place => exact moves place other here

end Moves

theorem cacheAt?_cons_zero : cacheAt? 0 (layer :: below) = cacheAt? 0 (layer :: after) := by
  cases layer <;> rfl

/-- An operation under which all caches move, given that they do so wherever it is handed on to, moves them
    wherever it is carried out. -/
theorem moves_at_depth (op : Nat → Layers ρ → Layers ρ)
    (descends : ∀ depth layer below, op (depth + 1) (layer :: below) = layer :: op depth below)
    (nothing : ∀ depth, op depth [] = [])
    (here : ∀ (layer : Layer ρ) (below : Layers ρ), (∀ depth, Moves Left (fun _ => []) below (op depth below)) →
      Moves Left (fun _ => []) (layer :: below) (op 0 (layer :: below)))
    (depth : Nat) (layers : Layers ρ) : Moves Left (fun _ => []) layers (op depth layers) := by
  refine related_at_depth (Moves Left fun _ => []) .refl (fun layer below after moves place cache found => ?_)
    op descends nothing here depth layers
  cases place with
  | zero => exact ⟨cache, cacheAt?_cons_zero.trans found, .refl⟩
  | succ place => exact moves place cache found

theorem moves_onCache (change : Cache → Outcome Cache α)
    (turns : ∀ cache, Cache.Course Left [] cache (change cache).state) (depth : Nat) (layers : Layers ρ) :
    Moves Left (fun _ => []) layers (onCache change depth layers).state := by
  refine moves_at_depth (fun depth layers => (onCache change depth layers).state) (fun _ _ _ => rfl) ?_
    (fun layer below _ => ?_) depth layers
  · intro depth
    cases depth <;> rfl
  · cases layer with
    | root | relay | guarded => exact .refl
    | cached skip cache => exact Moves.refl.cached (turns cache)

theorem moves_onGuard (change : ReadGuard → α × ReadGuard) (depth : Nat) (layers : Layers ρ) :
    Moves Left (fun _ => []) layers (onGuard change depth layers).state := by
  refine moves_at_depth (fun depth layers => (onGuard change depth layers).state) (fun _ _ _ => rfl) ?_
    (fun layer below _ => ?_) depth layers
  · intro depth
    cases depth <;> rfl
  · cases layer with
    | root | relay | cached => exact .refl
    | guarded skip guard => exact Moves.refl.under nofun

theorem moves_rebase (skip depth : Nat) (layers : Layers ρ) :
    Moves Left (fun _ => []) layers (rebase skip depth layers).state := by
  refine moves_at_depth (fun depth layers => (rebase skip depth layers).state) (fun _ _ _ => rfl) ?_
    (fun layer below _ => ?_) depth layers
  · intro depth
    cases depth <;> rfl
  · cases layer with
    | root => exact .refl
    | relay | guarded => exact Moves.refl.under nofun
    | cached old cache => exact Moves.refl.cached .refl

variable [Backing ρ]

/-! ### Reading -/

theorem moves_read (o : OutPoint) (depth : Nat) (layers : Layers ρ) :
    Moves Left (fun place => if asks o place depth layers then [o] else []) layers (read o depth layers).state := by
  intro place cache here
  induction layers generalizing depth place with
  | nil =>
    rw [cacheAt?_nil] at here
    cases here
  | cons layer below ih =>
    cases depth with
    | succ depth =>
      cases place with
      | zero => exact ⟨cache, cacheAt?_cons_zero.trans here, .refl⟩
      | succ place => exact ih depth place here
    | zero =>
      cases layer with
      | root store =>
        cases place with
        | zero => cases here
        | succ place => exact ⟨cache, here, .refl⟩
      | relay skip =>
        cases place with
        | zero => cases here
        | succ place => exact ih skip place here
      | guarded skip guard =>
        obtain ⟨later, watched⟩ := state_watch skip guard (read o skip below)
        rw [read, watched]
        cases place with
        | zero => cases here
        | succ place => exact ih skip place here
      | cached skip top =>
        cases found : top.entries[o]? with
        | some entry =>
          have there : o ∈ top.entries := Std.ExtTreeMap.mem_iff_isSome_getElem?.mpr (by simp [found])
          have hit : (read o 0 (.cached skip top :: below)).state = .cached skip (top.touch o) :: below := by
            simp [read, found, Outcome.done]
          rw [hit]
          cases place with
          | zero =>
            cases here
            exact ⟨_, rfl, (Cache.Turn.used there).course⟩
          | succ place =>
            refine ⟨cache, here, ?_⟩
            simp only [asks_cached, Std.ExtTreeMap.contains_iff_mem.mpr there]
            exact .refl
        | none =>
          have miss : (read o 0 (.cached skip top :: below)).state =
              .cached skip (top.learn o (read o skip below).result) :: (read o skip below).state := by
            simp [read, found, Outcome.settle]
          rw [miss]
          cases place with
          | zero =>
            cases here
            exact ⟨_, rfl, .learned found _⟩
          | succ place =>
            have notThere : top.entries.contains o = false := by
              rw [Std.ExtTreeMap.contains_eq_isSome_getElem?, found]
              rfl
            simp only [asks_cached, notThere]
            exact ih skip place here

/-- The question for an unspent coin moves the caches as reading does; only roots may tell the two apart. -/
theorem cacheAt?_holds (o : OutPoint) (depth place : Nat) (layers : Layers ρ) :
    cacheAt? place (holds o depth layers).state = cacheAt? place (read o depth layers).state := by
  induction layers generalizing depth place with
  | nil => rw [holds_nil, read_nil]; rfl
  | cons layer below ih =>
    cases depth with
    | succ depth =>
      cases place with
      | zero => cases layer <;> rfl
      | succ place => exact ih depth place
    | zero =>
      cases layer with
      | root store => cases place <;> rfl
      | relay skip =>
        cases place with
        | zero => rfl
        | succ place => exact ih skip place
      | guarded skip guard =>
        obtain ⟨_, watched⟩ := state_watch skip guard (read o skip below)
        obtain ⟨_, watched'⟩ := state_watch skip guard (holds o skip below)
        rw [read, holds, watched, watched']
        cases place with
        | zero => rfl
        | succ place => exact ih skip place
      | cached skip cache => rw [state_holds_cached]

theorem moves_holds (o : OutPoint) (depth : Nat) (layers : Layers ρ) :
    Moves Left (fun place => if asks o place depth layers then [o] else []) layers (holds o depth layers).state := by
  intro place cache here
  rw [cacheAt?_holds]
  exact moves_read o depth layers place cache here

theorem moves_spend (o : OutPoint) (depth : Nat) (layers : Layers ρ) :
    Moves Left (fun place => if asks o place depth layers then [o] else []) layers (spend o depth layers).state := by
  have looks : Moves Left (fun place => if asks o place depth layers then [o] else []) layers (read o depth layers).state :=
    moves_read o depth layers
  rw [spend, Outcome.andThen]
  split
  · next found _ =>
    cases found with
    | none => exact looks
    | some coin => exact looks.trans (moves_onCache _ (fun _ => (Cache.Turn.spent o).course) depth _)
  · exact looks

/-! ### Asking for the block, writing, flushing -/

theorem moves_tip (depth : Nat) (layers : Layers ρ) : Moves Left (fun _ => []) layers (tip depth layers).2 := by
  refine moves_at_depth (fun depth layers => (tip depth layers).2) (fun _ _ _ => rfl)
    (fun depth => congrArg _ (tip_nil depth)) (fun layer below lower => ?_) depth layers
  cases layer with
  | root store => exact Moves.refl.under nofun
  | relay skip | guarded skip guard => exact (lower skip).under nofun
  | cached skip cache =>
    show Moves Left _ _ (tip 0 (.cached skip cache :: below)).2
    rw [tip]
    split
    · exact .refl
    · exact (lower skip).cached (Cache.Turn.stood _).course

theorem moves_tipOf (cache : Cache) (skip : Nat) (below : Layers ρ) :
    Moves Left (fun _ => []) below (tipOf cache skip below).2 := by
  rw [tipOf]
  split
  · exact .refl
  · exact moves_tip skip below

theorem moves_write (batch : Entries) (block : Hash256) (depth : Nat) (layers : Layers ρ) :
    Moves Left (fun _ => []) layers (write batch block depth layers).state.2 := by
  refine moves_at_depth (fun depth layers => (write batch block depth layers).state.2) (fun _ _ _ => rfl) ?_
    (fun layer below lower => ?_) depth layers
  · intro depth
    cases depth <;> rfl
  · cases layer with
    | root store => exact Moves.refl.under nofun
    | relay skip | guarded skip guard => exact (lower skip).under nofun
    | cached skip cache => exact Moves.refl.cached (Cache.Turn.merged (cache.drained batch) batch block).course

/-- What may be left of a batch when a layer fails to take it: a part of it at least, and all that a store
    leaves. -/
structure Leaves (ρ : Type) [Backing ρ] (Left : Entries → Entries → Prop) : Prop where
  part : ∀ batch left : Entries, left.PartOf batch → Left batch left
  refused : ∀ (batch : Entries) (block : Hash256) (store : ρ) (why : Fault),
    (Backing.write batch block store).result = .error why → Left batch (Backing.write batch block store).left

theorem leaves_anything : Leaves ρ fun _ _ => True :=
  ⟨fun _ _ _ => trivial, fun _ _ _ _ _ => trivial⟩

theorem left_write (leaves : Leaves ρ Left) {batch : Entries} {block : Hash256} {why : Failure}
    (failed : (write batch block depth layers).result = .error why) :
    Left batch (write batch block depth layers).state.1 := by
  induction layers generalizing depth with
  | nil => cases depth <;> exact leaves.part _ _ .refl
  | cons layer below ih =>
    cases depth with
    | succ depth => exact ih failed
    | zero =>
      cases layer with
      | root store =>
        obtain ⟨cause, result⟩ := error_of_mapError failed
        exact leaves.refused batch block store cause result
      | relay skip | guarded skip guard => exact ih failed
      | cached skip cache =>
        refine leaves.part _ _ fun o entry found => ?_
        have left : (write batch block 0 (.cached skip cache :: below)).state.1 =
            (Merging.run ⟨cache, batch, 0, 0⟩ (cache.drained batch)).state.left := Cache.left_mergeInOrder
        rw [left] at found
        rcases Merging.run_entrywise ⟨cache, batch, 0, 0⟩ (cache.drained batch) o with ⟨same, _⟩ | ⟨_, _, _, gone, _⟩
        · exact same ▸ found
        · rw [gone] at found
          cases found

theorem moves_flush (leaves : Leaves ρ Left) (depth : Nat) (layers : Layers ρ) :
    Moves Left (fun _ => []) layers (flush depth layers).state := by
  refine moves_at_depth (fun depth layers => (flush depth layers).state) (fun _ _ _ => rfl) ?_
    (fun layer below _ => ?_) depth layers
  · intro depth
    cases depth <;> rfl
  · cases layer with
    | root | relay | guarded => exact .refl
    | cached skip cache =>
      have asked : Moves Left (fun _ => []) below (tipOf cache skip below).2 := moves_tipOf cache skip below
      have written : Moves Left (fun _ => []) (tipOf cache skip below).2
          (write cache.entries (tipOf cache skip below).1 skip (tipOf cache skip below).2).state.2 :=
        moves_write cache.entries (tipOf cache skip below).1 skip (tipOf cache skip below).2
      have stood : Cache.Course Left [] cache { cache with tip := some (tipOf cache skip below).1 } :=
        (Cache.Turn.stood _).course
      show Moves Left _ _ (concludeFlush { cache with tip := some (tipOf cache skip below).1 }
        (tipOf cache skip below).1 skip (write cache.entries (tipOf cache skip below).1 skip (tipOf cache skip below).2)).state
      rw [concludeFlush]
      split
      · exact (asked.quietly written).cached (stood.step .emptied)
      · next why failed => exact (asked.quietly written).cached (stood.step (.recovered (left_write leaves failed)))

/-! ### All calls -/

omit [Backing ρ] in
theorem state_ask {question : Cache → α} : (ask question depth layers).state = layers := by
  rw [ask]
  split <;> rfl

omit [Backing ρ] in
theorem moves_ifCache (op : Nat → Layers ρ → Outcome (Layers ρ) α)
    (moves : (cacheAt? depth layers).isSome = true → Moves Left looked layers (op depth layers).state)
    (nothing : (cacheAt? depth layers).isSome = false → looked = fun _ => []) :
    Moves Left looked layers (ifCache op depth layers).state := by
  rw [ifCache]
  split
  · next there => exact moves there
  · next missing =>
    rw [nothing (by simpa using missing)]
    exact .refl

/-- Whatever is called at whichever layer, every cache goes through a course, and the outpoints looked up in it
    are those of the call. -/
theorem course_of_call (leaves : Leaves ρ Left) {request : Request} (isCall : request.isCall = true)
    (unspent : request.AddsUnspent) (depth : Nat) (layers : Layers ρ) :
    Moves Left (fun place => lookups place depth layers request) layers (perform request depth layers).state := by
  cases request with
  | read o => exact moves_read o depth layers
  | holds o => exact moves_holds o depth layers
  | tip => exact moves_tip depth layers
  | heads | scan | sizeEstimate => exact .refl
  | write batch block => exact moves_write batch block depth layers
  | rebase skip => exact moves_rebase skip depth layers
  | sight o =>
    refine moves_ifCache (sight o) (fun there => ?_) fun missing => by simp [lookups, missing]
    simp only [lookups, there, Bool.true_and]
    exact moves_read o depth layers
  | spend o =>
    refine moves_ifCache (spend o) (fun there => ?_) fun missing => by simp [lookups, missing]
    simp only [lookups, there, Bool.true_and]
    exact moves_spend o depth layers
  | add o coin mayOverwrite => exact moves_onCache _ (fun _ => (Cache.Turn.added o mayOverwrite unspent).course) depth layers
  | uncache o =>
    exact moves_onCache (fun cache => .done () (cache.uncache o)) (fun _ => (Cache.Turn.uncached o).course)
      depth layers
  | merge batch block =>
    exact moves_ifCache (writeReply batch block) (fun _ => moves_write batch block depth layers) fun _ => rfl
  | flush => exact moves_flush leaves depth layers
  | setTip block =>
    exact moves_onCache (fun cache => .done () { cache with tip := some block })
      (fun _ => (Cache.Turn.stood block).course) depth layers
  | cached | memoryUsage | size | entry | stats | budget =>
    rw [perform, Outcome.map, state_ask]
    exact .refl
  | check =>
    refine moves_onCache Cache.check (fun cache => ?_) depth layers
    rw [cache.state_check]
    exact .refl
  | register => exact moves_onGuard (fun guard => ((), guard.register)) depth layers
  | calls => exact moves_onGuard (fun guard => (guard.calls, guard)) depth layers
  | addOutputs | hasInputs | firstUnspent | spendInputs | apply => cases isCall

end Layers

end CoinLayers
