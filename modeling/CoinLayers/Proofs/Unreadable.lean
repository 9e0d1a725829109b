import CoinLayers.Proofs.Shape

/-!
Coins that cannot be read.

A request may come down to the store with a read that fails (`fault?`). Then it fails, whatever it was: the fault
comes up unchanged to the lowest guard above the store, and from there on it is fatal, so that no further guard takes
notice of it (`perform_breaks`). A read that does not come down to a failure is answered (`read_unharmed`).
-/
namespace CoinLayers

variable {ρ σ α β : Type}

namespace ReadGuard

/-- The guard after a read below it met a fault: all its callers were called, unless the fault was fatal already. -/
def told (guard : ReadGuard) (fault : Fault) : ReadGuard :=
  if fault.isFatal then guard else { guard with calls := guard.calls ++ List.range guard.callers }

/-- What becomes of a fault that comes up to the guard. -/
def verdict (guard : ReadGuard) (fault : Fault) : Failure :=
  if fault.isFatal then .fault fault
  else if guard.aborts then .aborted
  else .fault (.unrecoverableRead fault.message)

variable {guard lowest : ReadGuard} {fault : Fault} {read : Outcome σ α}

/-- A fault makes a guard call its callers, and comes out as its verdict. -/
theorem watch_fault (guard : ReadGuard) (failed : read.result = .error (.fault fault)) :
    (guard.watch read).result = .error (guard.verdict fault) ∧
      (guard.watch read).state = (guard.told fault, read.state) := by
  rw [watch, failed]
  show (guard.meet fault).result = _ ∧ ((guard.meet fault).state, read.state) = _
  rw [meet, verdict, told]
  split
  · exact ⟨rfl, rfl⟩
  · exact ⟨rfl, rfl⟩

/-- No guard makes anything of the verdict of another one. -/
theorem watch_verdict (guard : ReadGuard) (failed : read.result = .error (lowest.verdict fault)) :
    (guard.watch read).result = .error (lowest.verdict fault) ∧ (guard.watch read).state = (guard, read.state) := by
  cases judged : lowest.verdict fault with
  | aborted | unsupported =>
    rw [judged] at failed
    rw [watch, failed]
    exact ⟨failed, rfl⟩
  | fault cause =>
    -- What a guard lets pass is fatal: either it was so before, or the guard made it so.
    have fatal : cause.isFatal = true := by
      rw [verdict] at judged
      split at judged
      · next fatal =>
        cases judged
        exact fatal
      · split at judged
        · cases judged
        · cases judged
          rfl
    have still := watch_fault guard (failed.trans (congrArg Except.error judged))
    rwa [verdict, told, if_pos fatal, if_pos fatal] at still

/-- What was read is no matter to a guard. -/
theorem watch_ok {value : α} (ok : read.result = .ok value) : guard.watch read = read.mapState (guard, ·) := by
  rw [watch, ok]

end ReadGuard

/-! ### The fault that a request meets -/

/-- The fault in an answer. -/
def faultIn? : Except Fault α → Option Fault
  | .error fault => some fault
  | .ok _ => none

namespace Layers

/-- The guards among layers, from the top down. -/
def guards (layers : Layers ρ) : List ReadGuard :=
  layers.filterMap fun
    | .guarded _ guard => some guard
    | _ => none

variable [Backing ρ]

/-- The fault that a store meets when a coin is read at a depth, if the question comes down to a store at all. A
    cache that has an entry answers by itself. -/
def readFault? (o : OutPoint) : Nat → Layers ρ → Option Fault
  | _, [] => none
  | depth + 1, _ :: below => readFault? o depth below
  | 0, .root store :: _ => faultIn? (Backing.read o store).1
  | 0, .relay skip :: below => readFault? o skip below
  | 0, .guarded skip _ :: below => readFault? o skip below
  | 0, .cached skip cache :: below => if cache.entries.contains o then none else readFault? o skip below

/-- The fault that a store meets when a layer is asked for an unspent coin. -/
def holdsFault? (o : OutPoint) : Nat → Layers ρ → Option Fault
  | _, [] => none
  | depth + 1, _ :: below => holdsFault? o depth below
  | 0, .root store :: _ => faultIn? (Backing.holds o store).1
  | 0, .relay skip :: below => holdsFault? o skip below
  | 0, .guarded skip _ :: below => holdsFault? o skip below
  | 0, .cached skip cache :: below => if cache.entries.contains o then none else readFault? o skip below

/-- The fault of the read of a store that a call needs. -/
def callFault? (depth : Nat) (layers : Layers ρ) : Request → Option Fault
  | .read o => readFault? o depth layers
  | .holds o => holdsFault? o depth layers
  | .sight o | .spend o => if (cacheAt? depth layers).isSome then readFault? o depth layers else none
  | _ => none

end Layers

/-- The fault of the first read of a store that fails while a script is carried out. -/
def Script.fault? [Backing ρ] (depth : Nat) : Script α → Layers ρ → Option Fault
  | .ends _, _ => none
  | .call request next, layers =>
    match Layers.callFault? depth layers request, (Layers.perform request depth layers).result with
    | some fault, _ => some fault
    | none, .ok reply => (next reply).fault? depth (Layers.perform request depth layers).state
    | none, .error _ => none

/-- The fault of the first read of a store that fails while a request is carried out. -/
def Layers.fault? [Backing ρ] (request : Request) (depth : Nat) (layers : Layers ρ) : Option Fault :=
  if takes request depth layers then request.script.fault? depth layers else none

namespace Layers

variable [Backing ρ] {layers below : Layers ρ} {layer : Layer ρ} {o : OutPoint} {depth : Nat} {fault : Fault}
  {watchers : List ReadGuard} {higher : List ReadGuard} {lowest : ReadGuard} {x : Outcome (Layers ρ) α}

omit [Backing ρ] in
theorem guards_cons : guards (layer :: below) = guards [layer] ++ guards below := by
  cases layer <;> rfl

omit [Backing ρ] in
theorem guards_under {lower : Layers ρ} (kept : guards lower = guards below) :
    guards (layer :: lower) = guards (layer :: below) := by
  rw [guards_cons, kept, ← guards_cons]

/-! ### Reads that are answered -/

omit [Backing ρ] in
theorem ok_of_noFault {answer : Except Fault α} (noFault : faultIn? answer = none) :
    ∃ value, answer.mapError Failure.fault = .ok value := by
  cases answer with
  | ok value => exact ⟨value, rfl⟩
  | error cause => cases noFault

theorem readFault?_cached {skip : Nat} {cache : Cache} :
    readFault? o 0 (.cached skip cache :: below) = if (cache.entries[o]?).isSome then none else readFault? o skip below := by
  rw [readFault?, Std.ExtTreeMap.contains_eq_isSome_getElem?]

/-- A read that does not come down to a failure is answered, and no guard takes notice of it. -/
theorem read_unharmed (depth : Nat) (layers : Layers ρ) (unharmed : readFault? o depth layers = none) :
    (∃ found, (read o depth layers).result = .ok found) ∧ guards (read o depth layers).state = guards layers := by
  induction layers generalizing depth with
  | nil => exact ⟨⟨none, by rw [read_nil]; rfl⟩, by rw [read_nil]; rfl⟩
  | cons layer below ih =>
    cases depth with
    | succ depth => exact (ih depth unharmed).imp_right guards_under
    | zero =>
      cases layer with
      | root store => exact ⟨ok_of_noFault unharmed, rfl⟩
      | relay skip => exact (ih skip unharmed).imp_right guards_under
      | guarded skip guard =>
        obtain ⟨⟨found, ok⟩, kept⟩ := ih skip unharmed
        rw [read, ReadGuard.watch_ok ok]
        exact ⟨⟨found, ok⟩, guards_under kept⟩
      | cached skip cache =>
        rw [read]
        cases there : cache.entries[o]? with
        | some entry => exact ⟨⟨_, rfl⟩, rfl⟩
        | none =>
          have asked : readFault? o skip below = none := by
            simpa [readFault?_cached, there] using unharmed
          obtain ⟨ok, kept⟩ := ih skip asked
          exact ⟨ok, guards_under kept⟩

/-- So is the question for an unspent coin. -/
theorem holds_unharmed (depth : Nat) (layers : Layers ρ) (unharmed : holdsFault? o depth layers = none) :
    (∃ held, (holds o depth layers).result = .ok held) ∧ guards (holds o depth layers).state = guards layers := by
  induction layers generalizing depth with
  | nil => exact ⟨⟨false, by rw [holds_nil]; rfl⟩, by rw [holds_nil]; rfl⟩
  | cons layer below ih =>
    cases depth with
    | succ depth => exact (ih depth unharmed).imp_right guards_under
    | zero =>
      cases layer with
      | root store => exact ⟨ok_of_noFault unharmed, rfl⟩
      | relay skip => exact (ih skip unharmed).imp_right guards_under
      | guarded skip guard =>
        obtain ⟨⟨held, ok⟩, kept⟩ := ih skip unharmed
        rw [holds, ReadGuard.watch_ok ok]
        exact ⟨⟨held, ok⟩, guards_under kept⟩
      | cached skip cache =>
        obtain ⟨⟨found, ok⟩, kept⟩ := read_unharmed (o := o) 0 (.cached skip cache :: below) unharmed
        rw [state_holds_cached]
        refine ⟨?_, kept⟩
        rw [holds]
        rw [read] at ok
        cases there : cache.entries[o]? with
        | some entry => exact ⟨_, rfl⟩
        | none =>
          rw [there] at ok
          exact ⟨_, Outcome.result_map ok⟩

omit [Backing ρ] in
theorem guards_onCache (change : Cache → Outcome Cache α) (depth : Nat) (layers : Layers ρ) :
    guards (onCache change depth layers).state = guards layers := by
  refine related_at_depth (fun before after => guards after = guards before) rfl (fun _ _ _ => guards_under)
    (fun depth layers => (onCache change depth layers).state) (fun _ _ _ => rfl) ?_ (fun layer below _ => ?_) depth layers
  · intro depth
    cases depth <;> rfl
  · cases layer <;> rfl

theorem spend_unharmed (depth : Nat) (layers : Layers ρ) (unharmed : readFault? o depth layers = none) :
    guards (spend o depth layers).state = guards layers := by
  obtain ⟨⟨found, ok⟩, kept⟩ := read_unharmed depth layers unharmed
  rw [spend, Outcome.andThen, ok]
  cases found with
  | none => exact kept
  | some coin => exact (guards_onCache _ depth _).trans kept

/-- Requests that no guard takes notice of, as long as no read fails. -/
def Unnoticed (ρ : Type) [Backing ρ] (request : Request) : Prop :=
  request.rebases = false ∧ ∀ (depth : Nat) (layers : Layers ρ), callFault? depth layers request = none →
    guards (perform request depth layers).state = guards layers

theorem suits_unnoticed : Script.Suits (Unnoticed ρ) where
  holds _ := ⟨rfl, fun depth layers unharmed => (holds_unharmed depth layers unharmed).2⟩
  spend o := by
    refine ⟨rfl, fun depth layers unharmed => ?_⟩
    show guards (ifCache (spend o) depth layers).state = guards layers
    rw [ifCache]
    split
    · next there =>
      rw [callFault?, if_pos there] at unharmed
      exact spend_unharmed depth layers unharmed
    · rfl
  sight o := by
    refine ⟨rfl, fun depth layers unharmed => ?_⟩
    show guards (ifCache (sight o) depth layers).state = guards layers
    rw [ifCache]
    split
    · next there =>
      rw [callFault?, if_pos there] at unharmed
      exact (read_unharmed depth layers unharmed).2
    · rfl
  add o output height isCoinbase mayOverwrite :=
    ⟨rfl, fun depth layers _ =>
      guards_onCache (fun cache => cache.add o (.ofOutput output height isCoinbase) mayOverwrite) depth layers⟩

/-! ### Reads that fail -/

/-- An operation that a fault of the store brought to an end: it fails with the fault itself, or with the verdict of
    the lowest guard, which was told. No other guard took notice. -/
structure Breaks (fault : Fault) (watchers : List ReadGuard) (x : Outcome (Layers ρ) α) : Prop where
  bare : watchers = [] → x.result = .error (.fault fault) ∧ guards x.state = []
  judged : ∀ higher lowest, watchers = higher ++ [lowest] →
    x.result = .error (lowest.verdict fault) ∧ guards x.state = higher ++ [lowest.told fault]

namespace Breaks

variable {y : Outcome (Layers ρ) β}

omit [Backing ρ] in
theorem root {answer : Except Fault α} {store later : ρ} (met : faultIn? answer = some fault) :
    Breaks fault (guards [.root store]) (.ofExcept answer [.root later]) where
  bare _ := by
    cases answer with
    | ok value => cases met
    | error cause =>
      cases met
      exact ⟨rfl, rfl⟩
  judged higher lowest last := absurd last (by simp [guards])

omit [Backing ρ] in
/-- What follows a failure does not change it. -/
theorem followed (breaks : Breaks fault watchers x) (result : ∀ why, x.result = .error why → y.result = .error why)
    (kept : ∀ why, x.result = .error why → guards y.state = guards x.state) : Breaks fault watchers y where
  bare none := by
    obtain ⟨failed, bare⟩ := breaks.bare none
    exact ⟨result _ failed, (kept _ failed).trans bare⟩
  judged higher lowest last := by
    obtain ⟨failed, told⟩ := breaks.judged higher lowest last
    exact ⟨result _ failed, (kept _ failed).trans told⟩

omit [Backing ρ] in
theorem andThen {next : α → Layers ρ → Outcome (Layers ρ) β} (breaks : Breaks fault watchers x) :
    Breaks fault watchers (x.andThen next) := by
  refine breaks.followed (fun why failed => ?_) fun why failed => ?_
  · rw [Outcome.andThen, failed]
  · rw [Outcome.andThen, failed]

omit [Backing ρ] in
theorem map {f : α → β} (breaks : Breaks fault watchers x) : Breaks fault watchers (x.map f) := by
  refine breaks.followed (fun why failed => ?_) fun _ _ => rfl
  rw [Outcome.map, failed]
  rfl

omit [Backing ρ] in
/-- A guard above takes no notice, unless it is the lowest one. -/
theorem guarded {skip : Nat} {guard : ReadGuard} (breaks : Breaks fault (guards below) x) :
    Breaks fault (guards (.guarded skip guard :: below))
      ((guard.watch x).mapState fun (guard, below) => .guarded skip guard :: below) where
  bare none := by cases none
  judged higher lowest last := by
    have listed : guard :: guards below = higher ++ [lowest] := last
    rcases List.eq_nil_or_concat (guards below) with none | ⟨upper, deepest, some⟩
    · obtain ⟨failed, bare⟩ := breaks.bare none
      obtain ⟨result, state⟩ := ReadGuard.watch_fault guard failed
      rw [none] at listed
      have alone : [] ++ [guard] = higher ++ [lowest] := listed
      obtain ⟨rfl, same⟩ := List.append_inj' alone rfl
      cases same
      refine ⟨result, ?_⟩
      rw [Outcome.mapState, state]
      exact congrArg _ bare
    · obtain ⟨failed, told⟩ := breaks.judged upper deepest (some.trans List.concat_eq_append)
      obtain ⟨result, state⟩ := ReadGuard.watch_verdict guard failed
      rw [some, List.concat_eq_append, ← List.cons_append] at listed
      obtain ⟨rfl, same⟩ := List.append_inj' listed rfl
      cases same
      refine ⟨result, ?_⟩
      rw [Outcome.mapState, state]
      exact congrArg _ told

omit [Backing ρ] in
/-- A failure below a layer does not change it. -/
theorem under (breaks : Breaks fault (guards below) x) (watched : guards below ≠ []) :
    Breaks fault (guards (layer :: below)) (x.mapState (layer :: ·)) where
  bare none := by
    rw [guards_cons, List.append_eq_nil_iff] at none
    exact absurd none.2 watched
  judged higher lowest last := by
    obtain ⟨upper, deepest, some⟩ := (List.eq_nil_or_concat (guards below)).resolve_left watched
    obtain ⟨failed, told⟩ := breaks.judged upper deepest (some.trans List.concat_eq_append)
    rw [guards_cons, some, List.concat_eq_append, ← List.append_assoc] at last
    obtain ⟨rfl, same⟩ := List.append_inj' last rfl
    cases same
    refine ⟨failed, ?_⟩
    show guards (layer :: x.state) = _
    rw [guards_cons, told, List.append_assoc]

end Breaks

theorem read_breaks_top (stack : Stack Any layers) (met : readFault? o 0 layers = some fault) :
    Breaks fault (guards layers) (read o 0 layers) := by
  induction stack with
  | root => exact .root met
  | relay _ ih =>
    obtain ⟨bare, judged⟩ := ih met
    exact ⟨bare, judged⟩
  | guarded guard _ ih =>
    rw [read]
    exact (ih met).guarded
  | @cached below cache _ ih =>
    rw [readFault?_cached] at met
    cases there : cache.entries[o]? with
    | some entry => simp [there] at met
    | none =>
      obtain ⟨bare, judged⟩ := ih (by simpa [there] using met)
      rw [read, there]
      exact ⟨bare, judged⟩

theorem holds_breaks_top (stack : Stack Any layers) (met : holdsFault? o 0 layers = some fault) :
    Breaks fault (guards layers) (holds o 0 layers) := by
  induction stack with
  | root => exact .root met
  | relay _ ih =>
    obtain ⟨bare, judged⟩ := ih met
    exact ⟨bare, judged⟩
  | guarded guard _ ih =>
    rw [holds]
    exact (ih met).guarded
  | @cached below cache stack _ =>
    have breaks := read_breaks_top (.cached cache stack) met
    refine breaks.followed (fun why failed => ?_) fun _ _ => congrArg guards state_holds_cached
    rw [read] at failed
    rw [holds]
    cases there : cache.entries[o]? with
    | some entry =>
      rw [there] at failed
      cases failed
    | none =>
      rw [there] at failed
      show ((read o 0 below).result).map showsUnspent = _
      rw [show (read o 0 below).result = .error why from failed]
      rfl

omit [Backing ρ] in
/-- What happens at the top of the layers from a depth on happens at that depth. -/
theorem Descends.breaks {op : Nat → Layers ρ → Outcome (Layers ρ) α} (descends : Descends op)
    (here : Breaks fault (guards (layers.drop depth)) (op 0 (layers.drop depth)))
    (watched : guards (layers.drop depth) ≠ []) : Breaks fault (guards layers) (op depth layers) := by
  induction layers generalizing depth with
  | nil =>
    rw [List.drop_nil] at watched
    exact absurd rfl watched
  | cons layer below ih =>
    cases depth with
    | zero => exact here
    | succ depth =>
      rw [descends]
      refine (ih here watched).under fun none => watched ?_
      exact List.filterMap_eq_nil_iff.mpr fun deeper member =>
        List.filterMap_eq_nil_iff.mp none deeper (List.mem_of_mem_drop member)

theorem readFault?_drop (depth : Nat) (layers : Layers ρ) :
    readFault? o depth layers = readFault? o 0 (layers.drop depth) := by
  induction layers generalizing depth with
  | nil => cases depth <;> rfl
  | cons layer below ih =>
    cases depth with
    | zero => rfl
    | succ depth => exact ih depth

theorem holdsFault?_drop (depth : Nat) (layers : Layers ρ) :
    holdsFault? o depth layers = holdsFault? o 0 (layers.drop depth) := by
  induction layers generalizing depth with
  | nil => cases depth <;> rfl
  | cons layer below ih =>
    cases depth with
    | zero => rfl
    | succ depth => exact ih depth

omit [Backing ρ] in
theorem drop_ne_nil (watched : guards (layers.drop depth) ≠ []) : layers.drop depth ≠ [] := fun none =>
  watched (by rw [none]; rfl)

section Guarded

variable (stack : Stack Any layers) (watched : guards (layers.drop depth) ≠ [])
include stack watched

theorem read_breaks (met : readFault? o depth layers = some fault) : Breaks fault (guards layers) (read o depth layers) := by
  rw [readFault?_drop] at met
  exact Descends.breaks (fun _ _ _ => rfl) (read_breaks_top (stack.drop (drop_ne_nil watched)) met) watched

theorem holds_breaks (met : holdsFault? o depth layers = some fault) :
    Breaks fault (guards layers) (holds o depth layers) := by
  rw [holdsFault?_drop] at met
  exact Descends.breaks (fun _ _ _ => rfl) (holds_breaks_top (stack.drop (drop_ne_nil watched)) met) watched

/-- A call that needs a read which fails is broken by the fault. -/
theorem call_breaks {request : Request} (met : callFault? depth layers request = some fault) :
    Breaks fault (guards layers) (perform request depth layers) := by
  cases request with
  | read o => exact (read_breaks stack watched met).map
  | holds o => exact (holds_breaks stack watched met).map
  | sight o =>
    rw [callFault?] at met
    split at met
    · next there =>
      rw [perform, ifCache_of_isSome there]
      exact (read_breaks stack watched met).map.map
    · cases met
  | spend o =>
    rw [callFault?] at met
    split at met
    · next there =>
      rw [perform, ifCache_of_isSome there]
      exact (read_breaks stack watched met).andThen.map
    · cases met
  | _ => cases met

end Guarded

omit [Backing ρ] in
/-- Whether there is a guard is a matter of the shape. -/
theorem guards_ne_nil_of_shape {lower : Layers ρ} (same : shape lower = shape layers) (watched : guards layers ≠ []) :
    guards lower ≠ [] := by
  induction layers generalizing lower with
  | nil => exact absurd rfl watched
  | cons layer below ih =>
    cases lower with
    | nil => cases same
    | cons later rest =>
      obtain ⟨first, others⟩ := List.cons.inj same
      cases later with
      | guarded skip guard => exact List.cons_ne_nil _ _
      | root | relay | cached =>
        cases layer with
        | guarded => cases first
        | root | relay | cached =>
          have deeper : guards rest ≠ [] := ih others watched
          exact deeper

end Layers

namespace Script

variable [Backing ρ] {layers : Layers ρ} {depth : Nat} {fault : Fault}

/-- A script is broken by the first read that fails. -/
theorem breaks {script : Script α} (makes : script.Makes (Layers.Unnoticed ρ)) (stack : Layers.Stack Layers.Any layers)
    (watched : Layers.guards (layers.drop depth) ≠ []) (met : script.fault? depth layers = some fault) :
    Layers.Breaks fault (Layers.guards layers) (script.run depth layers) := by
  induction script generalizing layers with
  | ends result => cases met
  | call request next ih =>
    rw [fault?] at met
    rw [run]
    cases called : Layers.callFault? depth layers request with
    | some cause =>
      rw [called] at met
      cases met
      exact (Layers.call_breaks stack watched called).andThen
    | none =>
      rw [called] at met
      cases replied : (Layers.perform request depth layers).result with
      | error why =>
        rw [replied] at met
        cases met
      | ok reply =>
        rw [replied] at met
        have kept := makes.1.2 depth layers called
        have same := Layers.shape_perform makes.1.1 depth layers
        have breaks := ih reply (makes.2 reply) (stack.of_shape same)
          (Layers.guards_ne_nil_of_shape (by rw [Layers.shape_drop, Layers.shape_drop, same]) watched) met
        rw [kept] at breaks
        rw [Outcome.andThen, replied]
        exact ⟨breaks.bare, breaks.judged⟩

end Script

/-- A request that needs a read which fails is broken by the fault. -/
theorem Layers.perform_breaks [Backing ρ] {layers : Layers ρ} {depth : Nat} {request : Request} {fault : Fault}
    (stack : Stack Any layers) (watched : guards (layers.drop depth) ≠ []) (met : fault? request depth layers = some fault) :
    Breaks fault (guards layers) (perform request depth layers) := by
  rw [fault?] at met
  split at met
  · next taken =>
    cases isCall : request.isCall with
    | true =>
      refine call_breaks stack watched ?_
      rw [Request.script_of_isCall isCall, Script.fault?] at met
      cases called : callFault? depth layers request with
      | some cause =>
        rw [called] at met
        exact met
      | none =>
        rw [called] at met
        cases replied : (perform request depth layers).result <;> rw [replied] at met <;> cases met
    | false =>
      have suits : Script.Suits (Unnoticed ρ) := suits_unnoticed
      have makes : request.script.Makes (Unnoticed ρ) := Request.makes_script suits fun called => by
        rw [isCall] at called
        cases called
      rw [perform_eq_run taken]
      exact Script.breaks makes stack watched met
  · cases met

end CoinLayers
