import CoinLayers.Proofs.Unreadable

/-!
Layers that hand on everything.

A relay, or a guard under which no read fails, can be put in anywhere above the store. Every request to one of the
other layers is answered as before, and leaves the other layers as before (`perform_seam`), so that nobody notices
along a whole run (`conduct_seam`).
-/
namespace CoinLayers

variable {ρ σ τ α β : Type}

/-- A layer that hands everything on to the one right below it, as long as no read fails. -/
inductive Layer.HandsOn : Layer ρ → Prop
  | relay : HandsOn (.relay 0)
  | guarded (guard : ReadGuard) : HandsOn (.guarded 0 guard)

namespace Outcome

variable {x : Outcome σ α} {f : σ → τ}

theorem andThen_mapState {next : α → σ → Outcome σ β} {last : α → τ → Outcome τ β}
    (same : ∀ value, x.result = .ok value → last value (f x.state) = (next value x.state).mapState f) :
    (x.mapState f).andThen last = (x.andThen next).mapState f := by
  obtain ⟨result, state, events⟩ := x
  cases result with
  | error why => rfl
  | ok value => exact congrArg (after events) (same value rfl)

end Outcome

theorem ReadGuard.watch_mapState {guard : ReadGuard} {read : Outcome σ α} {f : σ → τ} :
    guard.watch (read.mapState f) = (guard.watch read).mapState fun (guard, state) => (guard, f state) := by
  obtain ⟨result, state, events⟩ := read
  cases result with
  | ok value => rfl
  | error why => cases why <;> rfl

namespace Layers

variable {layers below : Layers ρ} {layer gone : Layer ρ} {place depth : Nat} {o : OutPoint}

/-- The depth of a layer once another one was put in at a place. -/
def past : (place depth : Nat) → Nat
  | 0, depth => depth + 1
  | _ + 1, 0 => 0
  | place + 1, depth + 1 => past place depth + 1

theorem Stack.tail (stack : Stack Any (layer :: below)) (inside : place < below.length) : Stack Any below :=
  have more : (layer :: below).drop 1 ≠ [] := List.ne_nil_of_length_pos (Nat.zero_lt_of_lt inside)
  stack.drop more

section Seam

/-! What the operations leave behind differs in form, but always there are layers in it, which `lift` changes. That an
operation meets no fault is said by `Fine`. -/

variable (lift : (Layers ρ → Layers ρ) → τ → τ) (Fine : Nat → Layers ρ → Prop)
  (comp : ∀ f g x, lift f (lift g x) = lift (f ∘ g) x) {op : Nat → Layers ρ → τ}

include comp in
/-- An operation notices a layer put in nowhere, if it does not do so from the top. -/
theorem seam_at_depth
    (descends : ∀ depth layer below, op (depth + 1) (layer :: below) = lift (layer :: ·) (op depth below))
    (lower : ∀ {depth layer below}, Fine (depth + 1) (layer :: below) → Fine depth below)
    (top : ∀ {layer below place}, Stack Any (layer :: below) → place < below.length → Fine 0 (layer :: below) →
      op 0 (layer :: below.insertIdx place gone) = lift (·.insertIdx (place + 1) gone) (op 0 (layer :: below)))
    (stack : Stack Any layers) (inside : place < layers.length) (fine : Fine depth layers) :
    op (past place depth) (layers.insertIdx place gone) = lift (·.insertIdx place gone) (op depth layers) := by
  induction place generalizing depth layers with
  | zero => exact descends depth gone layers
  | succ place ih =>
    cases layers with
    | nil => cases inside
    | cons layer below =>
      have within : place < below.length := Nat.lt_of_succ_lt_succ inside
      cases depth with
      | zero => exact top stack within fine
      | succ depth =>
        rw [past, List.insertIdx_succ_cons, descends, descends, ih (stack.tail within) within (lower fine), comp, comp]
        rfl

/-- An operation that a layer put in hands on does not notice it from the top, if each layer asks the next one. -/
theorem seam_at_top
    (here : ∀ {layers : Layers ρ}, Fine 0 layers → op 0 (gone :: layers) = lift (gone :: ·) (op 0 layers))
    (each : ∀ {layer below place}, Stack Any (layer :: below) → place < below.length →
      (Fine 0 below → op 0 (below.insertIdx place gone) = lift (·.insertIdx place gone) (op 0 below)) →
      Fine 0 (layer :: below) →
      op 0 (layer :: below.insertIdx place gone) = lift (·.insertIdx (place + 1) gone) (op 0 (layer :: below)))
    (stack : Stack Any layers) (inside : place < layers.length) (fine : Fine 0 layers) :
    op 0 (layers.insertIdx place gone) = lift (·.insertIdx place gone) (op 0 layers) := by
  induction place generalizing layers with
  | zero => exact here fine
  | succ place ih =>
    cases layers with
    | nil => cases inside
    | cons layer below =>
      have within : place < below.length := Nat.lt_of_succ_lt_succ inside
      exact each stack within (ih (stack.tail within) within) fine

end Seam

/-! ### Operations that read -/

/-- The layers in an outcome, changed. -/
abbrev inOutcome (f : Layers ρ → Layers ρ) (x : Outcome (Layers ρ) α) : Outcome (Layers ρ) α := x.mapState f

variable [Backing ρ] (handsOn : gone.HandsOn)

section Reads

include handsOn

theorem read_seam_top (stack : Stack Any layers) (inside : place < layers.length)
    (fine : readFault? o 0 layers = none) :
    read o 0 (layers.insertIdx place gone) = (read o 0 layers).mapState (·.insertIdx place gone) := by
  refine seam_at_top inOutcome (fun depth layers => readFault? o depth layers = none)
    (fun fine => ?_) (fun stack inside ih fine => ?_) stack inside fine
  · cases handsOn with
    | relay => rfl
    | guarded guard =>
      obtain ⟨⟨found, ok⟩, _⟩ := read_unharmed 0 _ fine
      rw [read, ReadGuard.watch_ok ok]
      rfl
  · cases stack with
    | root => cases inside
    | relay =>
      rw [read, read, ih fine]
      rfl
    | guarded guard =>
      rw [read, read, ih fine, inOutcome, ReadGuard.watch_mapState]
      rfl
    | cached cache =>
      rw [read, read]
      cases there : cache.entries[o]? with
      | some entry => rfl
      | none =>
        rw [readFault?_cached, there] at fine
        rw [ih fine]
        rfl

theorem read_seam (stack : Stack Any layers) (inside : place < layers.length)
    (fine : readFault? o depth layers = none) :
    read o (past place depth) (layers.insertIdx place gone) = (read o depth layers).mapState (·.insertIdx place gone) :=
  seam_at_depth inOutcome (fun depth layers => readFault? o depth layers = none)
    (fun _ _ _ => rfl) (fun _ _ _ => rfl) id
    (fun stack inside => read_seam_top handsOn stack (Nat.succ_lt_succ inside)) stack inside fine

theorem holds_seam (stack : Stack Any layers) (inside : place < layers.length)
    (fine : holdsFault? o depth layers = none) :
    holds o (past place depth) (layers.insertIdx place gone) =
      (holds o depth layers).mapState (·.insertIdx place gone) := by
  refine seam_at_depth inOutcome (fun depth layers => holdsFault? o depth layers = none)
    (fun _ _ _ => rfl) (fun _ _ _ => rfl) id (fun stack inside => ?_) stack inside fine
  refine seam_at_top inOutcome (fun depth layers => holdsFault? o depth layers = none)
    (fun fine => ?_) (fun {_ below _} stack inside ih fine => ?_) stack (Nat.succ_lt_succ inside)
  · cases handsOn with
    | relay => rfl
    | guarded guard =>
      obtain ⟨⟨held, ok⟩, _⟩ := holds_unharmed 0 _ fine
      rw [holds, ReadGuard.watch_ok ok]
      rfl
  · cases stack with
    | root => cases inside
    | relay =>
      rw [holds, holds, ih fine]
      rfl
    | guarded guard =>
      rw [holds, holds, ih fine, inOutcome, ReadGuard.watch_mapState]
      rfl
    | cached cache stack =>
      rw [holds, holds]
      cases there : cache.entries[o]? with
      | some entry => rfl
      | none =>
        have asked : readFault? o 0 below = none := by
          have asked : readFault? o 0 (.cached 0 cache :: below) = none := fine
          rwa [readFault?_cached, there] at asked
        rw [read_seam_top handsOn stack inside asked]
        rfl

end Reads

/-! ### Operations at one layer -/

section Local

omit [Backing ρ]

variable (stack : Stack Any layers) (inside : place < layers.length)
include stack inside

theorem cacheAt?_seam : cacheAt? (past place depth) (layers.insertIdx place gone) = cacheAt? depth layers :=
  seam_at_depth (fun _ there => there) (fun _ _ => True) (fun _ _ _ => rfl) (fun _ _ _ => rfl)
    (fun _ => trivial) (fun stack _ _ => by cases stack <;> rfl) stack inside trivial

theorem onCache_seam {change : Cache → Outcome Cache α} :
    onCache change (past place depth) (layers.insertIdx place gone) =
      (onCache change depth layers).mapState (·.insertIdx place gone) :=
  seam_at_depth inOutcome (fun _ _ => True) (fun _ _ _ => rfl) (fun _ _ _ => rfl)
    (fun _ => trivial) (fun stack _ _ => by cases stack <;> rfl) stack inside trivial

theorem onGuard_seam {change : ReadGuard → α × ReadGuard} :
    onGuard change (past place depth) (layers.insertIdx place gone) =
      (onGuard change depth layers).mapState (·.insertIdx place gone) :=
  seam_at_depth inOutcome (fun _ _ => True) (fun _ _ _ => rfl) (fun _ _ _ => rfl)
    (fun _ => trivial) (fun stack _ _ => by cases stack <;> rfl) stack inside trivial

theorem ask_seam {question : Cache → α} : ask question (past place depth) (layers.insertIdx place gone) =
    (ask question depth layers).mapState (·.insertIdx place gone) := by
  rw [ask, ask, cacheAt?_seam stack inside]
  split <;> rfl

theorem ifCache_seam {op : Nat → Layers ρ → Outcome (Layers ρ) α}
    (same : (cacheAt? depth layers).isSome = true → op (past place depth) (layers.insertIdx place gone) =
      (op depth layers).mapState (·.insertIdx place gone)) :
    ifCache op (past place depth) (layers.insertIdx place gone) =
      (ifCache op depth layers).mapState (·.insertIdx place gone) := by
  rw [ifCache, ifCache, cacheAt?_seam stack inside]
  split
  · next there => exact same there
  · rfl

end Local

/-! ### Questions that cannot fail, and writes -/

section Handed

variable (stack : Stack Any layers) (inside : place < layers.length)
include handsOn stack inside

theorem tip_seam_top : tip 0 (layers.insertIdx place gone) = (tip 0 layers).map id (·.insertIdx place gone) := by
  refine seam_at_top (fun f (x : Hash256 × Layers ρ) => x.map id f) (fun _ _ => True) (fun _ => ?_)
    (fun stack inside ih _ => ?_) stack inside trivial
  · cases handsOn <;> rfl
  · cases stack with
    | root => cases inside
    | relay | guarded =>
      rw [tip, tip, ih trivial]
      rfl
    | cached cache =>
      rw [tip, tip]
      split
      · rfl
      · rw [ih trivial]
        rfl

theorem tip_seam :
    tip (past place depth) (layers.insertIdx place gone) = (tip depth layers).map id (·.insertIdx place gone) :=
  seam_at_depth (fun f (x : Hash256 × Layers ρ) => x.map id f) (fun _ _ => True) (fun _ _ _ => rfl)
    (fun _ _ _ => rfl) (fun _ => trivial) (fun stack inside _ => tip_seam_top handsOn stack (Nat.succ_lt_succ inside))
    stack inside trivial

theorem write_seam_top {batch : Entries} {block : Hash256} : write batch block 0 (layers.insertIdx place gone) =
    (write batch block 0 layers).mapState (·.map id (·.insertIdx place gone)) := by
  refine seam_at_top (fun f (x : Outcome (Entries × Layers ρ) Unit) => x.mapState (·.map id f))
    (fun _ _ => True) (fun _ => ?_) (fun stack inside ih _ => ?_) stack inside trivial
  · cases handsOn <;> rfl
  · cases stack with
    | root => cases inside
    | relay | guarded =>
      rw [write, write, ih trivial]
      rfl
    | cached cache => rfl

theorem write_seam {batch : Entries} {block : Hash256} :
    write batch block (past place depth) (layers.insertIdx place gone) =
      (write batch block depth layers).mapState (·.map id (·.insertIdx place gone)) :=
  seam_at_depth (fun f (x : Outcome (Entries × Layers ρ) Unit) => x.mapState (·.map id f))
    (fun _ _ => True) (fun _ _ _ => rfl) (fun _ _ _ => rfl) (fun _ => trivial)
    (fun stack inside _ => write_seam_top handsOn stack (Nat.succ_lt_succ inside)) stack inside trivial

omit [Backing ρ] handsOn in
/-- A question that the layers pass down as it is gets the answer that it got. -/
theorem question_seam {question : Nat → Layers ρ → α}
    (descends : ∀ depth layer below, question (depth + 1) (layer :: below) = question depth below)
    (here : ∀ layers, question 0 (gone :: layers) = question 0 layers)
    (each : ∀ {layer below lower}, Stack Any (layer :: below) → below ≠ [] → question 0 lower = question 0 below →
      question 0 (layer :: lower) = question 0 (layer :: below)) :
    question (past place depth) (layers.insertIdx place gone) = question depth layers := by
  refine seam_at_depth (fun _ answer => answer) (fun _ _ => True) (fun _ _ _ => rfl) descends
    (fun _ => trivial) (fun stack inside => ?_) stack inside trivial
  refine seam_at_top (fun _ answer => answer) (fun _ _ => True) (fun _ => here _)
    (fun stack inside same _ => ?_) stack (Nat.succ_lt_succ inside)
  exact each stack (List.ne_nil_of_length_pos (Nat.zero_lt_of_lt inside)) (same trivial)

theorem heads_seam : heads (past place depth) (layers.insertIdx place gone) = heads depth layers := by
  refine question_seam stack inside (fun _ _ _ => rfl) (fun _ => ?_) fun stack more same => ?_
  · cases handsOn <;> rfl
  · cases stack with
    | root => exact absurd rfl more
    | relay | guarded | cached => exact same

theorem scan_seam : scan (past place depth) (layers.insertIdx place gone) = scan depth layers := by
  refine question_seam stack inside (fun _ _ _ => rfl) (fun _ => ?_) fun stack more same => ?_
  · cases handsOn <;> rfl
  · cases stack with
    | root => exact absurd rfl more
    | relay | guarded => exact same
    | cached => rfl

theorem sizeEstimate_seam :
    sizeEstimate (past place depth) (layers.insertIdx place gone) = sizeEstimate depth layers := by
  refine question_seam stack inside (fun _ _ _ => rfl) (fun _ => ?_) fun stack more same => ?_
  · cases handsOn <;> rfl
  · cases stack with
    | root => exact absurd rfl more
    | relay | guarded | cached => exact same

theorem writeReply_seam {batch : Entries} {block : Hash256} :
    writeReply batch block (past place depth) (layers.insertIdx place gone) =
      (writeReply batch block depth layers).mapState (·.insertIdx place gone) := by
  rw [writeReply, write_seam handsOn stack inside]
  rfl

theorem spend_seam (fine : readFault? o depth layers = none) :
    spend o (past place depth) (layers.insertIdx place gone) =
      (spend o depth layers).mapState (·.insertIdx place gone) := by
  have same := shape_read o depth layers
  rw [spend, spend, read_seam handsOn stack inside fine]
  refine Outcome.andThen_mapState fun found _ => ?_
  cases found with
  | none => rfl
  | some coin => exact onCache_seam (stack.of_shape same) (by rwa [length_of_shape same])

theorem tipOf_seam (cache : Cache) :
    tipOf cache 0 (layers.insertIdx place gone) = (tipOf cache 0 layers).map id (·.insertIdx place gone) := by
  rw [tipOf, tipOf]
  split
  · rfl
  · exact tip_seam_top handsOn stack inside

theorem flush_seam :
    flush (past place depth) (layers.insertIdx place gone) = (flush depth layers).mapState (·.insertIdx place gone) := by
  refine seam_at_depth inOutcome (fun _ _ => True) (fun _ _ _ => rfl) (fun _ _ _ => rfl)
    (fun _ => trivial) (fun {_ below _} stack inside _ => ?_) stack inside trivial
  cases stack with
  | root => cases inside
  | relay | guarded => rfl
  | cached cache stack =>
    have same : shape (tipOf cache 0 below).2 = shape below := shape_tipOf cache 0 below
    rw [flush_cached, flush_cached, tipOf_seam handsOn stack inside]
    show concludeFlush _ (tipOf cache 0 below).1 0
      (write _ (tipOf cache 0 below).1 0 ((tipOf cache 0 below).2.insertIdx _ _)) = _
    rw [write_seam_top handsOn (stack.of_shape same) (by rwa [length_of_shape same])]
    cases ended : (write cache.entries (tipOf cache 0 below).1 0 (tipOf cache 0 below).2).result with
    | ok => simp only [concludeFlush, Outcome.mapState, inOutcome, ended]; rfl
    | error why => simp only [concludeFlush, Outcome.mapState, inOutcome, ended]; rfl

/-! ### Requests -/

/-- A call is answered as before, if it meets no fault. -/
theorem call_seam {request : Request} (stays : request.Stays) (fine : callFault? depth layers request = none) :
    perform request (past place depth) (layers.insertIdx place gone) =
      (perform request depth layers).mapState (·.insertIdx place gone) := by
  obtain ⟨stays, isCall⟩ := stays
  cases request with
  | read o =>
    rw [perform, read_seam handsOn stack inside fine]
    rfl
  | holds o =>
    rw [perform, holds_seam handsOn stack inside fine]
    rfl
  | tip =>
    rw [perform, tip_seam handsOn stack inside]
    rfl
  | heads =>
    rw [perform, heads_seam handsOn stack inside]
    rfl
  | write batch block => exact writeReply_seam handsOn stack inside
  | scan =>
    rw [perform, scan_seam handsOn stack inside]
    rfl
  | sizeEstimate =>
    rw [perform, sizeEstimate_seam handsOn stack inside]
    rfl
  | rebase => cases stays
  | sight o =>
    refine congrArg (Outcome.map Reply.sight) (ifCache_seam stack inside fun there => ?_)
    rw [callFault?, if_pos there] at fine
    rw [sight, read_seam handsOn stack inside fine]
    rfl
  | spend o =>
    refine congrArg (Outcome.map Reply.coin) (ifCache_seam stack inside fun there => ?_)
    rw [callFault?, if_pos there] at fine
    exact spend_seam handsOn stack inside fine
  | merge batch block => exact ifCache_seam stack inside fun _ => writeReply_seam handsOn stack inside
  | flush =>
    rw [perform, flush_seam handsOn stack inside]
    rfl
  | add | uncache | setTip | check =>
    rw [perform, perform]
    exact congrArg (Outcome.map _) (onCache_seam stack inside)
  | cached | memoryUsage | size | entry | stats | budget =>
    rw [perform, perform]
    exact congrArg (Outcome.map _) (ask_seam stack inside)
  | register | calls =>
    rw [perform, perform]
    exact congrArg (Outcome.map _) (onGuard_seam stack inside)
  | addOutputs | hasInputs | firstUnspent | spendInputs | apply => cases isCall

end Handed

end Layers

variable [Backing ρ] {layers : Layers ρ} {gone : Layer ρ} {place depth : Nat} (handsOn : gone.HandsOn)

include handsOn in
theorem Script.run_seam {script : Script α} (makes : script.Makes Request.Stays) (stack : Layers.Stack Layers.Any layers)
    (inside : place < layers.length) (fine : script.fault? depth layers = none) :
    script.run (Layers.past place depth) (layers.insertIdx place gone) =
      (script.run depth layers).mapState (·.insertIdx place gone) := by
  induction script generalizing layers with
  | ends result => rfl
  | call request next ih =>
    rw [fault?] at fine
    cases called : Layers.callFault? depth layers request with
    | some fault =>
      rw [called] at fine
      cases fine
    | none =>
      have same := Layers.shape_perform makes.1.1 depth layers
      rw [run, run, Layers.call_seam handsOn stack inside makes.1 called]
      refine Outcome.andThen_mapState fun reply replied => ?_
      rw [called, replied] at fine
      exact ih reply (makes.2 reply) (stack.of_shape same) (by rwa [Layers.length_of_shape same]) fine

namespace Layers

include handsOn in
/-- A request that meets no fault is answered as without the layer that was put in, and leaves the other layers as
    without it. -/
theorem perform_seam {request : Request} (stays : request.rebases = false) (stack : Stack Any layers)
    (inside : place < layers.length) (fine : fault? request depth layers = none) :
    perform request (past place depth) (layers.insertIdx place gone) =
      (perform request depth layers).mapState (·.insertIdx place gone) := by
  have same : takes request (past place depth) (layers.insertIdx place gone) = takes request depth layers := by
    rw [takes, takes, cacheAt?_seam stack inside]
  cases taken : takes request depth layers with
  | false =>
    rw [perform_eq_failed (same.trans taken), perform_eq_failed taken]
    rfl
  | true =>
    rw [fault?, if_pos taken] at fine
    rw [perform_eq_run (same.trans taken), perform_eq_run taken]
    have made := Request.makes_script Script.suits_stays fun isCall => ⟨stays, isCall⟩
    exact Script.run_seam handsOn made stack inside fine

end Layers

end CoinLayers
