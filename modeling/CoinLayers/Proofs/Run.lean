import CoinLayers.Proofs.Script

/-!
Runs: requests to any layers, one after the other.

A request that deals with a transaction makes several calls, so that every run is one of calls alone, its steps
(`after_steps`). Along a run each cache goes through a course, in which the outpoints looked up are those of the
steps (`course_of_steps`).
-/
namespace CoinLayers

variable {ρ : Type} [Backing ρ] {layers : Layers ρ} {depth : Nat} {request : Request}

/-- The calls that a request stands for. -/
def Request.script : Request → Script Reply
  | .addOutputs tx height checks => (Script.addOutputs tx height checks).map fun _ => .nothing
  | .hasInputs tx => (Script.hasInputs tx).map .truth
  | .firstUnspent txid => (Script.firstUnspent txid).map .sight
  | .spendInputs tx => (Script.spendInputs tx).map .undo
  | .apply tx height => (Script.apply tx height).map .undo
  | request => .call request fun reply => .ends (.ok reply)

theorem Request.script_of_isCall (isCall : request.isCall = true) :
    request.script = .call request fun reply => .ends (.ok reply) := by
  cases request with
  | addOutputs | hasInputs | firstUnspent | spendInputs | apply => cases isCall
  | _ => rfl

theorem Request.makes_script {Fits : Request → Prop} (suits : Script.Suits Fits)
    (fits : request.isCall = true → Fits request) : request.script.Makes Fits := by
  cases request with
  | addOutputs tx height checks => exact (Script.makes_addOutputs suits tx height checks).map
  | hasInputs tx => exact (Script.makes_hasInputs suits tx).map
  | firstUnspent txid => exact (Script.makes_firstUnspentFrom suits txid Transaction.maxOutputs 0).map
  | spendInputs tx => exact (Script.makes_spendInputs suits tx).map
  | apply tx height => exact (Script.makes_apply suits tx height).map
  | _ => exact ⟨fits rfl, fun _ => trivial⟩

namespace Layers

/-- Whether a request comes to be carried out: only caches deal with transactions. -/
def takes (request : Request) (depth : Nat) (layers : Layers ρ) : Bool :=
  request.isCall || (cacheAt? depth layers).isSome

theorem perform_eq_run (taken : takes request depth layers = true) :
    perform request depth layers = request.script.run depth layers := by
  have there (helper : request.isCall = false) : (cacheAt? depth layers).isSome = true := by
    simpa [takes, helper] using taken
  cases request with
  | addOutputs tx height checks =>
    rw [perform, ifCache_of_isSome (there rfl), Script.addOutputs_eq_run, Request.script, Script.run_map]
  | hasInputs tx => rw [perform, ifCache_of_isSome (there rfl), Script.hasInputs_eq_run, Request.script, Script.run_map]
  | firstUnspent txid =>
    rw [perform, ifCache_of_isSome (there rfl), firstUnspent, Script.firstUnspentFrom_eq_run _ _ _ _ (there rfl),
      Request.script, Script.run_map]
    rfl
  | spendInputs tx =>
    rw [perform, ifCache_of_isSome (there rfl), Script.spendInputs_eq_run tx (there rfl), Request.script, Script.run_map]
  | apply tx height =>
    rw [perform, ifCache_of_isSome (there rfl), Script.apply_eq_run tx height (there rfl), Request.script,
      Script.run_map]
  | _ => exact Outcome.andThen_done.symm

theorem perform_eq_failed (untaken : takes request depth layers = false) :
    perform request depth layers = .failed .unsupported layers := by
  rw [takes, Bool.or_eq_false_iff] at untaken
  cases request with
  | addOutputs | hasInputs | firstUnspent | spendInputs | apply =>
    rw [perform, ifCache, untaken.2]
    rfl
  | _ => cases untaken.1

theorem perform_untaken (untaken : takes request depth layers = false) : (perform request depth layers).state = layers := by
  rw [perform_eq_failed untaken]
  rfl

/-- The layers after some requests, each made at a depth. -/
def after : List (Nat × Request) → Layers ρ → Layers ρ
  | [], layers => layers
  | (depth, request) :: rest, layers => after rest (perform request depth layers).state

theorem after_append {early late : List (Nat × Request)} : after (early ++ late) layers = after late (after early layers) := by
  induction early generalizing layers with
  | nil => rfl
  | cons first rest ih => exact ih

/-- The calls that are made in a run. -/
def steps : List (Nat × Request) → Layers ρ → List (Nat × Request)
  | [], _ => []
  | (depth, request) :: rest, layers =>
    (if takes request depth layers then (request.script.calls depth layers).map (depth, ·) else []) ++
      steps rest (perform request depth layers).state

theorem after_calls {α : Type} {script : Script α} :
    after ((script.calls depth layers).map (depth, ·)) layers = (script.run depth layers).state := by
  induction script generalizing layers with
  | ends result => rfl
  | call request next ih =>
    rw [Script.calls, List.map_cons, after, Script.run, Outcome.andThen]
    cases (perform request depth layers).result with
    | ok reply => exact ih reply
    | error why => rfl

/-- A run is one of its calls. -/
theorem after_steps {requests : List (Nat × Request)} : after (steps requests layers) layers = after requests layers := by
  induction requests generalizing layers with
  | nil => rfl
  | cons first rest ih =>
    obtain ⟨depth, request⟩ := first
    rw [steps, after_append, after]
    cases taken : takes request depth layers with
    | true => rw [if_pos rfl, after_calls, ← perform_eq_run taken, ih]
    | false => simp only [Bool.false_eq_true, if_false, after, perform_untaken taken, ih]

/-- What is true of all calls among some requests, and of those that deal with one coin, is true of each step. -/
theorem fits_steps {Fits : Request → Prop} (suits : Script.Suits Fits) {requests : List (Nat × Request)}
    (fits : ∀ asked ∈ requests, asked.2.isCall = true → Fits asked.2) (layers : Layers ρ) :
    ∀ step ∈ steps requests layers, Fits step.2 := by
  induction requests generalizing layers with
  | nil => exact nofun
  | cons first rest ih =>
    obtain ⟨depth, request⟩ := first
    rw [List.forall_mem_cons] at fits
    rw [steps, List.forall_mem_append]
    refine ⟨?_, ih fits.2 _⟩
    split
    · rw [List.forall_mem_map]
      exact (Request.makes_script suits fits.1).calls
    · exact nofun

/-- Each step is one call, and adds an unspent coin at most. -/
theorem plain_steps {requests : List (Nat × Request)} (unspent : ∀ asked ∈ requests, asked.2.AddsUnspent)
    (layers : Layers ρ) : ∀ step ∈ steps requests layers, Script.Plain step.2 :=
  fits_steps Script.suits_plain (fun asked member isCall => ⟨isCall, unspent asked member⟩) layers

/-- What every call keeps is kept along a run. -/
theorem kept_after (Holds : Layers ρ → Prop) {Fits : Request → Prop} (suits : Script.Suits Fits)
    (keeps : ∀ {request : Request} {layers : Layers ρ} (depth : Nat), Fits request → Holds layers →
      Holds (perform request depth layers).state)
    {requests : List (Nat × Request)} (fits : ∀ asked ∈ requests, asked.2.isCall = true → Fits asked.2)
    (start : Holds layers) : Holds (after requests layers) := by
  have calls := fits_steps suits fits layers
  rw [← after_steps]
  generalize steps requests layers = steps at calls
  induction steps generalizing layers with
  | nil => exact start
  | cons step rest ih =>
    obtain ⟨first, others⟩ := List.forall_mem_cons.mp calls
    exact ih (keeps step.1 first start) others

/-- The outpoints looked up at a place along some steps, the last one first. -/
def lookedUp (place : Nat) : List (Nat × Request) → Layers ρ → List OutPoint
  | [], _ => []
  | (depth, request) :: rest, layers =>
    lookedUp place rest (perform request depth layers).state ++ lookups place depth layers request

/-- Along some steps every cache goes through a course, in which the outpoints looked up are those of the
    steps. -/
theorem course_of_steps {Left : Entries → Entries → Prop} (leaves : Leaves ρ Left) {steps : List (Nat × Request)}
    (plain : ∀ step ∈ steps, Script.Plain step.2) (layers : Layers ρ) :
    Moves Left (fun place => lookedUp place steps layers) layers (after steps layers) := by
  induction steps generalizing layers with
  | nil => exact .refl
  | cons step rest ih =>
    obtain ⟨depth, request⟩ := step
    obtain ⟨first, others⟩ := List.forall_mem_cons.mp plain
    exact (course_of_call leaves first.1 first.2 depth layers).trans (ih others _)

/-- Along a run every cache goes through a course. -/
theorem course_of_run {Left : Entries → Entries → Prop} (leaves : Leaves ρ Left) {requests : List (Nat × Request)}
    (unspent : ∀ asked ∈ requests, asked.2.AddsUnspent) (layers : Layers ρ) :
    Moves Left (fun place => lookedUp place (steps requests layers) layers) layers (after requests layers) := by
  rw [← after_steps]
  exact course_of_steps leaves (plain_steps unspent layers) layers

end Layers

end CoinLayers
