import CoinLayers.Event

/-!
Outcomes of operations that change a state.

An operation ends with a value or a failure; in both cases it leaves a state behind, and it has said
some things on the way. Failure does not undo the changes made before it.
-/
namespace CoinLayers

/-- The end of an operation on a state of type `σ` that answers an `α`. -/
structure Outcome (σ α : Type) where
  result : Except Failure α
  state : σ
  events : List Event

namespace Outcome

variable {σ τ α β : Type}

def done (value : α) (state : σ) : Outcome σ α := ⟨.ok value, state, []⟩

def failed (why : Failure) (state : σ) : Outcome σ α := ⟨.error why, state, []⟩

/-- The end of a silent operation that either answers or meets a fault. -/
def ofExcept (answer : Except Fault α) (state : σ) : Outcome σ α :=
  ⟨answer.mapError .fault, state, []⟩

def map (f : α → β) (x : Outcome σ α) : Outcome σ β :=
  ⟨x.result.map f, x.state, x.events⟩

def mapState (f : σ → τ) (x : Outcome σ α) : Outcome τ α :=
  ⟨x.result, f x.state, x.events⟩

/-- The state changed in a way that hangs on the result. -/
def settle (x : Outcome σ α) (f : Except Failure α → σ → τ) : Outcome τ α :=
  ⟨x.result, f x.result x.state, x.events⟩

/-- Things said before those of the outcome. -/
def after (earlier : List Event) (x : Outcome σ α) : Outcome σ α :=
  { x with events := earlier ++ x.events }

/-- One operation and then, if it did not fail, the next. -/
def andThen (x : Outcome σ α) (next : α → σ → Outcome σ β) : Outcome σ β :=
  match x.result with
  | .ok value => (next value x.state).after x.events
  | .error why => ⟨.error why, x.state, x.events⟩

end Outcome

end CoinLayers
