import CoinLayers.Outcome

/-!
A guard over reads: a read that failed must never look like an absence.

A fault that is fatal already passes unchanged. Any other is told to the registered callers and logged;
then the process ends, or the fault is replaced by a fatal one that carries its message.
-/
namespace CoinLayers

/-- The number of registered callers, whether a failed read ends the process, and the callers that were
    called so far. -/
structure ReadGuard where
  callers : Nat
  aborts : Bool
  calls : List Nat

namespace ReadGuard

def register (guard : ReadGuard) : ReadGuard :=
  { guard with callers := guard.callers + 1 }

/-- What becomes of a fault that a read met. -/
def meet {α : Type} (guard : ReadGuard) (fault : Fault) : Outcome ReadGuard α :=
  if fault.isFatal then .failed (.fault fault) guard
  else
    let told := List.range guard.callers
    let why : Failure := if guard.aborts then .aborted else .fault (.unrecoverableRead fault.message)
    ⟨.error why, { guard with calls := guard.calls ++ told }, told.map .notified ++ [.readFailed fault]⟩

/-- A read of the layer below, seen through the guard. -/
def watch {σ α : Type} (guard : ReadGuard) (read : Outcome σ α) : Outcome (ReadGuard × σ) α :=
  match read.result with
  | .error (.fault fault) => ((guard.meet fault).mapState (·, read.state)).after read.events
  | _ => read.mapState (guard, ·)

end ReadGuard

end CoinLayers
