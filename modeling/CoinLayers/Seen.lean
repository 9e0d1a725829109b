/-!
Values that have been met before, so that what is said of a value can be said once.
-/
namespace CoinLayers

/-- The values met so far, each once. -/
structure Seen (α : Type) where
  values : List α

namespace Seen

variable {α : Type}

def empty : Seen α := ⟨[]⟩

def size (seen : Seen α) : Nat := seen.values.length

def isEmpty (seen : Seen α) : Bool := seen.values.isEmpty

def isNew [DecidableEq α] (seen : Seen α) (value : α) : Bool :=
  !seen.values.contains value

def meet [DecidableEq α] (seen : Seen α) (value : α) : Seen α :=
  ⟨seen.values.insert value⟩

end Seen

end CoinLayers
