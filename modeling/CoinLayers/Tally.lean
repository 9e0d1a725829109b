/-!
A running count of bytes that cannot hide a mistake: taking out more than is in marks the count for good.
-/
namespace CoinLayers

/-- A count, and whether ever more was taken out than was in. -/
structure Tally where
  bytes : Nat
  overdrawn : Bool
  deriving DecidableEq

namespace Tally

def empty : Tally := ⟨0, false⟩

def add (tally : Tally) (bytes : Nat) : Tally :=
  { tally with bytes := tally.bytes + bytes }

/-- The count with some bytes taken out. -/
def remove (tally : Tally) (bytes : Nat) : Tally :=
  ⟨tally.bytes - bytes, tally.overdrawn || tally.bytes < bytes⟩

/-- The count set to a known number. -/
def reset (tally : Tally) (bytes : Nat) : Tally :=
  { tally with bytes }

end Tally

end CoinLayers
