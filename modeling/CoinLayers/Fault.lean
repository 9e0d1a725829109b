import CoinLayers.OutPoint

/-!
What can go wrong in a view of the coins.
-/
namespace CoinLayers

inductive Fault where
  /-- A batch calls a coin fresh that the cache below holds unspent. Whoever set the flag was wrong. -/
  | freshMisapplied (place : OutPoint)
  /-- The view has nowhere to write a batch to. -/
  | writeUnsupported
  /-- The store could not be read, and whoever asked must not go on. -/
  | unrecoverableRead (cause : String)
  /-- A transaction spends a coin that is missing, or already spent. -/
  | missingInput (place : OutPoint)
  | io (cause : String)
  /-- The store failed in a way of its own. -/
  | backend (cause : String)
  deriving DecidableEq

namespace Fault

def message : Fault → String
  | freshMisapplied place => "FRESH flag misapplied to coin " ++ place.text ++ " that exists in parent cache"
  | writeUnsupported => "Coins view does not support batch writes"
  | unrecoverableRead cause => "Unrecoverable error reading from coins database: " ++ cause
  | missingInput place => "Missing input: " ++ place.text
  | io cause => "IO error: " ++ cause
  | backend cause => "Backend error: " ++ cause

/-- Whether the fault must bring the whole node down: a broken rule, or a read that must not be taken for
    an absence. -/
def isFatal : Fault → Bool
  | freshMisapplied _ => true
  | unrecoverableRead _ => true
  | _ => false

end Fault

/-- Why an operation on the layers has no result. -/
inductive Failure where
  /-- It failed, and said why. -/
  | fault (cause : Fault)
  | aborted
  | unsupported
  deriving DecidableEq

end CoinLayers
