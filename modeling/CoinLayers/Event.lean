import CoinLayers.Budget
import CoinLayers.Entry
import CoinLayers.Fault

/-!
What happens during an operation besides its result: lines for the log, and calls to those who asked
to be told of failed reads.
-/
namespace CoinLayers

inductive Level where
  | error
  | warn
  | debug
  | trace
  deriving DecidableEq

def Level.text : Level → String
  | error => "ERROR"
  | warn => "WARN"
  | debug => "DEBUG"
  | trace => "TRACE"

inductive Event where
  /-- An unspent coin was overwritten, for the first time at its outpoint. -/
  | overwritten (place : OutPoint)
  /-- A batch called a coin fresh that the receiving cache holds unspent. -/
  | freshMisapplied (place : OutPoint)
  /-- A spend met a fresh entry in the receiving cache, and the entry went. -/
  | spentFreshDropped (place : OutPoint)
  | merged (kept dropped : Nat) (tip : Hash256)
  /-- A cache wrote its entries to the layer below. -/
  | flushed (entries : Nat) (tip : Hash256)
  | stored (written erased total : Nat) (tip : Hash256)
  | evicted (entries before after : Nat) (budget : Budget)
  /-- An entry has flags that do not fit its coin. -/
  | invalidEntry (place : OutPoint) (entry : Entry)
  /-- A cache lost count of its bytes. -/
  | usageMismatch (tracked actual : Nat)
  | readFailed (cause : Fault)
  /-- The caller with the given number was told of a failed read. -/
  | notified (caller : Nat)
  deriving DecidableEq

namespace Event

/-- The log line of an event: its level and its message. Telling a caller is not logged. -/
def logged? : Event → Option (Level × String)
  | overwritten place =>
    some (.warn, "Overwriting unspent coin " ++ place.text ++ " (duplicate coinbase)")
  | freshMisapplied place =>
    some (.error, (Fault.freshMisapplied place).message)
  | spentFreshDropped place =>
    some (.trace, "Dropping spent FRESH coin " ++ place.text ++ " on merge")
  | merged kept dropped tip =>
    some (.trace, "Merged " ++ toString kept ++ " coins, dropped " ++ toString dropped ++ " at " ++ tip.text)
  | flushed entries tip =>
    some (.debug, "Flushed " ++ toString entries ++ " cache entries at " ++ tip.text)
  | stored written erased total tip =>
    some (.debug, "Wrote coins batch at " ++ tip.text ++ ": " ++ toString written ++ " written, " ++
      toString erased ++ " erased, total: " ++ toString total)
  | evicted entries before after budget =>
    some (.debug, "Evicted " ++ toString entries ++ " coins, usage " ++ toString before ++ " -> " ++
      toString after ++ " (budget: " ++ toString budget.limit.toNat ++ ", target: " ++
      toString budget.target ++ ")")
  | invalidEntry place entry =>
    some (.error, "Invalid cache entry state for " ++ place.text ++ ": " ++ entry.text)
  | usageMismatch tracked actual =>
    some (.error, "Cache memory usage mismatch: tracked " ++ toString tracked ++ ", actual " ++
      toString actual)
  | readFailed cause =>
    some (.error, "Error reading from database: " ++ cause.message)
  | notified _ => none

def line? (event : Event) : Option String :=
  event.logged?.map fun (level, message) => level.text ++ " " ++ message

end Event

end CoinLayers
