import CoinLayers.Spending

/-!
Requests: everything that can be asked of a layer, as data, and what it answers.
-/
namespace CoinLayers

/-- What can be asked of a layer. -/
inductive Request where
  | read (o : OutPoint)
  /-- Whether there is an unspent coin at an outpoint. -/
  | holds (o : OutPoint)
  | tip
  | heads
  | write (batch : Entries) (block : Hash256)
  | scan
  | sizeEstimate
  /-- From now on lie on another layer, so many layers further down. -/
  | rebase (skip : Nat)
  /-- A look at a coin through a cache. -/
  | sight (o : OutPoint)
  /-- Whether an unspent coin is cached. -/
  | cached (o : OutPoint)
  | add (o : OutPoint) (coin : Coin) (mayOverwrite : Bool)
  | spend (o : OutPoint)
  | uncache (o : OutPoint)
  | merge (batch : Entries) (block : Hash256)
  | flush
  | setTip (block : Hash256)
  | memoryUsage
  | size
  | entry (o : OutPoint)
  | stats
  | check
  | budget
  | addOutputs (tx : Transaction) (height : UInt32) (checks : Bool)
  | hasInputs (tx : Transaction)
  | firstUnspent (txid : Hash256)
  | spendInputs (tx : Transaction)
  | apply (tx : Transaction) (height : UInt32)
  /-- Register one more caller with a guard. -/
  | register
  /-- The callers that a guard called so far. -/
  | calls

/-- What a layer answers. -/
inductive Reply where
  | nothing
  | coin (found : Option Coin)
  | truth (holds : Bool)
  | number (n : Nat)
  | block (hash : Hash256)
  | blocks (hashes : List Hash256)
  | scan (coins : Option Scan)
  /-- What was left of a batch, and why it was not taken. -/
  | left (entries : Entries) (failure : Option Failure)
  | sight (seen : Sight)
  | entry (o : OutPoint) (found : Option Entry)
  | stats (counts : Cache.Stats)
  | budget (budget : Budget)
  | undo (undo : Undo)
  | calls (callers : List Nat)

namespace Layers

variable {ρ : Type} [Backing ρ]

/-- The cache at a depth, if the layer there is one. -/
def cacheAt? : Nat → Layers ρ → Option Cache
  | depth + 1, _ :: below => cacheAt? depth below
  | 0, .cached _ cache :: _ => some cache
  | _, _ => none

/-- An operation that only caches have. -/
def ifCache {α : Type} (op : Nat → Layers ρ → Outcome (Layers ρ) α) (depth : Nat) (layers : Layers ρ) :
    Outcome (Layers ρ) α :=
  if (cacheAt? depth layers).isSome then op depth layers else .failed .unsupported layers

def ask {α : Type} (question : Cache → α) (depth : Nat) (layers : Layers ρ) : Outcome (Layers ρ) α :=
  match cacheAt? depth layers with
  | some cache => .done (question cache) layers
  | none => .failed .unsupported layers

/-- Hands over a batch, and answers with what is left of it. -/
def writeReply (batch : Entries) (block : Hash256) (depth : Nat) (layers : Layers ρ) :
    Outcome (Layers ρ) Reply :=
  let written := write batch block depth layers
  let failure := match written.result with
    | .ok () => none
    | .error why => some why
  ⟨.ok (.left written.state.1 failure), written.state.2, written.events⟩

/-- Carries out a request at the layer of the given depth. -/
def perform (request : Request) (depth : Nat) (layers : Layers ρ) : Outcome (Layers ρ) Reply :=
  match request with
  | .read o => (read o depth layers).map .coin
  | .holds o => (holds o depth layers).map .truth
  | .tip => .done (.block (tip depth layers).1) (tip depth layers).2
  | .heads => .done (.blocks (heads depth layers)) layers
  | .write batch block => writeReply batch block depth layers
  | .scan => .done (.scan (scan depth layers)) layers
  | .sizeEstimate => .done (.number (sizeEstimate depth layers)) layers
  | .rebase skip => (rebase skip depth layers).map fun _ => .nothing
  | .sight o => (ifCache (sight o) depth layers).map .sight
  | .cached o => (ask (·.holds o) depth layers).map .truth
  | .add o coin mayOverwrite => (add o coin mayOverwrite depth layers).map fun _ => .nothing
  | .spend o => (ifCache (spend o) depth layers).map .coin
  | .uncache o => (onCache (fun cache => .done () (cache.uncache o)) depth layers).map fun _ => .nothing
  | .merge batch block => ifCache (writeReply batch block) depth layers
  | .flush => (flush depth layers).map fun _ => .nothing
  | .setTip block =>
    (onCache (fun cache => .done () { cache with tip := some block }) depth layers).map fun _ => .nothing
  | .memoryUsage => (ask (·.memoryUsage) depth layers).map .number
  | .size => (ask (·.entries.size) depth layers).map .number
  | .entry o => (ask (·.entries[o]?) depth layers).map (.entry o)
  | .stats => (ask (·.stats) depth layers).map .stats
  | .check => (onCache (·.check) depth layers).map .truth
  | .budget => (ask (·.budget) depth layers).map .budget
  | .addOutputs tx height checks =>
    (ifCache (addOutputs tx height checks) depth layers).map fun _ => .nothing
  | .hasInputs tx => (ifCache (hasInputs tx) depth layers).map .truth
  | .firstUnspent txid => (ifCache (firstUnspent txid) depth layers).map .sight
  | .spendInputs tx => (ifCache (spendInputs tx) depth layers).map .undo
  | .apply tx height => (ifCache (apply tx height) depth layers).map .undo
  | .register => (onGuard (fun guard => ((), guard.register)) depth layers).map fun _ => .nothing
  | .calls => (onGuard (fun guard => (guard.calls, guard)) depth layers).map .calls

end Layers

end CoinLayers
