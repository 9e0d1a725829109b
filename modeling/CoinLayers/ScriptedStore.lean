import CoinLayers.MemoryStore

/-!
A store that fails by plan: some reads fail, some coins read as spent, and some batches are refused or
taken in part. It counts the reads and keeps the batches that it took, so that one can see what the
layers above ask of it.
-/
namespace CoinLayers

/-- A batch that is refused: why, which of its entries are written all the same, and what the batch is
    replaced by, if not by the rest of it. -/
structure Refusal where
  cause : Fault
  applied : List OutPoint
  replacement : Option Entries

/-- Coins in memory, the reads that fail, the outpoints that read as spent (or all of them), what becomes
    of the next batches, the batches taken so far with their dirty entries, and the number of reads. -/
structure ScriptedStore where
  memory : MemoryStore
  unreadable : List (OutPoint × Fault)
  spentPlaces : List OutPoint
  allSpent : Bool
  plan : List (Option Refusal)
  batches : List (List (OutPoint × Entry))
  reads : Nat

namespace ScriptedStore

def answer (store : ScriptedStore) (o : OutPoint) : Except Fault (Option Coin) :=
  match store.unreadable.find? fun (place, _) => place = o with
  | some (_, fault) => .error fault
  | none => .ok (if store.allSpent || store.spentPlaces.contains o then some .spent else store.memory.coin? o)

/-- Takes a batch as planned, and records its dirty entries. -/
def accept (batch : Entries) (tip : Hash256) (store : ScriptedStore) : Written ScriptedStore :=
  let written := MemoryStore.write batch tip store.memory
  ⟨written.result, written.left,
    { store with memory := written.store, batches := store.batches ++ [batch.dirtyList] }, written.events⟩

/-- Refuses a batch. The entries to be applied are written as a batch of their own, at the block that the
    coins stand at; without any, nothing is written. -/
def refuse (refusal : Refusal) (batch : Entries) (store : ScriptedStore) : Written ScriptedStore :=
  let applied := batch.filter fun o _ => refusal.applied.contains o
  let left := refusal.replacement.getD (batch.filter fun o _ => !refusal.applied.contains o)
  if applied.isEmpty then ⟨.error refusal.cause, left, store, []⟩
  else
    let written := MemoryStore.write applied store.memory.tip store.memory
    ⟨.error refusal.cause, left, { store with memory := written.store }, written.events⟩

/-- Does with a batch what the plan says; a plan that has run out lets everything pass. -/
def write (batch : Entries) (tip : Hash256) (store : ScriptedStore) : Written ScriptedStore :=
  match store.plan with
  | some refusal :: plan => { store with plan }.refuse refusal batch
  | none :: plan => { store with plan }.accept batch tip
  | [] => store.accept batch tip

instance : Backing ScriptedStore where
  read o store := (store.answer o, { store with reads := store.reads + 1 })
  tip store := (store.memory.tip, store)
  write := write

end ScriptedStore

end CoinLayers
