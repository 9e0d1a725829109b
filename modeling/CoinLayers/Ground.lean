import CoinLayers.ScriptedStore

/-!
The stores that layers can stand on, as one type. Each answers in its own way.
-/
namespace CoinLayers

/-- A store of one of the three kinds. -/
inductive Ground where
  | empty (store : EmptyStore)
  | memory (store : MemoryStore)
  | scripted (store : ScriptedStore)

namespace Ground

/-- The end of a write with the store in another form. -/
def wrap {σ : Type} (form : σ → Ground) (written : Written σ) : Written Ground :=
  ⟨written.result, written.left, form written.store, written.events⟩

instance : Backing Ground where
  read o
    | .empty store => (Backing.read o store).map id .empty
    | .memory store => (Backing.read o store).map id .memory
    | .scripted store => (Backing.read o store).map id .scripted
  holds o
    | .empty store => (Backing.holds o store).map id .empty
    | .memory store => (Backing.holds o store).map id .memory
    | .scripted store => (Backing.holds o store).map id .scripted
  tip
    | .empty store => (Backing.tip store).map id .empty
    | .memory store => (Backing.tip store).map id .memory
    | .scripted store => (Backing.tip store).map id .scripted
  heads
    | .empty store => Backing.heads store
    | .memory store => Backing.heads store
    | .scripted store => Backing.heads store
  write batch tip
    | .empty store => wrap .empty (Backing.write batch tip store)
    | .memory store => wrap .memory (Backing.write batch tip store)
    | .scripted store => wrap .scripted (Backing.write batch tip store)
  scan
    | .empty store => Backing.scan store
    | .memory store => Backing.scan store
    | .scripted store => Backing.scan store
  sizeEstimate
    | .empty store => Backing.sizeEstimate store
    | .memory store => Backing.sizeEstimate store
    | .scripted store => Backing.sizeEstimate store

end Ground

end CoinLayers
