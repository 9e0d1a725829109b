import CoinLayers.Cache

/-!
Merging: a cache takes the batch of the cache above it.

What becomes of an outpoint hangs only on the two entries for it. A fresh entry of the batch over an
unspent coin breaks the rule on which fresh entries rest; the merge stops there, and leaves in the
batch that entry and all that it has not come to.
-/
namespace CoinLayers

/-- What an entry of a batch does to the receiving cache. -/
inductive MergeStep where
  /-- It has no change to hand on. -/
  | idle
  /-- It calls a coin fresh that the cache holds unspent. -/
  | clash
  /-- It is spent and fresh, and the cache knows nothing of the coin: there is nothing to record. -/
  | vanish
  /-- It spends a coin whose entry is fresh in the cache: that entry goes. -/
  | erase
  /-- It becomes the cache's entry, in the form given. -/
  | keep (entry : Entry)
  deriving DecidableEq

/-- The step for an outpoint, from the cache's own entry and the entry of the batch. A new entry is fresh
    if the batch says so; an old one never becomes fresh, as a spend that it stands for may still have to
    reach the layer below. -/
def MergeStep.of (old : Option Entry) (new : Entry) : MergeStep :=
  if !new.isDirty then .idle
  else
    match old with
    | none => if new.isFresh && new.coin.isSpent then .vanish else .keep ⟨new.coin, ⟨true, new.isFresh⟩⟩
    | some old =>
      if new.isFresh && !old.coin.isSpent then .clash
      else if old.isFresh && new.coin.isSpent then .erase
      else .keep ⟨new.coin, { old.flags with dirty := true }⟩

/-- A merge under way: the cache as it is, what is left of the batch, and how many entries were kept and
    how many dropped. -/
structure Merging where
  cache : Cache
  left : Entries
  kept : Nat
  dropped : Nat

namespace Merging

/-- Merges the entries for the given outpoints one after the other. -/
def run (merging : Merging) : List OutPoint → Outcome Merging Unit
  | [] => .done () merging
  | o :: rest =>
    match merging.left[o]? with
    | none => run merging rest
    | some entry =>
      let taken := { merging with left := merging.left.erase o }
      match MergeStep.of merging.cache.entries[o]? entry with
      | .idle => run taken rest
      | .clash => ⟨.error (.fault (.freshMisapplied o)), merging, [.freshMisapplied o]⟩
      | .vanish => run { taken with dropped := merging.dropped + 1 } rest
      | .erase =>
        (run { taken with cache := merging.cache.erase o, dropped := merging.dropped + 1 } rest).after
          [.spentFreshDropped o]
      | .keep kept =>
        run { taken with cache := (merging.cache.put o kept).touch o, kept := merging.kept + 1 } rest

end Merging

namespace Cache

/-- Merges a batch that leads to the given block, taking its outpoints in the order given. -/
def mergeInOrder (order : List OutPoint) (batch : Entries) (tip : Hash256) (cache : Cache) :
    Outcome (Entries × Cache) Unit :=
  let merged := Merging.run ⟨cache, batch, 0, 0⟩ order
  match merged.result with
  | .error why => ⟨.error why, (merged.state.left, merged.state.cache), merged.events⟩
  | .ok () =>
    ⟨.ok (), (merged.state.left, { merged.state.cache with tip := some tip }),
      merged.events ++ [.merged merged.state.kept merged.state.dropped tip]⟩

/-- The order in which a batch comes to the cache. -/
def drained (cache : Cache) (batch : Entries) : List OutPoint :=
  cache.draining.order cache.recency batch

theorem drained_perm {cache : Cache} {batch : Entries} : (cache.drained batch).Perm batch.keys :=
  cache.draining.enumerates cache.recency batch

theorem mem_drained {cache : Cache} {batch : Entries} {o : OutPoint} : o ∈ cache.drained batch ↔ o ∈ batch :=
  drained_perm.mem_iff.trans Std.ExtTreeMap.mem_keys

/-- Merges a batch that leads to the given block, in the order in which it comes. -/
def merge (batch : Entries) (tip : Hash256) (cache : Cache) : Outcome (Entries × Cache) Unit :=
  cache.mergeInOrder (cache.drained batch) batch tip

end Cache

end CoinLayers
