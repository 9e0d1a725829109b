import CoinLayers.MemoryStore
import CoinLayers.Proofs.Overlay

/-!
What a write does to a store in memory: at each outpoint it leaves what the batch says (`getElem?_write`),
whatever the order in which the entries are taken (`getElem?_foldl_settle`).
-/
namespace CoinLayers.MemoryStore

variable {store : MemoryStore} {o : OutPoint} {batch : Entries} {tip : Hash256}

/-- Only unspent coins are stored. -/
def Unspent (store : MemoryStore) : Prop :=
  ∀ (o : OutPoint) (coin : Coin), store.coins[o]? = some coin → coin.isSpent = false

theorem settle_other {coins : Std.ExtTreeMap OutPoint Coin} {place : OutPoint × Entry} (different : o ≠ place.1) :
    (settle coins place)[o]? = coins[o]? := by
  rw [settle]
  split
  · rfl
  · split
    · rw [Entries.getElem?_erase_ite, if_neg different]
    · rw [Entries.getElem?_insert_ite, if_neg different]

theorem settle_self {coins : Std.ExtTreeMap OutPoint Coin} {entry : Entry} :
    (settle coins (o, entry))[o]? = if entry.isDirty then entry.coin.unspent? else coins[o]? := by
  rw [settle]
  cases entry.isDirty with
  | false => simp
  | true =>
    cases spent : entry.coin.isSpent with
    | true => simp [Coin.unspent?, spent]
    | false => simp [Coin.unspent?, spent]

theorem foldl_settle_other {coins : Std.ExtTreeMap OutPoint Coin} {entries : List (OutPoint × Entry)}
    (missing : ∀ place ∈ entries, o ≠ place.1) : (entries.foldl settle coins)[o]? = coins[o]? := by
  induction entries generalizing coins with
  | nil => rfl
  | cons place rest ih =>
    rw [List.foldl_cons, ih fun other member => missing other (List.mem_cons_of_mem _ member),
      settle_other (missing place List.mem_cons_self)]

/-- The entries of a batch, taken in any order, decide about their own outpoints and no others. -/
theorem getElem?_foldl_settle {coins : Std.ExtTreeMap OutPoint Coin} {entries : List (OutPoint × Entry)}
    (distinct : (entries.map (·.1)).Nodup) (listed : ∀ p entry, (p, entry) ∈ entries ↔ batch[p]? = some entry) :
    (entries.foldl settle coins)[o]? = batch.patch (fun o => coins[o]?) o := by
  cases found : batch[o]? with
  | none =>
    rw [Entries.patch_of_none found]
    apply foldl_settle_other
    rintro ⟨p, entry⟩ member rfl
    rw [(listed o entry).mp member] at found
    cases found
  | some entry =>
    obtain ⟨before, after, rfl⟩ := List.append_of_mem ((listed o entry).mpr found)
    rw [List.map_append, List.map_cons, List.nodup_append] at distinct
    obtain ⟨_, fromHere, apart⟩ := distinct
    have notBefore : ∀ place ∈ before, o ≠ place.1 := fun place member same =>
      apart place.1 (List.mem_map_of_mem member) o List.mem_cons_self same.symm
    have notAfter : ∀ place ∈ after, o ≠ place.1 := fun place member same =>
      (List.nodup_cons.mp fromHere).1 (List.mem_map.mpr ⟨place, member, same.symm⟩)
    rw [List.foldl_append, List.foldl_cons, foldl_settle_other notAfter, settle_self,
      foldl_settle_other notBefore, Entries.patch, found]

theorem getElem?_write :
    (MemoryStore.write batch tip store).store.coins[o]? = batch.patch (fun o => store.coins[o]?) o := by
  refine getElem?_foldl_settle ?_ fun p entry => Std.ExtTreeMap.mem_toList_iff_getElem?_eq_some
  rw [Std.ExtTreeMap.map_fst_toList_eq_keys]
  exact Std.ExtTreeMap.nodup_keys

/-- A write stores unspent coins only. -/
theorem Unspent.write (unspent : store.Unspent) : (MemoryStore.write batch tip store).store.Unspent := by
  intro o coin found
  rw [getElem?_write, Entries.patch] at found
  split at found
  · split at found
    · next entry _ _ =>
      rw [Coin.unspent?] at found
      split at found
      · cases found
      · next there =>
        rw [← Option.some.inj found]
        simpa using there
    · exact unspent o coin found
  · exact unspent o coin found

theorem unspent_empty : MemoryStore.empty.Unspent := by
  intro o coin found
  cases found

theorem Unspent.insert {coin : Coin} (unspent : store.Unspent) (new : coin.isSpent = false) :
    (store.insert o coin).Unspent := by
  intro p other found
  rw [MemoryStore.insert, Entries.getElem?_insert_ite] at found
  split at found
  · cases found
    exact new
  · exact unspent p other found

/-- A store with one coin. -/
def oneCoin : MemoryStore := MemoryStore.empty.insert ⟨.zero, 0⟩ ⟨5, 1, false, .empty, false⟩

theorem unspent_oneCoin : oneCoin.Unspent :=
  unspent_empty.insert rfl

end CoinLayers.MemoryStore
