import Mathlib.Data.Set.Card
import CoinLayers.Proofs.ByteOrder
import CoinLayers.Proofs.StoreView

/-!
A store in memory as the sum of all that was done to it.

What is in the store can be told without its coins being sorted, or kept at all: of each outpoint by what was last done
there (`Contents`). Every act on the store does the same to its contents (`contents_act`), so that a store is known by its
history, whatever the order in which the entries of the batches were drained (`contents_after`). It holds unspent coins
only, so that all ways to ask for one agree, and it lists them in the order of their outpoints (`Keeps`).
-/
namespace CoinLayers.MemoryStore

variable {store : MemoryStore} {o : OutPoint} {coin : Coin} {batch : Entries} {drained : List (OutPoint × Entry)}
  {tip : Hash256}

/-- What is done to a store. The entries of a batch come in the order in which they are drained. -/
inductive Act where
  | insert (o : OutPoint) (coin : Coin)
  | setTip (tip : Hash256)
  | setHeads (new old : Hash256)
  | write (batch : Entries) (drained : List (OutPoint × Entry)) (tip : Hash256)

namespace Act

/-- Coins that are put in past all batches are unspent, and a batch is drained of all its entries, each once. -/
def Fair : Act → Prop
  | insert _ coin => coin.isSpent = false
  | write batch drained _ => drained.Perm batch.toList
  | _ => True

def isWrite : Act → Bool
  | write .. => true
  | _ => false

def marksHeads : Act → Bool
  | setHeads .. => true
  | _ => false

end Act

/-- The store after an act. -/
def act (store : MemoryStore) : Act → MemoryStore
  | .insert o coin => store.insert o coin
  | .setTip tip => store.setTip tip
  | .setHeads new old => store.setHeads new old
  | .write _ drained tip => store.take drained tip

/-- The store that some acts, one after the other, have made of an empty one. -/
def after (acts : List Act) : MemoryStore :=
  acts.foldl act .empty

/-- What is in a store, apart from the way in which it is kept. -/
structure Contents where
  coin : OutPoint → Option Coin
  tip : Hash256
  heads : List Hash256

namespace Contents

def none : Contents := ⟨fun _ => .none, .zero, []⟩

/-- The contents after an act. Of a batch only dirty entries count: the coin of one is there from now on if it is unspent,
    and nothing if it is spent. -/
def act (contents : Contents) : Act → Contents
  | .insert o coin => { contents with coin := fun p => if p = o then some coin else contents.coin p }
  | .setTip tip => { contents with tip }
  | .setHeads new old => { contents with heads := [new, old] }
  | .write batch _ tip =>
    let coin (o : OutPoint) : Option Coin :=
      match batch[o]? with
      | some entry =>
        if entry.isDirty then if entry.coin.isSpent then .none else some entry.coin else contents.coin o
      | .none => contents.coin o
    ⟨coin, tip, []⟩

end Contents

def contents (store : MemoryStore) : Contents :=
  ⟨store.coin?, store.tip, store.heads⟩

/-! ### One act -/

theorem distinct_of_drained (fair : drained.Perm batch.toList) : (drained.map (·.1)).Nodup := by
  rw [(fair.map _).nodup_iff, Std.ExtTreeMap.map_fst_toList_eq_keys]
  exact Std.ExtTreeMap.nodup_keys

theorem coin?_take (fair : drained.Perm batch.toList) :
    (store.take drained tip).coin? o = batch.patch (fun o => store.coin? o) o :=
  getElem?_foldl_settle (distinct_of_drained fair) fun _ _ =>
    fair.mem_iff.trans Std.ExtTreeMap.mem_toList_iff_getElem?_eq_some

/-- A batch comes to the same in whatever order it is drained. -/
theorem take_eq_write (fair : drained.Perm batch.toList) :
    store.take drained tip = (MemoryStore.write batch tip store).store := by
  have coins : (store.take drained tip).coins = (MemoryStore.write batch tip store).store.coins := by
    apply Std.ExtTreeMap.ext_getElem?
    intro o
    exact (coin?_take fair).trans getElem?_write.symm
  exact congrArg (fun coins => MemoryStore.mk coins tip [] (store.batches + 1)) coins

/-- So do the counts of it. -/
theorem events_write (fair : drained.Perm batch.toList) : (MemoryStore.write batch tip store).events =
    [.stored (writtenCount drained) (store.erasedCount drained) (store.take drained tip).size tip] := by
  rw [take_eq_write fair, writtenCount, erasedCount, fair.countP_eq, fair.countP_eq]
  rfl

theorem contents_act {act : Act} (fair : act.Fair) : (store.act act).contents = store.contents.act act := by
  cases act with
  | setTip | setHeads => rfl
  | insert o coin =>
    have coins : (store.insert o coin).coin? = fun p => if p = o then some coin else store.coin? p :=
      funext fun _ => Entries.getElem?_insert_ite
    rw [MemoryStore.act, contents, coins]
    rfl
  | write batch drained tip =>
    have coins : (store.take drained tip).coin? = (store.contents.act (.write batch drained tip)).coin :=
      funext fun _ => coin?_take fair
    rw [MemoryStore.act, contents, coins]
    rfl

theorem Unspent.act {act : Act} (unspent : store.Unspent) (fair : act.Fair) : (store.act act).Unspent := by
  cases act with
  | setTip | setHeads => exact unspent
  | insert o coin => exact unspent.insert fair
  | write batch drained tip =>
    rw [MemoryStore.act, take_eq_write fair]
    exact unspent.write

theorem batches_act {act : Act} : (store.act act).batches = store.batches + if act.isWrite then 1 else 0 := by
  cases act <;> rfl

/-! ### A history -/

variable {acts : List Act}

theorem after_concat {act : Act} : after (acts ++ [act]) = (after acts).act act := by
  rw [after, List.foldl_append]
  rfl

/-- The contents of a store are what its history says. -/
theorem contents_after (fair : ∀ act ∈ acts, act.Fair) : (after acts).contents = acts.foldl Contents.act .none := by
  induction acts using List.reverseRecOn with
  | nil => rfl
  | append_singleton acts act ih =>
    rw [List.forall_mem_append, List.forall_mem_singleton] at fair
    rw [after_concat, contents_act fair.2, ih fair.1, List.foldl_append]
    rfl

theorem unspent_after (fair : ∀ act ∈ acts, act.Fair) : (after acts).Unspent := by
  induction acts using List.reverseRecOn with
  | nil => exact unspent_empty
  | append_singleton acts act ih =>
    rw [List.forall_mem_append, List.forall_mem_singleton] at fair
    rw [after_concat]
    exact (ih fair.1).act fair.2

theorem batches_after : (after acts).batches = acts.countP Act.isWrite := by
  induction acts using List.reverseRecOn with
  | nil => rfl
  | append_singleton acts act ih => rw [after_concat, batches_act, ih, List.countP_append, List.countP_singleton]

/-- After a batch the store is in no interrupted write, unless it is said to be in one again. -/
theorem heads_after_write {early late : List Act} (last : ∀ act ∈ late, act.marksHeads = false) :
    (after (early ++ .write batch drained tip :: late)).heads = [] := by
  induction late using List.reverseRecOn with
  | nil =>
    rw [after_concat]
    rfl
  | append_singleton late act ih =>
    rw [List.forall_mem_append, List.forall_mem_singleton] at last
    rw [← List.cons_append, ← List.append_assoc, after_concat]
    cases act with
    | setHeads => cases last.2
    | write => rfl
    | insert | setTip => exact ih last.1

/-! ### Asking -/

theorem contains_eq : store.contains o = (store.coin? o).isSome :=
  Std.ExtTreeMap.contains_eq_isSome_getElem?

/-- Where only unspent coins are stored, one that is there is unspent. -/
theorem Unspent.contains_eq (unspent : store.Unspent) : store.contains o = showsUnspent (store.coin? o) := by
  rw [MemoryStore.contains_eq]
  cases found : store.coin? o with
  | none => rfl
  | some coin => simp [showsUnspent, unspent o coin found]

theorem ncard_eq_size : {o | store.contains o = true}.ncard = store.size := by
  have listed : {o | store.contains o = true} = (store.coins.keys.toFinset : Set OutPoint) := by
    ext o
    simp [contains]
  rw [listed, Set.ncard_coe_finset, List.toFinset_card_of_nodup Std.ExtTreeMap.nodup_keys, Std.ExtTreeMap.length_keys]
  rfl

/-- What there is to say of a store after its history. -/
structure Keeps (acts : List Act) (store : MemoryStore) : Prop where
  contents : store.contents = acts.foldl Contents.act .none
  /-- The next batch is taken whole, and it does not matter in which order its entries are drained. -/
  takes : ∀ batch drained tip, drained.Perm batch.toList →
    (Backing.write batch tip store).result = .ok () ∧ (Backing.write batch tip store).left = ∅ ∧
      (Backing.write batch tip store).store = store.act (.write batch drained tip) ∧
      (Backing.write batch tip store).events =
        [.stored (writtenCount drained) (store.erasedCount drained) (store.take drained tip).size tip]
  unspent : ∀ o coin, store.coin? o = some coin → coin.isSpent = false
  /-- All ways to ask for a coin agree, and to ask changes nothing. -/
  asked : ∀ o, Backing.read o store = (.ok (store.coin? o), store) ∧
    Backing.holds o store = (.ok (showsUnspent (store.coin? o)), store) ∧
    store.contains o = showsUnspent (store.coin? o) ∧ store.contains o = (store.coin? o).isSome
  size : store.size = {o | (store.coin? o).isSome = true}.ncard ∧ (store.isEmpty = true ↔ store.size = 0)
  /-- The coins are listed in the order of their outpoints, each once. -/
  listed : ∃ coins, Backing.scan store = some ⟨store.tip, coins⟩ ∧
    (∀ o coin, (o, coin) ∈ coins ↔ store.coin? o = some coin) ∧ coins.Pairwise fun a b => a.1.Before b.1
  heads : ∀ early batch drained tip late, acts = early ++ .write batch drained tip :: late →
    (∀ act ∈ late, act.marksHeads = false) → Backing.heads store = []
  batches : store.batches = acts.countP Act.isWrite

/-- A store in memory is the fold of its batches, and of what was put in past them. -/
theorem batches_kept (fair : ∀ act ∈ acts, act.Fair) : Keeps acts (after acts) where
  contents := contents_after fair
  takes _ _ _ fair := ⟨rfl, rfl, (take_eq_write fair).symm, events_write fair⟩
  unspent := unspent_after fair
  asked o := by
    have contained : (after acts).contains o = showsUnspent ((after acts).coin? o) := (unspent_after fair).contains_eq
    exact ⟨rfl, congrArg (fun held => (Except.ok held, after acts)) contained, contained, contains_eq⟩
  size := by
    refine ⟨?_, ?_⟩
    · simp only [← contains_eq, ncard_eq_size]
    · exact Std.ExtTreeMap.isEmpty_iff.trans Std.ExtTreeMap.eq_empty_iff_size_eq_zero
  listed := by
    refine ⟨(after acts).coins.toList, rfl, fun o coin => Std.ExtTreeMap.mem_toList_iff_getElem?_eq_some, ?_⟩
    exact Std.ExtTreeMap.ordered_keys_toList.imp OutPoint.compare_eq_lt.mp
  heads := by
    rintro early batch drained tip late rfl last
    exact heads_after_write last
  batches := batches_after

/-- A coin is put in twice. Then a batch that spends it and brings two others is drained from its end, while the store is
    caught in a write, and a batch follows that has nothing to change. -/
def twoBatches : List Act :=
  let coin (amount : UInt64) : Coin := ⟨amount, 1, false, .empty, false⟩
  let first : OutPoint := ⟨⟨1⟩, 7⟩
  let second : OutPoint := ⟨⟨256⟩, 0⟩
  let third : OutPoint := ⟨⟨1⟩, 300⟩
  let batch : Entries := ((∅ : Entries).insert first ⟨.spent, ⟨true, false⟩⟩).insert second ⟨coin 20, ⟨true, true⟩⟩
  let whole : Entries := batch.insert third ⟨coin 30, ⟨true, false⟩⟩
  let idle : Entries := ((∅ : Entries).insert second (.clean (coin 99))).insert first ⟨.spent, ⟨true, true⟩⟩
  [.insert first (coin 5), .insert first (coin 6), .setHeads ⟨2⟩ .zero, .write whole whole.toList.reverse ⟨2⟩,
    .write idle idle.toList ⟨3⟩, .setTip ⟨4⟩]

/-- The two coins are there, the one of the lesser hash first. -/
theorem twoBatches_kept :
    (∀ act ∈ twoBatches, act.Fair) ∧ Keeps twoBatches (after twoBatches) ∧
    (Backing.scan (after twoBatches)).map (fun scan => (scan.tip, scan.coins.map fun (o, coin) => (o, coin.amount))) =
      some (⟨4⟩, [(⟨⟨1⟩, 300⟩, 30), (⟨⟨256⟩, 0⟩, 20)]) := by
  have fair : ∀ act ∈ twoBatches, act.Fair := by
    simp only [twoBatches, List.forall_mem_cons]
    exact ⟨rfl, rfl, trivial, List.reverse_perm _, .refl _, trivial, nofun⟩
  exact ⟨fair, batches_kept fair, by decide⟩

end CoinLayers.MemoryStore
