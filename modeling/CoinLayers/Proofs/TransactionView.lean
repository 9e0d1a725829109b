import CoinLayers.Proofs.Course
import CoinLayers.Proofs.PlainMap

/-!
What it does to a view to apply a transaction at the cache on top of a stack.

The check of the inputs changes nothing that can be seen, and what it lets pass can be spent: the record of the
spends names each input once, with its coin in the view before (`checkSources_serves`, `spendSources_serves`). The
outputs then show up, as far as they can ever be spent (`addOutputsFrom_serves`). Nothing of this fails but the
check (`apply_serves`). All that is used of the hash of a transaction is that it is one.
-/
namespace CoinLayers

/-- An answer shows an unspent coin if it is that coin. -/
theorem unspentIn_eq_some {answer : Except Failure (Option Coin)} {coin : Coin} :
    unspentIn answer = some coin ↔ answer = .ok (some coin) ∧ coin.isSpent = false := by
  cases answer with
  | error why => simp [unspentIn]
  | ok answer =>
    cases answer with
    | none => simp [unspentIn]
    | some found =>
      simp only [unspentIn, Coin.unspent?, Except.ok.injEq, Option.some.injEq]
      cases spent : found.isSpent with
      | true =>
        simp only [if_true, reduceCtorEq, false_iff]
        rintro ⟨rfl, unspent⟩
        rw [spent] at unspent
        cases unspent
      | false =>
        simp only [Bool.false_eq_true, if_false, Option.some.injEq]
        exact ⟨fun same => ⟨same, same ▸ spent⟩, fun both => both.1⟩

namespace Shown

/-- A view after the coins at some outpoints were spent. -/
def spendAll (view : Shown) (places : List OutPoint) : Shown :=
  places.foldl spend view

/-- A view after some outputs were added, the first of them under the given number. -/
def addOutputs (txid : Hash256) (height : UInt32) (isCoinbase : Bool) (view : Shown) : Nat → List Output → Shown
  | _, [] => view
  | number, output :: rest =>
    addOutputs txid height isCoinbase
      (view.add (Transaction.place txid number) (.ofOutput output height isCoinbase) isCoinbase) (number + 1) rest

variable {view : Shown} {places : List OutPoint} {o : OutPoint} {coin : Coin}

theorem spendAll_apply : view.spendAll places o = if o ∈ places then none else view o := by
  induction places generalizing view with
  | nil => simp [spendAll]
  | cons p rest ih =>
    rw [spendAll, List.foldl_cons, ← spendAll, ih, spend]
    by_cases same : o = p
    · simp [same]
    · simp [same]

theorem add_other {mayOverwrite : Bool} {p : OutPoint} (different : p ≠ o) : view.add o coin mayOverwrite p = view p :=
  if_neg fun both => different both.1

theorem addOutputs_other {txid : Hash256} {height : UInt32} {isCoinbase : Bool} {number : Nat} {outputs : List Output}
    (apart : ∀ i < outputs.length, o ≠ Transaction.place txid (number + i)) :
    view.addOutputs txid height isCoinbase number outputs o = view o := by
  induction outputs generalizing view number with
  | nil => rfl
  | cons output rest ih =>
    rw [addOutputs, ih, add_other]
    · simpa using apart 0 (Nat.succ_pos _)
    · intro i inside
      rw [Nat.add_right_comm]
      exact apart (i + 1) (Nat.succ_lt_succ inside)

/-- No coin is shown that can never be spent. -/
def Spendable (view : Shown) : Prop :=
  ∀ (o : OutPoint) (coin : Coin), view o = some coin → coin.isUnspendable = false

theorem Spendable.spendAll (spendable : view.Spendable) : (view.spendAll places).Spendable := by
  intro o coin seen
  rw [spendAll_apply] at seen
  split at seen
  · cases seen
  · exact spendable o coin seen

theorem Spendable.add {mayOverwrite : Bool} (spendable : view.Spendable) : (view.add o coin mayOverwrite).Spendable := by
  intro p other seen
  rw [Shown.add] at seen
  split at seen
  · next added =>
    rw [Coin.unspent?] at seen
    split at seen
    · cases seen
    · cases seen
      exact added.2.1
  · exact spendable p other seen

theorem Spendable.addOutputs {txid : Hash256} {height : UInt32} {isCoinbase : Bool} {number : Nat}
    {outputs : List Output} (spendable : view.Spendable) :
    (view.addOutputs txid height isCoinbase number outputs).Spendable := by
  induction outputs generalizing view number with
  | nil => exact spendable
  | cons output rest ih => exact ih spendable.add

end Shown

namespace Transaction

variable {tx : Transaction} {txid : Hash256} {number other : Nat}

/-- The outpoints of the outputs of a transaction. -/
def places (tx : Transaction) : List OutPoint :=
  (List.range tx.outputs.length).map (place tx.txid)

/-- The outpoints whose coins are spent: none by a coinbase transaction. -/
def spent (tx : Transaction) : List OutPoint :=
  if tx.isCoinbase then [] else tx.sources

theorem place_injective (few : number < UInt32.size) (alsoFew : other < UInt32.size)
    (same : place txid number = place txid other) : number = other := by
  have words : (UInt32.ofNat number).toNat = (UInt32.ofNat other).toNat := by
    simp only [place, OutPoint.mk.injEq, true_and] at same
    rw [same]
  rwa [UInt32.toNat_ofNat', UInt32.toNat_ofNat', Nat.mod_eq_of_lt few, Nat.mod_eq_of_lt alsoFew] at words

end Transaction

namespace Layers

variable {ρ : Type} [Backing ρ] {Proper : ρ → Prop} {layers before after : Layers ρ} {view : Shown} {o : OutPoint}
  {coin : Coin}

theorem shows_unspent (seen : shows layers o = some coin) : coin.isSpent = false :=
  (unspentIn_eq_some.mp seen).2

omit [Backing ρ] in
theorem isSome_cacheAt?_onCache {α : Type} {change : Cache → Outcome Cache α} {place depth : Nat} :
    (cacheAt? place (onCache change depth layers).state).isSome = (cacheAt? place layers).isSome := by
  induction layers generalizing place depth with
  | nil => cases depth <;> rfl
  | cons layer below ih =>
    cases depth with
    | succ depth =>
      cases place with
      | zero => cases layer <;> rfl
      | succ place => exact ih
    | zero =>
      cases layer with
      | root | relay | guarded => rfl
      | cached skip cache => cases place <;> rfl

/-- A stack with a cache at the top and sound flags, that shows a view. -/
structure Serves (Proper : ρ → Prop) (layers : Layers ρ) (view : Shown) : Prop extends Stands Proper layers view where
  top : (cacheAt? 0 layers).isSome = true

namespace Serves

theorem unspent (serves : Serves Proper layers view) (seen : view o = some coin) : coin.isSpent = false := by
  rw [← serves.shows] at seen
  exact shows_unspent seen

theorem quiet {Left : Entries → Entries → Prop} {looked : Nat → List OutPoint} (serves : Serves Proper before view)
    (quiet : Quiet Proper before after) (moves : Moves Left looked before after) : Serves Proper after view := by
  obtain ⟨cache, top⟩ := Option.isSome_iff_exists.mp serves.top
  obtain ⟨later, still, _⟩ := moves 0 cache top
  exact ⟨quiet.stands serves.toStands, Option.isSome_iff_exists.mpr ⟨later, still⟩⟩

/-- The question for an unspent coin is answered from the view, and changes nothing. -/
theorem holds (laws : Dependable Proper) (serves : Serves Proper layers view) (o : OutPoint) :
    (holds o 0 layers).result = .ok (view o).isSome ∧ Serves Proper (holds o 0 layers).state view := by
  have moves : Moves (fun _ _ => True) _ layers (Layers.holds o 0 layers).state := moves_holds o 0 layers
  refine ⟨?_, serves.quiet (holds_quiet laws.toSteady serves.stack serves.sound o 0) moves⟩
  rw [holds_answers laws serves.stack, List.drop_zero, serves.shows]

theorem spend (laws : Dependable Proper) (serves : Serves Proper layers view) (o : OutPoint) :
    (∃ found, (spend o 0 layers).result = .ok found ∧ unspentIn (.ok found) = view o) ∧
      Serves Proper (spend o 0 layers).state (view.spend o) := by
  obtain ⟨cache, top⟩ := Option.isSome_iff_exists.mp serves.top
  obtain ⟨told, stands⟩ := spend_stands laws serves.stack serves.sound o top uncovered_zero
  rw [serves.shows] at told stands
  have moves : Moves (fun _ _ => True) _ layers (Layers.spend o 0 layers).state := moves_spend o 0 layers
  obtain ⟨later, still, _⟩ := moves 0 cache top
  exact ⟨told, stands, Option.isSome_iff_exists.mpr ⟨later, still⟩⟩

theorem add {mayOverwrite : Bool} (serves : Serves Proper layers view) (o : OutPoint) (coin : Coin)
    (free : mayOverwrite = true ∨ view o = none) :
    (add o coin mayOverwrite 0 layers).result = .ok () ∧
      Serves Proper (add o coin mayOverwrite 0 layers).state (view.add o coin mayOverwrite) := by
  obtain ⟨cache, top⟩ := Option.isSome_iff_exists.mp serves.top
  have vouched : mayOverwrite = true ∨ o ∈ cache.entries ∨ Layers.shows (layers.drop (0 + 1)) o = none :=
    free.imp_right fun missing => vouched_of_none serves.stack top (serves.shows ▸ missing)
  obtain ⟨ok, stands⟩ := add_stands coin serves.stack serves.sound top uncovered_zero vouched
  rw [serves.shows] at stands
  exact ⟨ok, stands, isSome_cacheAt?_onCache.trans serves.top⟩

end Serves

/-! ### Inputs -/

/-- The check of the inputs passes if they are distinct, new, and unspent in the view. It changes nothing. -/
theorem checkSources_serves (laws : Dependable Proper) (earlier sources : List OutPoint)
    (serves : Serves Proper layers view) :
    ((checkSources 0 earlier sources layers).result = .ok () ↔
      sources.Nodup ∧ ∀ o ∈ sources, o ∉ earlier ∧ (view o).isSome = true) ∧
    Serves Proper (checkSources 0 earlier sources layers).state view := by
  induction sources generalizing earlier layers with
  | nil => exact ⟨by simp [checkSources, Outcome.done], serves⟩
  | cons o rest ih =>
    rw [checkSources]
    split
    · next again =>
      refine ⟨?_, serves⟩
      have member : o ∈ earlier := by simpa using again
      simp [Outcome.failed, member]
    · next new =>
      have notEarlier : o ∉ earlier := by simpa using new
      obtain ⟨answered, still⟩ := serves.holds laws o
      rw [Outcome.andThen, answered]
      cases seen : (view o).isSome with
      | false => exact ⟨by simp [Outcome.failed, Outcome.after, seen], still⟩
      | true =>
        obtain ⟨passes, later⟩ := ih (o :: earlier) still
        refine ⟨?_, later⟩
        show (checkSources 0 (o :: earlier) rest (Layers.holds o 0 layers).state).result = .ok () ↔ _
        rw [passes, List.nodup_cons, List.forall_mem_cons]
        constructor
        · rintro ⟨distinct, others⟩
          exact ⟨⟨fun again => (others o again).1 List.mem_cons_self, distinct⟩, ⟨notEarlier, seen⟩,
            fun p member => ⟨fun early => (others p member).1 (List.mem_cons_of_mem o early), (others p member).2⟩⟩
        · rintro ⟨⟨notAgain, distinct⟩, _, others⟩
          refine ⟨distinct, fun p member => ⟨?_, (others p member).2⟩⟩
          rintro (_ | ⟨_, early⟩)
          · exact notAgain member
          · exact (others p member).1 early

/-- Inputs that are distinct and unspent in the view can be spent, and their coins are recorded. -/
theorem spendSources_serves (laws : Dependable Proper) {sources : List OutPoint} (undo : Undo)
    (serves : Serves Proper layers view) (distinct : sources.Nodup) (there : ∀ o ∈ sources, (view o).isSome = true) :
    ∃ spends, (spendSources 0 undo sources layers).result = .ok ⟨undo.spends ++ spends⟩ ∧
      spends.map (·.1) = sources ∧ (∀ place ∈ spends, view place.1 = some place.2) ∧
      Serves Proper (spendSources 0 undo sources layers).state (view.spendAll sources) := by
  induction sources generalizing undo layers view with
  | nil => exact ⟨[], by simp [spendSources, Outcome.done], rfl, nofun, serves⟩
  | cons o rest ih =>
    obtain ⟨notAgain, distinct⟩ := List.nodup_cons.mp distinct
    obtain ⟨here, there⟩ := List.forall_mem_cons.mp there
    obtain ⟨coin, seen⟩ := Option.isSome_iff_exists.mp here
    obtain ⟨⟨found, answered, told⟩, still⟩ := serves.spend laws o
    obtain ⟨same, unspent⟩ := unspentIn_eq_some.mp (told.trans seen)
    rw [same] at answered
    have stillThere : ∀ p ∈ rest, (view.spend o p).isSome = true := by
      intro p member
      have different : p ≠ o := by
        rintro rfl
        exact notAgain member
      rw [Shown.spend, if_neg different]
      exact there p member
    obtain ⟨spends, spent, listed, shown, later⟩ := ih (undo.record o coin) still distinct stillThere
    have stepped : spendSources 0 undo (o :: rest) layers =
        (spendSources 0 (undo.record o coin) rest (spend o 0 layers).state).after (spend o 0 layers).events := by
      rw [spendSources, Outcome.andThen, answered]
      simp [unspent]
    refine ⟨(o, coin) :: spends, ?_, ?_, ?_, ?_⟩
    · rw [stepped]
      show (spendSources 0 (undo.record o coin) rest (spend o 0 layers).state).result = _
      rw [spent, Undo.record, List.append_assoc, List.singleton_append]
    · rw [List.map_cons, listed]
    · rw [List.forall_mem_cons]
      refine ⟨seen, fun place member => ?_⟩
      have among : place.1 ∈ rest := listed ▸ List.mem_map_of_mem member
      have different : place.1 ≠ o := by
        intro same
        rw [same] at among
        exact notAgain among
      rw [← shown place member, Shown.spend, if_neg different]
    · rw [stepped]
      exact later

/-- If the inputs of a transaction could be spent, the record of the spends names each of them once, with its coin
    in the view before. A coinbase transaction has no inputs to spend. -/
theorem spendInputs_serves (laws : Dependable Proper) (serves : Serves Proper layers view) {tx : Transaction}
    {undo : Undo} (ok : (spendInputs tx 0 layers).result = .ok undo) :
    undo.spends.map (·.1) = tx.spent ∧ tx.spent.Nodup ∧ (∀ place ∈ undo.spends, view place.1 = some place.2) ∧
      Serves Proper (spendInputs tx 0 layers).state (view.spendAll tx.spent) := by
  rw [spendInputs, Transaction.spent] at *
  cases coinbase : tx.isCoinbase with
  | true =>
    simp only [coinbase, if_true] at ok ⊢
    cases ok
    exact ⟨rfl, List.nodup_nil, nofun, serves⟩
  | false =>
    simp only [coinbase, Bool.false_eq_true, if_false] at ok ⊢
    obtain ⟨passes, still⟩ := checkSources_serves laws [] tx.sources serves
    cases checked : (checkSources 0 [] tx.sources layers).result with
    | error why =>
      rw [Outcome.andThen, checked] at ok
      cases ok
    | ok _ =>
      obtain ⟨distinct, there⟩ := passes.mp checked
      obtain ⟨spends, spent, listed, shown, later⟩ :=
        spendSources_serves laws .empty still distinct fun o member => (there o member).2
      rw [Outcome.andThen, checked] at ok ⊢
      have same : Except.ok (⟨Undo.empty.spends ++ spends⟩ : Undo) = .ok undo := spent.symm.trans ok
      cases same
      exact ⟨listed, distinct, shown, later⟩

/-! ### Outputs -/

/-- Outputs can be added if none of them is unspent in the view, or if an overwrite is allowed. -/
theorem addOutputsFrom_serves (txid : Hash256) (height : UInt32) (isCoinbase : Bool) {number : Nat}
    {outputs : List Output} (serves : Serves Proper layers view) (few : number + outputs.length ≤ UInt32.size)
    (free : isCoinbase = true ∨ ∀ i < outputs.length, view (Transaction.place txid (number + i)) = none) :
    (addOutputsFrom txid height isCoinbase false 0 number outputs layers).result = .ok () ∧
      Serves Proper (addOutputsFrom txid height isCoinbase false 0 number outputs layers).state
        (view.addOutputs txid height isCoinbase number outputs) := by
  induction outputs generalizing number layers view with
  | nil => exact ⟨rfl, serves⟩
  | cons output rest ih =>
    rw [List.length_cons] at few
    have here : isCoinbase = true ∨ view (Transaction.place txid number) = none :=
      free.imp_right fun all => all 0 (Nat.succ_pos _)
    obtain ⟨added, still⟩ :=
      serves.add (Transaction.place txid number) (.ofOutput output height isCoinbase) here
    -- The later outputs have other outpoints, as their numbers fit into a word.
    have others : isCoinbase = true ∨ ∀ i < rest.length, (view.add (Transaction.place txid number)
        (.ofOutput output height isCoinbase) isCoinbase) (Transaction.place txid (number + 1 + i)) = none := by
      refine free.imp_right fun all i inside => ?_
      rw [Shown.add_other, Nat.add_assoc, Nat.add_comm 1 i]
      · exact all (i + 1) (Nat.succ_lt_succ inside)
      · intro same
        have equal := Transaction.place_injective (Nat.lt_of_lt_of_le (by omega) few)
          (Nat.lt_of_lt_of_le (by omega) few) same
        omega
    obtain ⟨ok, later⟩ := ih still (by omega) others
    have stepped : addOutputsFrom txid height isCoinbase false 0 number (output :: rest) layers =
        (addOutputsFrom txid height isCoinbase false 0 (number + 1) rest
          (add (Transaction.place txid number) (.ofOutput output height isCoinbase) isCoinbase 0 layers).state).after
          (add (Transaction.place txid number) (.ofOutput output height isCoinbase) isCoinbase 0 layers).events := by
      simp [addOutputsFrom, Outcome.andThen, Outcome.done, Outcome.after, added]
    rw [stepped]
    exact ⟨ok, later⟩

/-- A transaction whose inputs can be spent, and none of whose outputs is unspent in the view, can be applied. The
    record of the spends names each of its inputs once, with the coin in the view before. -/
theorem apply_serves (laws : Dependable Proper) (serves : Serves Proper layers view) (tx : Transaction)
    (height : UInt32) {undo : Undo} (few : tx.outputs.length < UInt32.size) (new : ∀ o ∈ tx.places, view o = none)
    (spent : (spendInputs tx 0 layers).result = .ok undo) :
    (apply tx height 0 layers).result = .ok undo ∧
      undo.spends.map (·.1) = tx.spent ∧ tx.spent.Nodup ∧ (∀ place ∈ undo.spends, view place.1 = some place.2) ∧
      Serves Proper (apply tx height 0 layers).state
        ((view.spendAll tx.spent).addOutputs tx.txid height tx.isCoinbase 0 tx.outputs) := by
  obtain ⟨listed, distinct, shown, still⟩ := spendInputs_serves laws serves spent
  have stillNew (i : Nat) (inside : i < tx.outputs.length) :
      view.spendAll tx.spent (Transaction.place tx.txid (0 + i)) = none := by
    rw [Shown.spendAll_apply, Nat.zero_add]
    split
    · rfl
    · exact new _ (List.mem_map_of_mem (List.mem_range.mpr inside))
  obtain ⟨added, later⟩ := addOutputsFrom_serves tx.txid height tx.isCoinbase still (by omega) (.inr stillNew)
  rw [apply, Outcome.andThen, spent]
  exact ⟨Outcome.result_map added, listed, distinct, shown, later⟩

/-- Only a transaction whose inputs can be spent can be applied. -/
theorem spent_of_apply {tx : Transaction} {height : UInt32} {undo : Undo}
    (ok : (apply tx height 0 layers).result = .ok undo) : ∃ recorded, (spendInputs tx 0 layers).result = .ok recorded := by
  cases spent : (spendInputs tx 0 layers).result with
  | error why =>
    rw [apply, Outcome.andThen, spent] at ok
    cases ok
  | ok recorded => exact ⟨recorded, rfl⟩

end Layers

end CoinLayers
