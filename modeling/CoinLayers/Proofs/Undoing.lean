import CoinLayers.Proofs.TransactionView

/-!
Taking transactions back. The outputs of the transaction applied last are spent, and the coins that it spent are
added again, and so on back to the first. Each of these requests succeeds, and at the end the stack shows what it
showed before the first transaction (`applied_undone`). Flushes and evictions may come in between, both while
transactions are applied and while they are taken back: they cannot be seen (`Serves.tended`), so that all is said
of views alone (`Shown.reverted`).
-/
namespace CoinLayers

/-- What takes a transaction back: its outputs are spent, and the coins that it spent are added again. -/
def undoing (tx : Transaction) (undo : Undo) : List Request :=
  tx.places.map .spend ++ undo.spends.map fun place => .add place.1 place.2 false

namespace Shown

/-- A view after a request to the cache on top. -/
def after (view : Shown) : Request → Shown
  | .spend o => view.spend o
  | .add o coin mayOverwrite => view.add o coin mayOverwrite
  | _ => view

/-- Spends, and additions that overwrite nothing or may overwrite. -/
def Permits (view : Shown) : Request → Prop
  | .spend _ => True
  | .add o _ mayOverwrite => mayOverwrite = true ∨ view o = none
  | _ => False

/-- Requests each of which is permitted by the view after those before it. -/
def PermitsAll (view : Shown) : List Request → Prop
  | [] => True
  | request :: rest => view.Permits request ∧ (view.after request).PermitsAll rest

variable {view target : Shown} {early late : List Request}

theorem permitsAll_append :
    view.PermitsAll (early ++ late) ↔ view.PermitsAll early ∧ (early.foldl after view).PermitsAll late := by
  induction early generalizing view with
  | nil => simp [PermitsAll]
  | cons request rest ih => rw [List.cons_append, PermitsAll, ih, PermitsAll, List.foldl_cons, and_assoc]

theorem permitsAll_spends (places : List OutPoint) :
    view.PermitsAll (places.map .spend) ∧ (places.map Request.spend).foldl after view = view.spendAll places := by
  induction places generalizing view with
  | nil => exact ⟨trivial, rfl⟩
  | cons o rest ih => exact ⟨⟨trivial, ih.1⟩, ih.2⟩

/-- Coins that are missing from a view can be added to it again. -/
theorem permitsAll_adds {spends : List (OutPoint × Coin)} (distinct : (spends.map (·.1)).Nodup)
    (shown : ∀ place ∈ spends, target place.1 = some place.2) (spendable : target.Spendable)
    (unspent : ∀ (o : OutPoint) (coin : Coin), target o = some coin → coin.isSpent = false)
    (missing : ∀ o, view o = if o ∈ spends.map (·.1) then none else target o) :
    view.PermitsAll (spends.map fun place => .add place.1 place.2 false) ∧
      (spends.map fun place => Request.add place.1 place.2 false).foldl after view = target := by
  induction spends generalizing view with
  | nil => exact ⟨trivial, funext fun o => (missing o).trans (if_neg List.not_mem_nil)⟩
  | cons place rest ih =>
    obtain ⟨o, coin⟩ := place
    obtain ⟨notAgain, distinct⟩ := List.nodup_cons.mp distinct
    obtain ⟨here, shown⟩ := List.forall_mem_cons.mp shown
    have free : view o = none := (missing o).trans (if_pos List.mem_cons_self)
    have restored (p : OutPoint) :
        view.add o coin false p = if p ∈ rest.map (·.1) then none else target p := by
      by_cases same : p = o
      · subst same
        rw [if_neg notAgain, here, add, if_pos ⟨rfl, spendable p coin here, .inr free⟩,
          Coin.unspent?_of_unspent (unspent p coin here)]
      · rw [add_other same, missing p, List.map_cons]
        simp only [List.mem_cons, same, false_or]
    obtain ⟨permits, whole⟩ := ih distinct shown restored
    exact ⟨⟨.inr free, permits⟩, whole⟩

/-- With the outputs of a transaction spent and its inputs added again, a view is what it was before. -/
theorem reverted {tx : Transaction} {undo : Undo} {height : UInt32} (new : ∀ o ∈ tx.places, view o = none)
    (listed : undo.spends.map (·.1) = tx.spent) (distinct : tx.spent.Nodup)
    (shown : ∀ place ∈ undo.spends, view place.1 = some place.2) (spendable : view.Spendable)
    (unspent : ∀ (o : OutPoint) (coin : Coin), view o = some coin → coin.isSpent = false) :
    ((view.spendAll tx.spent).addOutputs tx.txid height tx.isCoinbase 0 tx.outputs).PermitsAll (undoing tx undo) ∧
      (undoing tx undo).foldl after
        ((view.spendAll tx.spent).addOutputs tx.txid height tx.isCoinbase 0 tx.outputs) = view := by
  obtain ⟨spending, spent⟩ := @permitsAll_spends
    ((view.spendAll tx.spent).addOutputs tx.txid height tx.isCoinbase 0 tx.outputs) tx.places
  rw [← listed] at distinct
  have missing (o : OutPoint) :
      ((view.spendAll tx.spent).addOutputs tx.txid height tx.isCoinbase 0 tx.outputs).spendAll tx.places o =
        if o ∈ undo.spends.map (·.1) then none else view o := by
    rw [spendAll_apply, listed]
    by_cases place : o ∈ tx.places
    · rw [if_pos place, new o place, ite_self]
    · rw [if_neg place, addOutputs_other, spendAll_apply]
      rintro i inside rfl
      rw [Nat.zero_add] at place
      exact place (List.mem_map_of_mem (List.mem_range.mpr inside))
  obtain ⟨adding, added⟩ := permitsAll_adds distinct shown spendable unspent missing
  rw [undoing, permitsAll_append, List.foldl_append, spent]
  exact ⟨⟨spending, adding⟩, added⟩

end Shown

namespace Layers

variable {ρ : Type} [Backing ρ] {Proper : ρ → Prop} {start layers before later : Layers ρ} {view : Shown}
  {request : Request} {requests : List Request} {done : List (Transaction × Undo)}

/-- Layers that became others by flushes and evictions. -/
inductive Tended : Layers ρ → Layers ρ → Prop
  | refl {layers : Layers ρ} : Tended layers layers
  | flushed {before layers : Layers ρ} (depth : Nat) : Tended before layers → (cacheAt? depth layers).isSome = true →
      Tended before (flush depth layers).state
  | evicted {before layers : Layers ρ} (depth : Nat) : Tended before layers →
      Tended before (onCache Cache.shrink depth layers).state

/-- Requests that were made of the layer on top, one after the other, with flushes and evictions in between. -/
inductive CarriedOut : List Request → Layers ρ → Layers ρ → Prop
  | done {before later : Layers ρ} : Tended before later → CarriedOut [] before later
  | step {request : Request} {rest : List Request} {before layers later : Layers ρ} : Tended before layers →
      CarriedOut rest (perform request 0 layers).state later → CarriedOut (request :: rest) before later

/-- Layers after transactions were applied at the top, with flushes and evictions in between, and the record of
    each, the last one first. None of the outputs was unspent when its transaction was applied. -/
inductive Applied (start : Layers ρ) : List (Transaction × Undo) → Layers ρ → Prop
  | start : Applied start [] start
  | tended {done : List (Transaction × Undo)} {layers later : Layers ρ} : Applied start done layers →
      Tended layers later → Applied start done later
  | applied {done : List (Transaction × Undo)} {layers : Layers ρ} {tx : Transaction} {undo : Undo}
      (height : UInt32) : Applied start done layers → tx.outputs.length < UInt32.size →
      (∀ o ∈ tx.places, shows layers o = none) → (apply tx height 0 layers).result = .ok undo →
      Applied start ((tx, undo) :: done) (apply tx height 0 layers).state

namespace Serves

/-- Nobody can see flushes and evictions. -/
theorem tended (laws : Dependable Proper) (serves : Serves Proper before view) (tended : Tended before later) :
    Serves Proper later view := by
  induction tended with
  | refl => exact serves
  | flushed depth _ there ih =>
    obtain ⟨cache, acting⟩ := Option.isSome_iff_exists.mp there
    obtain ⟨top, found⟩ := Option.isSome_iff_exists.mp ih.top
    obtain ⟨_, stands, _⟩ := flush_stands laws ih.stack ih.sound acting
    obtain ⟨still, there, _⟩ := moves_flush leaves_anything depth _ 0 top found
    rw [ih.shows] at stands
    exact ⟨stands, Option.isSome_iff_exists.mpr ⟨still, there⟩⟩
  | evicted depth _ ih =>
    have quiet := thin_quiet Cache.shrink Cache.thinned_shrink ih.stack ih.sound depth
    exact ⟨quiet.stands ih.toStands, isSome_cacheAt?_onCache.trans ih.top⟩

/-- A permitted request succeeds, and is seen as one to the view. -/
theorem perform (laws : Dependable Proper) (serves : Serves Proper layers view) (permits : view.Permits request) :
    (∃ reply, (perform request 0 layers).result = .ok reply) ∧
      Serves Proper (perform request 0 layers).state (view.after request) := by
  cases request with
  | spend o =>
    obtain ⟨⟨found, answered, _⟩, still⟩ := serves.spend laws o
    rw [Layers.perform, ifCache_of_isSome serves.top]
    exact ⟨⟨_, Outcome.result_map answered⟩, still⟩
  | add o coin mayOverwrite =>
    obtain ⟨ok, still⟩ := serves.add o coin permits
    exact ⟨⟨_, Outcome.result_map ok⟩, still⟩
  | _ => cases permits

theorem carriedOut (laws : Dependable Proper) (serves : Serves Proper before view) (permits : view.PermitsAll requests)
    (carried : CarriedOut requests before later) : Serves Proper later (requests.foldl Shown.after view) := by
  induction carried generalizing view with
  | done tended => exact serves.tended laws tended
  | step tended _ ih => exact ih ((serves.tended laws tended).perform laws permits.1).2 permits.2

end Serves

/-- What takes all transactions back, the last one first. -/
def undoingAll (done : List (Transaction × Undo)) : List Request :=
  done.flatMap fun (tx, undo) => undoing tx undo

/-- After transactions were applied, the view permits all that takes them back, and is then what it was. -/
theorem Applied.serves (laws : Dependable Proper) (serves : Serves Proper start view) (spendable : view.Spendable)
    (applied : Applied start done layers) :
    ∃ now, Serves Proper layers now ∧ now.Spendable ∧ now.PermitsAll (undoingAll done) ∧
      (undoingAll done).foldl Shown.after now = view := by
  induction applied with
  | start => exact ⟨view, serves, spendable, trivial, rfl⟩
  | tended _ tended ih =>
    obtain ⟨now, still, rest⟩ := ih
    exact ⟨now, still.tended laws tended, rest⟩
  | applied height _ few new ok ih =>
    obtain ⟨now, still, spendable, permits, whole⟩ := ih
    rw [still.shows] at new
    obtain ⟨recorded, spent⟩ := spent_of_apply ok
    obtain ⟨ok', listed, distinct, shown, later⟩ := apply_serves laws still _ height few new spent
    cases ok'.symm.trans ok
    obtain ⟨reverts, same⟩ := Shown.reverted new listed distinct shown spendable fun _ _ seen => still.unspent seen
    refine ⟨_, later, spendable.spendAll.addOutputs, ?_, ?_⟩
    · rw [undoingAll, List.flatMap_cons, Shown.permitsAll_append, same]
      exact ⟨reverts, permits⟩
    · rw [undoingAll, List.flatMap_cons, List.foldl_append, same]
      exact whole

/-- Over a store in memory, transactions that were applied to the cache on top of a stack, where no unspendable
    coin is shown, can be taken back: every next request of those that take them back succeeds, and after all of
    them each outpoint shows the coin that it showed before the first transaction. Any layers may be flushed, and
    any entries without changes evicted, at any point. -/
theorem applied_undone {start layers : Layers MemoryStore} {done : List (Transaction × Undo)}
    (stack : Stack MemoryStore.Unspent start) (sound : Sound start) (top : (cacheAt? 0 start).isSome = true)
    (spendable : (shows start).Spendable) (applied : Applied start done layers) :
    (∀ (early late : List Request) (request : Request) (reached : Layers MemoryStore),
      undoingAll done = early ++ request :: late → CarriedOut early layers reached →
      ∃ reply, (perform request 0 reached).result = .ok reply) ∧
    ∀ later, CarriedOut (undoingAll done) layers later → ∀ o, shows later o = shows start o := by
  have laws := MemoryStore.dependable
  obtain ⟨now, serves, _, permits, whole⟩ := applied.serves laws ⟨⟨stack, sound, rfl⟩, top⟩ spendable
  refine ⟨?_, ?_⟩
  · intro early late request reached parts carried
    rw [parts, Shown.permitsAll_append] at permits
    exact ((serves.carriedOut laws permits.1 carried).perform laws permits.2.1).1
  · intro later carried o
    rw [(serves.carriedOut laws permits carried).shows, whole]

/-! ### A transaction taken back -/

/-- A coin of a store, at its fifth outpoint. -/
def fifthCoin : Coin := ⟨5, 1, false, .empty, false⟩

/-- Two new caches over a store with one coin. -/
def overFifth : Layers MemoryStore :=
  [.cached 0 (.empty .standard), .cached 0 (.empty .standard), .root (MemoryStore.empty.insert ⟨.zero, 5⟩ fifthCoin)]

/-- A transaction that spends that coin. Its first output can be spent, and its second cannot. -/
def spendFifth : Transaction :=
  ⟨1, [⟨⟨.zero, 5⟩, .empty, 0⟩], [⟨4, .empty⟩, ⟨0, ⟨#[Coin.returnOpcode]⟩⟩], 0⟩

def spentFifth : Undo :=
  ⟨[(⟨.zero, 5⟩, fifthCoin)]⟩

theorem serves_overFifth :
    Serves MemoryStore.Unspent overFifth fun o => if o = ⟨.zero, 5⟩ then some fifthCoin else none := by
  have unspent : (MemoryStore.empty.insert ⟨.zero, 5⟩ fifthCoin).Unspent := MemoryStore.unspent_empty.insert rfl
  have seen : storeShows (MemoryStore.empty.insert ⟨.zero, 5⟩ fifthCoin) =
      fun o => if o = ⟨.zero, 5⟩ then some fifthCoin else none := by
    rw [MemoryStore.storeShows_eq unspent]
    exact funext fun o => Entries.getElem?_insert_ite
  have bottom := Stands.root unspent
  have lower := bottom.cached (.empty .standard) Entries.soundOver_empty
  have upper := lower.cached (.empty .standard) Entries.soundOver_empty
  rw [show (Cache.empty .standard).entries = ∅ from rfl, Entries.atop_empty, Entries.atop_empty, seen] at upper
  exact ⟨upper, rfl⟩

/-- The transaction can be applied, and the cache on top be flushed afterwards. -/
theorem applied_spendFifth : ∃ layers, Applied overFifth [(spendFifth, spentFifth)] layers := by
  have laws := MemoryStore.dependable
  have serves := serves_overFifth
  have new : ∀ o ∈ spendFifth.places, (if o = ⟨.zero, 5⟩ then some fifthCoin else none) = none := by
    intro o member
    obtain ⟨number, inside, rfl⟩ := List.mem_map.mp member
    have two : number = 0 ∨ number = 1 := by
      simp only [spendFifth, List.mem_range, List.length_cons, List.length_nil] at inside
      omega
    refine if_neg fun same => ?_
    rcases two with rfl | rfl <;> exact absurd (congrArg OutPoint.vout same) (by decide)
  have spent : (spendInputs spendFifth 0 overFifth).result = .ok spentFifth := rfl
  obtain ⟨ok, _, _, _, later⟩ := apply_serves laws serves spendFifth 7 (by decide) new spent
  have applied : Applied overFifth [(spendFifth, spentFifth)] (apply spendFifth 7 0 overFifth).state :=
    Applied.start.applied 7 (by decide) (serves.shows ▸ new) ok
  exact ⟨_, applied.tended (.flushed 0 .refl later.top)⟩

/-- The coin is back after its spend is taken back. -/
theorem fifth_restored :
    ∃ layers later, Applied overFifth [(spendFifth, spentFifth)] layers ∧
      (∃ reply, (perform (.spend (Transaction.place spendFifth.txid 0)) 0 layers).result = .ok reply) ∧
      CarriedOut (undoingAll [(spendFifth, spentFifth)]) layers later ∧ shows later ⟨.zero, 5⟩ = some fifthCoin := by
  have serves := serves_overFifth
  have spendable : (shows overFifth).Spendable := by
    intro o coin seen
    rw [serves.shows] at seen
    dsimp only at seen
    split at seen
    · cases seen
      decide
    · cases seen
  obtain ⟨layers, applied⟩ := applied_spendFifth
  obtain ⟨succeed, restored⟩ := applied_undone serves.stack serves.sound serves.top spendable applied
  have carried : CarriedOut (undoingAll [(spendFifth, spentFifth)]) layers _ :=
    .step .refl (.step .refl (.step .refl (.done .refl)))
  refine ⟨layers, _, applied, succeed [] _ _ layers rfl (.done .refl), carried, ?_⟩
  rw [restored _ carried, serves.shows]
  rfl

end Layers

end CoinLayers
