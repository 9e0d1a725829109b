import CoinLayers.ScriptedStore
import CoinLayers.Proofs.Records
import CoinLayers.Proofs.Shape

/-!
Coins that can never be spent.

Only an addition looks at whether a coin can ever be spent; reads, merges and flushes hand coins on as they are. Yet
no unspendable coin comes into a cache or a store, if none was there and none is handed in with a batch: every
operation leaves the layers clear of them (`Layers.Clear`). What a store was handed is seen by the batches that it
keeps (`Ledger`).
-/
namespace CoinLayers

variable {ρ α : Type}

/-- No entry holds an unspendable coin. -/
def Entries.Spendable (entries : Entries) : Prop :=
  ∀ (o : OutPoint) (entry : Entry), entries[o]? = some entry → entry.coin.isUnspendable = false

/-- Stores that hold no unspendable coin, and still do not after questions and batches without any. What they fail
    to take of such a batch has none either. -/
structure Sifting [Backing ρ] (Proper : ρ → Prop) : Prop where
  read : ∀ (o : OutPoint) (store : ρ), Proper store → Proper (Backing.read o store).2 ∧
    ∀ coin, (Backing.read o store).1 = .ok (some coin) → coin.isUnspendable = false
  holds : ∀ (o : OutPoint) (store : ρ), Proper store → Proper (Backing.holds o store).2
  tip : ∀ store : ρ, Proper store → Proper (Backing.tip store).2
  write : ∀ (batch : Entries) (block : Hash256) (store : ρ), Proper store → batch.Spendable →
    Proper (Backing.write batch block store).store ∧
      ∀ why, (Backing.write batch block store).result = .error why → (Backing.write batch block store).left.Spendable

namespace Entries.Spendable

variable {entries thinner : Entries} {entry : Entry} {o : OutPoint}

theorem empty : Spendable ∅ := fun o entry found => by simp at found

theorem insert (spendable : entries.Spendable) (new : entry.coin.isUnspendable = false) :
    Spendable (entries.insert o entry) := by
  intro p other found
  rw [Entries.getElem?_insert_ite] at found
  split at found
  · cases found
    exact new
  · exact spendable p other found

theorem erase (spendable : entries.Spendable) : Spendable (entries.erase o) := by
  intro p other found
  rw [Entries.getElem?_erase_ite] at found
  split at found
  · cases found
  · exact spendable p other found

theorem part (spendable : entries.Spendable) (part : thinner.PartOf entries) : thinner.Spendable :=
  fun o entry found => spendable o entry (part o entry found)

theorem filter (spendable : entries.Spendable) (stays : OutPoint → Bool) :
    Spendable (entries.filter fun o _ => stays o) := by
  refine spendable.part fun o entry found => ?_
  rw [Std.ExtTreeMap.getElem?_filter', Option.filter_eq_some_iff] at found
  exact found.1

theorem thinned (spendable : entries.Spendable) (thinned : Entries.Thinned entries thinner) : thinner.Spendable := by
  intro o entry found
  rcases thinned o with same | ⟨gone, _⟩
  · exact spendable o entry (same ▸ found)
  · rw [gone] at found
    cases found

end Entries.Spendable

theorem Coin.spendable_spent : Coin.spent.isUnspendable = false := by decide

/-- The entry after a step has the coin of one of the two entries. -/
theorem MergeStep.coin_outcome {old : Option Entry} {new after : Entry}
    (stepped : (MergeStep.of old new).outcome old = some after) : old = some after ∨ after.coin = new.coin := by
  cases old with
  | none => grind [of, outcome]
  | some mine => grind [of, outcome]

namespace Cache

variable {cache : Cache} {coin : Coin} {o : OutPoint}

/-- An unspendable coin is not added, whatever is there and whatever is allowed. -/
theorem add_unspendable (unspendable : coin.isUnspendable = true) (mayOverwrite : Bool) :
    cache.add o coin mayOverwrite = .done () cache := by
  rw [add, if_pos unspendable]

theorem spendable_add (spendable : cache.entries.Spendable) (mayOverwrite : Bool) :
    (cache.add o coin mayOverwrite).state.entries.Spendable := by
  cases filtered : coin.isUnspendable with
  | true =>
    rw [add_unspendable filtered]
    exact spendable
  | false =>
    rcases cache.add_cases o coin mayOverwrite with unchanged | ⟨warned, fresh, entries, _, kept⟩
    · rw [unchanged]
      exact spendable
    · rw [kept]
      refine Entries.Spendable.thinned (.insert ?_ filtered) thinned_keep
      rw [entries]
      exact spendable

theorem spendable_spend (spendable : cache.entries.Spendable) : (cache.spend o).2.entries.Spendable := by
  rw [spend]
  split
  · exact spendable
  · split
    · rw [entries_erase]
      exact spendable.erase
    · exact spendable.insert Coin.spendable_spent

theorem spendable_learn {answer : Except Failure (Option Coin)} (spendable : cache.entries.Spendable)
    (told : ∀ coin, answer = .ok (some coin) → coin.isUnspendable = false) : (cache.learn o answer).entries.Spendable := by
  cases answer with
  | error why => exact spendable
  | ok found =>
    cases found with
    | none => exact spendable
    | some coin => exact spendable.insert (told coin rfl)

/-- A merge takes coins from the batch only, and leaves a part of it. -/
theorem spendable_merge {batch : Entries} (spendable : cache.entries.Spendable) (handed : batch.Spendable)
    (block : Hash256) :
    (cache.merge batch block).state.2.entries.Spendable ∧ (cache.merge batch block).state.1.Spendable := by
  have merged (o : OutPoint) := Merging.run_entrywise ⟨cache, batch, 0, 0⟩ (cache.drained batch) o
  have left : (cache.merge batch block).state.1 = (Merging.run ⟨cache, batch, 0, 0⟩ (cache.drained batch)).state.left :=
    left_mergeInOrder
  have mine : (cache.merge batch block).state.2.entries = (Merging.run ⟨cache, batch, 0, 0⟩ (cache.drained batch)).state.cache.entries :=
    entries_mergeInOrder
  rw [left, mine]
  refine ⟨fun o entry found => ?_, fun o entry found => ?_⟩
  · rcases merged o with ⟨_, same⟩ | ⟨new, handedOver, _, _, stepped⟩
    · exact spendable o entry (same ▸ found)
    · rcases MergeStep.coin_outcome (stepped.symm.trans found) with mine | theirs
      · exact spendable o entry mine
      · rw [theirs]
        exact handed o new handedOver
  · rcases merged o with ⟨same, _⟩ | ⟨_, _, _, gone, _⟩
    · exact handed o entry (same ▸ found)
    · rw [gone] at found
      cases found

end Cache

/-! ### Layers -/

/-- Batches that are handed in have no unspendable coin. -/
def Request.HandsSpendable : Request → Prop
  | .write batch _ | .merge batch _ => batch.Spendable
  | _ => True

/-- No unspendable coin is in the layer. -/
def Layer.Clear (Proper : ρ → Prop) : Layer ρ → Prop
  | .root store => Proper store
  | .cached _ cache => cache.entries.Spendable
  | .relay _ | .guarded .. => True

namespace Layers

variable {Proper : ρ → Prop} {layers below : Layers ρ} {layer : Layer ρ} {o : OutPoint} {coin : Coin} {depth : Nat}

def Clear (Proper : ρ → Prop) (layers : Layers ρ) : Prop :=
  ∀ layer ∈ layers, layer.Clear Proper

theorem clear_cons : Clear Proper (layer :: below) ↔ layer.Clear Proper ∧ Clear Proper below :=
  List.forall_mem_cons

/-- An operation that keeps layers clear at the top does so at any depth. -/
theorem clear_at_depth (op : Nat → Layers ρ → Layers ρ)
    (descends : ∀ depth layer below, op (depth + 1) (layer :: below) = layer :: op depth below)
    (nothing : ∀ depth, op depth [] = [])
    (here : ∀ (layer : Layer ρ) (below : Layers ρ), (∀ depth, Clear Proper (op depth below)) →
      Clear Proper (layer :: below) → Clear Proper (op 0 (layer :: below)))
    (depth : Nat) (layers : Layers ρ) : Clear Proper layers → Clear Proper (op depth layers) := by
  refine related_at_depth (fun before after => Clear Proper before → Clear Proper after) id
    (fun layer _ _ kept clear => clear_cons.mpr ((clear_cons.mp clear).imp_right kept)) op descends nothing
    (fun layer below lower clear => ?_) depth layers
  exact here layer below (fun depth => lower depth (clear_cons.mp clear).2) clear

theorem clear_onCache (change : Cache → Outcome Cache α)
    (keeps : ∀ cache : Cache, cache.entries.Spendable → (change cache).state.entries.Spendable)
    (clear : Clear Proper layers) (depth : Nat) : Clear Proper (onCache change depth layers).state := by
  refine clear_at_depth (fun depth layers => (onCache change depth layers).state) (fun _ _ _ => rfl) ?_
    (fun layer below _ clear => ?_) depth layers clear
  · intro depth
    cases depth <;> rfl
  · cases layer with
    | root | relay | guarded => exact clear
    | cached skip cache => exact clear_cons.mpr ((clear_cons.mp clear).imp_left (keeps cache))

/-- A change to caches that changes none leaves all layers as they are. -/
theorem state_onCache_done {change : Cache → Outcome Cache Unit} (nothing : ∀ cache, change cache = .done () cache)
    (depth : Nat) (layers : Layers ρ) : (onCache change depth layers).state = layers := by
  refine (related_at_depth (fun before after => after = before) rfl (fun _ _ _ => congrArg _)
    (fun depth layers => (onCache change depth layers).state) (fun _ _ _ => rfl) ?_ (fun layer below _ => ?_) depth layers)
  · intro depth
    cases depth <;> rfl
  · cases layer with
    | root | relay | guarded => rfl
    | cached skip cache =>
      show Layer.cached skip (change cache).state :: below = _
      rw [nothing]
      rfl

theorem clear_onGuard (change : ReadGuard → α × ReadGuard) (clear : Clear Proper layers) (depth : Nat) :
    Clear Proper (onGuard change depth layers).state := by
  refine clear_at_depth (fun depth layers => (onGuard change depth layers).state) (fun _ _ _ => rfl) ?_
    (fun layer below _ clear => ?_) depth layers clear
  · intro depth
    cases depth <;> rfl
  · cases layer with
    | root | relay | cached => exact clear
    | guarded skip guard => exact clear_cons.mpr ⟨trivial, (clear_cons.mp clear).2⟩

theorem clear_rebase {skip : Nat} (clear : Clear Proper layers) (depth : Nat) :
    Clear Proper (rebase skip depth layers).state := by
  refine clear_at_depth (fun depth layers => (rebase skip depth layers).state) (fun _ _ _ => rfl) ?_
    (fun layer below _ clear => ?_) depth layers clear
  · intro depth
    cases depth <;> rfl
  · cases layer with
    | root => exact clear
    | relay | guarded => exact clear_cons.mpr ⟨trivial, (clear_cons.mp clear).2⟩
    | cached _ cache => exact clear_cons.mpr ⟨(clear_cons.mp clear).1, (clear_cons.mp clear).2⟩

theorem clear_ifCache {op : Nat → Layers ρ → Outcome (Layers ρ) α} (clear : Clear Proper layers)
    (kept : Clear Proper (op depth layers).state) : Clear Proper (ifCache op depth layers).state := by
  rw [ifCache]
  split
  · exact kept
  · exact clear

variable [Backing ρ] (sifting : Sifting Proper)
include sifting

/-- A read of clear layers answers no unspendable coin, and leaves them clear. -/
theorem clear_read (clear : Clear Proper layers) (o : OutPoint) (depth : Nat) :
    (∀ coin, (read o depth layers).result = .ok (some coin) → coin.isUnspendable = false) ∧
      Clear Proper (read o depth layers).state := by
  induction layers generalizing depth with
  | nil =>
    rw [read_nil]
    exact ⟨nofun, clear⟩
  | cons layer below ih =>
    obtain ⟨first, rest⟩ := clear_cons.mp clear
    cases depth with
    | succ depth => exact (ih rest depth).imp_right fun kept => clear_cons.mpr ⟨first, kept⟩
    | zero =>
      cases layer with
      | root store =>
        obtain ⟨proper, spendable⟩ := sifting.read o store first
        exact ⟨fun coin found => spendable coin (ok_of_mapError found), clear_cons.mpr ⟨proper, rest⟩⟩
      | relay skip => exact (ih rest skip).imp_right fun kept => clear_cons.mpr ⟨trivial, kept⟩
      | guarded skip guard =>
        obtain ⟨spendable, kept⟩ := ih rest skip
        obtain ⟨later, watched⟩ := state_watch skip guard (read o skip below)
        rw [read, watched]
        refine ⟨fun coin found => spendable coin (ok_of_watch found), clear_cons.mpr ⟨trivial, kept⟩⟩
      | cached skip cache =>
        rw [read]
        cases there : cache.entries[o]? with
        | some entry =>
          refine ⟨fun coin found => ?_, clear_cons.mpr ⟨first, rest⟩⟩
          cases found
          exact first o entry there
        | none =>
          obtain ⟨spendable, kept⟩ := ih rest skip
          exact ⟨spendable, clear_cons.mpr ⟨Cache.spendable_learn first spendable, kept⟩⟩

theorem clear_holds (clear : Clear Proper layers) (o : OutPoint) (depth : Nat) :
    Clear Proper (holds o depth layers).state := by
  refine clear_at_depth (fun depth layers => (holds o depth layers).state) (fun _ _ _ => rfl)
    (fun depth => congrArg _ (holds_nil depth)) (fun layer below lower clear => ?_) depth layers clear
  obtain ⟨first, rest⟩ := clear_cons.mp clear
  cases layer with
  | root store => exact clear_cons.mpr ⟨sifting.holds o store first, rest⟩
  | relay skip => exact clear_cons.mpr ⟨trivial, lower skip⟩
  | guarded skip guard =>
    obtain ⟨later, watched⟩ := state_watch skip guard (holds o skip below)
    show Clear Proper (holds o 0 (.guarded skip guard :: below)).state
    rw [holds, watched]
    exact clear_cons.mpr ⟨trivial, lower skip⟩
  | cached skip cache =>
    show Clear Proper (holds o 0 (.cached skip cache :: below)).state
    rw [state_holds_cached]
    exact (clear_read sifting clear o 0).2

theorem clear_spend (clear : Clear Proper layers) (o : OutPoint) (depth : Nat) :
    Clear Proper (spend o depth layers).state := by
  have read := (clear_read sifting clear o depth).2
  rw [spend, Outcome.andThen]
  split
  · next found _ =>
    cases found with
    | none => exact read
    | some coin => exact clear_onCache _ (fun _ => Cache.spendable_spend) read depth
  · exact read

theorem clear_tip (clear : Clear Proper layers) (depth : Nat) : Clear Proper (tip depth layers).2 := by
  refine clear_at_depth (fun depth layers => (tip depth layers).2) (fun _ _ _ => rfl)
    (fun depth => congrArg _ (tip_nil depth)) (fun layer below lower clear => ?_) depth layers clear
  obtain ⟨first, rest⟩ := clear_cons.mp clear
  cases layer with
  | root store => exact clear_cons.mpr ⟨sifting.tip store first, rest⟩
  | relay skip | guarded skip guard => exact clear_cons.mpr ⟨trivial, lower skip⟩
  | cached skip cache =>
    show Clear Proper (tip 0 (.cached skip cache :: below)).2
    rw [tip]
    split
    · exact clear
    · exact clear_cons.mpr ⟨first, lower skip⟩

/-- A batch without unspendable coins leaves clear layers clear, and if it fails, what is left has none. -/
theorem clear_write {batch : Entries} (handed : batch.Spendable) (block : Hash256) (clear : Clear Proper layers) (depth : Nat) :
    Clear Proper (write batch block depth layers).state.2 ∧
      ∀ why, (write batch block depth layers).result = .error why → (write batch block depth layers).state.1.Spendable := by
  induction layers generalizing depth with
  | nil => cases depth <;> exact ⟨clear, fun _ _ => handed⟩
  | cons layer below ih =>
    obtain ⟨first, rest⟩ := clear_cons.mp clear
    cases depth with
    | succ depth => exact (ih rest depth).imp_left fun kept => clear_cons.mpr ⟨first, kept⟩
    | zero =>
      cases layer with
      | root store =>
        obtain ⟨proper, left⟩ := sifting.write batch block store first handed
        refine ⟨clear_cons.mpr ⟨proper, rest⟩, fun why failed => ?_⟩
        obtain ⟨cause, result⟩ := error_of_mapError failed
        exact left cause result
      | relay skip | guarded skip guard => exact (ih rest skip).imp_left fun kept => clear_cons.mpr ⟨trivial, kept⟩
      | cached skip cache =>
        obtain ⟨mine, left⟩ := Cache.spendable_merge first handed block
        exact ⟨clear_cons.mpr ⟨mine, rest⟩, fun _ _ => left⟩

theorem clear_flush (clear : Clear Proper layers) (depth : Nat) : Clear Proper (flush depth layers).state := by
  refine clear_at_depth (fun depth layers => (flush depth layers).state) (fun _ _ _ => rfl) ?_
    (fun layer below _ clear => ?_) depth layers clear
  · intro depth
    cases depth <;> rfl
  · cases layer with
    | root | relay | guarded => exact clear
    | cached skip cache =>
      obtain ⟨first, rest⟩ := clear_cons.mp clear
      have asked : Clear Proper (tipOf cache skip below).2 := by
        rw [tipOf]
        split
        · exact rest
        · exact clear_tip sifting rest skip
      obtain ⟨lower, left⟩ := clear_write sifting first (tipOf cache skip below).1 asked skip
      show Clear Proper (flush 0 (.cached skip cache :: below)).state
      rw [flush_cached, concludeFlush]
      split
      · exact clear_cons.mpr ⟨.empty, lower⟩
      · next why failed => exact clear_cons.mpr ⟨left why failed, lower⟩

/-! ### Runs -/

private theorem clear_call {request : Request} (hands : request.isCall = true ∧ request.HandsSpendable)
    (clear : Clear Proper layers) (depth : Nat) : Clear Proper (perform request depth layers).state := by
  obtain ⟨isCall, hands⟩ := hands
  cases request with
  | read o => exact (clear_read sifting clear o depth).2
  | holds o => exact clear_holds sifting clear o depth
  | tip => exact clear_tip sifting clear depth
  | heads | scan | sizeEstimate => exact clear
  | write batch block => exact (clear_write sifting hands block clear depth).1
  | rebase => exact clear_rebase clear depth
  | sight o =>
    have read : Clear Proper (sight o depth layers).state := (clear_read sifting clear o depth).2
    exact clear_ifCache clear read
  | spend o => exact clear_ifCache clear (clear_spend sifting clear o depth)
  | merge batch block => exact clear_ifCache clear (clear_write sifting hands block clear depth).1
  | flush => exact clear_flush sifting clear depth
  | add o coin mayOverwrite => exact clear_onCache _ (fun _ spendable => Cache.spendable_add spendable mayOverwrite) clear depth
  | uncache o =>
    exact clear_onCache (fun cache => .done () (cache.uncache o))
      (fun cache spendable => spendable.thinned cache.thinned_uncache) clear depth
  | setTip block =>
    exact clear_onCache (fun cache => .done () { cache with tip := some block }) (fun _ spendable => spendable) clear depth
  | check =>
    refine clear_onCache Cache.check (fun cache spendable => ?_) clear depth
    rw [cache.state_check]
    exact spendable
  | cached | memoryUsage | size | entry | stats | budget =>
    rw [perform, Outcome.map, state_ask]
    exact clear
  | register => exact clear_onGuard (fun guard => ((), guard.register)) clear depth
  | calls => exact clear_onGuard (fun guard => (guard.calls, guard)) clear depth
  | addOutputs | hasInputs | firstUnspent | spendInputs | apply => cases isCall

/-- Clear layers stay clear along a run. -/
theorem clear_after {requests : List (Nat × Request)} (hands : ∀ asked ∈ requests, asked.2.HandsSpendable)
    (clear : Clear Proper layers) : Clear Proper (after requests layers) := by
  have suits : Script.Suits fun request => request.isCall = true ∧ request.HandsSpendable :=
    ⟨fun _ => ⟨rfl, trivial⟩, fun _ => ⟨rfl, trivial⟩, fun _ => ⟨rfl, trivial⟩, fun _ _ _ _ _ => ⟨rfl, trivial⟩⟩
  exact kept_after (Clear Proper) suits (fun depth hands clear => clear_call sifting hands clear depth)
    (fun asked member isCall => ⟨isCall, hands asked member⟩) clear

end Layers

/-! ### Stores -/

/-- A store in memory holds no unspendable coin. -/
def MemoryStore.Spendable (store : MemoryStore) : Prop :=
  ∀ (o : OutPoint) (coin : Coin), store.coins[o]? = some coin → coin.isUnspendable = false

theorem MemoryStore.Spendable.write {store : MemoryStore} {batch : Entries} (spendable : store.Spendable)
    (handed : batch.Spendable) (block : Hash256) : (MemoryStore.write batch block store).store.Spendable := by
  intro o coin found
  rw [getElem?_write, Entries.patch] at found
  split at found
  · next entry known =>
    split at found
    · rw [Coin.unspent?] at found
      split at found
      · cases found
      · cases found
        exact handed o entry known
    · exact spendable o coin found
  · exact spendable o coin found

theorem MemoryStore.sifting : Sifting MemoryStore.Spendable where
  read o _ spendable := ⟨spendable, fun coin found => spendable o coin (Except.ok.inj found)⟩
  holds _ _ spendable := spendable
  tip _ spendable := spendable
  write _ block _ spendable handed := ⟨spendable.write handed block, nofun⟩

/-- A store that fails by plan holds no unspendable coin, and gives back none that was not handed in. -/
structure ScriptedStore.Spendable (store : ScriptedStore) : Prop where
  memory : store.memory.Spendable
  plan : ∀ refusal left, some refusal ∈ store.plan → refusal.replacement = some left → left.Spendable

namespace ScriptedStore

theorem spendable_refuse {store : ScriptedStore} {refusal : Refusal} {batch : Entries} (spendable : store.Spendable)
    (handed : batch.Spendable) (replaced : ∀ left, refusal.replacement = some left → left.Spendable) :
    (store.refuse refusal batch).store.Spendable ∧ (store.refuse refusal batch).left.Spendable := by
  have applied := handed.filter fun o => refusal.applied.contains o
  have left : (refusal.replacement.getD (batch.filter fun o _ => !refusal.applied.contains o)).Spendable := by
    cases given : refusal.replacement with
    | none => exact handed.filter fun o => !refusal.applied.contains o
    | some left => exact replaced left given
  rw [refuse]
  split
  · exact ⟨spendable, left⟩
  · exact ⟨⟨spendable.memory.write applied _, spendable.plan⟩, left⟩

theorem sifting : Sifting ScriptedStore.Spendable where
  read o store spendable := by
    refine ⟨⟨spendable.memory, spendable.plan⟩, fun coin found => ?_⟩
    have told : store.answer o = .ok (some coin) := found
    rw [answer] at told
    split at told
    · cases told
    · split at told
      · cases told
        exact Coin.spendable_spent
      · exact spendable.memory o coin (Except.ok.inj told)
  holds _ _ spendable := ⟨spendable.memory, spendable.plan⟩
  tip _ spendable := spendable
  write batch block store spendable handed := by
    show (ScriptedStore.write batch block store).store.Spendable ∧
      ∀ why, (ScriptedStore.write batch block store).result = .error why → (ScriptedStore.write batch block store).left.Spendable
    have rest (step : Option Refusal) (plan : List (Option Refusal)) (planned : store.plan = step :: plan) :
        { store with plan }.Spendable :=
      ⟨spendable.memory, fun refusal left member => spendable.plan refusal left (planned ▸ List.mem_cons_of_mem _ member)⟩
    rw [ScriptedStore.write]
    split
    · next refusal plan planned =>
      have refused := spendable_refuse (rest _ plan planned) handed fun left =>
        spendable.plan refusal left (planned ▸ List.mem_cons_self)
      exact refused.imp_right fun left _ _ => left
    · next plan planned => exact ⟨⟨spendable.memory.write handed block, (rest _ plan planned).plan⟩, nofun⟩
    · exact ⟨⟨spendable.memory.write handed block, spendable.plan⟩, nofun⟩

end ScriptedStore

/-! ### What stores are handed -/

/-- A store together with all batches that it was handed. -/
structure Ledger (ρ : Type) where
  store : ρ
  batches : List Entries

namespace Ledger

variable [Backing ρ]

instance : Backing (Ledger ρ) where
  read o ledger := (Backing.read o ledger.store).map id fun store => { ledger with store }
  holds o ledger := (Backing.holds o ledger.store).map id fun store => { ledger with store }
  tip ledger := (Backing.tip ledger.store).map id fun store => { ledger with store }
  heads ledger := Backing.heads ledger.store
  write batch block ledger :=
    let written := Backing.write batch block ledger.store
    ⟨written.result, written.left, ⟨written.store, ledger.batches ++ [batch]⟩, written.events⟩
  scan ledger := Backing.scan ledger.store
  sizeEstimate ledger := Backing.sizeEstimate ledger.store

/-- A ledger of a proper store, in which no unspendable coin is written down. -/
def Clear (Proper : ρ → Prop) (ledger : Ledger ρ) : Prop :=
  Proper ledger.store ∧ ∀ batch ∈ ledger.batches, batch.Spendable

theorem sifting {Proper : ρ → Prop} (sifting : Sifting Proper) : Sifting (Ledger.Clear Proper) where
  read o ledger clear := ⟨⟨(sifting.read o ledger.store clear.1).1, clear.2⟩, (sifting.read o ledger.store clear.1).2⟩
  holds o ledger clear := ⟨sifting.holds o ledger.store clear.1, clear.2⟩
  tip ledger clear := ⟨sifting.tip ledger.store clear.1, clear.2⟩
  write batch block ledger clear spendable := by
    obtain ⟨proper, left⟩ := sifting.write batch block ledger.store clear.1 spendable
    exact ⟨⟨proper, List.forall_mem_append.mpr ⟨clear.2, List.forall_mem_singleton.mpr spendable⟩⟩, left⟩

end Ledger

namespace Layers

/-- The batches that stores were handed. -/
def handed (layers : Layers (Ledger ρ)) : List Entries :=
  layers.flatMap fun
    | .root ledger => ledger.batches
    | _ => []

theorem spendable_handed {Proper : ρ → Prop} {layers : Layers (Ledger ρ)} (clear : Clear (Ledger.Clear Proper) layers) :
    ∀ batch ∈ handed layers, batch.Spendable := by
  intro batch member
  obtain ⟨layer, here, written⟩ := List.mem_flatMap.mp member
  cases layer with
  | root ledger => exact (clear _ here).2 batch written
  | relay | guarded | cached => cases written

/-- An unspendable coin is added to no cache, whatever is there and whatever is allowed. Let the stores that some
    layers rest on hold no unspendable coin, nor any cache. Then after any requests, with which no unspendable coin is
    handed in but to be added, no cache and no store holds one, and no store was ever handed one. -/
theorem unspendable_kept_out :
    (∀ (cache : Cache) (o : OutPoint) (coin : Coin) (mayOverwrite : Bool), coin.isUnspendable = true →
      cache.add o coin mayOverwrite = .done () cache) ∧
    ∀ (ρ : Type) [Backing ρ] (Proper : ρ → Prop), Sifting Proper →
      ∀ (layers : Layers (Ledger ρ)) (requests : List (Nat × Request)),
        (∀ skip cache, Layer.cached skip cache ∈ layers → cache.entries.Spendable) →
        (∀ ledger, Layer.root ledger ∈ layers → Proper ledger.store ∧ ledger.batches = []) →
        (∀ asked ∈ requests, asked.2.HandsSpendable) →
        (∀ skip cache, Layer.cached skip cache ∈ after requests layers → cache.entries.Spendable) ∧
          (∀ ledger, Layer.root ledger ∈ after requests layers → Proper ledger.store) ∧
          (∀ batch ∈ handed (after requests layers), batch.Spendable) ∧
          ∀ (depth : Nat) (o : OutPoint) (coin : Coin) (mayOverwrite : Bool), coin.isUnspendable = true →
            (perform (.add o coin mayOverwrite) depth (after requests layers)).state = after requests layers := by
  refine ⟨fun _ _ _ mayOverwrite unspendable => Cache.add_unspendable unspendable mayOverwrite, ?_⟩
  intro ρ _ Proper sifting layers requests caches ledgers hands
  have start : Clear (Ledger.Clear Proper) layers := by
    intro layer member
    cases layer with
    | root ledger =>
      obtain ⟨proper, none⟩ := ledgers ledger member
      exact ⟨proper, by simp [none]⟩
    | cached skip cache => exact caches skip cache member
    | relay | guarded => trivial
  have clear := clear_after (Ledger.sifting sifting) hands start
  refine ⟨fun skip cache member => clear _ member, fun ledger member => (clear _ member).1, spendable_handed clear, ?_⟩
  intro depth o coin mayOverwrite unspendable
  exact state_onCache_done (fun cache => Cache.add_unspendable unspendable mayOverwrite) depth _

/-- A new cache over a store that takes one coin of the first batch, and then fails. -/
def halfTaken : Layers (Ledger ScriptedStore) :=
  [.cached 0 (.empty .standard),
    .root ⟨⟨.empty, [], [], false, [some ⟨.io "disk full", [⟨.zero, 0⟩], none⟩], [], 0⟩, []⟩]

/-- Two coins are added, and over one of them another one that can never be spent. Then the cache is flushed twice. -/
def addedThenFlushed : List (Nat × Request) :=
  [(0, .add ⟨.zero, 0⟩ ⟨5, 1, false, .empty, false⟩ false), (0, .add ⟨.zero, 1⟩ ⟨6, 1, false, .empty, false⟩ false),
    (0, .add ⟨.zero, 1⟩ ⟨7, 2, false, ⟨#[Coin.returnOpcode]⟩, false⟩ true), (0, .flush), (0, .flush)]

/-- The store was handed two batches, the second after the first one failed, and in none is an unspendable coin. -/
theorem halfTaken_clear :
    Coin.isUnspendable ⟨7, 2, false, ⟨#[Coin.returnOpcode]⟩, false⟩ = true ∧
    (flush 0 (after (addedThenFlushed.take 3) halfTaken)).result.isOk = false ∧
    (handed (after addedThenFlushed halfTaken)).length = 2 ∧
    (∀ batch ∈ handed (after addedThenFlushed halfTaken), batch.Spendable) ∧
    (∀ ledger, Layer.root ledger ∈ after addedThenFlushed halfTaken → ledger.store.Spendable) := by
  have proper : ScriptedStore.Spendable ⟨.empty, [], [], false, [some ⟨.io "disk full", [⟨.zero, 0⟩], none⟩], [], 0⟩ :=
    ⟨fun _ _ found => by simp [MemoryStore.empty] at found, by simp; rintro _ _ rfl; simp⟩
  obtain ⟨_, stores, batches, _⟩ := unspendable_kept_out.2 ScriptedStore ScriptedStore.Spendable ScriptedStore.sifting
    halfTaken addedThenFlushed (by simp [halfTaken, Cache.empty, Entries.Spendable.empty]) (by simp [halfTaken, proper])
    (by simp [addedThenFlushed, Request.HandsSpendable])
  exact ⟨by decide, by decide +kernel, by decide +kernel, batches, stores⟩

end Layers

end CoinLayers
