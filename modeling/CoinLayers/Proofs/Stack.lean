import CoinLayers.Request
import CoinLayers.Proofs.MergeView
import CoinLayers.Proofs.StoreView

/-!
Stacks of layers: what can be seen at the top, and when the flags of all caches are sound.

The view of some layers is what reading them answers (`Layers.shows`). Every layer is taken to lie right on
the next one, down to a store of which some property is known. What is asked of stores is stated of that
property: that questions change no answer (`Steady`), and that batches are taken whole (`Dependable`).
-/
namespace CoinLayers

variable {ρ : Type} [Backing ρ]

/-! ### Stores -/

/-- What a root answers is what its store answers. -/
theorem ok_of_mapError {α : Type} {answer : Except Fault α} {value : α}
    (told : answer.mapError Failure.fault = .ok value) : answer = .ok value := by
  cases answer with
  | error cause => cases told
  | ok found =>
    cases told
    rfl

theorem error_of_mapError {α : Type} {answer : Except Fault α} {why : Failure}
    (failed : answer.mapError Failure.fault = .error why) : ∃ cause, answer = .error cause := by
  cases answer with
  | error cause => exact ⟨cause, rfl⟩
  | ok found => cases failed

/-- What a store shows. -/
def storeShows (store : ρ) : Shown := fun o => unspentIn ((Backing.read o store).1.mapError .fault)

/-- Stores of which questions change no answer. -/
structure Steady (Proper : ρ → Prop) : Prop where
  read : ∀ (o : OutPoint) (store : ρ), Proper store → Proper (Backing.read o store).2 ∧
    ∀ p, (Backing.read p (Backing.read o store).2).1 = (Backing.read p store).1
  holds : ∀ (o : OutPoint) (store : ρ), Proper store → Proper (Backing.holds o store).2 ∧
    ∀ p, (Backing.read p (Backing.holds o store).2).1 = (Backing.read p store).1
  tip : ∀ store : ρ, Proper store → Proper (Backing.tip store).2 ∧
    ∀ p, (Backing.read p (Backing.tip store).2).1 = (Backing.read p store).1

/-- Stores that can be read everywhere, and take every batch whole. -/
structure Dependable (Proper : ρ → Prop) : Prop extends Steady Proper where
  readable : ∀ (o : OutPoint) (store : ρ), Proper store → ∃ found, (Backing.read o store).1 = .ok found
  holding : ∀ (o : OutPoint) (store : ρ), Proper store →
    (Backing.holds o store).1 = .ok (storeShows store o).isSome
  write : ∀ (batch : Entries) (tip : Hash256) (store : ρ), Proper store →
    (Backing.write batch tip store).result = .ok () ∧ (Backing.write batch tip store).left = ∅ ∧
      Proper (Backing.write batch tip store).store ∧
      storeShows (Backing.write batch tip store).store = batch.patch (storeShows store)

theorem MemoryStore.storeShows_eq_bind {store : MemoryStore} :
    storeShows store = fun o => store.coins[o]?.bind Coin.unspent? := by
  funext o
  show unspentIn (.ok store.coins[o]?) = store.coins[o]?.bind Coin.unspent?
  cases store.coins[o]? <;> rfl

theorem MemoryStore.storeShows_eq {store : MemoryStore} (unspent : store.Unspent) :
    storeShows store = fun o => store.coins[o]? := by
  rw [storeShows_eq_bind]
  funext o
  cases found : store.coins[o]? with
  | none => rfl
  | some coin => exact Coin.unspent?_of_unspent (unspent o coin found)

/-- A store in memory that holds unspent coins only is all that layers can ask for. -/
theorem MemoryStore.dependable : Dependable MemoryStore.Unspent where
  read _ _ unspent := ⟨unspent, fun _ => rfl⟩
  holds _ _ unspent := ⟨unspent, fun _ => rfl⟩
  tip _ unspent := ⟨unspent, fun _ => rfl⟩
  readable o store _ := ⟨store.coin? o, rfl⟩
  holding o store unspent := by
    rw [MemoryStore.storeShows_eq unspent]
    exact congrArg Except.ok Std.ExtTreeMap.contains_eq_isSome_getElem?
  write batch tip store unspent := by
    refine ⟨rfl, rfl, unspent.write, ?_⟩
    rw [MemoryStore.storeShows_eq unspent]
    refine (MemoryStore.storeShows_eq unspent.write).trans ?_
    funext o
    exact MemoryStore.getElem?_write

namespace Layers

/-! ### The view of layers -/

variable {layers below : Layers ρ} {o : OutPoint}

/-- The unspent coins that reading the layers shows. -/
def shows (layers : Layers ρ) : Shown := fun o => unspentIn (read o 0 layers).result

theorem result_read_drop (depth : Nat) (layers : Layers ρ) :
    (read o depth layers).result = (read o 0 (layers.drop depth)).result := by
  induction depth generalizing layers with
  | zero => rfl
  | succ depth ih =>
    cases layers with
    | nil => simp [read]
    | cons layer below => exact ih below

theorem unspentIn_read (depth : Nat) (layers : Layers ρ) :
    unspentIn (read o depth layers).result = shows (layers.drop depth) o := by
  rw [result_read_drop, shows]

theorem shows_root {store : ρ} : shows (.root store :: below) = storeShows store := rfl

theorem shows_relay {skip : Nat} : shows (.relay skip :: below) = shows (below.drop skip) := by
  funext o
  exact unspentIn_read skip below

theorem shows_guarded {skip : Nat} {guard : ReadGuard} :
    shows (.guarded skip guard :: below) = shows (below.drop skip) := by
  funext o
  rw [← unspentIn_read, shows, read]
  show unspentIn (guard.watch (read o skip below)).result = _
  rw [ReadGuard.watch]
  split
  · next fault failed =>
    rw [failed]
    show unspentIn (guard.meet fault).result = none
    rw [ReadGuard.meet]
    split <;> rfl
  · rfl

theorem shows_cached {skip : Nat} {cache : Cache} :
    shows (.cached skip cache :: below) = cache.entries.atop (shows (below.drop skip)) := by
  funext o
  rw [shows, read]
  cases found : cache.entries[o]? with
  | some entry => rw [Entries.atop_of_some found]; rfl
  | none => rw [Entries.atop_of_none found, ← unspentIn_read]; rfl

/-! ### Stacks with sound flags -/

/-- Layers each of which lies right on the next, down to a store with the given property. -/
inductive Stack (Proper : ρ → Prop) : Layers ρ → Prop
  | root {store : ρ} : Proper store → Stack Proper [.root store]
  | relay {below : Layers ρ} : Stack Proper below → Stack Proper (.relay 0 :: below)
  | guarded {below : Layers ρ} (guard : ReadGuard) : Stack Proper below → Stack Proper (.guarded 0 guard :: below)
  | cached {below : Layers ρ} (cache : Cache) : Stack Proper below → Stack Proper (.cached 0 cache :: below)

/-- The flags of a layer are sound over the layers that it reads. -/
def SoundOver : Layer ρ → Layers ρ → Prop
  | .cached skip cache, below => cache.entries.SoundOver (shows (below.drop skip))
  | _, _ => True

/-- The flags of all caches are sound. -/
def Sound : Layers ρ → Prop
  | [] => True
  | layer :: below => SoundOver layer below ∧ Sound below

/-- A stack with sound flags that shows a view. -/
structure Stands (Proper : ρ → Prop) (layers : Layers ρ) (view : Shown) : Prop where
  stack : Stack Proper layers
  sound : Sound layers
  shows : shows layers = view

namespace Stands

variable {Proper : ρ → Prop} {view : Shown}

theorem root {store : ρ} (proper : Proper store) : Stands Proper [.root store] (storeShows store) :=
  ⟨.root proper, ⟨trivial, trivial⟩, rfl⟩

theorem relay (stands : Stands Proper below view) : Stands Proper (.relay 0 :: below) view :=
  ⟨.relay stands.stack, ⟨trivial, stands.sound⟩, shows_relay.trans stands.shows⟩

theorem guarded (guard : ReadGuard) (stands : Stands Proper below view) :
    Stands Proper (.guarded 0 guard :: below) view :=
  ⟨.guarded guard stands.stack, ⟨trivial, stands.sound⟩, shows_guarded.trans stands.shows⟩

theorem cached (cache : Cache) (stands : Stands Proper below view) (sound : cache.entries.SoundOver view) :
    Stands Proper (.cached 0 cache :: below) (cache.entries.atop view) := by
  have same : Layers.shows below = view := stands.shows
  subst same
  exact ⟨.cached cache stands.stack, ⟨sound, stands.sound⟩, shows_cached⟩

end Stands

end Layers

end CoinLayers
