import CoinLayers.Proofs.Accounts
import CoinLayers.Proofs.Quiet

/-!
Properties of single caches, carried through the operations of layers. An operation comes to a cache only to
use an entry, to keep a coin that it read, to merge a batch, to empty the cache or to give back what a write
left over. A property that survives each of these (`Cache.Lasting`) is still one of every cache after any
operation at any layer (`everyCache_read` and its siblings).
-/
namespace CoinLayers

/-- Properties that a cache keeps in all that layers do to it on their own. -/
structure Cache.Lasting (Holds : Cache → Prop) : Prop where
  touch : ∀ (cache : Cache) (o : OutPoint), Holds cache → o ∈ cache.entries → Holds (cache.touch o)
  load : ∀ (cache : Cache) (o : OutPoint) (coin : Coin), Holds cache → cache.entries[o]? = none →
    Holds (cache.load o coin)
  spend : ∀ (cache : Cache) (o : OutPoint), Holds cache → Holds (cache.spend o).2
  merge : ∀ (cache : Cache) (batch : Entries) (block : Hash256), Holds cache →
    Holds (cache.merge batch block).state.2
  stand : ∀ (cache : Cache) (block : Hash256), Holds cache → Holds { cache with tip := some block }
  emptied : ∀ cache : Cache, Holds cache → Holds cache.emptied
  recover : ∀ (cache : Cache) (left : Entries), Holds cache → Holds (cache.recover left)

theorem Cache.lasting_balanced : Cache.Lasting Cache.Balanced where
  touch _ _ balanced _ := balanced.touch
  load _ _ _ balanced _ := balanced.load
  spend _ _ balanced := balanced.spend
  merge cache batch _ balanced := balanced.mergeInOrder (cache.drained batch)
  stand _ _ balanced := balanced
  emptied _ balanced := balanced.emptied
  recover _ left balanced := balanced.recover left

namespace Layers

variable {ρ α : Type} {Holds : Cache → Prop} {layer : Layer ρ} {layers below : Layers ρ} {o : OutPoint} {depth : Nat}

/-- Every cache among the layers has a property. -/
def EveryCache (Holds : Cache → Prop) (layers : Layers ρ) : Prop :=
  ∀ skip cache, Layer.cached skip cache ∈ layers → Holds cache

theorem everyCache_nil : EveryCache Holds ([] : Layers ρ) := by
  simp [EveryCache]

theorem everyCache_cons :
    EveryCache Holds (layer :: below) ↔
      (∀ skip cache, layer = .cached skip cache → Holds cache) ∧ EveryCache Holds below := by
  simp only [EveryCache, List.mem_cons]
  constructor
  · intro all
    exact ⟨fun skip cache same => all skip cache (.inl same.symm), fun skip cache member => all skip cache (.inr member)⟩
  · rintro ⟨first, rest⟩ skip cache (same | member)
    · exact first skip cache same.symm
    · exact rest skip cache member

theorem everyCache_cached {skip : Nat} {cache : Cache} :
    EveryCache Holds (.cached skip cache :: below) ↔ Holds cache ∧ EveryCache Holds below := by
  rw [everyCache_cons]
  constructor
  · rintro ⟨first, rest⟩
    exact ⟨first skip cache rfl, rest⟩
  · rintro ⟨first, rest⟩
    refine ⟨?_, rest⟩
    rintro _ _ ⟨⟩
    exact first

theorem everyCache_of_noCache (noCache : ∀ skip cache, layer ≠ .cached skip cache) :
    EveryCache Holds (layer :: below) ↔ EveryCache Holds below := by
  rw [everyCache_cons]
  exact and_iff_right fun skip cache same => absurd same (noCache skip cache)

@[simp] theorem everyCache_root {store : ρ} : EveryCache Holds (.root store :: below) ↔ EveryCache Holds below :=
  everyCache_of_noCache nofun

@[simp] theorem everyCache_relay {skip : Nat} : EveryCache Holds (.relay skip :: below) ↔ EveryCache Holds below :=
  everyCache_of_noCache nofun

@[simp] theorem everyCache_guarded {skip : Nat} {guard : ReadGuard} :
    EveryCache Holds (.guarded skip guard :: below) ↔ EveryCache Holds below :=
  everyCache_of_noCache nofun

/-- A property that survives an operation at the top of any layers, given that it survives the operation
    anywhere below, survives it everywhere. -/
theorem everyCache_at_depth (op : Nat → Layers ρ → Layers ρ)
    (descends : ∀ depth layer below, op (depth + 1) (layer :: below) = layer :: op depth below)
    (nothing : ∀ depth, op depth [] = [])
    (here : ∀ {layer : Layer ρ} {below : Layers ρ}, EveryCache Holds (layer :: below) →
      (∀ depth, EveryCache Holds (op depth below)) → EveryCache Holds (op 0 (layer :: below)))
    (every : EveryCache Holds layers) (depth : Nat) : EveryCache Holds (op depth layers) :=
  related_at_depth (fun before after => EveryCache Holds before → EveryCache Holds after) id
    (fun _ _ _ kept every => everyCache_cons.mpr ((everyCache_cons.mp every).imp_right kept)) op descends nothing
    (fun _ _ lower every => here every fun depth => lower depth (everyCache_cons.mp every).2) depth layers every

theorem everyCache_onCache (change : Cache → Outcome Cache α)
    (lasts : ∀ cache, Holds cache → Holds (change cache).state) (every : EveryCache Holds layers) (depth : Nat) :
    EveryCache Holds (onCache change depth layers).state := by
  refine everyCache_at_depth (fun depth layers => (onCache change depth layers).state) (fun _ _ _ => rfl) ?_
    (fun {layer below} every _ => ?_) every depth
  · intro depth
    cases depth <;> rfl
  · cases layer with
    | root | relay | guarded => exact every
    | cached skip cache =>
      obtain ⟨first, rest⟩ := everyCache_cached.mp every
      exact everyCache_cached.mpr ⟨lasts cache first, rest⟩

variable [Backing ρ]

theorem survives_everyCache (lasting : Cache.Lasting Holds) (o : OutPoint) :
    SurvivesReads (ρ := ρ) o fun before after => EveryCache Holds before → EveryCache Holds after where
  empty := id
  under _ _ _ kept every := everyCache_cons.mpr ((everyCache_cons.mp every).imp_right kept)
  root _ _ every := everyCache_root.mpr (everyCache_root.mp every)
  guarded _ _ _ _ _ kept every := everyCache_guarded.mpr (kept (everyCache_guarded.mp every))
  touched skip cache below there every := by
    obtain ⟨first, rest⟩ := everyCache_cached.mp every
    exact everyCache_cached.mpr ⟨lasting.touch cache o first there, rest⟩
  learned skip cache below missing kept every := by
    obtain ⟨first, rest⟩ := everyCache_cached.mp every
    refine everyCache_cached.mpr ⟨?_, kept rest⟩
    match (read o skip below).result with
    | .ok (some coin) => exact lasting.load cache o coin first missing
    | .ok none => exact first
    | .error why => exact first

theorem everyCache_read (lasting : Cache.Lasting Holds) (every : EveryCache Holds layers) (o : OutPoint) (depth : Nat) :
    EveryCache Holds (read o depth layers).state :=
  (survives_everyCache lasting o).read depth layers every

theorem everyCache_holds (lasting : Cache.Lasting Holds) (every : EveryCache Holds layers) (o : OutPoint) (depth : Nat) :
    EveryCache Holds (holds o depth layers).state :=
  (survives_everyCache lasting o).holds (fun _ _ every => everyCache_root.mpr (everyCache_root.mp every))
    depth layers every

theorem everyCache_tip (lasting : Cache.Lasting Holds) (every : EveryCache Holds layers) (depth : Nat) :
    EveryCache Holds (tip depth layers).2 := by
  refine everyCache_at_depth (fun depth layers => (tip depth layers).2) (fun _ _ _ => rfl)
    (fun depth => congrArg _ (tip_nil depth)) (fun {layer below} every lower => ?_) every depth
  cases layer with
  | root store => exact everyCache_root.mpr (everyCache_root.mp every)
  | relay skip => exact everyCache_relay.mpr (lower skip)
  | guarded skip guard => exact everyCache_guarded.mpr (lower skip)
  | cached skip cache =>
    show EveryCache Holds (tip 0 (.cached skip cache :: below)).2
    rw [tip]
    split
    · exact every
    · exact everyCache_cached.mpr ⟨lasting.stand cache _ (everyCache_cached.mp every).1, lower skip⟩

theorem everyCache_write (lasting : Cache.Lasting Holds) (every : EveryCache Holds layers) (batch : Entries)
    (block : Hash256) (depth : Nat) : EveryCache Holds (write batch block depth layers).state.2 := by
  refine everyCache_at_depth (fun depth layers => (write batch block depth layers).state.2) (fun _ _ _ => rfl) ?_
    (fun {layer below} every lower => ?_) every depth
  · intro depth
    cases depth <;> rfl
  · cases layer with
    | root store => exact everyCache_root.mpr (everyCache_root.mp every)
    | relay skip => exact everyCache_relay.mpr (lower skip)
    | guarded skip guard => exact everyCache_guarded.mpr (lower skip)
    | cached skip cache =>
      obtain ⟨first, rest⟩ := everyCache_cached.mp every
      exact everyCache_cached.mpr ⟨lasting.merge cache batch block first, rest⟩

theorem everyCache_flush (lasting : Cache.Lasting Holds) (every : EveryCache Holds layers) (depth : Nat) :
    EveryCache Holds (flush depth layers).state := by
  refine everyCache_at_depth (fun depth layers => (flush depth layers).state) (fun _ _ _ => rfl) ?_
    (fun {layer below} every _ => ?_) every depth
  · intro depth
    cases depth <;> rfl
  · cases layer with
    | root | relay | guarded => exact every
    | cached skip cache =>
      obtain ⟨first, rest⟩ := everyCache_cached.mp every
      have asked : EveryCache Holds (tipOf cache skip below).2 := by
        rw [tipOf]
        split
        · exact rest
        · exact everyCache_tip lasting rest skip
      have standing := lasting.stand cache (tipOf cache skip below).1 first
      have lower := everyCache_write lasting asked cache.entries (tipOf cache skip below).1 skip
      show EveryCache Holds (concludeFlush { cache with tip := some (tipOf cache skip below).1 }
        (tipOf cache skip below).1 skip _).state
      rw [concludeFlush]
      split
      · exact everyCache_cached.mpr ⟨lasting.emptied _ standing, lower⟩
      · exact everyCache_cached.mpr ⟨lasting.recover _ _ standing, lower⟩

theorem everyCache_spend (lasting : Cache.Lasting Holds) (every : EveryCache Holds layers) (o : OutPoint) (depth : Nat) :
    EveryCache Holds (spend o depth layers).state := by
  have afterRead := everyCache_read lasting every o depth
  rw [spend, Outcome.andThen]
  split
  · next found _ =>
    cases found with
    | none => exact afterRead
    | some coin => exact everyCache_onCache _ (fun cache here => lasting.spend cache o here) afterRead depth
  · exact afterRead

end Layers

end CoinLayers
