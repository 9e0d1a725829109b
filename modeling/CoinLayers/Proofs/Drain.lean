import CoinLayers.Proofs.Change

/-!
Draining a stack: every cache is flushed into the layer below it, from the top down. Over a dependable store
this succeeds, and then the store alone shows what the stack showed before (`drain_stands`).
-/
namespace CoinLayers.Layers

variable {ρ : Type} [Backing ρ] {Proper : ρ → Prop} {layers below : Layers ρ} {depth : Nat}

/-- Flushes the caches among the layers at the given depths, one after the other. -/
def flushEach : List Nat → Layers ρ → Outcome (Layers ρ) Unit
  | [], layers => .done () layers
  | depth :: rest, layers =>
    (if (cacheAt? depth layers).isSome then flush depth layers else .done () layers).andThen fun _ layers =>
      flushEach rest layers

/-- Flushes every cache into the layer below it, from the top down. -/
def drain (layers : Layers ρ) : Outcome (Layers ρ) Unit :=
  flushEach (List.range layers.length) layers

/-- The store that the layers rest on. -/
def root? : Layers ρ → Option ρ
  | [] => none
  | [.root store] => some store
  | _ :: below => root? below

omit [Backing ρ] in
theorem uncovered_of_noCache (uncovered : Uncovered depth layers) (noCache : cacheAt? depth layers = none) :
    Uncovered (depth + 1) layers := by
  induction layers generalizing depth with
  | nil => simp [Uncovered, everyCache_nil]
  | cons layer below ih =>
    cases depth with
    | zero =>
      rw [uncovered_succ]
      refine ⟨?_, uncovered_zero⟩
      rintro skip cache rfl
      cases noCache
    | succ depth =>
      obtain ⟨first, rest⟩ := uncovered_succ.mp uncovered
      exact uncovered_succ.mpr ⟨first, ih rest noCache⟩

/-- A cache that was flushed is left without entries, like those above it. -/
theorem uncovered_flush (flushed : (flush depth layers).result = .ok ()) (uncovered : Uncovered depth layers) :
    Uncovered (depth + 1) (flush depth layers).state := by
  induction layers generalizing depth with
  | nil => cases depth <;> cases flushed
  | cons layer below ih =>
    cases depth with
    | succ depth =>
      obtain ⟨bare, rest⟩ := uncovered_succ.mp uncovered
      exact uncovered_succ.mpr ⟨bare, ih flushed rest⟩
    | zero =>
      cases layer with
      | root | relay | guarded => cases flushed
      | cached skip cache =>
        simp only [flush, concludeFlush] at flushed ⊢
        split at flushed
        · refine uncovered_succ.mpr ⟨?_, uncovered_zero⟩
          rintro skip other same
          cases same
          rfl
        · cases flushed

private theorem flushEach_stands (laws : Dependable Proper) (count : Nat) (stack : Stack Proper layers)
    (sound : Sound layers) (uncovered : Uncovered depth layers) :
    (flushEach (List.range' depth count) layers).result = .ok () ∧
      Stands Proper (flushEach (List.range' depth count) layers).state (shows layers) ∧
      Uncovered (depth + count) (flushEach (List.range' depth count) layers).state ∧
      (flushEach (List.range' depth count) layers).state.length = layers.length := by
  induction count generalizing depth layers with
  | zero => exact ⟨rfl, ⟨stack, sound, rfl⟩, uncovered, rfl⟩
  | succ count ih =>
    rw [List.range'_succ, flushEach]
    cases acting : cacheAt? depth layers with
    | none =>
      have next := @ih layers (depth + 1) stack sound (uncovered_of_noCache uncovered acting)
      rw [Nat.add_right_comm, Nat.add_assoc] at next
      simpa [Outcome.andThen, Outcome.done, Outcome.after] using next
    | some cache =>
      obtain ⟨ok, stands, uncovers, length⟩ := flush_stands laws stack sound acting
      have next := ih stands.stack stands.sound (uncovers uncovered)
      rw [Nat.add_right_comm, Nat.add_assoc, length, stands.shows] at next
      simpa [Outcome.andThen, ok, Outcome.after] using next

/-- With all caches empty the view is that of the store at the bottom. -/
theorem root?_of_stack (stack : Stack Proper layers) : ∃ store, root? layers = some store ∧ Proper store ∧
    (Uncovered layers.length layers → shows layers = storeShows store) := by
  induction stack with
  | @root store proper => exact ⟨store, rfl, proper, fun _ => rfl⟩
  | relay _ ih =>
    obtain ⟨store, found, proper, seen⟩ := ih
    refine ⟨store, found, proper, fun uncovered => ?_⟩
    rw [shows_relay, List.drop_zero]
    exact seen (uncovered_succ.mp uncovered).2
  | guarded _ _ ih =>
    obtain ⟨store, found, proper, seen⟩ := ih
    refine ⟨store, found, proper, fun uncovered => ?_⟩
    rw [shows_guarded, List.drop_zero]
    exact seen (uncovered_succ.mp uncovered).2
  | cached cache _ ih =>
    obtain ⟨store, found, proper, seen⟩ := ih
    refine ⟨store, found, proper, fun uncovered => ?_⟩
    obtain ⟨empty, rest⟩ := uncovered_succ.mp uncovered
    rw [shows_cached, List.drop_zero, empty 0 cache rfl, Entries.atop_empty]
    exact seen rest

/-- A stack can be drained, and then all that it showed is in the store. -/
theorem drain_stands (laws : Dependable Proper) (stack : Stack Proper layers) (sound : Sound layers) :
    (drain layers).result = .ok () ∧ Uncovered (drain layers).state.length (drain layers).state ∧
      ∃ store, root? (drain layers).state = some store ∧ Proper store ∧ storeShows store = shows layers := by
  obtain ⟨ok, stands, uncovered, length⟩ := flushEach_stands laws layers.length stack sound uncovered_zero
  rw [← List.range_eq_range'] at ok stands uncovered length
  have all : Uncovered (drain layers).state.length (drain layers).state := by
    rw [show (drain layers).state.length = 0 + layers.length from length.trans (Nat.zero_add _).symm]
    exact uncovered
  obtain ⟨store, found, proper, seen⟩ := root?_of_stack stands.stack
  exact ⟨ok, all, store, found, proper, (seen all).symm.trans stands.shows⟩

/-- A flush of a cache right on a store in memory writes its entries there, whatever their flags. -/
theorem flush_onto_memory (cache : Cache) (memory : MemoryStore) :
    (flush 0 [.cached 0 cache, .root memory]).result = .ok () ∧
    ∃ store, root? (flush 0 [.cached 0 cache, .root memory]).state = some store ∧
      ∀ o, store.coins[o]? = cache.entries.patch (fun o => memory.coins[o]?) o := by
  rw [flush, tipOf]
  cases cache.tip with
  | some known => exact ⟨rfl, _, rfl, fun _ => MemoryStore.getElem?_write⟩
  | none => exact ⟨rfl, _, rfl, fun _ => MemoryStore.getElem?_write⟩

end CoinLayers.Layers
