import CoinLayers.Proofs.Run

/-!
The shape of layers: what each layer is, and on which it lies, whatever it holds.

Only a rebase changes the shape (`shape_perform`). All else may change what caches, guards and stores hold, whether
it succeeds or fails, so that a stack stays a stack along a run (`Stack.perform`).
-/
namespace CoinLayers

variable {ρ α : Type}

/-- What a layer is, and how many layers below it it skips. -/
inductive Layer.Shape where
  | root
  | relay (skip : Nat)
  | guarded (skip : Nat)
  | cached (skip : Nat)

def Layer.shape : Layer ρ → Layer.Shape
  | .root _ => .root
  | .relay skip => .relay skip
  | .guarded skip _ => .guarded skip
  | .cached skip _ => .cached skip

/-- Requests that put a layer on top of another one. -/
def Request.rebases : Request → Bool
  | .rebase _ => true
  | _ => false

/-- Calls that leave every layer where it is. -/
def Request.Stays (request : Request) : Prop :=
  request.rebases = false ∧ request.isCall = true

theorem Script.suits_stays : Script.Suits Request.Stays :=
  ⟨fun _ => ⟨rfl, rfl⟩, fun _ => ⟨rfl, rfl⟩, fun _ => ⟨rfl, rfl⟩, fun _ _ _ _ _ => ⟨rfl, rfl⟩⟩

namespace Layers

variable {layers below lower : Layers ρ} {layer later : Layer ρ} {o : OutPoint} {depth : Nat}

def shape (layers : Layers ρ) : List Layer.Shape :=
  layers.map Layer.shape

theorem shape_cons (same : later.shape = layer.shape) (kept : shape lower = shape below) :
    shape (later :: lower) = shape (layer :: below) := by
  show later.shape :: shape lower = layer.shape :: shape below
  rw [same, kept]

theorem length_of_shape (same : shape lower = shape layers) : lower.length = layers.length := by
  simpa [shape] using congrArg List.length same

/-- The stores of which nothing is known. -/
abbrev Any : ρ → Prop := fun _ => True

/-- A stack is known by its shape. -/
theorem Stack.of_shape (stack : Stack Any layers) (same : shape lower = shape layers) : Stack Any lower := by
  induction stack generalizing lower with
  | root =>
    match lower, same with
    | [.root _], _ => exact .root trivial
  | relay _ ih =>
    match lower, same with
    | .relay 0 :: rest, same => exact .relay (ih (List.cons.inj same).2)
  | guarded _ _ ih =>
    match lower, same with
    | .guarded 0 guard :: rest, same => exact .guarded guard (ih (List.cons.inj same).2)
  | cached _ _ ih =>
    match lower, same with
    | .cached 0 cache :: rest, same => exact .cached cache (ih (List.cons.inj same).2)

theorem Stack.drop {Proper : ρ → Prop} (stack : Stack Proper layers) (inside : layers.drop depth ≠ []) :
    Stack Proper (layers.drop depth) := by
  induction stack generalizing depth with
  | root proper =>
    cases depth with
    | zero => exact .root proper
    | succ depth => exact absurd (by simp) inside
  | relay stack ih =>
    cases depth with
    | zero => exact .relay stack
    | succ depth => exact ih inside
  | guarded guard stack ih =>
    cases depth with
    | zero => exact .guarded guard stack
    | succ depth => exact ih inside
  | cached cache stack ih =>
    cases depth with
    | zero => exact .cached cache stack
    | succ depth => exact ih inside

theorem shape_drop : shape (layers.drop depth) = (shape layers).drop depth :=
  List.map_drop

/-! ### Operations -/

/-- The shape is kept everywhere if it is kept at the top. -/
theorem shape_at_depth (op : Nat → Layers ρ → Layers ρ)
    (descends : ∀ depth layer below, op (depth + 1) (layer :: below) = layer :: op depth below)
    (nothing : ∀ depth, op depth [] = [])
    (here : ∀ (layer : Layer ρ) (below : Layers ρ), (∀ depth, shape (op depth below) = shape below) →
      shape (op 0 (layer :: below)) = shape (layer :: below))
    (depth : Nat) (layers : Layers ρ) : shape (op depth layers) = shape layers :=
  related_at_depth (fun before after => shape after = shape before) rfl (fun _ _ _ kept => shape_cons rfl kept)
    op descends nothing here depth layers

theorem shape_onCache {change : Cache → Outcome Cache α} (depth : Nat) (layers : Layers ρ) :
    shape (onCache change depth layers).state = shape layers := by
  refine shape_at_depth (fun depth layers => (onCache change depth layers).state) (fun _ _ _ => rfl) ?_
    (fun layer below _ => ?_) depth layers
  · intro depth
    cases depth <;> rfl
  · cases layer <;> rfl

theorem shape_onGuard {change : ReadGuard → α × ReadGuard} (depth : Nat) (layers : Layers ρ) :
    shape (onGuard change depth layers).state = shape layers := by
  refine shape_at_depth (fun depth layers => (onGuard change depth layers).state) (fun _ _ _ => rfl) ?_
    (fun layer below _ => ?_) depth layers
  · intro depth
    cases depth <;> rfl
  · cases layer <;> rfl

theorem shape_ifCache {op : Nat → Layers ρ → Outcome (Layers ρ) α}
    (kept : shape (op depth layers).state = shape layers) : shape (ifCache op depth layers).state = shape layers := by
  rw [ifCache]
  split
  · exact kept
  · rfl

variable [Backing ρ]

theorem survives_shape : SurvivesReads (ρ := ρ) o fun before after => shape after = shape before where
  empty := rfl
  under _ _ _ kept := shape_cons rfl kept
  root _ _ := rfl
  guarded _ _ _ _ _ kept := shape_cons rfl kept
  touched _ _ _ _ := rfl
  learned _ _ _ _ kept := shape_cons rfl kept

theorem shape_read (o : OutPoint) (depth : Nat) (layers : Layers ρ) :
    shape (read o depth layers).state = shape layers :=
  survives_shape.read depth layers

theorem shape_holds (o : OutPoint) (depth : Nat) (layers : Layers ρ) :
    shape (holds o depth layers).state = shape layers :=
  survives_shape.holds (fun _ _ => rfl) depth layers

theorem shape_spend (o : OutPoint) (depth : Nat) (layers : Layers ρ) :
    shape (spend o depth layers).state = shape layers := by
  rw [spend, Outcome.andThen]
  split
  · next found _ =>
    cases found with
    | none => exact shape_read o depth layers
    | some coin => exact (shape_onCache depth _).trans (shape_read o depth layers)
  · exact shape_read o depth layers

theorem shape_tip (depth : Nat) (layers : Layers ρ) : shape (tip depth layers).2 = shape layers := by
  refine shape_at_depth (fun depth layers => (tip depth layers).2) (fun _ _ _ => rfl)
    (fun depth => congrArg _ (tip_nil depth)) (fun layer below lower => ?_) depth layers
  cases layer with
  | root store => exact shape_cons rfl rfl
  | relay skip | guarded skip guard => exact shape_cons rfl (lower skip)
  | cached skip cache =>
    show shape (tip 0 (.cached skip cache :: below)).2 = _
    rw [tip]
    split
    · rfl
    · exact shape_cons rfl (lower skip)

theorem shape_write (batch : Entries) (block : Hash256) (depth : Nat) (layers : Layers ρ) :
    shape (write batch block depth layers).state.2 = shape layers := by
  refine shape_at_depth (fun depth layers => (write batch block depth layers).state.2) (fun _ _ _ => rfl) ?_
    (fun layer below lower => ?_) depth layers
  · intro depth
    cases depth <;> rfl
  · cases layer with
    | root store | cached skip cache => exact shape_cons rfl rfl
    | relay skip | guarded skip guard => exact shape_cons rfl (lower skip)

theorem shape_tipOf (cache : Cache) (skip : Nat) (below : Layers ρ) :
    shape (tipOf cache skip below).2 = shape below := by
  rw [tipOf]
  split
  · rfl
  · exact shape_tip skip below

/-- A flush hands down all entries of the cache. -/
theorem flush_cached {skip : Nat} {cache : Cache} : flush 0 (.cached skip cache :: below) =
    concludeFlush { cache with tip := some (tipOf cache skip below).1 } (tipOf cache skip below).1 skip
      (write cache.entries (tipOf cache skip below).1 skip (tipOf cache skip below).2) :=
  rfl

theorem shape_flush (depth : Nat) (layers : Layers ρ) : shape (flush depth layers).state = shape layers := by
  refine shape_at_depth (fun depth layers => (flush depth layers).state) (fun _ _ _ => rfl) ?_
    (fun layer below _ => ?_) depth layers
  · intro depth
    cases depth <;> rfl
  · cases layer with
    | root | relay | guarded => rfl
    | cached skip cache =>
      have written := (shape_write cache.entries (tipOf cache skip below).1 skip (tipOf cache skip below).2).trans
        (shape_tipOf cache skip below)
      show shape (flush 0 (.cached skip cache :: below)).state = _
      rw [flush_cached, concludeFlush]
      split
      · exact shape_cons rfl written
      · exact shape_cons rfl written

/-! ### Requests -/

private theorem shape_call {request : Request} (stays : request.Stays) (depth : Nat) (layers : Layers ρ) :
    shape (perform request depth layers).state = shape layers := by
  obtain ⟨stays, isCall⟩ := stays
  cases request with
  | read o => exact shape_read o depth layers
  | holds o => exact shape_holds o depth layers
  | tip => exact shape_tip depth layers
  | heads | scan | sizeEstimate => rfl
  | write batch block => exact shape_write batch block depth layers
  | rebase => cases stays
  | sight o =>
    have kept : shape (sight o depth layers).state = shape layers := shape_read o depth layers
    exact shape_ifCache kept
  | spend o =>
    have kept : shape (spend o depth layers).state = shape layers := shape_spend o depth layers
    exact shape_ifCache kept
  | merge batch block => exact shape_ifCache (shape_write batch block depth layers)
  | flush => exact shape_flush depth layers
  | add | uncache | setTip | check =>
    rw [perform, Outcome.map]
    exact shape_onCache depth layers
  | cached | memoryUsage | size | entry | stats | budget =>
    rw [perform, Outcome.map, state_ask]
  | register | calls =>
    rw [perform, Outcome.map]
    exact shape_onGuard depth layers
  | addOutputs | hasInputs | firstUnspent | spendInputs | apply => cases isCall

/-- Layers keep their shape whatever is requested, unless it is to rebase a layer. -/
theorem shape_after {requests : List (Nat × Request)} (stays : ∀ asked ∈ requests, asked.2.rebases = false)
    (layers : Layers ρ) : shape (after requests layers) = shape layers := by
  refine kept_after (fun later => shape later = shape layers) Script.suits_stays
    (fun depth stays same => (shape_call stays depth _).trans same)
    (fun asked member isCall => ⟨stays asked member, isCall⟩) rfl

theorem shape_perform {request : Request} (stays : request.rebases = false) (depth : Nat) (layers : Layers ρ) :
    shape (perform request depth layers).state = shape layers :=
  have alone : ∀ asked ∈ [(depth, request)], asked.2.rebases = false := List.forall_mem_singleton.mpr stays
  shape_after alone layers

/-- A stack stays one. -/
theorem Stack.perform {request : Request} (stack : Stack Any layers) (stays : request.rebases = false) (depth : Nat) :
    Stack Any (perform request depth layers).state :=
  stack.of_shape (shape_perform stays depth layers)

end Layers

end CoinLayers
