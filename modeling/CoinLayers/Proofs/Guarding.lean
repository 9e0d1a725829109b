import CoinLayers.ScriptedStore
import CoinLayers.Proofs.Seamless

/-!
Guards: what is promised of a chain of layers with guards in it.

A coin that cannot be read is never taken for an absent one, and the failure is told once: by the lowest guard, to all
its callers (`Reports`). Where everything can be read, a guard makes no difference (`unreadable_reported`).
-/
namespace CoinLayers.Layers

variable {ρ : Type} [Backing ρ] {layers : Layers ρ} {gone : Layer ρ} {place depth : Nat} {request : Request} {fault : Fault}
  {higher : List ReadGuard} {lowest : ReadGuard}

/-- Carries out requests one after the other. When the process ends, those that remain are not made. -/
def conduct : List (Nat × Request) → Layers ρ → List (Except Failure Reply) × Layers ρ
  | [], layers => ([], layers)
  | (depth, request) :: rest, layers =>
    let made := perform request depth layers
    match made.result with
    | .error .aborted => ([.error .aborted], made.state)
    | result => (conduct rest made.state).map (result :: ·) id

/-- No read of a store fails while the requests are carried out. -/
def Unfailing : List (Nat × Request) → Layers ρ → Prop
  | [], _ => True
  | (depth, request) :: rest, layers => fault? request depth layers = none ∧ Unfailing rest (perform request depth layers).state

/-- What becomes of a request that meets a fault under some guards. -/
structure Reports (fault : Fault) (higher : List ReadGuard) (lowest : ReadGuard) (request : Request) (depth : Nat)
    (layers : Layers ρ) : Prop where
  /-- A fatal fault comes up as it is, and nobody is called. -/
  fatal : fault.isFatal = true →
    (perform request depth layers).result = .error (.fault fault) ∧ guards (perform request depth layers).state = guards layers
  /-- Of any other the callers of the lowest guard are told, each of them once and in order, and nobody else. -/
  told : fault.isFatal = false →
    guards (perform request depth layers).state =
      higher ++ [{ lowest with calls := lowest.calls ++ List.range lowest.callers }]
  /-- Then the process ends, if the guard is meant to end it. -/
  ends : fault.isFatal = false → lowest.aborts = true → ∀ later,
    conduct ((depth, request) :: later) layers = ([.error .aborted], (perform request depth layers).state)
  /-- Otherwise the request fails with a fatal fault, which carries the message of the first one. -/
  fails : fault.isFatal = false → lowest.aborts = false →
    (perform request depth layers).result = .error (.fault (.unrecoverableRead fault.message)) ∧
      (Fault.unrecoverableRead fault.message).isFatal = true

theorem Breaks.reports (breaks : Breaks fault (guards layers) (perform request depth layers))
    (last : guards layers = higher ++ [lowest]) : Reports fault higher lowest request depth layers := by
  obtain ⟨failed, told⟩ := breaks.judged higher lowest last
  rw [ReadGuard.verdict] at failed
  rw [ReadGuard.told] at told
  constructor
  · intro fatal
    rw [if_pos fatal] at failed told
    exact ⟨failed, told.trans last.symm⟩
  · intro nonfatal
    rwa [nonfatal] at told
  · intro nonfatal aborts later
    have ended : (perform request depth layers).result = .error .aborted := by simpa [nonfatal, aborts] using failed
    rw [conduct, ended]
  · intro nonfatal survives
    exact ⟨by simpa [nonfatal, survives] using failed, rfl⟩

/-- Where no read fails nobody notices a layer that hands on everything. -/
theorem conduct_seam (handsOn : gone.HandsOn) {requests : List (Nat × Request)} (stack : Stack Any layers)
    (inside : place < layers.length) (stays : ∀ asked ∈ requests, asked.2.rebases = false)
    (unfailing : Unfailing requests layers) :
    conduct (requests.map (·.map (past place) id)) (layers.insertIdx place gone) =
      (conduct requests layers).map id (·.insertIdx place gone) := by
  induction requests generalizing layers with
  | nil => rfl
  | cons asked rest ih =>
    obtain ⟨depth, request⟩ := asked
    obtain ⟨first, others⟩ := List.forall_mem_cons.mp stays
    obtain ⟨fine, later⟩ := unfailing
    have same := shape_perform first depth layers
    have next := ih (stack.of_shape same) (by rwa [length_of_shape same]) others later
    show conduct ((past place depth, request) :: rest.map (·.map (past place) id)) (layers.insertIdx place gone) = _
    rw [conduct, conduct, perform_seam handsOn first stack inside fine]
    show (match (perform request depth layers).result with | .error .aborted => _ | result => _) = _
    split
    · rfl
    · next alive =>
      show Prod.map _ _ (conduct _ ((perform request depth layers).state.insertIdx place gone)) = _
      rw [next]
      rfl

/-- Let some layers be stacked over a store, among them a guard. A request to that guard or to a layer above it that
    needs a read which fails is reported as a failure, once. And where no read fails along a run, a relay or another
    guard could be put in anywhere above the store, or left out: the same requests to the other layers get the same
    replies, and leave the same layers behind. -/
theorem unreadable_reported (stack : Stack Any layers) :
    (∀ higher lowest, guards layers = higher ++ [lowest] → ∀ depth, guards (layers.drop depth) ≠ [] →
      ∀ request fault, fault? request depth layers = some fault → Reports fault higher lowest request depth layers) ∧
    ∀ (gone : Layer ρ) (place : Nat) (requests : List (Nat × Request)), gone.HandsOn → place < layers.length →
      (∀ asked ∈ requests, asked.2.rebases = false) → Unfailing requests layers →
      conduct (requests.map (·.map (past place) id)) (layers.insertIdx place gone) =
        ((conduct requests layers).1, (conduct requests layers).2.insertIdx place gone) :=
  ⟨fun _ _ last _ watched _ _ met => (perform_breaks stack watched met).reports last,
    fun _ _ _ handsOn inside stays unfailing => conduct_seam handsOn stack inside stays unfailing⟩

/-- A cache with two guards below, the lower one with two callers, over a store that has one coin and cannot read
    another. -/
def brokenDisk (aborts : Bool) : Layers ScriptedStore :=
  [.cached 0 (.empty .standard), .guarded 0 ⟨1, true, []⟩, .guarded 0 ⟨2, aborts, []⟩,
    .root ⟨.oneCoin, [(⟨.zero, 1⟩, .io "corrupted block file")], [], false, [], [], 0⟩]

/-- A spend of the coin that cannot be read fails, or ends the process, and both callers of the lower guard are told.
    The other coin can be spent, and a relay in between would not be noticed. -/
theorem brokenDisk_reported :
    (∀ aborts, Stack Any (brokenDisk aborts) ∧
      guards (perform (.spend ⟨.zero, 1⟩) 0 (brokenDisk aborts)).state = [⟨1, true, []⟩, ⟨2, aborts, [0, 1]⟩]) ∧
    (perform (.spend ⟨.zero, 1⟩) 0 (brokenDisk false)).result =
      .error (.fault (.unrecoverableRead "IO error: corrupted block file")) ∧
    conduct [(0, .spend ⟨.zero, 1⟩), (0, .flush)] (brokenDisk true) =
      ([.error .aborted], (perform (.spend ⟨.zero, 1⟩) 0 (brokenDisk true)).state) ∧
    Unfailing [(0, .spend ⟨.zero, 0⟩), (0, .flush)] (brokenDisk true) ∧
    conduct [(0, .spend ⟨.zero, 0⟩), (0, .flush)] ((brokenDisk true).insertIdx 1 (.relay 0)) =
      ((conduct [(0, .spend ⟨.zero, 0⟩), (0, .flush)] (brokenDisk true)).1,
        (conduct [(0, .spend ⟨.zero, 0⟩), (0, .flush)] (brokenDisk true)).2.insertIdx 1 (.relay 0)) := by
  have stack (aborts : Bool) : Stack Any (brokenDisk aborts) := .cached _ (.guarded _ (.guarded _ (.root trivial)))
  have reported (aborts : Bool) : Reports (.io "corrupted block file") [⟨1, true, []⟩] ⟨2, aborts, []⟩ (.spend ⟨.zero, 1⟩) 0
      (brokenDisk aborts) :=
    (unreadable_reported (stack aborts)).1 _ _ rfl 0 (List.cons_ne_nil _ _) _ _ rfl
  have unfailing : Unfailing [(0, .spend ⟨.zero, 0⟩), (0, .flush)] (brokenDisk true) := ⟨rfl, rfl, trivial⟩
  exact ⟨fun aborts => ⟨stack aborts, (reported aborts).told rfl⟩, ((reported false).fails rfl rfl).1,
    (reported true).ends rfl rfl _, unfailing,
    (unreadable_reported (stack true)).2 (.relay 0) 1 _ .relay (by decide) (by simp [Request.rebases]) unfailing⟩

end CoinLayers.Layers
