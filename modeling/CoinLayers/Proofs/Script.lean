import CoinLayers.Proofs.Course
import CoinLayers.Proofs.PlainMap

/-!
What is done with transactions, as calls to a cache.

To apply a transaction, or to look for its coins, is to make calls one after the other, each of which may
depend on the replies to those before it: a script (`Script`). Carried out at a cache, the script of such a
request is the same as the request (`apply_eq_run` and its siblings). A call leaves a cache a cache, so that
the script can go on.
-/
namespace CoinLayers

namespace Outcome

variable {σ α β γ : Type}

theorem andThen_map {x : Outcome σ α} {f : α → β} {next : β → σ → Outcome σ γ} :
    (x.map f).andThen next = x.andThen fun value state => next (f value) state := by
  obtain ⟨result, state, events⟩ := x
  cases result <;> rfl

theorem andThen_assoc {x : Outcome σ α} {f : α → σ → Outcome σ β} {g : β → σ → Outcome σ γ} :
    (x.andThen f).andThen g = x.andThen fun value state => (f value state).andThen g := by
  obtain ⟨result, state, events⟩ := x
  cases result with
  | error why => rfl
  | ok value =>
    simp only [andThen, after]
    cases (f value state).result <;> simp

/-- What is done next matters only after a success. -/
theorem andThen_congr {x : Outcome σ α} {f g : α → σ → Outcome σ β}
    (same : ∀ value, x.result = .ok value → f value x.state = g value x.state) : x.andThen f = x.andThen g := by
  obtain ⟨result, state, events⟩ := x
  cases result with
  | error why => rfl
  | ok value => exact congrArg (after events) (same value rfl)

theorem map_eq_andThen {x : Outcome σ α} {f : α → β} : x.map f = x.andThen fun value => done (f value) := by
  obtain ⟨result, state, events⟩ := x
  cases result with
  | error why => rfl
  | ok value => simp [map, andThen, done, after, Except.map]

theorem andThen_done {x : Outcome σ α} : (x.andThen fun value => done value) = x := by
  obtain ⟨result, state, events⟩ := x
  cases result with
  | error why => rfl
  | ok value => simp [andThen, done, after]

@[simp] theorem after_after {x : Outcome σ α} {first second : List Event} :
    (x.after second).after first = x.after (first ++ second) := by
  simp [after]

end Outcome

namespace Reply

/-- Whether a reply says yes. -/
def affirms : Reply → Bool
  | .truth held => held
  | _ => false

/-- The coin in a reply. -/
def found : Reply → Option Coin
  | .coin found => found
  | _ => none

/-- What a reply shows of a coin. -/
def seen : Reply → Sight
  | .sight seen => seen
  | _ => .nothing

end Reply

/-- Calls to one layer, each of which may depend on the replies to those before it, and the result at the end. -/
inductive Script (α : Type) where
  | ends (result : Except Failure α)
  | call (request : Request) (next : Reply → Script α)

namespace Script

variable {ρ α β : Type} [Backing ρ] {layers : Layers ρ} {depth : Nat}

/-- Carries out a script at the layer of the given depth. A call that fails ends it. -/
def run (depth : Nat) : Script α → Layers ρ → Outcome (Layers ρ) α
  | .ends result, layers => ⟨result, layers, []⟩
  | .call request next, layers =>
    (Layers.perform request depth layers).andThen fun reply layers => (next reply).run depth layers

/-- The calls made when a script is carried out. -/
def calls (depth : Nat) : Script α → Layers ρ → List Request
  | .ends _, _ => []
  | .call request next, layers =>
    request ::
      match (Layers.perform request depth layers).result with
      | .ok reply => (next reply).calls depth (Layers.perform request depth layers).state
      | .error _ => []

/-- One script and then another, which may depend on the result of the first. -/
def andThen : Script α → (α → Script β) → Script β
  | .ends (.ok value), next => next value
  | .ends (.error why), _ => .ends (.error why)
  | .call request next, last => .call request fun reply => (next reply).andThen last

def map (f : α → β) (script : Script α) : Script β :=
  script.andThen fun value => .ends (.ok (f value))

/-- All calls that a script may make have a property, whatever is replied to them. -/
def Makes (Fits : Request → Prop) : Script α → Prop
  | .ends _ => True
  | .call request next => Fits request ∧ ∀ reply, (next reply).Makes Fits

theorem run_andThen {script : Script α} {next : α → Script β} :
    (script.andThen next).run depth layers =
      (script.run depth layers).andThen fun value layers => (next value).run depth layers := by
  induction script generalizing layers with
  | ends result => cases result <;> rfl
  | call request replied ih =>
    rw [andThen, run, run, Outcome.andThen_assoc]
    exact Outcome.andThen_congr fun reply _ => ih reply

theorem run_map {script : Script α} {f : α → β} : (script.map f).run depth layers = (script.run depth layers).map f := by
  rw [map, run_andThen, Outcome.map_eq_andThen]
  rfl

theorem Makes.andThen {Fits : Request → Prop} {script : Script α} {next : α → Script β} (makes : script.Makes Fits)
    (last : ∀ value, (next value).Makes Fits) : (script.andThen next).Makes Fits := by
  induction script with
  | ends result =>
    cases result with
    | ok value => exact last value
    | error why => trivial
  | call request replied ih => exact ⟨makes.1, fun reply => ih reply (makes.2 reply)⟩

theorem Makes.map {Fits : Request → Prop} {script : Script α} {f : α → β} (makes : script.Makes Fits) :
    (script.map f).Makes Fits :=
  makes.andThen fun _ => trivial

theorem Makes.calls {Fits : Request → Prop} {script : Script α} (makes : script.Makes Fits) :
    ∀ request ∈ script.calls depth layers, Fits request := by
  induction script generalizing layers with
  | ends result => exact nofun
  | call request next ih =>
    rw [Script.calls, List.forall_mem_cons]
    refine ⟨makes.1, ?_⟩
    split
    · next reply _ => exact ih reply (makes.2 reply)
    · exact nofun

/-! ### The scripts of what is done with transactions -/

def holdsAll : List OutPoint → Script Bool
  | [] => .ends (.ok true)
  | o :: rest => .call (.holds o) fun reply => if reply.affirms then holdsAll rest else .ends (.ok false)

def hasInputs (tx : Transaction) : Script Bool :=
  if tx.isCoinbase then .ends (.ok true) else holdsAll tx.sources

def checkSources : (earlier sources : List OutPoint) → Script Unit
  | _, [] => .ends (.ok ())
  | earlier, o :: rest =>
    if earlier.contains o then .ends (.error (.fault (.missingInput o)))
    else
      .call (.holds o) fun reply =>
        if reply.affirms then checkSources (o :: earlier) rest else .ends (.error (.fault (.missingInput o)))

def spendSources : Undo → List OutPoint → Script Undo
  | undo, [] => .ends (.ok undo)
  | undo, o :: rest => .call (.spend o) fun reply =>
    match reply.found with
    | some coin =>
      if coin.isSpent then .ends (.error (.fault (.missingInput o))) else spendSources (undo.record o coin) rest
    | none => .ends (.error (.fault (.missingInput o)))

def spendInputs (tx : Transaction) : Script Undo :=
  if tx.isCoinbase then .ends (.ok .empty)
  else (checkSources [] tx.sources).andThen fun _ => spendSources .empty tx.sources

def addOutputsFrom (txid : Hash256) (height : UInt32) (isCoinbase checks : Bool) : Nat → List Output → Script Unit
  | _, [] => .ends (.ok ())
  | number, output :: rest =>
    let o := Transaction.place txid number
    let adding := fun allowed => Script.call (.add o (.ofOutput output height isCoinbase) allowed) fun _ =>
      addOutputsFrom txid height isCoinbase checks (number + 1) rest
    if checks then .call (.holds o) fun reply => adding reply.affirms else adding isCoinbase

def addOutputs (tx : Transaction) (height : UInt32) (checks : Bool) : Script Unit :=
  addOutputsFrom tx.txid height tx.isCoinbase checks 0 tx.outputs

def apply (tx : Transaction) (height : UInt32) : Script Undo :=
  (spendInputs tx).andThen fun undo => (addOutputs tx height false).map fun _ => undo

def firstUnspentFrom (txid : Hash256) : (count number : Nat) → Script Sight
  | 0, _ => .ends (.ok .nothing)
  | count + 1, number =>
    let look := Request.sight (Transaction.place txid number)
    .call look fun reply =>
      if reply.seen.coin.isSpent then firstUnspentFrom txid count (number + 1)
      else .call look fun again => .ends (.ok again.seen)

def firstUnspent (txid : Hash256) : Script Sight :=
  firstUnspentFrom txid Transaction.maxOutputs 0

/-- What is true of all calls that deal with one coin, as the scripts make them. -/
structure Suits (Fits : Request → Prop) : Prop where
  holds : ∀ o, Fits (.holds o)
  spend : ∀ o, Fits (.spend o)
  sight : ∀ o, Fits (.sight o)
  add : ∀ (o : OutPoint) (output : Output) (height : UInt32) (isCoinbase mayOverwrite : Bool),
    Fits (.add o (.ofOutput output height isCoinbase) mayOverwrite)

/-- Requests that transactions are dealt with: each is one call, and adds unspent coins only. -/
def Plain (request : Request) : Prop :=
  request.isCall = true ∧ request.AddsUnspent

theorem suits_plain : Suits Plain where
  holds _ := ⟨rfl, trivial⟩
  spend _ := ⟨rfl, trivial⟩
  sight _ := ⟨rfl, trivial⟩
  add _ _ _ _ _ := ⟨rfl, rfl⟩

section Makes

variable {Fits : Request → Prop} (suits : Suits Fits)
include suits

theorem makes_holdsAll (sources : List OutPoint) : (holdsAll sources).Makes Fits := by
  induction sources with
  | nil => trivial
  | cons o rest ih =>
    refine ⟨suits.holds o, fun reply => ?_⟩
    show Makes Fits (if reply.affirms then _ else _)
    split
    · exact ih
    · trivial

theorem makes_hasInputs (tx : Transaction) : (hasInputs tx).Makes Fits := by
  rw [hasInputs]
  split
  · trivial
  · exact makes_holdsAll suits tx.sources

theorem makes_checkSources (earlier sources : List OutPoint) : (checkSources earlier sources).Makes Fits := by
  induction sources generalizing earlier with
  | nil => trivial
  | cons o rest ih =>
    rw [checkSources]
    split
    · trivial
    · refine ⟨suits.holds o, fun reply => ?_⟩
      show Makes Fits (if reply.affirms then _ else _)
      split
      · exact ih (o :: earlier)
      · trivial

theorem makes_spendSources (undo : Undo) (sources : List OutPoint) : (spendSources undo sources).Makes Fits := by
  induction sources generalizing undo with
  | nil => trivial
  | cons o rest ih =>
    refine ⟨suits.spend o, fun reply => ?_⟩
    show Makes Fits (match reply.found with | some coin => if coin.isSpent then _ else _ | none => _)
    split
    · next coin _ =>
      split
      · trivial
      · exact ih (undo.record o coin)
    · trivial

theorem makes_spendInputs (tx : Transaction) : (spendInputs tx).Makes Fits := by
  rw [spendInputs]
  split
  · trivial
  · exact (makes_checkSources suits [] tx.sources).andThen fun _ => makes_spendSources suits .empty tx.sources

theorem makes_addOutputsFrom (txid : Hash256) (height : UInt32) (isCoinbase checks : Bool) (number : Nat)
    (outputs : List Output) : (addOutputsFrom txid height isCoinbase checks number outputs).Makes Fits := by
  induction outputs generalizing number with
  | nil => trivial
  | cons output rest ih =>
    rw [addOutputsFrom]
    split
    · exact ⟨suits.holds _, fun _ => ⟨suits.add .., fun _ => ih (number + 1)⟩⟩
    · exact ⟨suits.add .., fun _ => ih (number + 1)⟩

theorem makes_addOutputs (tx : Transaction) (height : UInt32) (checks : Bool) :
    (addOutputs tx height checks).Makes Fits :=
  makes_addOutputsFrom suits tx.txid height tx.isCoinbase checks 0 tx.outputs

theorem makes_apply (tx : Transaction) (height : UInt32) : (apply tx height).Makes Fits :=
  (makes_spendInputs suits tx).andThen fun _ => (makes_addOutputs suits tx height false).map

theorem makes_firstUnspentFrom (txid : Hash256) (count number : Nat) :
    (firstUnspentFrom txid count number).Makes Fits := by
  induction count generalizing number with
  | zero => trivial
  | succ count ih =>
    refine ⟨suits.sight _, fun reply => ?_⟩
    show Makes Fits (if reply.seen.coin.isSpent then _ else _)
    split
    · exact ih (number + 1)
    · exact ⟨suits.sight _, fun _ => trivial⟩

end Makes

/-! ### Requests are their scripts -/

/-- A cache is still one after a call. -/
theorem isSome_cacheAt?_perform (request : Request) (plain : Plain request)
    (there : (Layers.cacheAt? depth layers).isSome = true) :
    (Layers.cacheAt? depth (Layers.perform request depth layers).state).isSome = true := by
  obtain ⟨cache, here⟩ := Option.isSome_iff_exists.mp there
  obtain ⟨later, still, _⟩ :=
    Layers.course_of_call Layers.leaves_anything plain.1 plain.2 depth layers depth cache here
  exact Option.isSome_iff_exists.mpr ⟨later, still⟩

/-- A cache is still one after any plain calls. -/
theorem isSome_cacheAt?_run {script : Script α} (makes : script.Makes Plain)
    (there : (Layers.cacheAt? depth layers).isSome = true) :
    (Layers.cacheAt? depth (script.run depth layers).state).isSome = true := by
  induction script generalizing layers with
  | ends result => exact there
  | call request next ih =>
    have still := isSome_cacheAt?_perform request makes.1 there
    rw [run, Outcome.andThen]
    split
    · next reply _ => exact ih reply (makes.2 reply) still
    · exact still

theorem holdsAll_eq_run (sources : List OutPoint) (layers : Layers ρ) :
    Layers.holdsAll depth sources layers = (holdsAll sources).run depth layers := by
  induction sources generalizing layers with
  | nil => rfl
  | cons o rest ih =>
    rw [Layers.holdsAll, holdsAll, run, Layers.perform, Outcome.andThen_map]
    refine Outcome.andThen_congr fun found _ => ?_
    cases found with
    | true => exact ih _
    | false => rfl

theorem hasInputs_eq_run (tx : Transaction) (layers : Layers ρ) :
    Layers.hasInputs tx depth layers = (hasInputs tx).run depth layers := by
  rw [Layers.hasInputs, hasInputs]
  split
  · rfl
  · exact holdsAll_eq_run tx.sources layers

theorem checkSources_eq_run (earlier sources : List OutPoint) (layers : Layers ρ) :
    Layers.checkSources depth earlier sources layers = (checkSources earlier sources).run depth layers := by
  induction sources generalizing earlier layers with
  | nil => rfl
  | cons o rest ih =>
    rw [Layers.checkSources, checkSources]
    split
    · rfl
    · rw [run, Layers.perform, Outcome.andThen_map]
      refine Outcome.andThen_congr fun found _ => ?_
      cases found with
      | true => exact ih _ _
      | false => rfl

theorem spendSources_eq_run (undo : Undo) (sources : List OutPoint)
    (there : (Layers.cacheAt? depth layers).isSome = true) :
    Layers.spendSources depth undo sources layers = (spendSources undo sources).run depth layers := by
  induction sources generalizing undo layers with
  | nil => rfl
  | cons o rest ih =>
    have still := isSome_cacheAt?_perform (.spend o) ⟨rfl, trivial⟩ there
    rw [Layers.perform, Layers.ifCache_of_isSome there] at still
    rw [Layers.spendSources, spendSources, run, Layers.perform, Layers.ifCache_of_isSome there, Outcome.andThen_map]
    refine Outcome.andThen_congr fun found _ => ?_
    cases found with
    | none => rfl
    | some coin =>
      show (if coin.isSpent then _ else _) = run depth (if coin.isSpent then _ else _) _
      split
      · rfl
      · exact ih (undo.record o coin) still

theorem spendInputs_eq_run (tx : Transaction) (there : (Layers.cacheAt? depth layers).isSome = true) :
    Layers.spendInputs tx depth layers = (spendInputs tx).run depth layers := by
  rw [Layers.spendInputs, spendInputs]
  split
  · rfl
  · rw [run_andThen, checkSources_eq_run]
    refine Outcome.andThen_congr fun _ _ => ?_
    exact spendSources_eq_run .empty tx.sources (isSome_cacheAt?_run (makes_checkSources suits_plain [] tx.sources) there)

theorem addOutputsFrom_eq_run (txid : Hash256) (height : UInt32) (isCoinbase checks : Bool) (number : Nat)
    (outputs : List Output) (layers : Layers ρ) :
    Layers.addOutputsFrom txid height isCoinbase checks depth number outputs layers =
      (addOutputsFrom txid height isCoinbase checks number outputs).run depth layers := by
  induction outputs generalizing number layers with
  | nil => rfl
  | cons output rest ih =>
    have adding (allowed : Bool) (layers : Layers ρ) :
        ((Layers.add (Transaction.place txid number) (.ofOutput output height isCoinbase) allowed depth layers).andThen
          fun _ layers => Layers.addOutputsFrom txid height isCoinbase checks depth (number + 1) rest layers) =
        (Script.call (.add (Transaction.place txid number) (.ofOutput output height isCoinbase) allowed) fun _ =>
          addOutputsFrom txid height isCoinbase checks (number + 1) rest).run depth layers := by
      rw [run, Layers.perform, Outcome.andThen_map]
      exact Outcome.andThen_congr fun _ _ => ih (number + 1) _
    rw [Layers.addOutputsFrom, addOutputsFrom, Outcome.andThen_assoc]
    cases checks with
    | true =>
      show (Layers.holds _ depth layers).andThen _ = run depth (.call _ _) layers
      rw [run, Layers.perform, Outcome.andThen_map]
      exact Outcome.andThen_congr fun allowed _ => adding allowed _
    | false => exact adding isCoinbase layers

theorem addOutputs_eq_run (tx : Transaction) (height : UInt32) (checks : Bool) (layers : Layers ρ) :
    Layers.addOutputs tx height checks depth layers = (addOutputs tx height checks).run depth layers :=
  addOutputsFrom_eq_run tx.txid height tx.isCoinbase checks 0 tx.outputs layers

theorem apply_eq_run (tx : Transaction) (height : UInt32) (there : (Layers.cacheAt? depth layers).isSome = true) :
    Layers.apply tx height depth layers = (apply tx height).run depth layers := by
  rw [Layers.apply, apply, run_andThen, spendInputs_eq_run tx there]
  refine Outcome.andThen_congr fun undo _ => ?_
  rw [run_map, addOutputs_eq_run]

theorem firstUnspentFrom_eq_run (txid : Hash256) (count number : Nat) (said : List Event)
    (there : (Layers.cacheAt? depth layers).isSome = true) :
    Layers.firstUnspentFrom txid depth count number said layers =
      ((firstUnspentFrom txid count number).run depth layers).after said := by
  induction count generalizing number said layers with
  | zero => simp [Layers.firstUnspentFrom, firstUnspentFrom, run, Outcome.after]
  | succ count ih =>
    have look {layers : Layers ρ} (there : (Layers.cacheAt? depth layers).isSome = true) :
        Layers.perform (.sight (Transaction.place txid number)) depth layers =
          (Layers.sight (Transaction.place txid number) depth layers).map .sight := by
      rw [Layers.perform, Layers.ifCache_of_isSome there]
    have stays := isSome_cacheAt?_perform (.sight (Transaction.place txid number)) ⟨rfl, trivial⟩ there
    rw [look there] at stays
    rw [Layers.firstUnspentFrom, firstUnspentFrom, run, look there, Outcome.andThen_map]
    rcases found : Layers.sight (Transaction.place txid number) depth layers with ⟨_ | seen, lower, events⟩
    · simp [Outcome.andThen, Outcome.after]
    · rw [found] at stays
      have still : (Layers.cacheAt? depth lower).isSome = true := stays
      cases spent : seen.coin.isSpent with
      | true => simp [Outcome.andThen, Reply.seen, spent, ih (number + 1) (said ++ events) still]
      | false =>
        have again : (Script.call (.sight (Transaction.place txid number)) fun again => .ends (.ok again.seen)).run depth
            lower = Layers.sight (Transaction.place txid number) depth lower := by
          rw [run, look still, Outcome.andThen_map]
          exact Outcome.andThen_done
        have unspent : (Reply.sight seen).seen.coin.isSpent = false := spent
        simp [Outcome.andThen, spent, unspent, again]

end Script

end CoinLayers
