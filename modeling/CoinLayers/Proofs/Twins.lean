import Mathlib.Data.List.Forall2
import CoinLayers.Proofs.Guarding

/-!
Layers that nobody can tell apart.

Two rows of layers are twins if they differ at most in what their guards remember of the calls that they made, and in
stores that cannot be told apart (`Twins`). Every request but the one for those calls is answered alike by both, and
leaves twins (`perform_alike`), so that all replies along a run are the same (`conduct_alike`).
-/
namespace CoinLayers

variable {ρ σ τ α β : Type}

/-! ### Outcomes -/

/-- Outcomes with the same result and the same things said on the way, in related states. -/
structure Outcome.Alike (Rel : σ → τ → Prop) (x : Outcome σ α) (y : Outcome τ α) : Prop where
  result : y.result = x.result
  events : y.events = x.events
  state : Rel x.state y.state

namespace Outcome.Alike

variable {σ' τ' : Type} {Rel : σ → τ → Prop} {Next : σ' → τ' → Prop} {x : Outcome σ α} {y : Outcome τ α} {s : σ} {t : τ}

theorem done {value : α} (related : Rel s t) : Alike Rel (.done value s) (.done value t) :=
  ⟨rfl, rfl, related⟩

theorem failed {why : Failure} (related : Rel s t) : Alike Rel (.failed why s : Outcome σ α) (.failed why t) :=
  ⟨rfl, rfl, related⟩

theorem map (alike : Alike Rel x y) (f : α → β) : Alike Rel (x.map f) (y.map f) :=
  ⟨congrArg (Except.map f) alike.result, alike.events, alike.state⟩

theorem mapState (alike : Alike Rel x y) {f : σ → σ'} {g : τ → τ'} (keeps : ∀ {s t}, Rel s t → Next (f s) (g t)) :
    Alike Next (x.mapState f) (y.mapState g) :=
  ⟨alike.result, alike.events, keeps alike.state⟩

theorem settle (alike : Alike Rel x y) {f : Except Failure α → σ → σ'} {g : Except Failure α → τ → τ'}
    (keeps : ∀ {result s t}, Rel s t → Next (f result s) (g result t)) : Alike Next (x.settle f) (y.settle g) :=
  ⟨alike.result, alike.events, by rw [Outcome.settle, Outcome.settle, alike.result]; exact keeps alike.state⟩

theorem after (alike : Alike Rel x y) (said : List Event) : Alike Rel (x.after said) (y.after said) :=
  ⟨alike.result, congrArg (said ++ ·) alike.events, alike.state⟩

theorem andThen {f : α → σ → Outcome σ β} {g : α → τ → Outcome τ β} (alike : Alike Rel x y)
    (next : ∀ {value s t}, Rel s t → Alike Rel (f value s) (g value t)) : Alike Rel (x.andThen f) (y.andThen g) := by
  rw [Outcome.andThen, Outcome.andThen, alike.result, alike.events]
  cases x.result with
  | ok value => exact (next alike.state).after x.events
  | error why => exact ⟨rfl, rfl, alike.state⟩

end Outcome.Alike

/-! ### Guards -/

/-- Guards with equally many callers that both end the process or both do not. They may have made different calls. -/
def ReadGuard.SameRules (guard other : ReadGuard) : Prop :=
  other.callers = guard.callers ∧ other.aborts = guard.aborts

namespace ReadGuard.SameRules

variable {guard other : ReadGuard} {Rel : σ → τ → Prop} {x : Outcome σ α} {y : Outcome τ α}

theorem meet (same : guard.SameRules other) (fault : Fault) :
    (guard.meet fault : Outcome ReadGuard α).Alike SameRules (other.meet fault) := by
  rw [ReadGuard.meet, ReadGuard.meet, same.1, same.2]
  split
  · exact .failed same
  · exact ⟨rfl, rfl, rfl, rfl⟩

/-- They make the same of a read. -/
theorem watch (same : guard.SameRules other) (alike : x.Alike Rel y) :
    (guard.watch x).Alike (fun mine yours => mine.1.SameRules yours.1 ∧ Rel mine.2 yours.2) (other.watch y) := by
  rw [ReadGuard.watch, ReadGuard.watch, alike.result]
  split
  · next fault _ =>
    rw [alike.events]
    exact ((same.meet fault).mapState fun met => ⟨met, alike.state⟩).after x.events
  · exact alike.mapState fun related => ⟨same, related⟩

end ReadGuard.SameRules

/-! ### Twins -/

/-- Stores of which no question and no batch can tell which of the two it was put to. -/
structure Indistinct [Backing ρ] (Same : ρ → ρ → Prop) : Prop where
  read : ∀ (o : OutPoint) {s t : ρ}, Same s t →
    (Backing.read o t).1 = (Backing.read o s).1 ∧ Same (Backing.read o s).2 (Backing.read o t).2
  holds : ∀ (o : OutPoint) {s t : ρ}, Same s t →
    (Backing.holds o t).1 = (Backing.holds o s).1 ∧ Same (Backing.holds o s).2 (Backing.holds o t).2
  tip : ∀ {s t : ρ}, Same s t → (Backing.tip t).1 = (Backing.tip s).1 ∧ Same (Backing.tip s).2 (Backing.tip t).2
  heads : ∀ {s t : ρ}, Same s t → Backing.heads t = Backing.heads s
  write : ∀ (batch : Entries) (block : Hash256) {s t : ρ}, Same s t →
    (Backing.write batch block t).result = (Backing.write batch block s).result ∧
    (Backing.write batch block t).left = (Backing.write batch block s).left ∧
    (Backing.write batch block t).events = (Backing.write batch block s).events ∧
    Same (Backing.write batch block s).store (Backing.write batch block t).store
  scan : ∀ {s t : ρ}, Same s t → Backing.scan t = Backing.scan s
  sizeEstimate : ∀ {s t : ρ}, Same s t → Backing.sizeEstimate t = Backing.sizeEstimate s

/-- Layers that differ at most in related stores, or in the calls that a guard made. -/
inductive Layer.Twin (Same : ρ → ρ → Prop) : Layer ρ → Layer ρ → Prop
  | root {store other : ρ} : Same store other → Twin Same (.root store) (.root other)
  | relay (skip : Nat) : Twin Same (.relay skip) (.relay skip)
  | guarded (skip : Nat) {guard other : ReadGuard} :
      guard.SameRules other → Twin Same (.guarded skip guard) (.guarded skip other)
  | cached (skip : Nat) (cache : Cache) : Twin Same (.cached skip cache) (.cached skip cache)

namespace Layers

variable {Same : ρ → ρ → Prop} {layers others below lower : Layers ρ} {layer other : Layer ρ}

abbrev Twins (Same : ρ → ρ → Prop) : Layers ρ → Layers ρ → Prop :=
  List.Forall₂ (Layer.Twin Same)

/-- Layers above do not matter. -/
theorem alike_under {x y : Outcome (Layers ρ) α} (alike : x.Alike (Twins Same) y) (twin : Layer.Twin Same layer other) :
    (x.mapState (layer :: ·)).Alike (Twins Same) (y.mapState (other :: ·)) :=
  alike.mapState (.cons twin)

/-- What an operation makes of twins is related wherever it is carried out, if it is at the top. -/
theorem twins_at_depth (Rel : τ → τ → Prop) (op : Nat → Layers ρ → τ)
    (nothing : ∀ depth, Rel (op depth []) (op depth []))
    (under : ∀ {depth layer other below lower}, Layer.Twin Same layer other → Rel (op depth below) (op depth lower) →
      Rel (op (depth + 1) (layer :: below)) (op (depth + 1) (other :: lower)))
    (here : ∀ {layer other below lower}, Layer.Twin Same layer other → Twins Same below lower →
      (∀ depth, Rel (op depth below) (op depth lower)) → Rel (op 0 (layer :: below)) (op 0 (other :: lower)))
    (twins : Twins Same layers others) (depth : Nat) : Rel (op depth layers) (op depth others) := by
  induction twins generalizing depth with
  | nil => exact nothing depth
  | cons twin rest ih =>
    cases depth with
    | zero => exact here twin rest ih
    | succ depth => exact under twin (ih depth)

theorem cacheAt?_twins (twins : Twins Same layers others) (depth : Nat) :
    cacheAt? depth others = cacheAt? depth layers := by
  refine twins_at_depth (fun mine yours => yours = mine) cacheAt? (fun _ => rfl) (fun _ same => same)
    (fun twin _ _ => ?_) twins depth
  cases twin <;> rfl

/-- Twins stay twins under guards with the same rules. -/
theorem alike_watch {guard other : ReadGuard} {x y : Outcome (Layers ρ) α} (same : guard.SameRules other)
    (alike : x.Alike (Twins Same) y) (skip : Nat) :
    ((guard.watch x).mapState fun (guard, below) => Layer.guarded skip guard :: below).Alike (Twins Same)
      ((other.watch y).mapState fun (guard, below) => Layer.guarded skip guard :: below) :=
  (same.watch alike).mapState fun ⟨rules, lower⟩ => .cons (.guarded skip rules) lower

/-! ### What is done to caches and guards -/

theorem onCache_alike (change : Cache → Outcome Cache α) (twins : Twins Same layers others) (depth : Nat) :
    (onCache change depth layers).Alike (Twins Same) (onCache change depth others) := by
  refine twins_at_depth (Outcome.Alike (Twins Same)) (onCache change) (fun depth => ?_)
    (fun twin alike => alike_under alike twin) (fun twin rest lower => ?_) twins depth
  · cases depth <;> exact .failed .nil
  · cases twin with
    | root same => exact .failed (.cons (.root same) rest)
    | relay skip => exact .failed (.cons (.relay skip) rest)
    | guarded skip same => exact .failed (.cons (.guarded skip same) rest)
    | cached skip cache => exact ⟨rfl, rfl, .cons (.cached ..) rest⟩

theorem register_alike (twins : Twins Same layers others) (depth : Nat) :
    (onGuard (fun guard => ((), guard.register)) depth layers).Alike (Twins Same)
      (onGuard (fun guard => ((), guard.register)) depth others) := by
  refine twins_at_depth (Outcome.Alike (Twins Same)) (onGuard _) (fun depth => ?_)
    (fun twin alike => alike_under alike twin) (fun twin rest lower => ?_) twins depth
  · cases depth <;> exact .failed .nil
  · cases twin with
    | root same => exact .failed (.cons (.root same) rest)
    | relay skip => exact .failed (.cons (.relay skip) rest)
    | cached skip cache => exact .failed (.cons (.cached skip cache) rest)
    | guarded skip same => exact .done (.cons (.guarded skip ⟨congrArg (· + 1) same.1, same.2⟩) rest)

theorem rebase_alike (twins : Twins Same layers others) (skip depth : Nat) :
    (rebase skip depth layers).Alike (Twins Same) (rebase skip depth others) := by
  refine twins_at_depth (Outcome.Alike (Twins Same)) (rebase skip) (fun depth => ?_)
    (fun twin alike => alike_under alike twin) (fun twin rest lower => ?_) twins depth
  · cases depth <;> exact .failed .nil
  · cases twin with
    | root same => exact .failed (.cons (.root same) rest)
    | relay => exact .done (.cons (.relay skip) rest)
    | guarded _ same => exact .done (.cons (.guarded skip same) rest)
    | cached _ cache => exact .done (.cons (.cached skip cache) rest)

theorem ask_alike (question : Cache → α) (twins : Twins Same layers others) (depth : Nat) :
    (ask question depth layers).Alike (Twins Same) (ask question depth others) := by
  rw [ask, ask, cacheAt?_twins twins]
  cases cacheAt? depth layers with
  | none => exact .failed twins
  | some cache => exact .done twins

theorem ifCache_alike {op : Nat → Layers ρ → Outcome (Layers ρ) α}
    (alike : (op depth layers).Alike (Twins Same) (op depth others)) (twins : Twins Same layers others) :
    (ifCache op depth layers).Alike (Twins Same) (ifCache op depth others) := by
  rw [ifCache, ifCache, cacheAt?_twins twins]
  split
  · exact alike
  · exact .failed twins

/-! ### Reading -/

variable [Backing ρ]

theorem read_alike (laws : Indistinct Same) (twins : Twins Same layers others) (o : OutPoint) (depth : Nat) :
    (read o depth layers).Alike (Twins Same) (read o depth others) := by
  refine twins_at_depth (Outcome.Alike (Twins Same)) (read o) (fun depth => ?_)
    (fun twin alike => alike_under alike twin) (fun twin rest lower => ?_) twins depth
  · rw [read_nil]
    exact .done .nil
  · cases twin with
    | root same =>
      obtain ⟨answer, still⟩ := laws.read o same
      exact ⟨congrArg (Except.mapError Failure.fault) answer, rfl, .cons (.root still) rest⟩
    | relay skip => exact alike_under (lower skip) (.relay skip)
    | guarded skip same => exact alike_watch same (lower skip) skip
    | cached skip cache =>
      rw [read, read]
      cases cache.entries[o]? with
      | some entry => exact .done (.cons (.cached ..) rest)
      | none => exact (lower skip).settle (.cons (.cached ..))

theorem sight_alike (laws : Indistinct Same) (twins : Twins Same layers others) (o : OutPoint) (depth : Nat) :
    (sight o depth layers).Alike (Twins Same) (sight o depth others) :=
  (read_alike laws twins o depth).map _

theorem holds_alike (laws : Indistinct Same) (twins : Twins Same layers others) (o : OutPoint) (depth : Nat) :
    (holds o depth layers).Alike (Twins Same) (holds o depth others) := by
  refine twins_at_depth (Outcome.Alike (Twins Same)) (holds o) (fun depth => ?_)
    (fun twin alike => alike_under alike twin) (fun twin rest lower => ?_) twins depth
  · rw [holds_nil]
    exact .done .nil
  · cases twin with
    | root same =>
      obtain ⟨answer, still⟩ := laws.holds o same
      exact ⟨congrArg (Except.mapError Failure.fault) answer, rfl, .cons (.root still) rest⟩
    | relay skip => exact alike_under (lower skip) (.relay skip)
    | guarded skip same => exact alike_watch same (lower skip) skip
    | cached skip cache =>
      rw [holds, holds]
      cases cache.entries[o]? with
      | some entry => exact .done (.cons (.cached ..) rest)
      | none => exact ((read_alike laws rest o skip).settle (.cons (.cached ..))).map showsUnspent

theorem tip_alike (laws : Indistinct Same) (twins : Twins Same layers others) (depth : Nat) :
    (tip depth others).1 = (tip depth layers).1 ∧ Twins Same (tip depth layers).2 (tip depth others).2 := by
  refine twins_at_depth (fun mine yours => yours.1 = mine.1 ∧ Twins Same mine.2 yours.2) tip (fun depth => ?_)
    (fun twin => And.imp_right (.cons twin)) (fun twin rest lower => ?_) twins depth
  · rw [tip_nil]
    exact ⟨rfl, .nil⟩
  · cases twin with
    | root same =>
      obtain ⟨answer, still⟩ := laws.tip same
      exact ⟨answer, .cons (.root still) rest⟩
    | relay skip => exact (lower skip).imp_right (.cons (.relay skip))
    | guarded skip same => exact (lower skip).imp_right (.cons (.guarded skip same))
    | cached skip cache =>
      rw [tip, tip]
      split
      · exact ⟨rfl, .cons (.cached ..) rest⟩
      · obtain ⟨found, still⟩ := lower skip
        show (tip skip _).1 = (tip skip _).1 ∧ Twins Same (_ :: _) (_ :: _)
        rw [found]
        exact ⟨rfl, .cons (.cached ..) still⟩

theorem heads_alike (laws : Indistinct Same) (twins : Twins Same layers others) (depth : Nat) :
    heads depth others = heads depth layers := by
  refine twins_at_depth (fun mine yours => yours = mine) heads (fun _ => rfl) (fun _ same => same)
    (fun twin _ lower => ?_) twins depth
  cases twin with
  | root same => exact laws.heads same
  | relay skip | guarded skip _ | cached skip _ => exact lower skip

theorem scan_alike (laws : Indistinct Same) (twins : Twins Same layers others) (depth : Nat) :
    scan depth others = scan depth layers := by
  refine twins_at_depth (fun mine yours => yours = mine) scan (fun _ => rfl) (fun _ same => same)
    (fun twin _ lower => ?_) twins depth
  cases twin with
  | root same => exact laws.scan same
  | relay skip | guarded skip _ => exact lower skip
  | cached => rfl

theorem sizeEstimate_alike (laws : Indistinct Same) (twins : Twins Same layers others) (depth : Nat) :
    sizeEstimate depth others = sizeEstimate depth layers := by
  refine twins_at_depth (fun mine yours => yours = mine) sizeEstimate (fun _ => rfl) (fun _ same => same)
    (fun twin _ lower => ?_) twins depth
  cases twin with
  | root same => exact laws.sizeEstimate same
  | relay skip | guarded skip _ | cached skip _ => exact lower skip

/-! ### Writing -/

/-- What is left of a batch, with twins. -/
abbrev SameLeft (Same : ρ → ρ → Prop) (mine yours : Entries × Layers ρ) : Prop :=
  yours.1 = mine.1 ∧ Twins Same mine.2 yours.2

theorem write_alike (laws : Indistinct Same) (twins : Twins Same layers others) (batch : Entries) (block : Hash256)
    (depth : Nat) : (write batch block depth layers).Alike (SameLeft Same) (write batch block depth others) := by
  refine twins_at_depth (Outcome.Alike (SameLeft Same)) (write batch block) (fun depth => ?_)
    (fun twin alike => alike.mapState (And.imp_right (.cons twin))) (fun twin rest lower => ?_) twins depth
  · cases depth <;> exact .failed ⟨rfl, .nil⟩
  · cases twin with
    | root same =>
      obtain ⟨result, left, events, still⟩ := laws.write batch block same
      exact ⟨congrArg (Except.mapError Failure.fault) result, events, left, .cons (.root still) rest⟩
    | relay skip => exact (lower skip).mapState (And.imp_right (.cons (.relay skip)))
    | guarded skip same => exact (lower skip).mapState (And.imp_right (.cons (.guarded skip same)))
    | cached skip cache => exact ⟨rfl, rfl, rfl, .cons (.cached ..) rest⟩

theorem spend_alike (laws : Indistinct Same) (twins : Twins Same layers others) (o : OutPoint) (depth : Nat) :
    (spend o depth layers).Alike (Twins Same) (spend o depth others) := by
  refine (read_alike laws twins o depth).andThen fun {found _ _} still => ?_
  cases found with
  | none => exact .done still
  | some coin => exact onCache_alike _ still depth

theorem writeReply_alike (laws : Indistinct Same) (twins : Twins Same layers others) (batch : Entries) (block : Hash256)
    (depth : Nat) : (writeReply batch block depth layers).Alike (Twins Same) (writeReply batch block depth others) := by
  obtain ⟨result, events, left, still⟩ := write_alike laws twins batch block depth
  refine ⟨?_, events, still⟩
  rw [writeReply, writeReply, result, left]

theorem tipOf_alike (laws : Indistinct Same) (twins : Twins Same below lower) (cache : Cache) (skip : Nat) :
    (tipOf cache skip lower).1 = (tipOf cache skip below).1 ∧
      Twins Same (tipOf cache skip below).2 (tipOf cache skip lower).2 := by
  rw [tipOf, tipOf]
  split
  · exact ⟨rfl, twins⟩
  · exact tip_alike laws twins skip

theorem flush_alike (laws : Indistinct Same) (twins : Twins Same layers others) (depth : Nat) :
    (flush depth layers).Alike (Twins Same) (flush depth others) := by
  refine twins_at_depth (Outcome.Alike (Twins Same)) flush (fun depth => ?_) (fun twin alike => alike_under alike twin)
    (fun {_ _ below _} twin rest _ => ?_) twins depth
  · cases depth <;> exact .failed .nil
  · cases twin with
    | root same => exact .failed (.cons (.root same) rest)
    | relay skip => exact .failed (.cons (.relay skip) rest)
    | guarded skip same => exact .failed (.cons (.guarded skip same) rest)
    | cached skip cache =>
      obtain ⟨block, asked⟩ := tipOf_alike laws rest cache skip
      rw [flush_cached, flush_cached, block]
      obtain ⟨result, events, left, still⟩ :=
        write_alike laws asked cache.entries (tipOf cache skip below).1 skip
      rw [concludeFlush, concludeFlush, result, left, events]
      split
      · exact ⟨rfl, rfl, .cons (.cached ..) still⟩
      · exact ⟨rfl, rfl, .cons (.cached ..) still⟩

end Layers

/-! ### Requests -/

/-- Requests for the calls that a guard made. -/
def Request.recalls : Request → Bool
  | .calls => true
  | _ => false

/-- Calls that get the same reply from twins. -/
def Request.Blind (request : Request) : Prop :=
  request.isCall = true ∧ request.recalls = false

theorem Script.suits_blind : Script.Suits Request.Blind :=
  ⟨fun _ => ⟨rfl, rfl⟩, fun _ => ⟨rfl, rfl⟩, fun _ => ⟨rfl, rfl⟩, fun _ _ _ _ _ => ⟨rfl, rfl⟩⟩

namespace Layers

variable [Backing ρ] {Same : ρ → ρ → Prop} {layers others : Layers ρ} {request : Request}

private theorem call_alike (laws : Indistinct Same) (twins : Twins Same layers others) (blind : request.Blind)
    (depth : Nat) : (perform request depth layers).Alike (Twins Same) (perform request depth others) := by
  obtain ⟨isCall, recalls⟩ := blind
  cases request with
  | read o => exact (read_alike laws twins o depth).map Reply.coin
  | holds o => exact (holds_alike laws twins o depth).map Reply.truth
  | tip =>
    obtain ⟨answer, still⟩ := tip_alike laws twins depth
    rw [perform, perform, answer]
    exact .done still
  | heads =>
    rw [perform, perform, heads_alike laws twins]
    exact .done twins
  | scan =>
    rw [perform, perform, scan_alike laws twins]
    exact .done twins
  | sizeEstimate =>
    rw [perform, perform, sizeEstimate_alike laws twins]
    exact .done twins
  | write batch block => exact writeReply_alike laws twins batch block depth
  | rebase skip => exact (rebase_alike twins skip depth).map _
  | sight o => exact (ifCache_alike (sight_alike laws twins o depth) twins).map Reply.sight
  | spend o => exact (ifCache_alike (spend_alike laws twins o depth) twins).map Reply.coin
  | merge batch block => exact ifCache_alike (writeReply_alike laws twins batch block depth) twins
  | flush => exact (flush_alike laws twins depth).map _
  | add | uncache | setTip | check => exact (onCache_alike _ twins depth).map _
  | cached | memoryUsage | size | entry | stats | budget => exact (ask_alike _ twins depth).map _
  | register => exact (register_alike twins depth).map _
  | calls => cases recalls
  | addOutputs | hasInputs | firstUnspent | spendInputs | apply => cases isCall

private theorem run_alike (laws : Indistinct Same) {script : Script α} (blind : script.Makes Request.Blind)
    (depth : Nat) (twins : Twins Same layers others) : (script.run depth layers).Alike (Twins Same) (script.run depth others) := by
  induction script generalizing layers others with
  | ends result => exact ⟨rfl, rfl, twins⟩
  | call request next ih =>
    exact (call_alike laws twins blind.1 depth).andThen fun {reply _ _} => ih reply (blind.2 reply)

/-- Twins answer alike, and stay twins. -/
theorem perform_alike (laws : Indistinct Same) (twins : Twins Same layers others) (recalls : request.recalls = false)
    (depth : Nat) : (perform request depth layers).Alike (Twins Same) (perform request depth others) := by
  have taken : takes request depth others = takes request depth layers := by
    rw [takes, takes, cacheAt?_twins twins]
  cases takes : takes request depth layers with
  | true =>
    rw [perform_eq_run takes, perform_eq_run (taken.trans takes)]
    exact run_alike laws (Request.makes_script Script.suits_blind fun isCall => ⟨isCall, recalls⟩) depth twins
  | false =>
    rw [perform_eq_failed takes, perform_eq_failed (taken.trans takes)]
    exact .failed twins

/-- So they do along a run. -/
theorem conduct_alike (laws : Indistinct Same) {requests : List (Nat × Request)}
    (recalls : ∀ asked ∈ requests, asked.2.recalls = false) (twins : Twins Same layers others) :
    (conduct requests others).1 = (conduct requests layers).1 := by
  induction requests generalizing layers others with
  | nil => rfl
  | cons asked rest ih =>
    obtain ⟨depth, request⟩ := asked
    obtain ⟨first, later⟩ := List.forall_mem_cons.mp recalls
    have alike : (perform request depth layers).Alike (Twins Same) (perform request depth others) :=
      perform_alike laws twins first depth
    rw [conduct, conduct, alike.result]
    split
    · rfl
    · exact congrArg (_ :: ·) (ih later alike.state)

end Layers

end CoinLayers
