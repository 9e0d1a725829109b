import CoinLayers.ScriptedStore
import CoinLayers.Proofs.Records
import CoinLayers.Proofs.Tips

/-!
How a cache comes to the block that it stands at.

In a run a cache may be given blocks, by whoever sets one or by the batches merged into it, and it may be asked for its
block. All of that is in its history (`history`). The last block given is the one it stands at; without any, it stands
at the block where the layer below stood when it was first asked (`tip_after`).
-/
namespace CoinLayers

variable {ρ α : Type}

/-- What a cache hears of blocks. -/
inductive Mark where
  | given (block : Hash256)
  /-- The cache is asked for its block, or flushed. The layer below stands at the given one. -/
  | asked (below : Hash256)

namespace Mark

def given? : Mark → Option Hash256
  | given block => some block
  | asked _ => none

def asked? : Mark → Option Hash256
  | given _ => none
  | asked below => some below

/-- The block that a new cache stands at: the last one given, or else the one below when it was first asked. -/
def standing (marks : List Mark) : Option Hash256 :=
  (marks.filterMap given?).getLast?.or (marks.filterMap asked?).head?

/-- The block that a cache stands at after one more mark. -/
def heed (known : Option Hash256) : Mark → Option Hash256
  | given block => some block
  | asked below => known.or (some below)

theorem foldl_heed (marks : List Mark) (known : Option Hash256) :
    marks.foldl heed known = (marks.filterMap given?).getLast?.or (known.or (marks.filterMap asked?).head?) := by
  induction marks generalizing known with
  | nil => simp
  | cons mark rest ih =>
    rw [List.foldl_cons, ih]
    cases mark with
    | given block => cases last : (rest.filterMap given?).getLast? <;> simp [heed, given?, List.getLast?_cons, last]
    | asked below => simp [heed, given?, asked?]

theorem foldl_heed_none (marks : List Mark) : marks.foldl heed none = standing marks := by
  rw [foldl_heed, Option.none_or, standing]

end Mark

namespace Layers

variable {layers below lower : Layers ρ} {layer : Layer ρ} {place depth : Nat} {cache : Cache} {batch : Entries}
  {block : Hash256}

/-- What the cache at a place knows of its block. -/
def tipAt? (place : Nat) (layers : Layers ρ) : Option (Option Hash256) :=
  (cacheAt? place layers).map (·.tip)

/-- Whether a batch written at a depth comes to the cache at a place: all layers but caches and stores hand it on. -/
def receives : (place depth : Nat) → Layers ρ → Bool
  | _, _, [] => false
  | place + 1, depth + 1, _ :: below => receives place depth below
  | 0, _ + 1, _ :: _ => false
  | 0, 0, layer :: below => (cacheAt? 0 (layer :: below)).isSome
  | place + 1, 0, .relay skip :: below => receives place skip below
  | place + 1, 0, .guarded skip _ :: below => receives place skip below
  | _ + 1, 0, .root _ :: _ => false
  | _ + 1, 0, .cached _ _ :: _ => false

/-- Whether the layer at a place is asked for its block when the one at a depth is: all layers but stores hand the
    question on, and caches only as long as they do not know their own block. -/
def reaches : (place depth : Nat) → Layers ρ → Bool
  | _, _, [] => false
  | place + 1, depth + 1, _ :: below => reaches place depth below
  | 0, depth, _ :: _ => depth == 0
  | place + 1, 0, .relay skip :: below => reaches place skip below
  | place + 1, 0, .guarded skip _ :: below => reaches place skip below
  | place + 1, 0, .cached skip cache :: below => cache.tip.isNone && reaches place skip below
  | _ + 1, 0, .root _ :: _ => false

variable [Backing ρ]

/-- What the cache at a place hears when the layer at a depth is asked for its block. -/
def heard (place depth : Nat) (layers : Layers ρ) : List Mark :=
  if reaches place depth layers then [.asked (tip (place + 1) layers).1] else []

/-- What the cache at a place hears when a batch is written at a depth. -/
def delivered (place depth : Nat) (layers : Layers ρ) (block : Hash256) (written : Except Failure α) : List Mark :=
  if receives place depth layers && written.isOk then [.given block] else []

/-- What the cache at a place hears of blocks in a request to the layer of the given depth. A cache that is flushed
    stands at its own block first, as if it was asked, and then hands it down with its entries. -/
def marks (place depth : Nat) (layers : Layers ρ) : Request → List Mark
  | .tip => heard place depth layers
  | .setTip block => if place = depth then [.given block] else []
  | .write batch block => delivered place depth layers block (write batch block depth layers).result
  | .merge batch block =>
    if (cacheAt? depth layers).isSome then delivered place depth layers block (write batch block depth layers).result else []
  | .flush =>
    if (cacheAt? depth layers).isSome then
      heard place depth layers ++ delivered place (depth + 1) layers (tip depth layers).1 (flush depth layers).result
    else []
  | _ => []

/-- What the cache at a place hears of blocks in a run. -/
def history (place : Nat) : List (Nat × Request) → Layers ρ → List Mark
  | [], _ => []
  | (depth, request) :: rest, layers =>
    marks place depth layers request ++ history place rest (perform request depth layers).state

/-- What the cache at a place knows of its block afterwards is what it heard of it. -/
def Heeds (before after : Layers ρ) (place : Nat) (marks : List Mark) : Prop :=
  tipAt? place after = (tipAt? place before).map fun known => marks.foldl Mark.heed known

omit [Backing ρ] in
theorem Heeds.nil {before after : Layers ρ} (same : tipAt? place after = tipAt? place before) :
    Heeds before after place [] := by
  rw [Heeds, same]
  exact Option.map_id'.symm

omit [Backing ρ] in
theorem Heeds.trans {before between after : Layers ρ} {early late : List Mark} (first : Heeds before between place early)
    (second : Heeds between after place late) : Heeds before after place (early ++ late) := by
  rw [Heeds, second, first, Option.map_map]
  exact congrArg (Option.map · _) (funext fun known => List.foldl_append.symm)

omit [Backing ρ] in
theorem tipAt?_root {store : ρ} : tipAt? place [.root store] = none := by
  cases place with
  | zero => rfl
  | succ place => rw [tipAt?, cacheAt?, cacheAt?_nil]; rfl

omit [Backing ρ] in
theorem heeds_root {store later : ρ} {marks : List Mark} : Heeds [.root store] [.root later] place marks := by
  rw [Heeds, tipAt?_root, tipAt?_root]
  rfl

theorem heeds_tip (stack : Stack Any layers) : Heeds layers (tip depth layers).2 place (heard place depth layers) := by
  induction stack generalizing place depth with
  | root =>
    cases depth with
    | zero => exact heeds_root
    | succ depth =>
      rw [tip, tip_nil]
      exact heeds_root
  | relay _ ih | guarded _ _ ih =>
    cases place with
    | zero => cases depth <;> rfl
    | succ place => cases depth <;> exact ih
  | @cached below cache _ ih =>
    cases depth with
    | succ depth =>
      cases place with
      | zero => exact .nil rfl
      | succ place => exact ih
    | zero =>
      cases place with
      | zero =>
        show tipAt? 0 (tip 0 (.cached 0 cache :: below)).2 = some (cache.tip.or (some (tip 0 below).1))
        rw [tip]
        split <;> simp [tipAt?, cacheAt?, *]
      | succ place =>
        cases known : cache.tip with
        | some block =>
          have silent : heard (place + 1) 0 (.cached 0 cache :: below) = [] := by simp [heard, reaches, known]
          rw [silent, tip, known]
          exact .nil rfl
        | none =>
          have passed : heard (place + 1) 0 (.cached 0 cache :: below) = heard place 0 below := by
            simp [heard, reaches, known, tip]
          rw [passed, tip, known]
          exact ih

theorem heeds_write (stack : Stack Any layers) : Heeds layers (write batch block depth layers).state.2 place
    (delivered place depth layers block (write batch block depth layers).result) := by
  induction stack generalizing place depth with
  | root =>
    cases depth with
    | zero => exact heeds_root
    | succ depth => cases depth <;> exact heeds_root
  | relay _ ih | guarded _ _ ih =>
    cases place with
    | zero => cases depth <;> rfl
    | succ place => cases depth <;> exact ih
  | @cached below cache _ ih =>
    cases depth with
    | succ depth =>
      cases place with
      | zero => exact .nil rfl
      | succ place => exact ih
    | zero =>
      cases place with
      | succ place => exact .nil rfl
      | zero =>
        show some (cache.merge batch block).state.2.tip =
          some ((delivered 0 0 (.cached 0 cache :: below) block (cache.merge batch block).result).foldl Mark.heed cache.tip)
        cases merged : (cache.merge batch block).result with
        | ok => rw [Cache.tip_merge_of_ok merged]; rfl
        | error why => rw [Cache.tip_merge_of_error merged]; rfl

theorem heeds_tipOf (stack : Stack Any below) : Heeds below (tipOf cache 0 below).2 place
    (if cache.tip.isNone then heard place 0 below else []) := by
  rw [tipOf]
  cases cache.tip with
  | some known => exact .nil rfl
  | none => exact heeds_tip stack

omit [Backing ρ] in
theorem cacheAt?_isSome_of_shape (same : shape lower = shape layers) :
    (cacheAt? depth lower).isSome = (cacheAt? depth layers).isSome := by
  induction layers generalizing lower depth with
  | nil =>
    obtain rfl : lower = [] := List.map_eq_nil_iff.mp same
    rfl
  | cons layer below ih =>
    cases lower with
    | nil => cases same
    | cons later rest =>
      obtain ⟨first, others⟩ := List.cons.inj same
      cases depth with
      | succ depth => exact ih others
      | zero => cases layer <;> cases later <;> first | rfl | cases first

omit [Backing ρ] in
/-- What a batch comes to is a matter of the shape. -/
theorem receives_of_shape (same : shape lower = shape layers) : receives place depth lower = receives place depth layers := by
  induction layers generalizing lower place depth with
  | nil =>
    obtain rfl : lower = [] := List.map_eq_nil_iff.mp same
    rfl
  | cons layer below ih =>
    cases lower with
    | nil => cases same
    | cons later rest =>
      obtain ⟨first, others⟩ := List.cons.inj same
      cases place with
      | zero =>
        cases depth with
        | zero => exact cacheAt?_isSome_of_shape same
        | succ depth => rfl
      | succ place =>
        cases depth with
        | succ depth => exact ih others
        | zero =>
          cases layer <;> cases later <;> first | cases first; exact ih others | cases first; rfl | cases first

omit [Backing ρ] in
/-- A flush ends as the write does, and leaves the cache at its block. -/
theorem concludeFlush_stands {skip : Nat} {written : Outcome (Entries × Layers ρ) Unit} :
    (concludeFlush cache block skip written).result = written.result ∧
      ∃ later, (concludeFlush cache block skip written).state = .cached skip later :: written.state.2 ∧
        later.tip = cache.tip := by
  rw [concludeFlush]
  cases written.result with
  | ok => exact ⟨rfl, _, rfl, rfl⟩
  | error why => exact ⟨rfl, _, rfl, rfl⟩

theorem heeds_flush (stack : Stack Any layers) :
    Heeds layers (flush depth layers).state place (marks place depth layers .flush) := by
  induction stack generalizing place depth with
  | root =>
    cases depth with
    | zero => exact heeds_root
    | succ depth => cases depth <;> exact heeds_root
  | relay _ ih | guarded _ _ ih =>
    cases place with
    | zero => cases depth <;> rfl
    | succ place =>
      cases depth with
      | zero => exact .nil rfl
      | succ depth => exact ih
  | @cached below cache stack ih =>
    cases depth with
    | succ depth =>
      cases place with
      | succ place => exact ih
      | zero =>
        have silent : marks 0 (depth + 1) (.cached 0 cache :: below) .flush = [] := by
          rw [marks]
          split <;> rfl
        rw [silent]
        exact .nil rfl
    | zero =>
      obtain ⟨result, later, state, stands⟩ := @concludeFlush_stands _ { cache with tip := some (tipOf cache 0 below).1 }
        (tipOf cache 0 below).1 0 (write cache.entries (tipOf cache 0 below).1 0 (tipOf cache 0 below).2)
      rw [← flush_cached] at result state
      rw [state]
      cases place with
      | zero =>
        show some later.tip = some (cache.tip.or (some (tip 0 below).1))
        rw [stands, tipOf_eq]
        cases cache.tip <;> rfl
      | succ place =>
        have asked : heard (place + 1) 0 (.cached 0 cache :: below) = if cache.tip.isNone then heard place 0 below else [] := by
          cases known : cache.tip <;> simp [heard, reaches, known, tip]
        have given : delivered (place + 1) 1 (.cached 0 cache :: below) (tip 0 (.cached 0 cache :: below)).1
              (flush 0 (.cached 0 cache :: below)).result =
            delivered place 0 (tipOf cache 0 below).2 (tipOf cache 0 below).1
              (write cache.entries (tipOf cache 0 below).1 0 (tipOf cache 0 below).2).result := by
          rw [delivered, delivered, result, tip_cached, ← tipOf_eq, receives_of_shape (shape_tipOf cache 0 below)]
          rfl
        show Heeds below _ place (heard (place + 1) 0 (.cached 0 cache :: below) ++ _)
        rw [asked, given]
        exact (heeds_tipOf stack).trans (heeds_write (stack.of_shape (shape_tipOf cache 0 below)))

/-! ### Requests that have nothing to do with blocks -/

/-- Every cache knows of its block what it knew before. -/
def SameKnown (before after : Layers ρ) : Prop :=
  ∀ place, tipAt? place after = tipAt? place before

namespace SameKnown

variable {before after : Layers ρ} {later : Layer ρ}

omit [Backing ρ] in
theorem cons (first : tipAt? 0 (later :: after) = tipAt? 0 (layer :: before)) (rest : SameKnown before after) :
    SameKnown (layer :: before) (later :: after)
  | 0 => first
  | place + 1 => rest place

omit [Backing ρ] in
theorem under (layer : Layer ρ) (rest : SameKnown before after) : SameKnown (layer :: before) (layer :: after) :=
  cons (by cases layer <;> rfl) rest

omit [Backing ρ] in
/-- An operation after which caches know what they knew at the top does so at any depth. -/
theorem at_depth (op : Nat → Layers ρ → Layers ρ)
    (descends : ∀ depth layer below, op (depth + 1) (layer :: below) = layer :: op depth below)
    (nothing : ∀ depth, op depth [] = [])
    (here : ∀ (layer : Layer ρ) (below : Layers ρ), (∀ depth, SameKnown below (op depth below)) →
      SameKnown (layer :: below) (op 0 (layer :: below)))
    (depth : Nat) (layers : Layers ρ) : SameKnown layers (op depth layers) :=
  related_at_depth SameKnown (fun _ => rfl) (fun layer _ _ => under layer) op descends nothing here depth layers

omit [Backing ρ] in
theorem onCache (change : Cache → Outcome Cache α) (keeps : ∀ cache, (change cache).state.tip = cache.tip) (depth : Nat)
    (layers : Layers ρ) : SameKnown layers (onCache change depth layers).state := by
  refine at_depth (fun depth layers => (Layers.onCache change depth layers).state) (fun _ _ _ => rfl) ?_
    (fun layer below _ => ?_) depth layers
  · intro depth
    cases depth <;> rfl
  · cases layer with
    | root | relay | guarded => exact fun _ => rfl
    | cached skip cache => exact cons (congrArg some (keeps cache)) fun _ => rfl

omit [Backing ρ] in
theorem onGuard (change : ReadGuard → α × ReadGuard) (depth : Nat) (layers : Layers ρ) :
    SameKnown layers (onGuard change depth layers).state := by
  refine at_depth (fun depth layers => (Layers.onGuard change depth layers).state) (fun _ _ _ => rfl) ?_
    (fun layer below _ => ?_) depth layers
  · intro depth
    cases depth <;> rfl
  · cases layer with
    | root | relay | cached => exact fun _ => rfl
    | guarded skip guard => exact cons rfl fun _ => rfl

omit [Backing ρ] in
theorem ifCache {op : Nat → Layers ρ → Outcome (Layers ρ) α} (kept : SameKnown layers (op depth layers).state) :
    SameKnown layers (ifCache op depth layers).state := by
  rw [Layers.ifCache]
  split
  · exact kept
  · exact fun _ => rfl

theorem survivesReads (o : OutPoint) : SurvivesReads o (SameKnown (ρ := ρ)) where
  empty _ := rfl
  under layer _ _ := under layer
  root _ _ := cons rfl fun _ => rfl
  guarded _ _ _ _ _ := cons rfl
  touched _ _ _ _ := cons rfl fun _ => rfl
  learned _ _ _ _ := cons (congrArg some Cache.SameApart.learn.tip)

theorem read (o : OutPoint) (depth : Nat) (layers : Layers ρ) : SameKnown layers (read o depth layers).state :=
  (survivesReads o).read depth layers

theorem holds (o : OutPoint) (depth : Nat) (layers : Layers ρ) : SameKnown layers (holds o depth layers).state :=
  (survivesReads o).holds (fun _ _ => cons rfl fun _ => rfl) depth layers

theorem spend (o : OutPoint) (depth : Nat) (layers : Layers ρ) : SameKnown layers (spend o depth layers).state := by
  rw [Layers.spend, Outcome.andThen]
  split
  · next found _ =>
    cases found with
    | none => exact read o depth layers
    | some coin =>
      intro place
      have spent := onCache (fun cache => .done (cache.spend o).1 (cache.spend o).2) (fun _ => Cache.SameApart.spend.tip) depth
        (Layers.read o depth layers).state place
      exact spent.trans (read o depth layers place)
  · exact read o depth layers

end SameKnown

/-! ### Runs -/

omit [Backing ρ] in
theorem heeds_setTip (stack : Stack Any layers) :
    Heeds layers (onCache (fun cache => .done () { cache with tip := some block }) depth layers).state place
      (if place = depth then [.given block] else []) := by
  induction stack generalizing place depth with
  | root =>
    cases depth with
    | zero => exact heeds_root
    | succ depth => cases depth <;> exact heeds_root
  | relay _ ih | guarded _ _ ih =>
    cases place with
    | zero => cases depth <;> rfl
    | succ place =>
      cases depth with
      | zero => exact .nil rfl
      | succ depth =>
        have same : (place + 1 = depth + 1) = (place = depth) := propext Nat.succ_inj
        simp only [same]
        exact ih
  | cached _ _ ih =>
    cases depth with
    | zero =>
      cases place with
      | zero => rfl
      | succ place => exact .nil rfl
    | succ depth =>
      cases place with
      | zero => exact .nil rfl
      | succ place =>
        have same : (place + 1 = depth + 1) = (place = depth) := propext Nat.succ_inj
        simp only [same]
        exact ih

/-- Calls that deal with one coin are nothing that a cache hears blocks in. -/
theorem suits_sameKnown : Script.Suits fun request =>
    ∀ (depth : Nat) (layers : Layers ρ), SameKnown layers (perform request depth layers).state where
  holds o depth layers := SameKnown.holds o depth layers
  spend o depth layers := SameKnown.ifCache (SameKnown.spend o depth layers)
  sight o depth layers := by
    have read : SameKnown layers (sight o depth layers).state := SameKnown.read o depth layers
    exact SameKnown.ifCache read
  add o output height isCoinbase mayOverwrite depth layers :=
    SameKnown.onCache (fun cache => cache.add o (.ofOutput output height isCoinbase) mayOverwrite)
      (fun _ => Cache.tip_add) depth layers

private theorem sameKnown_helper {request : Request} (helper : request.isCall = false) (depth : Nat) (layers : Layers ρ) :
    SameKnown layers (perform request depth layers).state := by
  have alone : ∀ asked ∈ [(depth, request)], asked.2.isCall = true →
      ∀ (depth : Nat) (layers : Layers ρ), SameKnown layers (perform asked.2 depth layers).state :=
    List.forall_mem_singleton.mpr fun isCall => by
      rw [helper] at isCall
      cases isCall
  exact kept_after (SameKnown layers) suits_sameKnown (fun depth keeps known place => (keeps depth _ place).trans (known place))
    alone fun _ => rfl

/-- After a request every cache knows of its block what it heard. -/
theorem heeds_perform (stack : Stack Any layers) {request : Request} (stays : request.rebases = false) :
    Heeds layers (perform request depth layers).state place (marks place depth layers request) := by
  cases request with
  | tip => exact heeds_tip stack
  | setTip block => exact heeds_setTip stack
  | write batch block => exact heeds_write stack
  | merge batch block =>
    show Heeds layers (ifCache (writeReply batch block) depth layers).state place _
    rw [ifCache, marks]
    split
    · exact heeds_write stack
    · exact .nil rfl
  | flush => exact heeds_flush stack
  | rebase => cases stays
  | heads | scan | sizeEstimate => exact .nil rfl
  | read o => exact .nil (SameKnown.read o depth layers place)
  | holds o => exact .nil (SameKnown.holds o depth layers place)
  | sight o => exact .nil (suits_sameKnown.sight o depth layers place)
  | spend o => exact .nil (suits_sameKnown.spend o depth layers place)
  | add o coin mayOverwrite =>
    exact .nil (SameKnown.onCache (fun cache => cache.add o coin mayOverwrite) (fun _ => Cache.tip_add) depth layers place)
  | uncache o =>
    exact .nil (SameKnown.onCache (fun cache => .done () (cache.uncache o)) (fun _ => Cache.SameApart.uncache.tip) depth layers place)
  | check =>
    exact .nil (SameKnown.onCache Cache.check (fun cache => congrArg Cache.tip cache.state_check) depth layers place)
  | cached | memoryUsage | size | entry | stats | budget =>
    rw [perform, Outcome.map, state_ask]
    exact .nil rfl
  | register => exact .nil (SameKnown.onGuard (fun guard => ((), guard.register)) depth layers place)
  | calls => exact .nil (SameKnown.onGuard (fun guard => (guard.calls, guard)) depth layers place)
  | addOutputs | hasInputs | firstUnspent | spendInputs | apply => exact .nil (sameKnown_helper rfl depth layers place)

theorem heeds_after (stack : Stack Any layers) {requests : List (Nat × Request)}
    (stays : ∀ asked ∈ requests, asked.2.rebases = false) :
    Heeds layers (after requests layers) place (history place requests layers) := by
  induction requests generalizing layers with
  | nil => exact .nil rfl
  | cons asked rest ih =>
    obtain ⟨depth, request⟩ := asked
    obtain ⟨first, others⟩ := List.forall_mem_cons.mp stays
    exact (heeds_perform stack first).trans (ih (stack.perform first depth) others)

theorem tip_of_known (stack : Stack Any layers) {known : Option Hash256} (here : tipAt? place layers = some known) :
    (tip place layers).1 = known.getD (tip (place + 1) layers).1 := by
  induction stack generalizing place with
  | root =>
    rw [tipAt?_root] at here
    cases here
  | relay _ ih | guarded _ _ ih =>
    cases place with
    | zero => cases here
    | succ place => exact ih here
  | cached cache _ ih =>
    cases place with
    | zero =>
      cases here
      exact tip_cached
    | succ place => exact ih here

/-- After a run a cache that was new stands at the block that it was given last, or else at the one that it was told
    when it was first asked. If it was never asked, it will stand where the layer below does. -/
theorem tip_after (stack : Stack Any layers) (here : cacheAt? place layers = some cache) (new : cache.tip = none)
    {requests : List (Nat × Request)} (stays : ∀ asked ∈ requests, asked.2.rebases = false) :
    (tip place (after requests layers)).1 =
      (Mark.standing (history place requests layers)).getD (tip (place + 1) (after requests layers)).1 := by
  have known : tipAt? place layers = some none := by rw [tipAt?, here, ← new]; rfl
  have heeds : Heeds layers (after requests layers) place (history place requests layers) := heeds_after stack stays
  rw [Heeds, known, Option.map_some, Mark.foldl_heed_none] at heeds
  have still : Stack Any (after requests layers) := stack.of_shape (shape_after stays layers)
  exact tip_of_known still heeds

/-- A batch that is not taken tells no cache of a block. -/
theorem known_write (stack : Stack Any layers) {why : Failure} (failed : (write batch block depth layers).result = .error why) :
    SameKnown layers (write batch block depth layers).state.2 := by
  intro place
  have heeds : Heeds layers (write batch block depth layers).state.2 place _ := heeds_write stack
  rw [failed, delivered, Except.isOk, Except.toBool, Bool.and_false, Heeds] at heeds
  exact heeds.trans Option.map_id'

/-- Layers above the topmost cache stand where it stands. -/
theorem tip_topmost (stack : Stack Any layers) (topmost : ∀ above < place, cacheAt? above layers = none)
    (inside : place < layers.length) : (tip place layers).1 = (tip 0 layers).1 := by
  induction place with
  | zero => rfl
  | succ place ih =>
    rw [tip_succ stack (topmost place (Nat.lt_succ_self place)) inside]
    exact ih (fun above lower => topmost above (Nat.lt_succ_of_lt lower)) (Nat.lt_of_succ_lt inside)

/-- How blocks come down a stack. After a run a cache that was new stands at the block that it was given last, or else
    where the layer below stood when it was first asked. A batch that a layer does not take moves nobody, and neither
    does a flush that fails. A flush that succeeds moves the layer below to the block of the cache. So once all caches
    were flushed, from the top down, every layer stands where the topmost cache stood, and no cache has an entry; the
    coins, which the store then has, came down with the block. -/
theorem block_comes_down (laws : Standing ρ) (stack : Stack Any layers) :
    (∀ (place : Nat) (cache : Cache) (requests : List (Nat × Request)), cacheAt? place layers = some cache →
      cache.tip = none → (∀ asked ∈ requests, asked.2.rebases = false) →
      (tip place (after requests layers)).1 =
        (Mark.standing (history place requests layers)).getD (tip (place + 1) (after requests layers)).1) ∧
    (∀ (batch : Entries) (block : Hash256) (depth : Nat) (why : Failure),
      (write batch block depth layers).result = .error why →
      SameKnown layers (write batch block depth layers).state.2 ∧ SameTips layers (write batch block depth layers).state.2) ∧
    (∀ (depth : Nat) (why : Failure), (flush depth layers).result = .error why →
      SameTips layers (flush depth layers).state) ∧
    (∀ depth : Nat, (flush depth layers).result = .ok () →
      (tip (depth + 1) (flush depth layers).state).1 = (tip depth layers).1) ∧
    ((drain layers).result = .ok () →
      (∀ place < layers.length, (∀ above < place, cacheAt? above layers = none) → ∀ depth < layers.length,
        (tip depth (drain layers).state).1 = (tip place layers).1) ∧
      EveryCache (fun cache => cache.entries = ∅) (drain layers).state ∧
      ∀ Proper : ρ → Prop, Dependable Proper → Stack Proper layers → Sound layers →
        ∃ store, root? (drain layers).state = some store ∧ storeShows store = shows layers) := by
  refine ⟨fun place cache requests here new stays => tip_after stack here new stays,
    fun batch block depth why failed => ⟨known_write stack failed, sameTips_write laws failed⟩,
    fun depth why failed => sameTips_flush laws failed, fun depth ok => tip_flush laws stack ok, fun ok => ?_⟩
  obtain ⟨stands, empty⟩ := tip_drain laws stack ok
  refine ⟨fun place inside topmost depth within => ?_, empty, fun Proper dependable stack sound => ?_⟩
  · rw [stands depth within, tip_topmost stack topmost inside]
  · obtain ⟨_, _, store, found, _, seen⟩ := drain_stands dependable stack sound
    exact ⟨store, found, seen⟩

end Layers

/-! ### Stores -/

theorem MemoryStore.standing : Standing MemoryStore where
  asked _ := rfl
  taken _ _ _ _ := rfl
  refused _ _ _ _ failed := by cases failed

theorem ScriptedStore.standing : Standing ScriptedStore where
  asked _ := rfl
  taken batch block store ok := by
    have ok : (ScriptedStore.write batch block store).result = .ok () := ok
    show (ScriptedStore.write batch block store).store.memory.tip = block
    rw [ScriptedStore.write] at ok ⊢
    split at ok
    · next refusal plan _ =>
      rw [refuse] at ok
      split at ok <;> cases ok
    · rfl
    · rfl
  refused batch block store why failed := by
    have failed : (ScriptedStore.write batch block store).result = .error why := failed
    show (ScriptedStore.write batch block store).store.memory.tip = store.memory.tip
    rw [ScriptedStore.write] at failed ⊢
    split at failed
    · next refusal plan _ =>
      show (refuse refusal batch { store with plan }).store.memory.tip = _
      rw [refuse]
      split <;> rfl
    · cases failed
    · cases failed

theorem EmptyStore.standing : Standing EmptyStore where
  asked _ := rfl
  taken _ _ _ ok := by cases ok
  refused _ _ _ _ _ := rfl

namespace Layers

/-- Two new caches over a store with one coin. -/
def relayed : Layers MemoryStore :=
  [.cached 0 (.empty .standard), .relay 0, .cached 0 (.empty .standard), .root .oneCoin]

/-- The lower cache is asked for its block, and the upper one is given another and flushed. -/
def movedOn : List (Nat × Request) :=
  [(2, .tip), (0, .setTip ⟨7⟩), (0, .flush)]

/-- The lower cache stands at the block that came down, and after a drain every layer does. A flush on nothing fails, and
    nobody has moved. -/
theorem movedOn_down :
    Stack Any relayed ∧
    (tip 2 (after (movedOn.take 1) relayed)).1 = .zero ∧ (tip 2 (after movedOn relayed)).1 = ⟨7⟩ ∧
    (∀ depth < 4, (tip depth (drain (after movedOn relayed)).state).1 = ⟨7⟩) ∧
    (flush 0 onNothing).result = .error (.fault .writeUnsupported) ∧ SameTips onNothing (flush 0 onNothing).state := by
  have stack : Stack Any relayed := .cached _ (.relay (.cached _ (.root trivial)))
  have stays : ∀ asked ∈ movedOn, asked.2.rebases = false := by simp [movedOn, Request.rebases]
  obtain ⟨marked, _⟩ := block_comes_down MemoryStore.standing stack
  have still : Stack Any (after movedOn relayed) := stack.of_shape (shape_after stays relayed)
  obtain ⟨_, _, _, _, drained⟩ := block_comes_down MemoryStore.standing still
  have nothing : Stack Any onNothing := .cached _ (.root trivial)
  obtain ⟨_, _, failing, _⟩ := block_comes_down EmptyStore.standing nothing
  refine ⟨stack, ?_, ?_, fun depth inside => ?_, rfl, failing 0 _ rfl⟩
  · exact marked 2 _ (movedOn.take 1) rfl rfl fun asked member => stays asked (List.mem_of_mem_take member)
  · exact marked 2 _ movedOn rfl rfl stays
  · exact (drained rfl).1 0 (by decide) nofun depth inside

end Layers

end CoinLayers
