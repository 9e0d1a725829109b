import CoinLayers.Proofs.EveryCache

/-!
Operations that change what a stack shows, or where it keeps it: adding and spending through a cache that no
entries cover, writing a batch, and flushing any cache, over a dependable store.

Each is said to succeed, to leave the flags sound, and to change the view at the top as the same operation
would change a plain map (`add_stands`, `spend_stands`, `write_stands`); a flush does not change it at all
(`flush_stands`).
-/
namespace CoinLayers.Layers

variable {ρ α : Type} [Backing ρ] {Proper : ρ → Prop} {layers below : Layers ρ} {o : OutPoint} {coin : Coin}
  {cache : Cache} {depth : Nat} {view : Shown}

/-- No cache above the layer of the given depth holds an entry. -/
def Uncovered (depth : Nat) (layers : Layers ρ) : Prop :=
  EveryCache (fun cache => cache.entries = ∅) (layers.take depth)

omit [Backing ρ] in
theorem uncovered_zero : Uncovered 0 layers := everyCache_nil

omit [Backing ρ] in
theorem uncovered_succ {layer : Layer ρ} :
    Uncovered (depth + 1) (layer :: below) ↔
      (∀ skip cache, layer = .cached skip cache → cache.entries = ∅) ∧ Uncovered depth below := by
  rw [Uncovered, List.take_succ_cons, everyCache_cons, Uncovered]

omit [Backing ρ] in
theorem cacheAt?_nil : cacheAt? depth ([] : Layers ρ) = none := by
  cases depth <;> rfl

omit [Backing ρ] in
theorem lt_length_of_cacheAt? (acting : cacheAt? depth layers = some cache) : depth < layers.length := by
  induction layers generalizing depth with
  | nil => rw [cacheAt?_nil] at acting; cases acting
  | cons layer below ih =>
    cases depth with
    | zero => simp
    | succ depth => exact Nat.succ_lt_succ (ih acting)

/-- Empty caches hide nothing. -/
theorem shows_drop_of_uncovered (stack : Stack Proper layers) (uncovered : Uncovered depth layers)
    (inside : depth < layers.length) : shows (layers.drop depth) = shows layers := by
  induction stack generalizing depth with
  | root _ =>
    have zero : depth = 0 := by simpa using inside
    rw [zero, List.drop_zero]
  | relay _ ih =>
    cases depth with
    | zero => rfl
    | succ depth =>
      rw [List.drop_succ_cons, shows_relay, List.drop_zero]
      exact ih (uncovered_succ.mp uncovered).2 (Nat.lt_of_succ_lt_succ inside)
  | guarded _ _ ih =>
    cases depth with
    | zero => rfl
    | succ depth =>
      rw [List.drop_succ_cons, shows_guarded, List.drop_zero]
      exact ih (uncovered_succ.mp uncovered).2 (Nat.lt_of_succ_lt_succ inside)
  | cached cache _ ih =>
    cases depth with
    | zero => rfl
    | succ depth =>
      obtain ⟨empty, rest⟩ := uncovered_succ.mp uncovered
      rw [List.drop_succ_cons, shows_cached, List.drop_zero, empty 0 cache rfl, Entries.atop_empty]
      exact ih rest (Nat.lt_of_succ_lt_succ inside)

/-- Operations that leave the layers above the one at which they act as they are. -/
def Descends (op : Nat → Layers ρ → Outcome (Layers ρ) α) : Prop :=
  ∀ depth layer below, op (depth + 1) (layer :: below) = (op depth below).mapState (layer :: ·)

omit [Backing ρ] in
/-- Such an operation does at a depth what it does at the top of the layers from there on. -/
theorem Descends.eq_drop {op : Nat → Layers ρ → Outcome (Layers ρ) α} (descends : Descends op)
    (inside : depth < layers.length) :
    op depth layers = (op 0 (layers.drop depth)).mapState (layers.take depth ++ ·) := by
  induction layers generalizing depth with
  | nil => cases inside
  | cons layer below ih =>
    cases depth with
    | zero => rfl
    | succ depth =>
      rw [descends, ih (Nat.lt_of_succ_lt_succ inside)]
      rfl

/-- An operation at an uncovered cache changes the view at the top as it changes the view through that cache.
    What it answers is told of the view, too. -/
theorem Descends.stands_uncovered {op : Nat → Layers ρ → Outcome (Layers ρ) α} (descends : Descends op)
    (change : Shown → Shown) (Tells : Shown → Except Failure α → Prop)
    (here : ∀ lower, Stack Proper (.cached 0 cache :: lower) → Sound (.cached 0 cache :: lower) →
      layers.drop depth = .cached 0 cache :: lower →
      Tells (shows (.cached 0 cache :: lower)) (op 0 (.cached 0 cache :: lower)).result ∧
        Stands Proper (op 0 (.cached 0 cache :: lower)).state (change (shows (.cached 0 cache :: lower))))
    (stack : Stack Proper layers) (sound : Sound layers) (acting : cacheAt? depth layers = some cache)
    (uncovered : Uncovered depth layers) :
    Tells (shows layers) (op depth layers).result ∧ Stands Proper (op depth layers).state (change (shows layers)) := by
  induction stack generalizing depth with
  | root _ =>
    cases depth with
    | zero => cases acting
    | succ depth => rw [cacheAt?, cacheAt?_nil] at acting; cases acting
  | @relay below stack ih =>
    cases depth with
    | zero => cases acting
    | succ depth =>
      rw [descends, shows_relay]
      exact (ih here sound.2 acting (uncovered_succ.mp uncovered).2).imp_right Stands.relay
  | @guarded below guard stack ih =>
    cases depth with
    | zero => cases acting
    | succ depth =>
      rw [descends, shows_guarded]
      exact (ih here sound.2 acting (uncovered_succ.mp uncovered).2).imp_right (Stands.guarded guard)
  | @cached below top stack ih =>
    cases depth with
    | zero =>
      cases acting
      exact here below (.cached cache stack) sound rfl
    | succ depth =>
      obtain ⟨empty, rest⟩ := uncovered_succ.mp uncovered
      have noEntries := empty 0 top rfl
      rw [descends, shows_cached, noEntries, Entries.atop_empty]
      refine (ih here sound.2 acting rest).imp_right fun stands => ?_
      have lifted := stands.cached top (by rw [noEntries]; exact Entries.soundOver_empty)
      rwa [noEntries, Entries.atop_empty] at lifted

/-- An addition through an uncovered cache succeeds and is one to the view, unless the caller calls a coin new
    where the layer below the cache shows an unspent one. -/
theorem add_stands (coin : Coin) {mayOverwrite : Bool} (stack : Stack Proper layers) (sound : Sound layers)
    (acting : cacheAt? depth layers = some cache) (uncovered : Uncovered depth layers)
    (vouched : mayOverwrite = true ∨ o ∈ cache.entries ∨ shows (layers.drop (depth + 1)) o = none) :
    (add o coin mayOverwrite depth layers).result = .ok () ∧
      Stands Proper (add o coin mayOverwrite depth layers).state (Shown.add (shows layers) o coin mayOverwrite) := by
  have descends : Descends (add (ρ := ρ) o coin mayOverwrite) := fun _ _ _ => rfl
  refine descends.stands_uncovered (Shown.add · o coin mayOverwrite) (fun _ result => result = .ok ()) ?_
    stack sound acting uncovered
  intro lower stack sound same
  cases stack with
  | cached _ stack =>
    rw [← List.drop_drop, same] at vouched
    have flags : cache.entries.SoundOver (shows lower) := sound.1
    obtain ⟨ok, stillSound, seen⟩ := Cache.add_shown flags vouched
    refine ⟨ok, ?_⟩
    rw [shows_cached, List.drop_zero, ← seen]
    exact Stands.cached _ ⟨stack, sound.2, rfl⟩ stillSound

/-- Where nothing is shown through the cache on top, it has an entry, or nothing is shown below. -/
theorem vouched_of_none (stack : Stack Proper layers) (top : cacheAt? 0 layers = some cache)
    (missing : shows layers o = none) : o ∈ cache.entries ∨ shows (layers.drop 1) o = none := by
  cases stack with
  | root | relay | guarded => cases top
  | cached _ _ =>
    cases top
    rw [shows_cached, List.drop_zero] at missing
    exact Entries.vouched_of_atop missing

theorem descends_spend : Descends (spend (ρ := ρ) o) := by
  intro depth layer below
  show ((read o depth below).mapState (layer :: ·)).andThen _ = ((read o depth below).andThen _).mapState _
  simp only [Outcome.andThen, Outcome.mapState]
  cases (read o depth below).result with
  | error why => rfl
  | ok found =>
    cases found with
    | none => rfl
    | some coin => rfl

theorem Shown.spend_of_none (missing : view o = none) : Shown.spend view o = view := by
  funext p
  rw [Shown.spend]
  split
  · next same => rw [same, missing]
  · rfl

/-- What is read through a cache is what the cache has afterwards. -/
theorem read_caches {skip : Nat} {found : Option Coin}
    (told : (read o 0 (.cached skip cache :: below)).result = .ok found) :
    ∃ later lower, (read o 0 (.cached skip cache :: below)).state = .cached skip later :: lower ∧
      later.entries[o]?.map (·.coin) = found := by
  cases there : cache.entries[o]? with
  | some entry =>
    rw [read, there] at told ⊢
    cases told
    exact ⟨cache.touch o, below, rfl, by simp [there]⟩
  | none =>
    have answered : (read o skip below).result = .ok found := by
      simpa [read, there, Outcome.settle] using told
    refine ⟨cache.learn o (.ok found), (read o skip below).state, ?_, ?_⟩
    · simp [read, there, Outcome.settle, answered]
    · cases found with
      | none => simp [Cache.learn, there]
      | some coin =>
        rw [Cache.learn, Cache.entries_load, Entries.getElem?_insert_ite, if_pos rfl]
        rfl

/-- The spend of a cached coin, as the stack sees it. -/
private theorem spend_cached (stack : Stack Proper (.cached 0 cache :: below)) (sound : Sound (.cached 0 cache :: below))
    {entry : Entry} (found : cache.entries[o]? = some entry) :
    unspentIn (.ok (cache.spend o).1) = shows (.cached 0 cache :: below) o ∧
      Stands Proper (.cached 0 (cache.spend o).2 :: below) (Shown.spend (shows (.cached 0 cache :: below)) o) := by
  cases stack with
  | cached _ stack =>
    have flags : cache.entries.SoundOver (shows below) := sound.1
    obtain ⟨answer, stillSound, seen⟩ := Cache.spend_shown flags found
    rw [shows_cached, List.drop_zero]
    refine ⟨?_, ?_⟩
    · rw [answer, Entries.atop_of_some found]
      rfl
    · rw [← seen]
      exact Stands.cached _ ⟨stack, sound.2, rfl⟩ stillSound

/-- A spend through an uncovered cache succeeds, answers the unspent coin of the view if there is one, and takes
    it out of the view. -/
theorem spend_stands (laws : Dependable Proper) (stack : Stack Proper layers) (sound : Sound layers) (o : OutPoint)
    (acting : cacheAt? depth layers = some cache) (uncovered : Uncovered depth layers) :
    (∃ found, (spend o depth layers).result = .ok found ∧ unspentIn (.ok found) = shows layers o) ∧
      Stands Proper (spend o depth layers).state (Shown.spend (shows layers) o) := by
  refine descends_spend.stands_uncovered (Shown.spend · o)
    (fun view result => ∃ found, result = .ok found ∧ unspentIn (.ok found) = view o) ?_ stack sound acting uncovered
  intro lower stack sound _
  have quiet := read_quiet laws.toSteady stack sound o 0
  obtain ⟨answer, told, seen⟩ := read_answers laws stack o 0
  rw [List.drop_zero] at seen
  cases answer with
  | none =>
    have missing : shows (.cached 0 cache :: lower) o = none := seen.symm
    have result : (spend o 0 (.cached 0 cache :: lower)).result = .ok none := by
      simp [spend, Outcome.andThen, told, Outcome.done, Outcome.after]
    have state : (spend o 0 (.cached 0 cache :: lower)).state = (read o 0 (.cached 0 cache :: lower)).state := by
      simp [spend, Outcome.andThen, told, Outcome.done, Outcome.after]
    rw [state, Shown.spend_of_none missing]
    exact ⟨⟨none, result, missing.symm⟩, quiet.stands ⟨stack, sound, rfl⟩⟩
  | some coin =>
    obtain ⟨later, below, left, kept⟩ := read_caches told
    obtain ⟨entry, found, _⟩ := Option.map_eq_some_iff.mp kept
    rw [left] at quiet
    obtain ⟨answered, stands⟩ := spend_cached quiet.stack quiet.sound found
    have result : (spend o 0 (.cached 0 cache :: lower)).result = .ok (later.spend o).1 := by
      simp [spend, Outcome.andThen, told, left, onCache, Outcome.done, Outcome.after, Outcome.mapState]
    have state : (spend o 0 (.cached 0 cache :: lower)).state = .cached 0 (later.spend o).2 :: below := by
      simp [spend, Outcome.andThen, told, left, onCache, Outcome.done, Outcome.after, Outcome.mapState]
    rw [quiet.top] at answered stands
    rw [state]
    exact ⟨⟨_, result, answered⟩, stands⟩

/-! ### Writing and flushing -/

/-- A batch whose fresh entries stand over no unspent coin is taken whole, and changes the view as it says. -/
theorem write_stands (laws : Dependable Proper) (stack : Stack Proper layers) (sound : Sound layers) {batch : Entries}
    (block : Hash256)
    (fresh : ∀ (o : OutPoint) (entry : Entry), batch[o]? = some entry → entry.isDirty = true →
      entry.isFresh = true → shows layers o = none) :
    (write batch block 0 layers).result = .ok () ∧ (write batch block 0 layers).state.1 = ∅ ∧
      Stands Proper (write batch block 0 layers).state.2 (batch.patch (shows layers)) := by
  induction stack with
  | @root store proper =>
    obtain ⟨ok, left, stillProper, seen⟩ := laws.write batch block store proper
    refine ⟨?_, left, ?_⟩
    · show (Backing.write batch block store).result.mapError Failure.fault = .ok ()
      rw [ok]
      rfl
    · rw [shows_root, ← seen]
      exact Stands.root stillProper
  | relay stack ih =>
    rw [shows_relay] at fresh ⊢
    obtain ⟨ok, left, stands⟩ := ih sound.2 fresh
    exact ⟨ok, left, stands.relay⟩
  | guarded guard stack ih =>
    rw [shows_guarded] at fresh ⊢
    obtain ⟨ok, left, stands⟩ := ih sound.2 fresh
    exact ⟨ok, left, stands.guarded guard⟩
  | @cached below cache stack ih =>
    have flags : cache.entries.SoundOver (shows below) := sound.1
    rw [shows_cached] at fresh ⊢
    obtain ⟨ok, left, stillSound, seen⟩ := Cache.mergeInOrder_shown (cache.drained batch) block flags fresh
      fun _ => Cache.mem_drained.mpr
    refine ⟨ok, left, ?_⟩
    rw [List.drop_zero, ← seen]
    exact Stands.cached _ ⟨stack, sound.2, rfl⟩ stillSound

theorem length_tip (depth : Nat) (layers : Layers ρ) : (tip depth layers).2.length = layers.length := by
  induction layers generalizing depth with
  | nil => rw [tip_nil]
  | cons layer below ih =>
    cases depth with
    | succ depth => exact congrArg (· + 1) (ih depth)
    | zero =>
      cases layer with
      | root store => rfl
      | relay skip | guarded skip guard => exact congrArg (· + 1) (ih skip)
      | cached skip cache =>
        rw [tip]
        split
        · rfl
        · exact congrArg (· + 1) (ih skip)

theorem length_tipOf (cache : Cache) (skip : Nat) (below : Layers ρ) :
    (tipOf cache skip below).2.length = below.length := by
  rw [tipOf]
  split
  · rfl
  · exact length_tip skip below

theorem length_write (batch : Entries) (block : Hash256) (depth : Nat) (layers : Layers ρ) :
    (write batch block depth layers).state.2.length = layers.length := by
  induction layers generalizing depth with
  | nil => cases depth <;> rfl
  | cons layer below ih =>
    cases depth with
    | succ depth => exact congrArg (· + 1) (ih depth)
    | zero =>
      cases layer with
      | root store | cached skip cache => rfl
      | relay skip | guarded skip guard => exact congrArg (· + 1) (ih skip)

/-- A flush of the cache at the top is not seen. -/
private theorem flush_top (laws : Dependable Proper) (stack : Stack Proper (.cached 0 cache :: below))
    (sound : Sound (.cached 0 cache :: below)) :
    (flush 0 (.cached 0 cache :: below)).result = .ok () ∧
      Stands Proper (flush 0 (.cached 0 cache :: below)).state (shows (.cached 0 cache :: below)) ∧
      Uncovered 1 (flush 0 (.cached 0 cache :: below)).state ∧
      (flush 0 (.cached 0 cache :: below)).state.length = below.length + 1 := by
  cases stack with
  | cached _ stack =>
    have flags : cache.entries.SoundOver (shows below) := sound.1
    have quiet := tipOf_quiet laws.toSteady stack sound.2 cache
    obtain ⟨ok, _, stands⟩ := write_stands laws quiet.stack quiet.sound (tipOf cache 0 below).1
      fun o entry found _ isFresh => by
        rw [quiet.top]
        exact (flags o entry found).fresh isFresh
    have flushed : (flush 0 (.cached 0 cache :: below)).result = .ok () ∧
        (flush 0 (.cached 0 cache :: below)).state =
          .cached 0 { cache with tip := some (tipOf cache 0 below).1 }.emptied ::
            (write cache.entries (tipOf cache 0 below).1 0 (tipOf cache 0 below).2).state.2 := by
      simp [flush, concludeFlush, ok]
    rw [flushed.2, shows_cached, List.drop_zero, Entries.atop_eq_patch flags.agrees]
    refine ⟨flushed.1, ?_, ?_, ?_⟩
    · rw [quiet.top] at stands
      have lifted := stands.cached { cache with tip := some (tipOf cache 0 below).1 }.emptied Entries.soundOver_empty
      rwa [Cache.entries_emptied, Entries.atop_empty] at lifted
    · rw [uncovered_succ]
      refine ⟨?_, uncovered_zero⟩
      rintro skip other same
      cases same
      rfl
    · rw [List.length_cons, length_write, length_tipOf]

theorem descends_flush : Descends (flush (ρ := ρ)) :=
  fun _ _ _ => rfl

omit [Backing ρ] in
private theorem uncovers_under {layer : Layer ρ} {after : Layers ρ}
    (uncovers : Uncovered depth below → Uncovered (depth + 1) after)
    (uncovered : Uncovered (depth + 1) (layer :: below)) : Uncovered (depth + 1 + 1) (layer :: after) := by
  obtain ⟨first, rest⟩ := uncovered_succ.mp uncovered
  exact uncovered_succ.mpr ⟨first, uncovers rest⟩

/-- A flush of any cache of the stack succeeds, is not seen at the top, and leaves that cache without entries. -/
theorem flush_stands (laws : Dependable Proper) (stack : Stack Proper layers) (sound : Sound layers)
    (acting : cacheAt? depth layers = some cache) :
    (flush depth layers).result = .ok () ∧ Stands Proper (flush depth layers).state (shows layers) ∧
      (Uncovered depth layers → Uncovered (depth + 1) (flush depth layers).state) ∧
      (flush depth layers).state.length = layers.length := by
  induction stack generalizing depth with
  | root _ =>
    cases depth with
    | zero => cases acting
    | succ depth => rw [cacheAt?, cacheAt?_nil] at acting; cases acting
  | relay stack ih =>
    cases depth with
    | zero => cases acting
    | succ depth =>
      obtain ⟨ok, stands, uncovers, length⟩ := ih sound.2 acting
      rw [descends_flush, shows_relay]
      exact ⟨ok, stands.relay, uncovers_under uncovers, congrArg (· + 1) length⟩
  | guarded guard stack ih =>
    cases depth with
    | zero => cases acting
    | succ depth =>
      obtain ⟨ok, stands, uncovers, length⟩ := ih sound.2 acting
      rw [descends_flush, shows_guarded]
      exact ⟨ok, stands.guarded guard, uncovers_under uncovers, congrArg (· + 1) length⟩
  | @cached below top stack ih =>
    cases depth with
    | zero =>
      cases acting
      obtain ⟨ok, stands, uncovered, length⟩ := flush_top laws (.cached cache stack) sound
      exact ⟨ok, stands, fun _ => uncovered, length⟩
    | succ depth =>
      obtain ⟨ok, stands, uncovers, length⟩ := ih sound.2 acting
      rw [descends_flush, shows_cached]
      exact ⟨ok, stands.cached top sound.1, uncovers_under uncovers, congrArg (· + 1) length⟩

end CoinLayers.Layers
