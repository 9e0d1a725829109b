import CoinLayers.Proofs.Stack

/-!
Operations that nobody can notice: reading, asking for the block, and dropping entries without changes,
at any layer of a stack. They may load entries and move them about, but each layer shows what it showed
before, and the flags stay sound (`read_quiet`, `holds_quiet`, `tip_quiet`, `thin_quiet`).

Over a dependable store a read never fails, and answers what the layer shows (`read_answers`,
`holds_answers`). Whatever the store and the flags, a relation between layers before and after that survives all
that a read does to a single layer is one between the layers before and after the read (`SurvivesReads`).
-/
namespace CoinLayers.Layers

variable {ρ α : Type} [Backing ρ] {Proper : ρ → Prop} {layers below before after : Layers ρ} {o : OutPoint}

/-- Some layers became others of which no reader can tell: every layer shows what it showed before. -/
structure Quiet (Proper : ρ → Prop) (before after : Layers ρ) : Prop where
  stack : Stack Proper after
  sound : Sound after
  shows : ∀ depth, shows (after.drop depth) = shows (before.drop depth)

namespace Quiet

theorem refl (stack : Stack Proper layers) (sound : Sound layers) : Quiet Proper layers layers :=
  ⟨stack, sound, fun _ => rfl⟩

theorem top (quiet : Quiet Proper before after) : Layers.shows after = Layers.shows before :=
  quiet.shows 0

theorem stands {view : Shown} (quiet : Quiet Proper before after) (stands : Stands Proper before view) :
    Stands Proper after view :=
  ⟨quiet.stack, quiet.sound, quiet.top.trans stands.shows⟩

theorem relay (quiet : Quiet Proper below after) : Quiet Proper (.relay 0 :: below) (.relay 0 :: after) where
  stack := .relay quiet.stack
  sound := ⟨trivial, quiet.sound⟩
  shows
    | 0 => by
      show Layers.shows (.relay 0 :: after) = Layers.shows (.relay 0 :: below)
      rw [shows_relay, shows_relay, List.drop_zero, List.drop_zero, quiet.top]
    | depth + 1 => quiet.shows depth

theorem guarded {guard later : ReadGuard} (quiet : Quiet Proper below after) :
    Quiet Proper (.guarded 0 guard :: below) (.guarded 0 later :: after) where
  stack := .guarded later quiet.stack
  sound := ⟨trivial, quiet.sound⟩
  shows
    | 0 => by
      show Layers.shows (.guarded 0 later :: after) = Layers.shows (.guarded 0 guard :: below)
      rw [shows_guarded, shows_guarded, List.drop_zero, List.drop_zero, quiet.top]
    | depth + 1 => quiet.shows depth

/-- A cache may change too, if what is seen through it does not. -/
theorem cached {cache later : Cache} (quiet : Quiet Proper below after)
    (sound : later.entries.SoundOver (Layers.shows below))
    (same : later.entries.atop (Layers.shows below) = cache.entries.atop (Layers.shows below)) :
    Quiet Proper (.cached 0 cache :: below) (.cached 0 later :: after) where
  stack := .cached later quiet.stack
  sound := by
    refine ⟨?_, quiet.sound⟩
    show later.entries.SoundOver (Layers.shows after)
    rw [quiet.top]
    exact sound
  shows
    | 0 => by
      show Layers.shows (.cached 0 later :: after) = Layers.shows (.cached 0 cache :: below)
      rw [shows_cached, shows_cached, List.drop_zero, List.drop_zero, quiet.top, same]
    | depth + 1 => quiet.shows depth

end Quiet

/-- Questions change nothing at a root. -/
private theorem quiet_root {store later : ρ}
    (kept : Proper later ∧ ∀ p, (Backing.read p later).1 = (Backing.read p store).1) :
    Quiet Proper [.root store] [.root later] where
  stack := .root kept.1
  sound := ⟨trivial, trivial⟩
  shows
    | 0 => by
      funext p
      show unspentIn ((Backing.read p later).1.mapError .fault) = unspentIn ((Backing.read p store).1.mapError .fault)
      rw [kept.2]
    | depth + 1 => by simp

omit [Backing ρ] in
/-- A guard keeps the layers that a read leaves, and itself changes at most. -/
theorem state_watch (skip : Nat) (guard : ReadGuard) (read : Outcome (Layers ρ) α) :
    ∃ later, ((guard.watch read).mapState fun (guard, below) => Layer.guarded skip guard :: below).state =
      .guarded skip later :: read.state := by
  rw [ReadGuard.watch]
  split
  · next fault _ => exact ⟨(guard.meet (α := α) fault).state, rfl⟩
  · exact ⟨guard, rfl⟩

omit [Backing ρ] in
/-- A guard answers only what was read. -/
theorem ok_of_watch {guard : ReadGuard} {read : Outcome (Layers ρ) α} {value : α}
    (ok : (guard.watch read).result = .ok value) : read.result = .ok value := by
  rw [ReadGuard.watch] at ok
  split at ok
  · next fault _ =>
    have failed : (guard.meet (α := α) fault).result = .ok value := ok
    rw [ReadGuard.meet] at failed
    split at failed <;> cases failed
  · exact ok

/-- An operation that cannot be noticed where it acts cannot be noticed from anywhere, if it leaves the layers
    above that place as they are. -/
theorem quiet_at_depth (op : Nat → Layers ρ → Layers ρ)
    (descends : ∀ depth layer below, op (depth + 1) (layer :: below) = layer :: op depth below)
    (nothing : ∀ depth, op depth [] = [])
    (here : ∀ {layers : Layers ρ}, Stack Proper layers → Sound layers → Quiet Proper layers (op 0 layers))
    (stack : Stack Proper layers) (sound : Sound layers) (depth : Nat) : Quiet Proper layers (op depth layers) := by
  induction stack generalizing depth with
  | root proper =>
    cases depth with
    | zero => exact here (.root proper) sound
    | succ depth =>
      rw [descends, nothing]
      exact .refl (.root proper) sound
  | relay stack ih =>
    cases depth with
    | zero => exact here (.relay stack) sound
    | succ depth =>
      rw [descends]
      exact (ih sound.2 depth).relay
  | guarded guard stack ih =>
    cases depth with
    | zero => exact here (.guarded guard stack) sound
    | succ depth =>
      rw [descends]
      exact (ih sound.2 depth).guarded
  | cached cache stack ih =>
    cases depth with
    | zero => exact here (.cached cache stack) sound
    | succ depth =>
      rw [descends]
      exact (ih sound.2 depth).cached sound.1 rfl

theorem read_nil (depth : Nat) : read o depth ([] : Layers ρ) = .done none [] := by
  cases depth <;> rfl

/-- To read a coin, at any layer, changes nothing that can be seen. -/
theorem read_quiet (laws : Steady Proper) (stack : Stack Proper layers) (sound : Sound layers) (o : OutPoint)
    (depth : Nat) : Quiet Proper layers (read o depth layers).state := by
  refine quiet_at_depth (fun depth layers => (read o depth layers).state) (fun _ _ _ => rfl)
    (fun depth => congrArg _ (read_nil depth)) (fun stack sound => ?_) stack sound depth
  induction stack with
  | @root store proper => exact quiet_root (laws.read o store proper)
  | relay _ ih => exact (ih sound.2).relay
  | @guarded below guard _ ih =>
    obtain ⟨later, watched⟩ := state_watch 0 guard (read o 0 below)
    show Quiet Proper _ (read o 0 (.guarded 0 guard :: below)).state
    rw [read, watched]
    exact (ih sound.2).guarded
  | @cached below cache stack ih =>
    show Quiet Proper _ (read o 0 (.cached 0 cache :: below)).state
    rw [read]
    cases found : cache.entries[o]? with
    | some entry => exact (Quiet.refl stack sound.2).cached sound.1 rfl
    | none => exact (ih sound.2).cached (Cache.sound_learn rfl sound.1) (Cache.atop_learn found rfl)

/-- A cache that is asked for an unspent coin asks the layer below for the coin itself, as in a read. -/
theorem state_holds_cached {skip : Nat} {cache : Cache} :
    (holds o 0 (.cached skip cache :: below)).state = (read o 0 (.cached skip cache :: below)).state := by
  rw [holds, read]
  split <;> rfl

theorem holds_nil (depth : Nat) : holds o depth ([] : Layers ρ) = .done false [] := by
  cases depth <;> rfl

theorem holds_quiet (laws : Steady Proper) (stack : Stack Proper layers) (sound : Sound layers) (o : OutPoint)
    (depth : Nat) : Quiet Proper layers (holds o depth layers).state := by
  refine quiet_at_depth (fun depth layers => (holds o depth layers).state) (fun _ _ _ => rfl)
    (fun depth => congrArg _ (holds_nil depth)) (fun stack sound => ?_) stack sound depth
  induction stack with
  | @root store proper => exact quiet_root (laws.holds o store proper)
  | relay _ ih => exact (ih sound.2).relay
  | @guarded below guard _ ih =>
    obtain ⟨later, watched⟩ := state_watch 0 guard (holds o 0 below)
    show Quiet Proper _ (holds o 0 (.guarded 0 guard :: below)).state
    rw [holds, watched]
    exact (ih sound.2).guarded
  | @cached below cache stack _ =>
    show Quiet Proper _ (holds o 0 (.cached 0 cache :: below)).state
    rw [state_holds_cached]
    exact read_quiet laws (.cached cache stack) sound o 0

theorem tip_nil (depth : Nat) : tip depth ([] : Layers ρ) = (.zero, []) := by
  cases depth <;> rfl

theorem tip_quiet (laws : Steady Proper) (stack : Stack Proper layers) (sound : Sound layers) (depth : Nat) :
    Quiet Proper layers (tip depth layers).2 := by
  refine quiet_at_depth (fun depth layers => (tip depth layers).2) (fun _ _ _ => rfl)
    (fun depth => congrArg _ (tip_nil depth)) (fun stack sound => ?_) stack sound depth
  induction stack with
  | @root store proper => exact quiet_root (laws.tip store proper)
  | relay _ ih => exact (ih sound.2).relay
  | guarded _ _ ih => exact (ih sound.2).guarded
  | @cached below cache stack ih =>
    show Quiet Proper _ (tip 0 (.cached 0 cache :: below)).2
    rw [tip]
    split
    · exact .refl (.cached cache stack) sound
    · exact (ih sound.2).cached sound.1 rfl

theorem tipOf_quiet (laws : Steady Proper) (stack : Stack Proper below) (sound : Sound below) (cache : Cache) :
    Quiet Proper below (tipOf cache 0 below).2 := by
  rw [tipOf]
  split
  · exact .refl stack sound
  · exact tip_quiet laws stack sound 0

/-- A change to a cache that only drops entries without changes cannot be seen from any layer. -/
theorem thin_quiet (change : Cache → Outcome Cache α)
    (thins : ∀ cache : Cache, Entries.Thinned cache.entries (change cache).state.entries) (stack : Stack Proper layers)
    (sound : Sound layers) (depth : Nat) : Quiet Proper layers (onCache change depth layers).state := by
  refine quiet_at_depth (fun depth layers => (onCache change depth layers).state) (fun _ _ _ => rfl) ?_
    (fun stack sound => ?_) stack sound depth
  · intro depth
    cases depth <;> rfl
  · cases stack with
    | root proper => exact .refl (.root proper) sound
    | relay stack => exact .refl (.relay stack) sound
    | guarded guard stack => exact .refl (.guarded guard stack) sound
    | @cached below cache stack =>
      have flags : cache.entries.SoundOver (shows below) := sound.1
      exact (Quiet.refl stack sound.2).cached ((thins cache).sound flags) ((thins cache).atop flags.agrees)

/-! ### What readers are told -/

/-- Over a dependable store a read answers with what the layer shows. -/
theorem read_answers (laws : Dependable Proper) (stack : Stack Proper layers) (o : OutPoint) (depth : Nat) :
    ∃ found, (read o depth layers).result = .ok found ∧ unspentIn (.ok found) = shows (layers.drop depth) o := by
  suffices answers : ∃ found, (read o depth layers).result = .ok found by
    obtain ⟨found, answered⟩ := answers
    exact ⟨found, answered, by rw [← unspentIn_read, answered]⟩
  induction stack generalizing depth with
  | @root store proper =>
    cases depth with
    | zero =>
      obtain ⟨found, answered⟩ := laws.readable o store proper
      refine ⟨found, ?_⟩
      show (Backing.read o store).1.mapError Failure.fault = .ok found
      rw [answered]
      rfl
    | succ depth =>
      refine ⟨none, ?_⟩
      show (read o depth ([] : Layers ρ)).result = .ok none
      rw [read_nil]
      rfl
  | relay _ ih =>
    cases depth with
    | zero => exact ih 0
    | succ depth => exact ih depth
  | @guarded below guard _ ih =>
    cases depth with
    | zero =>
      obtain ⟨found, answered⟩ := ih 0
      refine ⟨found, ?_⟩
      show (guard.watch (read o 0 below)).result = .ok found
      simp only [ReadGuard.watch, answered]
      exact answered
    | succ depth => exact ih depth
  | @cached below cache _ ih =>
    cases depth with
    | zero =>
      rw [read]
      split
      · next entry _ => exact ⟨some entry.coin, rfl⟩
      · exact ih 0
    | succ depth => exact ih depth

/-- So does the question for an unspent coin. -/
theorem holds_answers (laws : Dependable Proper) (stack : Stack Proper layers) (o : OutPoint) (depth : Nat) :
    (holds o depth layers).result = .ok (shows (layers.drop depth) o).isSome := by
  induction stack generalizing depth with
  | @root store proper =>
    cases depth with
    | zero =>
      show (Backing.holds o store).1.mapError Failure.fault = .ok (storeShows store o).isSome
      rw [laws.holding o store proper]
      rfl
    | succ depth =>
      show (holds o depth ([] : Layers ρ)).result = .ok (shows (([] : Layers ρ).drop depth) o).isSome
      rw [holds_nil, List.drop_nil]
      rfl
  | @relay below _ ih =>
    cases depth with
    | zero =>
      show (holds o 0 below).result = .ok (shows (.relay 0 :: below) o).isSome
      rw [shows_relay]
      exact ih 0
    | succ depth => exact ih depth
  | @guarded below guard _ ih =>
    cases depth with
    | zero =>
      show (guard.watch (holds o 0 below)).result = .ok (shows (.guarded 0 guard :: below) o).isSome
      rw [shows_guarded]
      have answered := ih 0
      simp only [ReadGuard.watch, answered]
      exact answered
    | succ depth => exact ih depth
  | @cached below cache stack ih =>
    cases depth with
    | zero =>
      show (holds o 0 (.cached 0 cache :: below)).result = .ok (shows (.cached 0 cache :: below) o).isSome
      rw [holds, shows_cached]
      split
      · next entry found =>
        rw [Entries.atop_of_some found, Coin.unspent?]
        cases spent : entry.coin.isSpent <;> simp [Outcome.done]
      · next missing =>
        obtain ⟨found, answered, seen⟩ := read_answers laws stack o 0
        rw [Entries.atop_of_none missing, List.drop_zero, ← List.drop_zero (l := below), ← seen]
        show (read o 0 below).result.map showsUnspent = _
        rw [answered]
        cases found with
        | none => rfl
        | some coin =>
          show Except.ok (!coin.isSpent) = .ok coin.unspent?.isSome
          rw [Coin.unspent?]
          cases coin.isSpent <;> rfl
    | succ depth => exact ih depth

/-! ### What an operation does to the layers on its way -/

omit [Backing ρ] in
/-- A relation between layers before and after an operation holds wherever the operation is carried out, if it
    holds where it is carried out at the top, and layers above do not matter. -/
theorem related_at_depth (Rel : Layers ρ → Layers ρ → Prop) (none : Rel [] [])
    (under : ∀ (layer : Layer ρ) {below after : Layers ρ}, Rel below after → Rel (layer :: below) (layer :: after))
    (op : Nat → Layers ρ → Layers ρ)
    (descends : ∀ depth layer below, op (depth + 1) (layer :: below) = layer :: op depth below)
    (nothing : ∀ depth, op depth [] = [])
    (here : ∀ (layer : Layer ρ) (below : Layers ρ), (∀ depth, Rel below (op depth below)) →
      Rel (layer :: below) (op 0 (layer :: below)))
    (depth : Nat) (layers : Layers ρ) : Rel layers (op depth layers) := by
  induction layers generalizing depth with
  | nil =>
    rw [nothing]
    exact none
  | cons layer below ih =>
    cases depth with
    | zero => exact here layer below ih
    | succ depth =>
      rw [descends]
      exact under layer (ih depth)

/-- Relations between layers before and after that survive all that a read does to a layer. -/
structure SurvivesReads (o : OutPoint) (Rel : Layers ρ → Layers ρ → Prop) : Prop where
  empty : Rel [] []
  under : ∀ (layer : Layer ρ) {below after : Layers ρ}, Rel below after → Rel (layer :: below) (layer :: after)
  root : ∀ (store : ρ) (below : Layers ρ), Rel (.root store :: below) (.root (Backing.read o store).2 :: below)
  guarded : ∀ (skip : Nat) (guard told : ReadGuard) {below after : Layers ρ}, Rel below after →
    Rel (.guarded skip guard :: below) (.guarded skip told :: after)
  touched : ∀ (skip : Nat) (cache : Cache) (below : Layers ρ), o ∈ cache.entries →
    Rel (.cached skip cache :: below) (.cached skip (cache.touch o) :: below)
  learned : ∀ (skip : Nat) (cache : Cache) (below : Layers ρ), cache.entries[o]? = none →
    Rel below (read o skip below).state →
    Rel (.cached skip cache :: below)
      (.cached skip (cache.learn o (read o skip below).result) :: (read o skip below).state)

namespace SurvivesReads

variable {Rel : Layers ρ → Layers ρ → Prop} (survives : SurvivesReads o Rel)
include survives

theorem read (depth : Nat) (layers : Layers ρ) : Rel layers (read o depth layers).state := by
  refine related_at_depth Rel survives.empty survives.under (fun depth layers => (Layers.read o depth layers).state)
    (fun _ _ _ => rfl) (fun depth => congrArg _ (read_nil depth)) (fun layer below lower => ?_) depth layers
  cases layer with
  | root store => exact survives.root store below
  | relay skip => exact survives.under _ (lower skip)
  | guarded skip guard =>
    obtain ⟨later, watched⟩ := state_watch skip guard (Layers.read o skip below)
    show Rel _ (Layers.read o 0 (.guarded skip guard :: below)).state
    rw [Layers.read, watched]
    exact survives.guarded skip guard later (lower skip)
  | cached skip cache =>
    show Rel _ (Layers.read o 0 (.cached skip cache :: below)).state
    rw [Layers.read]
    cases there : cache.entries[o]? with
    | some entry =>
      exact survives.touched skip cache below (Std.ExtTreeMap.mem_iff_isSome_getElem?.mpr (by simp [there]))
    | none => exact survives.learned skip cache below there (lower skip)

/-- The question for an unspent coin does the same, but for what it does to a root. -/
theorem holds
    (root : ∀ (store : ρ) (below : Layers ρ), Rel (.root store :: below) (.root (Backing.holds o store).2 :: below))
    (depth : Nat) (layers : Layers ρ) : Rel layers (holds o depth layers).state := by
  refine related_at_depth Rel survives.empty survives.under (fun depth layers => (Layers.holds o depth layers).state)
    (fun _ _ _ => rfl) (fun depth => congrArg _ (holds_nil depth)) (fun layer below lower => ?_) depth layers
  cases layer with
  | root store => exact root store below
  | relay skip => exact survives.under _ (lower skip)
  | guarded skip guard =>
    obtain ⟨later, watched⟩ := state_watch skip guard (Layers.holds o skip below)
    show Rel _ (Layers.holds o 0 (.guarded skip guard :: below)).state
    rw [Layers.holds, watched]
    exact survives.guarded skip guard later (lower skip)
  | cached skip cache =>
    show Rel _ (Layers.holds o 0 (.cached skip cache :: below)).state
    rw [state_holds_cached]
    exact survives.read 0 (.cached skip cache :: below)

end SurvivesReads

end CoinLayers.Layers
