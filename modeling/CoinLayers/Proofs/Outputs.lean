import CoinLayers.Proofs.Inputs
import CoinLayers.Proofs.Lookups

/-!
Adding the outputs of a transaction.

Where the view through a cache shows none of them, or where they may overwrite, each output that can ever be spent is seen
in its place afterwards, and nothing else has changed (`Shown.Gains`). With checks the cache looks up the place of each
output first, and stops at the first one that cannot be looked up, with those before it added (`Admits.addOutputs`).
All this hangs on little that is known of the layers (`Admits`), which stores that fail now and then allow for (`Tracks`),
and so do stores in memory.
-/
namespace CoinLayers

variable {txid : Hash256} {height : UInt32} {isCoinbase checks : Bool} {number : Nat} {output : Output}
  {outputs rest : List Output} {o : OutPoint}

/-! ### Views -/

namespace Shown

variable {view : Shown}

/-- A view after some outputs were added, the first of them under the given number, whatever was in their places. -/
def withOutputs (txid : Hash256) (height : UInt32) (isCoinbase : Bool) (view : Shown) : Nat → List Output → Shown
  | _, [] => view
  | number, output :: rest =>
    withOutputs txid height isCoinbase
      (view.add (Transaction.place txid number) (.ofOutput output height isCoinbase) true) (number + 1) rest

/-- What it means that a view has gained the outputs of a transaction, and nothing else. -/
structure Gains (txid : Hash256) (height : UInt32) (isCoinbase : Bool) (outputs : List Output) (before after : Shown) :
    Prop where
  /-- Each output that can be spent is seen in its place. -/
  made : ∀ i output, outputs[i]? = some output → (Coin.ofOutput output height isCoinbase).isUnspendable = false →
    after (Transaction.place txid i) = some (.ofOutput output height isCoinbase)
  /-- All other places are as they were, and so are those of outputs that can never be spent. -/
  others : ∀ o, (∀ i output, outputs[i]? = some output → o = Transaction.place txid i →
    (Coin.ofOutput output height isCoinbase).isUnspendable = true) → after o = before o

/-- An addition that nothing stops is one that may overwrite. -/
theorem add_of_free {coin : Coin} {mayOverwrite : Bool} (free : mayOverwrite = true ∨ view o = none) :
    view.add o coin mayOverwrite = view.add o coin true := by
  funext p
  simp [add, free]

theorem withOutputs_other
    (apart : ∀ i output, outputs[i]? = some output → o = Transaction.place txid (number + i) →
      (Coin.ofOutput output height isCoinbase).isUnspendable = true) :
    view.withOutputs txid height isCoinbase number outputs o = view o := by
  induction outputs generalizing view number with
  | nil => rfl
  | cons output rest ih =>
    rw [withOutputs, ih, add]
    · refine if_neg fun here => ?_
      obtain ⟨same, spendable, -⟩ := here
      rw [apart 0 output rfl same] at spendable
      cases spendable
    · intro i other found same
      refine apart (i + 1) other found ?_
      rwa [Nat.add_right_comm] at same

theorem withOutputs_made (few : number + outputs.length ≤ UInt32.size) {i : Nat} (found : outputs[i]? = some output)
    (spendable : (Coin.ofOutput output height isCoinbase).isUnspendable = false) :
    view.withOutputs txid height isCoinbase number outputs (Transaction.place txid (number + i)) =
      some (.ofOutput output height isCoinbase) := by
  induction outputs generalizing view number i with
  | nil => simp at found
  | cons first rest ih =>
    rw [List.length_cons] at few
    cases i with
    | succ i =>
      rw [← Nat.add_assoc, Nat.add_right_comm]
      exact ih (by omega) found
    | zero =>
      cases found
      rw [withOutputs, withOutputs_other]
      · rw [add, if_pos ⟨rfl, spendable, .inl rfl⟩]
        rfl
      · -- The later outputs have other outpoints, as their numbers fit into a word.
        intro j other later same
        have inside : j < rest.length := (List.getElem?_eq_some_iff.mp later).1
        have equal := Transaction.place_injective (by omega) (by omega) same
        omega

theorem gains_withOutputs (few : outputs.length < UInt32.size) :
    Gains txid height isCoinbase outputs view (view.withOutputs txid height isCoinbase 0 outputs) where
  made i output found spendable := by
    rw [← Nat.zero_add i]
    exact withOutputs_made (by omega) found spendable
  others o apart := withOutputs_other fun i output found same => apart i output found (Nat.zero_add i ▸ same)

end Shown

namespace Layers

variable {ρ : Type} [Backing ρ] {layers : Layers ρ} {view : Shown} {depth : Nat} {why : Failure}

/-! ### One output after the other -/

/-- Whether the output with a number may overwrite. -/
def leave (txid : Hash256) (isCoinbase checks : Bool) (depth number : Nat) (layers : Layers ρ) :
    Outcome (Layers ρ) Bool :=
  if checks then holds (Transaction.place txid number) depth layers else .done isCoinbase layers

theorem addOutputsFrom_cons : addOutputsFrom txid height isCoinbase checks depth number (output :: rest) layers =
    ((leave txid isCoinbase checks depth number layers).andThen fun allowed layers =>
      add (Transaction.place txid number) (.ofOutput output height isCoinbase) allowed depth layers).andThen
        fun _ layers => addOutputsFrom txid height isCoinbase checks depth (number + 1) rest layers :=
  rfl

theorem addOutputsFrom_append (early late : List Output) :
    addOutputsFrom txid height isCoinbase checks depth number (early ++ late) layers =
      (addOutputsFrom txid height isCoinbase checks depth number early layers).andThen fun _ layers =>
        addOutputsFrom txid height isCoinbase checks depth (number + early.length) late layers := by
  induction early generalizing number layers with
  | nil => rfl
  | cons output rest ih =>
    rw [List.cons_append, addOutputsFrom_cons, addOutputsFrom_cons]
    refine (Outcome.andThen_congr fun _ _ => ?_).trans Outcome.andThen_assoc.symm
    rw [ih, List.length_cons, Nat.add_assoc, Nat.add_comm 1]

/-- The addition stops where the place of an output cannot be looked up. -/
theorem addOutputsFrom_stops {k : Nat} (inside : k < outputs.length)
    (early : (addOutputsFrom txid height isCoinbase true depth number (outputs.take k) layers).result = .ok ())
    (failed : (holds (Transaction.place txid (number + k)) depth
      (addOutputsFrom txid height isCoinbase true depth number (outputs.take k) layers).state).result = .error why) :
    (addOutputsFrom txid height isCoinbase true depth number outputs layers).result = .error why ∧
      (addOutputsFrom txid height isCoinbase true depth number outputs layers).state =
        (holds (Transaction.place txid (number + k)) depth
          (addOutputsFrom txid height isCoinbase true depth number (outputs.take k) layers).state).state := by
  have parts : outputs = outputs.take k ++ outputs[k] :: outputs.drop (k + 1) := by
    rw [← List.drop_eq_getElem_cons inside, List.take_append_drop]
  have length : (outputs.take k).length = k := List.length_take_of_le (Nat.le_of_lt inside)
  generalize outputs.take k = before at parts early failed length
  rw [parts, addOutputsFrom_append, Outcome.andThen, early, length]
  dsimp only
  generalize (addOutputsFrom txid height isCoinbase true depth number before layers).state = reached at failed
  rw [addOutputsFrom_cons, leave, if_pos rfl, Outcome.andThen, Outcome.andThen, failed]
  exact ⟨rfl, rfl⟩

/-- What is enough to know of some layers, together with the view through one of them, to add outputs there. -/
structure Admits (depth : Nat) (Known : Layers ρ → Shown → Prop) : Prop where
  /-- A question changes nothing, and is answered from the view if it is answered. -/
  asked : ∀ {layers : Layers ρ} {view : Shown} (o : OutPoint), Known layers view →
    Known (holds o depth layers).state view ∧
      ∀ held, (holds o depth layers).result = .ok held → held = (view o).isSome
  /-- An addition that nothing stops succeeds, and is one to the view. -/
  added : ∀ {layers : Layers ρ} {view : Shown} {mayOverwrite : Bool} (o : OutPoint) (coin : Coin), Known layers view →
    (mayOverwrite = true ∨ view o = none) →
      (add o coin mayOverwrite depth layers).result = .ok () ∧
        Known (add o coin mayOverwrite depth layers).state (view.add o coin mayOverwrite)

namespace Admits

variable {Known : Layers ρ → Shown → Prop} (admits : Admits depth Known)
include admits

/-- One output is added, unless its place cannot be looked up. -/
theorem addOutput (known : Known layers view) (output : Output)
    (free : checks = true ∨ isCoinbase = true ∨ view (Transaction.place txid number) = none) :
    (∃ events later, Known later
        (view.add (Transaction.place txid number) (.ofOutput output height isCoinbase) true) ∧
      ∀ rest, addOutputsFrom txid height isCoinbase checks depth number (output :: rest) layers =
        (addOutputsFrom txid height isCoinbase checks depth (number + 1) rest later).after events) ∨
    ∃ why, checks = true ∧ (holds (Transaction.place txid number) depth layers).result = .error why := by
  cases asked : (leave txid isCoinbase checks depth number layers).result with
  | error why =>
    cases checks with
    | false => cases asked
    | true => exact .inr ⟨why, rfl, asked⟩
  | ok allowed =>
    have reached : Known (leave txid isCoinbase checks depth number layers).state view ∧
        (allowed = true ∨ view (Transaction.place txid number) = none) := by
      cases checks with
      | false =>
        cases asked
        exact ⟨known, free.resolve_left Bool.false_ne_true⟩
      | true =>
        obtain ⟨still, told⟩ := admits.asked (Transaction.place txid number) known
        refine ⟨still, ?_⟩
        rw [told allowed asked]
        cases view (Transaction.place txid number) <;> simp
    obtain ⟨still, unstopped⟩ := reached
    obtain ⟨added, later⟩ := admits.added (Transaction.place txid number) (.ofOutput output height isCoinbase) still unstopped
    rw [Shown.add_of_free unstopped] at later
    refine .inl ⟨(leave txid isCoinbase checks depth number layers).events ++ (add (Transaction.place txid number)
      (.ofOutput output height isCoinbase) allowed depth (leave txid isCoinbase checks depth number layers).state).events,
      _, later, fun rest => ?_⟩
    rw [addOutputsFrom_cons, Outcome.andThen_assoc, Outcome.andThen, asked]
    dsimp only
    rw [Outcome.andThen, added]
    exact Outcome.after_after

/-- Outputs are added one after the other, up to the first one of which the place cannot be looked up. -/
theorem addOutputs (height : UInt32) (known : Known layers view) (few : number + outputs.length ≤ UInt32.size)
    (free : checks = true ∨ isCoinbase = true ∨
      ∀ i < outputs.length, view (Transaction.place txid (number + i)) = none) :
    ((addOutputsFrom txid height isCoinbase checks depth number outputs layers).result = .ok () ∧
      Known (addOutputsFrom txid height isCoinbase checks depth number outputs layers).state
        (view.withOutputs txid height isCoinbase number outputs)) ∨
    ∃ k < outputs.length, ∃ why, checks = true ∧
      (addOutputsFrom txid height isCoinbase checks depth number (outputs.take k) layers).result = .ok () ∧
      (holds (Transaction.place txid (number + k)) depth
        (addOutputsFrom txid height isCoinbase checks depth number (outputs.take k) layers).state).result = .error why := by
  induction outputs generalizing number layers view with
  | nil => exact .inl ⟨rfl, known⟩
  | cons output rest ih =>
    rw [List.length_cons] at few
    have here : checks = true ∨ isCoinbase = true ∨ view (Transaction.place txid number) = none :=
      free.imp_right fun free => free.imp_right fun all => all 0 (Nat.succ_pos _)
    rcases admits.addOutput known output here with ⟨events, later, still, stepped⟩ | ⟨why, checked, failed⟩
    · -- The later outputs have other outpoints, as their numbers fit into a word.
      have others : checks = true ∨ isCoinbase = true ∨ ∀ i < rest.length, view.add (Transaction.place txid number)
          (.ofOutput output height isCoinbase) true (Transaction.place txid (number + 1 + i)) = none := by
        refine free.imp_right fun free => free.imp_right fun all i inside => ?_
        rw [Shown.add_other, Nat.add_assoc, Nat.add_comm 1 i]
        · exact all (i + 1) (Nat.succ_lt_succ inside)
        · intro same
          have equal := Transaction.place_injective (by omega) (by omega) same
          omega
      rw [stepped]
      rcases ih still (by omega) others with ⟨ok, whole⟩ | ⟨k, inside, why, checked, early, failed⟩
      · exact .inl ⟨ok, whole⟩
      · refine .inr ⟨k + 1, Nat.succ_lt_succ inside, why, checked, ?_⟩
        rw [List.take_succ_cons, stepped, ← Nat.add_assoc, Nat.add_right_comm]
        exact ⟨early, failed⟩
    · exact .inr ⟨0, Nat.succ_pos _, why, checked, rfl, failed⟩

/-- When all outputs were added, they are seen. -/
theorem known_of_ok (known : Known layers view) (few : number + outputs.length ≤ UInt32.size)
    (free : checks = true ∨ isCoinbase = true ∨
      ∀ i < outputs.length, view (Transaction.place txid (number + i)) = none)
    (ok : (addOutputsFrom txid height isCoinbase checks depth number outputs layers).result = .ok ()) :
    Known (addOutputsFrom txid height isCoinbase checks depth number outputs layers).state
      (view.withOutputs txid height isCoinbase number outputs) := by
  rcases admits.addOutputs height known few free with ⟨_, added⟩ | ⟨k, inside, why, rfl, early, failed⟩
  · exact added
  · cases ok.symm.trans (addOutputsFrom_stops inside early failed).1

end Admits

/-! ### Over stores that tell the truth -/

variable {Proper : ρ → Prop} {truth : Shown} {start before after : Layers ρ}

/-- The flags of the cache at a depth are sound: its fresh entries stand over no unspent coin, and its clean ones repeat
    what the layer below shows. -/
def FlagsSound (truth : Shown) (depth : Nat) (layers : Layers ρ) : Prop :=
  ∀ skip cache below, layers.drop depth = .cached skip cache :: below → cache.entries.SoundOver (sees truth skip below)

omit [Backing ρ] in
/-- They stay sound when coins are fetched. -/
theorem Fetched.flagsSound (fetched : Fetched Proper truth before after) (there : (cacheAt? depth before).isSome = true)
    (sound : FlagsSound truth depth before) : FlagsSound truth depth after := by
  intro skip later lower here o entry found
  obtain ⟨others, cache, below, acting⟩ := isSome_cacheAt?.mp there
  obtain ⟨mine, _, still, filled, same⟩ := fetched.acting acting
  cases here.symm.trans still
  have seen := fetched.sees depth
  rw [sees_acting still, sees_acting acting, same] at seen
  rw [same]
  rcases filled o with unchanged | ⟨missing, coin, loaded⟩
  · exact sound skip cache below acting o entry (unchanged.symm.trans found)
  · cases loaded.symm.trans found
    have told : coin.unspent? = Layers.sees truth skip below o := by
      have here := congrFun seen o
      rwa [Entries.atop_of_some loaded, Entries.atop_of_none missing] at here
    refine ⟨fun fresh => ?_, fun _ => told⟩
    rw [← told]
    exact Coin.unspent?_eq_none.mpr fresh

omit [Backing ρ] in
/-- Operations at a depth leave the layers above as they are. -/
theorem Descends.take {α : Type} {op : Nat → Layers ρ → Outcome (Layers ρ) α} (descends : Descends op)
    (inside : depth < layers.length) : (op depth layers).state.take depth = layers.take depth := by
  rw [descends.eq_drop inside]
  exact List.take_left' (List.length_take_of_le (Nat.le_of_lt inside))

/-- What is known of some layers while outputs are added to the cache at a depth: its flags are sound, it shows a view, and
    the layers below it show what they did at the start. -/
structure Tracks (Proper : ρ → Prop) (truth : Shown) (depth : Nat) (start layers : Layers ρ) (view : Shown) : Prop where
  proper : EveryRoot Proper layers
  there : (cacheAt? depth layers).isSome = true
  flags : FlagsSound truth depth layers
  seen : sees truth depth layers = view
  below : ∀ further, sees truth (depth + (further + 1)) layers = sees truth (depth + (further + 1)) start

theorem admits_tracks (laws : Truthful Proper truth) : Admits depth (Tracks Proper truth depth start) where
  asked {layers view} o tracks := by
    obtain ⟨skip, cache, below, acting⟩ := isSome_cacheAt?.mp tracks.there
    have fetched := fetched_holds acting laws tracks.proper o
    obtain ⟨later, lower, still, -, -⟩ := fetched.acting acting
    refine ⟨⟨fetched.proper, ?_, fetched.flagsSound tracks.there tracks.flags, (fetched.sees depth).trans tracks.seen,
      fun further => (fetched.sees _).trans (tracks.below further)⟩, fun held told => ?_⟩
    · exact isSome_cacheAt?.mpr ⟨skip, later, lower, still⟩
    · rw [← tracks.seen]
      exact (holds_tells acting laws tracks.proper told).1
  added {layers view mayOverwrite} o coin tracks free := by
    obtain ⟨skip, cache, below, acting⟩ := isSome_cacheAt?.mp tracks.there
    have descends : Descends (add (ρ := ρ) o coin mayOverwrite) := fun _ _ _ => rfl
    obtain ⟨result, state⟩ := descends.at_cache acting
    have changed : (add o coin mayOverwrite depth layers).state.drop depth =
        .cached skip (cache.add o coin mayOverwrite).state :: below := state
    have shown : view = cache.entries.atop (sees truth skip below) := tracks.seen.symm.trans (sees_acting acting)
    have vouched : mayOverwrite = true ∨ o ∈ cache.entries ∨ sees truth skip below o = none :=
      free.imp_right fun missing => Entries.vouched_of_atop (shown ▸ missing)
    obtain ⟨ok, sound, seen⟩ := Cache.add_shown (tracks.flags skip cache below acting) vouched
    have above := descends.take (lt_length_of_cacheAt? (cacheAt?_eq_some.mpr ⟨skip, below, acting⟩))
    refine ⟨result.trans ok, tracks.proper.changed acting above changed, ?_, ?_, ?_, fun further => ?_⟩
    · exact isSome_cacheAt?.mpr ⟨skip, _, below, changed⟩
    · intro _ _ _ same
      cases changed.symm.trans same
      exact sound
    · rw [sees_acting changed, seen, shown]
    · rw [← tracks.below, ← sees_below changed, ← sees_below acting]

/-- What it means that a cache, and the view through it, have gained some outputs of a transaction, and nothing else. -/
structure Gained (truth : Shown) (depth : Nat) (tx : Transaction) (height : UInt32) (outputs : List Output)
    (before after : Layers ρ) : Prop where
  view : Shown.Gains tx.txid height tx.isCoinbase outputs (sees truth depth before) (sees truth depth after)
  flags : FlagsSound truth depth after
  /-- The layers below show what they did before. -/
  below : ∀ further, sees truth (depth + (further + 1)) after = sees truth (depth + (further + 1)) before
  reads : ReadsAs truth after

/-- The outputs of a transaction up to the one with the given number, added as coins. -/
def addFirst (tx : Transaction) (height : UInt32) (checks : Bool) (depth number : Nat) (layers : Layers ρ) :
    Outcome (Layers ρ) Unit :=
  addOutputsFrom tx.txid height tx.isCoinbase checks depth 0 (tx.outputs.take number) layers

/-- The question for the output with the given number, after those before it were added. -/
def askNext (tx : Transaction) (height : UInt32) (depth number : Nat) (layers : Layers ρ) : Outcome (Layers ρ) Bool :=
  holds (Transaction.place tx.txid number) depth (addFirst tx height true depth number layers).state

/-- What it means that the outputs of a transaction are added to the cache at a depth. -/
structure Adds (truth : Shown) (tx : Transaction) (height : UInt32) (checks : Bool) (depth : Nat) (layers : Layers ρ) :
    Prop where
  added : (addOutputs tx height checks depth layers).result = .ok () →
    Gained truth depth tx height tx.outputs layers (addOutputs tx height checks depth layers).state
  /-- It fails only with checks, at an output of which the place cannot be looked up after those before it were added. -/
  fails_iff : ∀ why, (addOutputs tx height checks depth layers).result = .error why ↔
    checks = true ∧ ∃ number < tx.outputs.length, (addFirst tx height true depth number layers).result = .ok () ∧
      (askNext tx height depth number layers).result = .error why
  /-- Then those before it are added, and no others. -/
  failed : checks = true → ∀ number < tx.outputs.length, (addFirst tx height true depth number layers).result = .ok () →
    ∀ why, (askNext tx height depth number layers).result = .error why →
      Gained truth depth tx height (tx.outputs.take number) layers (addOutputs tx height true depth layers).state

variable {tx : Transaction}

/-- Where outputs may be added: with checks, by a coinbase transaction, or where none of them is seen. -/
def Free (tx : Transaction) (checks : Bool) (view : Shown) : Prop :=
  checks = true ∨ tx.isCoinbase = true ∨ ∀ o ∈ tx.places, view o = none

theorem Free.from_zero (free : Free tx checks view) {count : Nat} (some : count ≤ tx.outputs.length) :
    checks = true ∨ tx.isCoinbase = true ∨ ∀ i < count, view (Transaction.place tx.txid (0 + i)) = none := by
  refine free.imp_right fun free => free.imp_right fun all i inside => ?_
  rw [Nat.zero_add]
  exact all _ (List.mem_map_of_mem (List.mem_range.mpr (Nat.lt_of_lt_of_le inside some)))

theorem adds_outputs (laws : Truthful Proper truth) (proper : EveryRoot Proper layers)
    (there : (cacheAt? depth layers).isSome = true) (flags : FlagsSound truth depth layers)
    (few : tx.outputs.length < UInt32.size) (free : Free tx checks (sees truth depth layers)) :
    Adds truth tx height checks depth layers := by
  have admits : Admits depth (Tracks Proper truth depth layers) := admits_tracks laws
  have start : Tracks Proper truth depth layers layers (sees truth depth layers) :=
    ⟨proper, there, flags, rfl, fun _ => rfl⟩
  have gained {outputs : List Output} {later : Layers ρ} (fewer : outputs.length < UInt32.size)
      (tracks : Tracks Proper truth depth layers later
        ((sees truth depth layers).withOutputs tx.txid height tx.isCoinbase 0 outputs)) :
      Gained truth depth tx height outputs layers later := by
    refine ⟨?_, tracks.flags, tracks.below, fun _ _ _ told => read_tells laws tracks.proper told⟩
    rw [tracks.seen]
    exact Shown.gains_withOutputs fewer
  have stops {number : Nat} {why : Failure} (inside : number < tx.outputs.length)
      (early : (addFirst tx height true depth number layers).result = .ok ())
      (asked : (askNext tx height depth number layers).result = .error why) :
      (addOutputs tx height true depth layers).result = .error why ∧
        (addOutputs tx height true depth layers).state = (askNext tx height depth number layers).state := by
    have place : Transaction.place tx.txid (0 + number) = Transaction.place tx.txid number := by rw [Nat.zero_add]
    rw [askNext, ← place] at asked ⊢
    exact addOutputsFrom_stops inside early asked
  refine ⟨fun ok => ?_, fun why => ⟨fun failed => ?_, ?_⟩, ?_⟩
  · exact gained few (admits.known_of_ok start (by omega) (free.from_zero (Nat.le_refl _)) ok)
  · rcases admits.addOutputs height start (by omega) (free.from_zero (Nat.le_refl _)) with
      ⟨ok, _⟩ | ⟨k, inside, cause, rfl, early, asked⟩
    · cases ok.symm.trans failed
    · rw [Nat.zero_add] at asked
      cases failed.symm.trans (stops inside early asked).1
      exact ⟨rfl, k, inside, early, asked⟩
  · rintro ⟨rfl, k, inside, early, asked⟩
    exact (stops inside early asked).1
  · rintro rfl k inside early why asked
    have fewer : (tx.outputs.take k).length ≤ tx.outputs.length := List.length_take_le' k tx.outputs
    have known := admits.known_of_ok start (by omega) (free.from_zero fewer) early
    rw [(stops inside early asked).2]
    exact gained (by omega) (admits.asked _ known).1

/-! ### Without checks -/

omit [Backing ρ] in
theorem add_append (coin : Coin) (mayOverwrite : Bool) (above below : Layers ρ) (skip : Nat) (cache : Cache) :
    add o coin mayOverwrite above.length (above ++ .cached skip cache :: below) =
      ⟨.ok (), above ++ .cached skip (cache.add o coin mayOverwrite).state :: below,
        (cache.add o coin mayOverwrite).events⟩ := by
  have descends : Descends (add (ρ := ρ) o coin mayOverwrite) := fun _ _ _ => rfl
  rw [descends.append, ← Cache.result_add]
  rfl

/-- Without checks nothing is asked of the layers below the cache, which may as well be any others. -/
theorem addOutputsFrom_unchecked (above : Layers ρ) (skip : Nat) (cache : Cache) (number : Nat) (outputs : List Output) :
    ∃ later events, ∀ below : Layers ρ,
      addOutputsFrom txid height isCoinbase false above.length number outputs (above ++ .cached skip cache :: below) =
        ⟨.ok (), above ++ .cached skip later :: below, events⟩ := by
  induction outputs generalizing cache number with
  | nil => exact ⟨cache, [], fun _ => rfl⟩
  | cons output rest ih =>
    let added := cache.add (Transaction.place txid number) (.ofOutput output height isCoinbase) isCoinbase
    obtain ⟨later, events, others⟩ := ih added.state (number + 1)
    refine ⟨later, added.events ++ events, fun below => ?_⟩
    show (add _ _ isCoinbase above.length (above ++ .cached skip cache :: below)).andThen _ = _
    rw [add_append, Outcome.andThen]
    dsimp only
    rw [others]
    rfl

/-! ### Over a store in memory -/

omit [Backing ρ] in
/-- Operations at a depth do there what they do on top, if there is a cache. -/
theorem Descends.at_top {α : Type} {op : Nat → Layers ρ → Outcome (Layers ρ) α} (descends : Descends op)
    (top : (cacheAt? 0 (layers.drop depth)).isSome = true) :
    (op depth layers).result = (op 0 (layers.drop depth)).result ∧
      (op depth layers).state.drop depth = (op 0 (layers.drop depth)).state := by
  obtain ⟨skip, cache, below, acting⟩ := isSome_cacheAt?.mp top
  rw [List.drop_zero] at acting
  rw [acting]
  exact descends.at_cache acting

theorem admits_serves (laws : Dependable Proper) :
    Admits depth fun layers view => Serves (ρ := ρ) Proper (layers.drop depth) view where
  asked {layers view} o serves := by
    have descends : Descends (holds (ρ := ρ) o) := fun _ _ _ => rfl
    obtain ⟨result, state⟩ := descends.at_top serves.top
    obtain ⟨told, still⟩ := serves.holds laws o
    rw [state]
    exact ⟨still, fun held answered => Except.ok.inj (answered.symm.trans (result.trans told))⟩
  added {layers view mayOverwrite} o coin serves free := by
    have descends : Descends (add (ρ := ρ) o coin mayOverwrite) := fun _ _ _ => rfl
    obtain ⟨result, state⟩ := descends.at_top serves.top
    obtain ⟨ok, still⟩ := serves.add o coin free
    rw [state]
    exact ⟨result.trans ok, still⟩

/-- What it means that a coin can be taken out of a store in memory by way of the cache at a depth. -/
structure Removed (o : OutPoint) (depth : Nat) (layers : Layers MemoryStore) : Prop where
  /-- It can be spent, -/
  spent : ∃ found, (spend o depth layers).result = .ok found ∧ unspentIn (.ok found) = shows (layers.drop depth) o
  /-- the cache can then be flushed, -/
  flushed : (flush depth (spend o depth layers).state).result = .ok ()
  /-- and below it no unspent coin is shown any more. -/
  below : shows ((flush depth (spend o depth layers).state).state.drop (depth + 1)) o = none
  /-- Once the caches further down, if there are any, are flushed too, no coin is in the store. -/
  stored : ∃ store, root? (drain ((flush depth (spend o depth layers).state).state.drop (depth + 1))).state = some store ∧
    store.coin? o = none

/-- A cache on top of a stack that was flushed lies on one that shows the same. -/
theorem flush_below (laws : Dependable Proper) (serves : Serves Proper layers view) :
    (flush 0 layers).result = .ok () ∧ Stands Proper ((flush 0 layers).state.drop 1) view := by
  obtain ⟨cache, top⟩ := Option.isSome_iff_exists.mp serves.top
  obtain ⟨ok, stands, uncovers, length⟩ := flush_stands laws serves.stack serves.sound top
  have uncovered := uncovers uncovered_zero
  have inside : 1 < layers.length := by
    cases serves.stack with
    | root | relay | guarded => cases top
    | cached _ stack => cases stack <;> simp
  rw [← length] at inside
  refine ⟨ok, stands.stack.drop (List.ne_nil_of_length_pos ?_), ?_, ?_⟩
  · rw [List.length_drop]
    exact Nat.sub_pos_of_lt inside
  · generalize (flush 0 layers).state = reached at stands inside
    cases reached with
    | nil => cases inside
    | cons layer below => exact stands.sound.2
  · rw [shows_drop_of_uncovered stands.stack uncovered inside, stands.shows, serves.shows]

theorem removed_of_serves {layers : Layers MemoryStore}
    (serves : Serves MemoryStore.Unspent (layers.drop depth) view) (o : OutPoint) : Removed o depth layers := by
  have laws := MemoryStore.dependable
  have spending : Descends (spend (ρ := MemoryStore) o) := descends_spend
  obtain ⟨result, state⟩ := spending.at_top serves.top
  obtain ⟨⟨found, answered, told⟩, still⟩ := serves.spend laws o
  rw [← state] at still
  obtain ⟨flushed, left⟩ := descends_flush.at_top still.top
  obtain ⟨ok, stands⟩ := flush_below laws still
  rw [← left, List.drop_drop] at stands
  have gone : view.spend o o = none := if_pos rfl
  obtain ⟨-, -, store, bottom, unspent, seen⟩ := drain_stands laws stands.stack stands.sound
  refine ⟨⟨found, result.trans answered, ?_⟩, flushed.trans ok, ?_, store, bottom, ?_⟩
  · rw [told, serves.shows]
  · rw [stands.shows, gone]
  · have shown := congrFun (seen.trans stands.shows) o
    rwa [MemoryStore.storeShows_eq unspent, gone] at shown

/-- Outputs are added to a cache in a stack over a store in memory, and can be taken out of the store at any time. -/
theorem serves_outputs {layers : Layers MemoryStore} (serves : Serves MemoryStore.Unspent (layers.drop depth) view)
    (height : UInt32) (few : tx.outputs.length < UInt32.size) (free : Free tx checks view) :
    (addOutputs tx height checks depth layers).result = .ok () ∧
      ∃ later, Serves MemoryStore.Unspent ((addOutputs tx height checks depth layers).state.drop depth) later ∧
        Shown.Gains tx.txid height tx.isCoinbase tx.outputs view later := by
  have laws := MemoryStore.dependable
  have admits : Admits depth fun layers view => Serves MemoryStore.Unspent (layers.drop depth) view := admits_serves laws
  rcases admits.addOutputs height serves (by omega) (free.from_zero (Nat.le_refl _)) with
    ⟨ok, later⟩ | ⟨k, inside, why, rfl, early, asked⟩
  · exact ⟨ok, _, later, Shown.gains_withOutputs few⟩
  · -- A store in memory answers every question.
    have fewer : (tx.outputs.take k).length ≤ tx.outputs.length := List.length_take_le' k tx.outputs
    have still := admits.known_of_ok serves (by omega) (free.from_zero fewer) early
    have descends : Descends (holds (ρ := MemoryStore) (Transaction.place tx.txid (0 + k))) := fun _ _ _ => rfl
    have answered := (descends.at_top still.top).1.trans (still.holds laws _).1
    cases answered.symm.trans asked

/-- Let the flags of a cache be sound, over stores that tell the truth whenever they can be read. Then the outputs of a
    transaction that may be added there are added, up to the first one of which the place is to be looked up and cannot be;
    what can be seen before and after is what is read there. Without checks the layers below are not asked, and nothing
    fails. Over a store in memory nothing fails at all, and whatever a cache in a stack with sound flags shows, such as these
    outputs, can be spent and is then taken out of the store. -/
theorem outputs_added :
    (∀ (σ : Type) [Backing σ] (Proper : σ → Prop) (truth : Shown) (layers : Layers σ) (depth : Nat),
      Truthful Proper truth → EveryRoot Proper layers → (cacheAt? depth layers).isSome = true →
      FlagsSound truth depth layers → ∀ (tx : Transaction) (height : UInt32) (checks : Bool),
      tx.outputs.length < UInt32.size → Free tx checks (sees truth depth layers) →
      ReadsAs truth layers ∧ Adds truth tx height checks depth layers) ∧
    (∀ (σ : Type) [Backing σ] (tx : Transaction) (height : UInt32) (above : Layers σ) (skip : Nat) (cache : Cache),
      ∃ later events, ∀ below : Layers σ,
        addOutputs tx height false above.length (above ++ .cached skip cache :: below) =
          ⟨.ok (), above ++ .cached skip later :: below, events⟩) ∧
    ∀ (layers : Layers MemoryStore) (depth : Nat) (view : Shown),
      Serves MemoryStore.Unspent (layers.drop depth) view →
      (∀ o, Removed o depth layers) ∧ ∀ (tx : Transaction) (height : UInt32) (checks : Bool),
        tx.outputs.length < UInt32.size → Free tx checks view →
        (addOutputs tx height checks depth layers).result = .ok () ∧
          (∃ later, Serves MemoryStore.Unspent ((addOutputs tx height checks depth layers).state.drop depth) later ∧
            Shown.Gains tx.txid height tx.isCoinbase tx.outputs view later) ∧
          ∀ o ∈ tx.places, Removed o depth (addOutputs tx height checks depth layers).state := by
  refine ⟨fun σ _ Proper truth layers depth laws proper there flags tx height checks few free => ?_,
    fun σ _ tx height above skip cache => addOutputsFrom_unchecked above skip cache 0 tx.outputs,
    fun layers depth view serves => ⟨removed_of_serves serves, fun tx height checks few free => ?_⟩⟩
  · exact ⟨fun _ _ _ told => read_tells laws proper told, adds_outputs laws proper there flags few free⟩
  · obtain ⟨ok, later, still, gains⟩ := serves_outputs serves height few free
    exact ⟨ok, ⟨later, still, gains⟩, fun o _ => removed_of_serves still o⟩

/-! ### A transaction that came before, and one that cannot be looked up -/

/-- An output that can never be spent. -/
def noted : Output := ⟨0, ⟨#[Coin.returnOpcode]⟩⟩

/-- A coinbase transaction. -/
def repeated : Transaction :=
  ⟨1, [⟨.null, .empty, 0⟩], [⟨50, .empty⟩, noted], 0⟩

/-- The coin that it made at another height. -/
def earlierCoin : Coin := ⟨50, 1, true, .empty, false⟩

def showsEarlier : Shown := fun o => if o = Transaction.place repeated.txid 0 then some earlierCoin else none

/-- A new cache over a store with that coin. -/
def overEarlier : Layers MemoryStore :=
  [.cached 0 (.empty .standard), .root (MemoryStore.empty.insert (Transaction.place repeated.txid 0) earlierCoin)]

theorem serves_overEarlier : Serves MemoryStore.Unspent overEarlier showsEarlier := by
  have unspent : (MemoryStore.empty.insert (Transaction.place repeated.txid 0) earlierCoin).Unspent :=
    MemoryStore.unspent_empty.insert rfl
  have seen : storeShows (MemoryStore.empty.insert (Transaction.place repeated.txid 0) earlierCoin) = showsEarlier := by
    rw [MemoryStore.storeShows_eq unspent]
    exact funext fun o => Entries.getElem?_insert_ite
  have stands := (Stands.root unspent).cached (.empty .standard) Entries.soundOver_empty
  rw [show (Cache.empty .standard).entries = ∅ from rfl, Entries.atop_empty, seen] at stands
  exact ⟨stands, rfl⟩

theorem place_ne_place (txid : Hash256) : Transaction.place txid 1 ≠ Transaction.place txid 0 := by
  intro same
  cases Transaction.place_injective (by decide) (by decide) same

/-- A store without coins, in which the place of the second output of a transaction cannot be read. -/
def unreadableStore (txid : Hash256) (reads : Nat) : ScriptedStore :=
  ⟨.empty, [(Transaction.place txid 1, .io "corrupted block file")], [], false, [], [], reads⟩

def overUnreadable (txid : Hash256) (reads : Nat) : Layers ScriptedStore :=
  [.cached 0 (.empty .standard), .root (unreadableStore txid reads)]

theorem storeShows_unreadable (txid : Hash256) : storeShows (unreadableStore txid 0) = fun _ => none := by
  funext o
  show unspentIn (((unreadableStore txid 0).answer o).mapError .fault) = none
  rw [ScriptedStore.answer]
  split
  · rfl
  · simp [unreadableStore, MemoryStore.empty, MemoryStore.coin?, Except.mapError, unspentIn]

/-- A transaction of which the first output can never be spent. -/
def halfNoted : Transaction :=
  ⟨1, [], [noted, ⟨20, .empty⟩], 0⟩

theorem askNext_halfNoted : (addFirst halfNoted 7 true 0 1 (overUnreadable halfNoted.txid 0)).result = .ok () ∧
    (askNext halfNoted 7 0 1 (overUnreadable halfNoted.txid 0)).result =
      .error (.fault (.io "corrupted block file")) := by
  have nothing (txid : Hash256) : holds (Transaction.place txid 0) 0 (overUnreadable txid 0) =
      .done false (overUnreadable txid 1) := by
    simp [overUnreadable, unreadableStore, holds, read, Cache.empty, Backing.read, ScriptedStore.answer, place_ne_place,
      Outcome.settle, Outcome.ofExcept, Cache.learn, MemoryStore.coin?, MemoryStore.empty, Outcome.done, Except.mapError,
      Outcome.map, Except.map, showsUnspent]
  have broken (txid : Hash256) : (holds (Transaction.place txid 1) 0 (overUnreadable txid 1)).result =
      .error (.fault (.io "corrupted block file")) := by
    simp [overUnreadable, unreadableStore, holds, Cache.empty, read, Outcome.settle, Backing.read, ScriptedStore.answer,
      Outcome.map, Outcome.ofExcept, Except.mapError, Except.map]
  have first (txid : Hash256) : addOutputsFrom txid 7 false true 0 0 [noted] (overUnreadable txid 0) =
      .done () (overUnreadable txid 1) := by
    rw [addOutputsFrom_cons, leave, if_pos rfl, nothing]
    rfl
  have added : addFirst halfNoted 7 true 0 1 (overUnreadable halfNoted.txid 0) =
      .done () (overUnreadable halfNoted.txid 1) := first halfNoted.txid
  rw [askNext, added]
  exact ⟨rfl, broken halfNoted.txid⟩

/-- The new coin is seen instead of the earlier one, and nothing in the place of the output that can never be spent; both
    places can be emptied. The other transaction is not added, as the place of its second output cannot be read. -/
theorem repeated_added :
    Serves MemoryStore.Unspent overEarlier showsEarlier ∧
    (addOutputs repeated 7 false 0 overEarlier).result = .ok () ∧
    (∃ later, Serves MemoryStore.Unspent (addOutputs repeated 7 false 0 overEarlier).state later ∧
      later (Transaction.place repeated.txid 0) = some ⟨50, 7, true, .empty, false⟩ ∧
      later (Transaction.place repeated.txid 1) = none) ∧
    (∀ o ∈ repeated.places, Removed o 0 (addOutputs repeated 7 false 0 overEarlier).state) ∧
    (addOutputs halfNoted 7 true 0 (overUnreadable halfNoted.txid 0)).result =
      .error (.fault (.io "corrupted block file")) ∧
    ∀ o, sees (fun _ => none) 0 (addOutputs halfNoted 7 true 0 (overUnreadable halfNoted.txid 0)).state o = none := by
  obtain ⟨anywhere, -, inMemory⟩ := outputs_added
  have serves := serves_overEarlier
  obtain ⟨ok, ⟨later, still, gains⟩, removed⟩ := (inMemory overEarlier 0 showsEarlier serves).2 repeated 7 false
    (by decide) (.inr (.inl rfl))
  have made := gains.made 0 ⟨50, .empty⟩ rfl rfl
  have unmade : later (Transaction.place repeated.txid 1) = none := by
    rw [gains.others, showsEarlier, if_neg (place_ne_place repeated.txid)]
    intro i output found same
    have inside : i < 2 := (List.getElem?_eq_some_iff.mp found).1
    cases Transaction.place_injective (by decide) (Nat.lt_trans inside (by decide)) same
    cases found
    rfl
  have unseen := storeShows_unreadable halfNoted.txid
  have laws := ScriptedStore.steady.truthful (unreadableStore halfNoted.txid 0)
  have flags : FlagsSound (fun _ => none) 0 (overUnreadable halfNoted.txid 0) := by
    rintro _ _ _ ⟨⟩
    exact Entries.soundOver_empty
  rw [unseen] at laws
  obtain ⟨-, adds⟩ := anywhere ScriptedStore _ _ (overUnreadable halfNoted.txid 0) 0 laws
    (everyRoot_cached.mpr (everyRoot_root.mpr ⟨⟨trivial, fun _ => rfl⟩, nofun⟩)) rfl flags halfNoted 7 true (by decide)
    (.inl rfl)
  obtain ⟨early, asked⟩ := askNext_halfNoted
  have failed := (adds.fails_iff _).mpr ⟨rfl, 1, by decide, early, asked⟩
  refine ⟨serves, ok, ⟨later, still, made, unmade⟩, removed, failed, fun o => ?_⟩
  rw [(adds.failed rfl 1 (by decide) early _ asked).view.others]
  · exact congrFun Entries.atop_empty o
  · rintro (_ | i) output found _
    · cases found
      rfl
    · cases found

end Layers

end CoinLayers
