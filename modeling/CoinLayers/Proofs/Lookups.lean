import CoinLayers.Proofs.Batches
import CoinLayers.Proofs.Fetching
import CoinLayers.Proofs.FailedRead

/-!
All ways to look for a coin agree.

Whether there is an unspent coin is asked of a store in its own way, and of a cache in a way that does without the coin.
Over stores that answer as a read of them would (`Concordant`) it comes to the same: to ask is to read, in answer and in
effect, at every layer (`holds_eq_read`). What was found through a cache is found there again, and nothing below is asked
for it (`found_again`). Stores stay as they are meant to be along every run (`everyRoot_after`).
-/
namespace CoinLayers

variable {ρ α β : Type} {Proper : ρ → Prop} {o : OutPoint}

/-- Stores that are asked for an unspent coin by a read, which is how it is done if nothing else is said. -/
def AsksByReading (ρ : Type) [Backing ρ] : Prop :=
  ∀ (o : OutPoint) (store : ρ),
    Backing.holds o store = ((Backing.read o store).1.map showsUnspent, (Backing.read o store).2)

/-- Stores of which a question for an unspent coin comes to the same as a read, whatever becomes of them. -/
structure Concordant [Backing ρ] (Proper : ρ → Prop) : Prop where
  holds : ∀ (o : OutPoint) (store : ρ), Proper store →
    Backing.holds o store = ((Backing.read o store).1.map showsUnspent, (Backing.read o store).2)
  read : ∀ (o : OutPoint) (store : ρ), Proper store → Proper (Backing.read o store).2
  tip : ∀ store : ρ, Proper store → Proper (Backing.tip store).2
  write : ∀ (batch : Entries) (block : Hash256) (store : ρ), Proper store → Proper (Backing.write batch block store).store

theorem AsksByReading.concordant [Backing ρ] (asks : AsksByReading ρ) : Concordant fun _ : ρ => True where
  holds o store _ := asks o store
  read _ _ _ := trivial
  tip _ _ := trivial
  write _ _ _ _ := trivial

theorem EmptyStore.asksByReading : AsksByReading EmptyStore :=
  fun _ _ => rfl

theorem ScriptedStore.asksByReading : AsksByReading ScriptedStore :=
  fun _ _ => rfl

namespace MemoryStore

/-- Stores that some acts have made of an empty one. -/
def Made (store : MemoryStore) : Prop :=
  ∃ acts : List Act, (∀ act ∈ acts, act.Fair) ∧ store = after acts

/-- A store in memory looks only for an outpoint among its coins. That will do, as all of them are unspent. -/
theorem concordant : Concordant Made where
  holds := by
    rintro o _ ⟨acts, fair, rfl⟩
    exact congrArg (fun held => (Except.ok held, after acts)) (unspent_after fair).contains_eq
  read _ _ made := made
  tip _ made := made
  write := by
    rintro batch block _ ⟨acts, fair, rfl⟩
    refine ⟨acts ++ [.write batch batch.toList block], ?_, ?_⟩
    · rw [List.forall_mem_append, List.forall_mem_singleton]
      exact ⟨fair, .refl _⟩
    · rw [after_concat]
      rfl

end MemoryStore

/-- A guard does not mind what is made of an answer. -/
theorem ReadGuard.watch_map {σ : Type} {f : α → β} (guard : ReadGuard) (read : Outcome σ α) :
    guard.watch (read.map f) = (guard.watch read).map f := by
  rcases read with ⟨(_ | _ | _) | value, state, events⟩
  · next fault =>
    show ((guard.meet fault).mapState (·, state)).after events = (((guard.meet fault).mapState (·, state)).after events).map f
    rw [meet, meet]
    split <;> rfl
  · rfl
  · rfl
  · rfl

namespace Layers

variable {layers below : Layers ρ} {layer : Layer ρ} {depth skip : Nat}

/-! ### Stores along a run -/

section Stores

variable {store : ρ} {cache : Cache} {guard : ReadGuard}

@[simp] theorem everyRoot_root : EveryRoot Proper (.root store :: below) ↔ Proper store ∧ EveryRoot Proper below := by
  simp [everyRoot_cons]

@[simp] theorem everyRoot_relay : EveryRoot Proper (.relay skip :: below) ↔ EveryRoot Proper below := by
  simp [everyRoot_cons]

@[simp] theorem everyRoot_guarded : EveryRoot Proper (.guarded skip guard :: below) ↔ EveryRoot Proper below := by
  simp [everyRoot_cons]

@[simp] theorem everyRoot_cached : EveryRoot Proper (.cached skip cache :: below) ↔ EveryRoot Proper below := by
  simp [everyRoot_cons]

end Stores

/-- Every store that was proper is so still. -/
def Preserved (Proper : ρ → Prop) (before after : Layers ρ) : Prop :=
  EveryRoot Proper before → EveryRoot Proper after

theorem Preserved.under {after : Layers ρ} (layer : Layer ρ) (kept : Preserved Proper below after) :
    Preserved Proper (layer :: below) (layer :: after) :=
  fun proper => everyRoot_cons.mpr ((everyRoot_cons.mp proper).imp_right kept)

/-- Stores are preserved everywhere if they are so at the top. -/
theorem preserved_at_depth (op : Nat → Layers ρ → Layers ρ)
    (descends : ∀ depth layer below, op (depth + 1) (layer :: below) = layer :: op depth below)
    (nothing : ∀ depth, op depth [] = [])
    (here : ∀ (layer : Layer ρ) (below : Layers ρ), (∀ depth, Preserved Proper below (op depth below)) →
      Preserved Proper (layer :: below) (op 0 (layer :: below)))
    (depth : Nat) (layers : Layers ρ) : Preserved Proper layers (op depth layers) :=
  related_at_depth (Preserved Proper) id (fun layer _ _ => Preserved.under layer) op descends nothing here depth layers

theorem preserved_onCache {change : Cache → Outcome Cache α} (depth : Nat) (layers : Layers ρ) :
    Preserved Proper layers (onCache change depth layers).state := by
  refine preserved_at_depth (fun depth layers => (onCache change depth layers).state) (fun _ _ _ => rfl) ?_
    (fun layer below _ proper => ?_) depth layers
  · intro depth
    cases depth <;> rfl
  · cases layer with
    | root | relay | guarded => exact proper
    | cached => exact everyRoot_cached.mpr (everyRoot_cached.mp proper)

theorem preserved_onGuard {change : ReadGuard → α × ReadGuard} (depth : Nat) (layers : Layers ρ) :
    Preserved Proper layers (onGuard change depth layers).state := by
  refine preserved_at_depth (fun depth layers => (onGuard change depth layers).state) (fun _ _ _ => rfl) ?_
    (fun layer below _ proper => ?_) depth layers
  · intro depth
    cases depth <;> rfl
  · cases layer with
    | root | relay | cached => exact proper
    | guarded => exact everyRoot_guarded.mpr (everyRoot_guarded.mp proper)

theorem preserved_rebase (depth : Nat) (layers : Layers ρ) :
    Preserved Proper layers (rebase skip depth layers).state := by
  refine preserved_at_depth (fun depth layers => (rebase skip depth layers).state) (fun _ _ _ => rfl) ?_
    (fun layer below _ proper => ?_) depth layers
  · intro depth
    cases depth <;> rfl
  · cases layer with
    | root => exact proper
    | relay => exact everyRoot_relay.mpr (everyRoot_relay.mp proper)
    | guarded => exact everyRoot_guarded.mpr (everyRoot_guarded.mp proper)
    | cached => exact everyRoot_cached.mpr (everyRoot_cached.mp proper)

theorem preserved_ifCache {op : Nat → Layers ρ → Outcome (Layers ρ) α}
    (kept : Preserved Proper layers (op depth layers).state) : Preserved Proper layers (ifCache op depth layers).state := by
  rw [ifCache]
  split
  · exact kept
  · exact id

variable [Backing ρ] (laws : Concordant Proper)
include laws

theorem survives_preserved : SurvivesReads (ρ := ρ) o (Preserved Proper) where
  empty := id
  under layer _ _ := Preserved.under layer
  root store _ proper := everyRoot_root.mpr ((everyRoot_root.mp proper).imp_left (laws.read o store))
  guarded _ _ _ _ _ kept proper := everyRoot_guarded.mpr (kept (everyRoot_guarded.mp proper))
  touched _ _ _ _ proper := everyRoot_cached.mpr (everyRoot_cached.mp proper)
  learned _ _ _ _ kept proper := everyRoot_cached.mpr (kept (everyRoot_cached.mp proper))

theorem preserved_read (o : OutPoint) (depth : Nat) (layers : Layers ρ) :
    Preserved Proper layers (read o depth layers).state :=
  (survives_preserved laws).read depth layers

theorem preserved_holds (o : OutPoint) (depth : Nat) (layers : Layers ρ) :
    Preserved Proper layers (holds o depth layers).state := by
  refine (survives_preserved laws).holds (fun store below proper => ?_) depth layers
  obtain ⟨first, rest⟩ := everyRoot_root.mp proper
  rw [laws.holds o store first]
  exact everyRoot_root.mpr ⟨laws.read o store first, rest⟩

theorem preserved_spend (o : OutPoint) (depth : Nat) (layers : Layers ρ) :
    Preserved Proper layers (spend o depth layers).state := by
  intro proper
  have read := preserved_read laws o depth layers proper
  rw [spend, Outcome.andThen]
  split
  · next found _ =>
    cases found with
    | none => exact read
    | some coin => exact preserved_onCache depth _ read
  · exact read

theorem preserved_tip (depth : Nat) (layers : Layers ρ) : Preserved Proper layers (tip depth layers).2 := by
  refine preserved_at_depth (fun depth layers => (tip depth layers).2) (fun _ _ _ => rfl)
    (fun depth => congrArg _ (tip_nil depth)) (fun layer below lower => ?_) depth layers
  cases layer with
  | root store => exact fun proper => everyRoot_root.mpr ((everyRoot_root.mp proper).imp_left (laws.tip store))
  | relay skip | guarded skip guard => exact (lower skip).under _
  | cached skip cache =>
    show Preserved Proper _ (tip 0 (.cached skip cache :: below)).2
    rw [tip]
    split
    · exact id
    · exact fun proper => everyRoot_cached.mpr (lower skip (everyRoot_cached.mp proper))

theorem preserved_write (batch : Entries) (block : Hash256) (depth : Nat) (layers : Layers ρ) :
    Preserved Proper layers (write batch block depth layers).state.2 := by
  refine preserved_at_depth (fun depth layers => (write batch block depth layers).state.2) (fun _ _ _ => rfl) ?_
    (fun layer below lower => ?_) depth layers
  · intro depth
    cases depth <;> rfl
  · cases layer with
    | root store =>
      exact fun proper => everyRoot_root.mpr ((everyRoot_root.mp proper).imp_left (laws.write batch block store))
    | relay skip | guarded skip guard => exact (lower skip).under _
    | cached skip cache => exact fun proper => everyRoot_cached.mpr (everyRoot_cached.mp proper)

theorem preserved_flush (depth : Nat) (layers : Layers ρ) : Preserved Proper layers (flush depth layers).state := by
  refine preserved_at_depth (fun depth layers => (flush depth layers).state) (fun _ _ _ => rfl) ?_
    (fun layer below _ proper => ?_) depth layers
  · intro depth
    cases depth <;> rfl
  · cases layer with
    | root | relay | guarded => exact proper
    | cached skip cache =>
      have asked : EveryRoot Proper (tipOf cache skip below).2 := by
        rw [tipOf]
        split
        · exact everyRoot_cached.mp proper
        · exact preserved_tip laws skip below (everyRoot_cached.mp proper)
      have written := preserved_write laws cache.entries (tipOf cache skip below).1 skip _ asked
      show EveryRoot Proper (flush 0 (.cached skip cache :: below)).state
      rw [flush_cached, concludeFlush]
      split
      · exact everyRoot_cached.mpr written
      · exact everyRoot_cached.mpr written

private theorem preserved_call {request : Request} (isCall : request.isCall = true) (depth : Nat) (layers : Layers ρ) :
    Preserved Proper layers (perform request depth layers).state := by
  cases request with
  | read o => exact preserved_read laws o depth layers
  | holds o => exact preserved_holds laws o depth layers
  | tip => exact preserved_tip laws depth layers
  | heads | scan | sizeEstimate => exact id
  | write batch block => exact preserved_write laws batch block depth layers
  | rebase => exact preserved_rebase depth layers
  | sight o =>
    have kept : Preserved Proper layers (sight o depth layers).state := preserved_read laws o depth layers
    exact preserved_ifCache kept
  | spend o => exact preserved_ifCache (preserved_spend laws o depth layers)
  | merge batch block =>
    have kept : Preserved Proper layers (writeReply batch block depth layers).state :=
      preserved_write laws batch block depth layers
    exact preserved_ifCache kept
  | flush => exact preserved_flush laws depth layers
  | add | uncache | setTip | check =>
    rw [perform, Outcome.map]
    exact preserved_onCache depth layers
  | cached | memoryUsage | size | entry | stats | budget =>
    rw [perform, Outcome.map, state_ask]
    exact id
  | register | calls =>
    rw [perform, Outcome.map]
    exact preserved_onGuard depth layers
  | addOutputs | hasInputs | firstUnspent | spendInputs | apply => cases isCall

/-- Proper stores stay so along a run, whatever is requested. -/
theorem everyRoot_after (requests : List (Nat × Request)) (proper : EveryRoot Proper layers) :
    EveryRoot Proper (after requests layers) := by
  have suits : Script.Suits fun request => request.isCall = true :=
    ⟨fun _ => rfl, fun _ => rfl, fun _ => rfl, fun _ _ _ _ _ => rfl⟩
  exact kept_after (EveryRoot Proper) suits (fun depth isCall proper => preserved_call laws isCall depth _ proper)
    (fun _ _ isCall => isCall) proper

/-! ### To ask is to read -/

/-- The question for an unspent coin comes to the same as a read, at every layer. -/
theorem holds_eq_read (proper : EveryRoot Proper layers) (o : OutPoint) (depth : Nat) :
    holds o depth layers = (read o depth layers).map showsUnspent := by
  induction layers generalizing depth with
  | nil =>
    rw [holds_nil, read_nil]
    rfl
  | cons layer below ih =>
    obtain ⟨first, rest⟩ := everyRoot_cons.mp proper
    cases depth with
    | succ depth =>
      rw [holds, read, ih rest]
      rfl
    | zero =>
      cases layer with
      | root store =>
        rw [holds, read, laws.holds o store (first store rfl)]
        rcases Backing.read o store with ⟨_ | found, later⟩
        · rfl
        · rfl
      | relay skip =>
        rw [holds, read, ih rest]
        rfl
      | guarded skip guard =>
        rw [holds, read, ih rest, ReadGuard.watch_map]
        rfl
      | cached skip cache => exact holds_acting rfl o

omit laws

/-- A look through a cache shows what a read finds. -/
theorem map_coin_sight :
    (sight o depth layers).map Sight.coin = (read o depth layers).map fun found => found.getD .spent := by
  rw [sight]
  rcases read o depth layers with ⟨_ | _ | _, _, _⟩
  · rfl
  · rfl
  · rfl

/-! ### What was found is found again -/

omit [Backing ρ] in
/-- Layers on top change nothing at an operation below them. -/
theorem Descends.append {op : Nat → Layers ρ → Outcome (Layers ρ) α} (descends : Descends op) (above layers : Layers ρ) :
    op above.length (above ++ layers) = (op 0 layers).mapState (above ++ ·) := by
  induction above with
  | nil => rfl
  | cons layer above ih =>
    rw [List.cons_append, List.length_cons, descends, ih]
    rfl

/-- A coin that was found through a cache is cached there, above whatever layers. All ways to look for it find it, and do
    no more than use its entry: the layers below the cache, which may as well be any others, are not asked. -/
def FoundAgain (o : OutPoint) (coin : Coin) (depth : Nat) (layers : Layers ρ) : Prop :=
  ∃ above skip cache below, layers = above ++ .cached skip cache :: below ∧ above.length = depth ∧
    cache.holds o = !coin.isSpent ∧ ∀ others : Layers ρ,
      let used := above ++ .cached skip (cache.touch o) :: others
      read o depth (above ++ .cached skip cache :: others) = .done (some coin) used ∧
        holds o depth (above ++ .cached skip cache :: others) = .done (!coin.isSpent) used ∧
        sight o depth (above ++ .cached skip cache :: others) = .done (.cached coin) used

theorem found_again {coin : Coin} (there : (cacheAt? depth layers).isSome = true)
    (found : (read o depth layers).result = .ok (some coin)) : FoundAgain o coin depth (read o depth layers).state := by
  obtain ⟨skip, cache, below, acting⟩ := isSome_cacheAt?.mp there
  have reading : Descends (read (ρ := ρ) o) := fun _ _ _ => rfl
  have asking : Descends (holds (ρ := ρ) o) := fun _ _ _ => rfl
  obtain ⟨result, state⟩ := reading.at_cache acting
  obtain ⟨later, lower, left, kept⟩ := read_caches (result.symm.trans found)
  obtain ⟨entry, cached, rfl⟩ := Option.map_eq_some_iff.mp kept
  have acted := state.trans left
  generalize (read o depth layers).state = reached at acted
  have inside : depth < reached.length := lt_length_of_cacheAt? (cacheAt?_eq_some.mpr ⟨skip, lower, acted⟩)
  have length : (reached.take depth).length = depth := List.length_take_of_le (Nat.le_of_lt inside)
  refine ⟨reached.take depth, skip, later, lower, ?_, length, ?_, fun others => ?_⟩
  · rw [← acted, List.take_append_drop]
  · rw [Cache.holds, cached]
    rfl
  · have looked : read o 0 (.cached skip later :: others) =
        .done (some entry.coin) (.cached skip (later.touch o) :: others) := by rw [read, cached]
    have asked : holds o 0 (.cached skip later :: others) =
        .done (!entry.coin.isSpent) (.cached skip (later.touch o) :: others) := by rw [holds, cached]
    have read := reading.append (reached.take depth) (.cached skip later :: others)
    have held := asking.append (reached.take depth) (.cached skip later :: others)
    rw [length, looked] at read
    rw [length, asked] at held
    refine ⟨read, held, ?_⟩
    rw [sight, read]
    rfl

/-- What it means that all ways to look for a coin at a layer agree. -/
structure Agree (o : OutPoint) (depth : Nat) (layers : Layers ρ) : Prop where
  /-- Whether there is an unspent coin is answered by what a read finds, if it finds anything or not or fails. Both leave
      the same layers, and say the same on the way. -/
  held : holds o depth layers = (read o depth layers).map showsUnspent
  /-- A look through a cache shows what a read finds, and the empty coin if it finds nothing. It leaves the same layers. -/
  seen : (sight o depth layers).map Sight.coin = (read o depth layers).map fun found => found.getD .spent
  /-- What was found through a cache is found again without the layers below. -/
  again : (cacheAt? depth layers).isSome = true → ∀ coin, (read o depth layers).result = .ok (some coin) →
    FoundAgain o coin depth (read o depth layers).state

/-- Stores that are asked by a read are concordant, such as the empty one, and so are those in memory to which unspent
    coins and any batches came. Over concordant stores, whatever was requested before, all ways to look for a coin agree,
    at every layer. -/
theorem lookups_agree :
    (∀ (σ : Type) [Backing σ], AsksByReading σ → Concordant fun _ : σ => True) ∧
    Concordant (fun _ : EmptyStore => True) ∧ Concordant MemoryStore.Made ∧
    ∀ (σ : Type) [Backing σ] (Proper : σ → Prop) (layers : Layers σ), Concordant Proper → EveryRoot Proper layers →
      ∀ requests : List (Nat × Request), EveryRoot Proper (after requests layers) ∧
        ∀ (depth : Nat) (o : OutPoint), Agree o depth (after requests layers) := by
  refine ⟨fun _ _ => AsksByReading.concordant, EmptyStore.asksByReading.concordant, MemoryStore.concordant, ?_⟩
  intro σ _ Proper layers laws proper requests
  have reached := everyRoot_after laws requests proper
  exact ⟨reached, fun depth o => ⟨holds_eq_read laws reached o depth, map_coin_sight, fun there _ => found_again there⟩⟩

/-- Two caches, with a guard between them, over a store with one coin. -/
def guardedBetween : Layers MemoryStore :=
  [.cached 0 (.empty .standard), .guarded 0 ⟨1, false, []⟩, .cached 0 (.empty .standard), .root .oneCoin]

/-- The coin is spent through the upper cache, and that is written to the lower one. -/
def spentBetween : List (Nat × Request) :=
  [(0, .spend ⟨.zero, 0⟩), (0, .flush)]

/-- Then all ways to look for the coin find the tombstone below, and after that in the upper cache. Over a store that cannot
    be read all of them fail. -/
theorem guardedBetween_agree :
    EveryRoot MemoryStore.Made guardedBetween ∧
    (∀ depth o, Agree o depth (after spentBetween guardedBetween)) ∧
    (read ⟨.zero, 0⟩ 0 (after spentBetween guardedBetween)).result = .ok (some .spent) ∧
    (holds ⟨.zero, 0⟩ 0 (after spentBetween guardedBetween)).result = .ok false ∧
    FoundAgain ⟨.zero, 0⟩ .spent 0 (read ⟨.zero, 0⟩ 0 (after spentBetween guardedBetween)).state ∧
    AsksByReading ScriptedStore ∧
    (∀ depth o, Agree o depth (after [(0, .flush)] halfSpent)) ∧
    (read ⟨.zero, 1⟩ 0 (after [(0, .flush)] halfSpent)).result = .error corrupted ∧
    (holds ⟨.zero, 1⟩ 0 (after [(0, .flush)] halfSpent)).result = .error corrupted := by
  obtain ⟨byReading, -, inMemory, agree⟩ := lookups_agree
  have asks : AsksByReading ScriptedStore := ScriptedStore.asksByReading
  have proper : EveryRoot MemoryStore.Made guardedBetween := by
    simp only [guardedBetween, everyRoot_cached, everyRoot_guarded, everyRoot_root]
    exact ⟨⟨[.insert ⟨.zero, 0⟩ ⟨5, 1, false, .empty, false⟩], List.forall_mem_singleton.mpr rfl, rfl⟩, nofun⟩
  obtain ⟨-, spent⟩ := agree MemoryStore _ guardedBetween inMemory proper spentBetween
  obtain ⟨-, broken⟩ := agree ScriptedStore _ halfSpent (byReading _ asks) (fun _ _ => trivial) [(0, .flush)]
  exact ⟨proper, spent, rfl, rfl, (spent 0 ⟨.zero, 0⟩).again rfl .spent rfl, asks, broken, rfl, rfl⟩

end Layers

end CoinLayers
