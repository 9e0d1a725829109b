import CoinLayers.Proofs.Drain

/-!
A stack of caches against a plain map of unspent coins.

A run starts with new caches over a store and the map of its coins. Coins may be added and spent only through
a cache that no entries cover, and one who adds a coin without leave to overwrite vouches for its absence;
reads, drops and flushes are free, at every layer and at any time (`Permitted`). Along every such run the
stack shows just what the map holds (`Reached.stands`), so that it answers as the map does, and a drain leaves
the map in the store.
-/
namespace CoinLayers

theorem Outcome.result_map {σ α β : Type} {x : Outcome σ α} {value : α} {f : α → β} (ok : x.result = .ok value) :
    (x.map f).result = .ok (f value) := by
  rw [map, ok]
  rfl

/-- A plain map of unspent coins. -/
abbrev Coins := Std.ExtTreeMap OutPoint Coin

namespace Coins

variable {coins : Coins} {o p : OutPoint} {coin : Coin}

/-- The map after a coin was added. An unspendable coin is left out, and a coin that is there already stays
    unless it may be overwritten. A spent coin only takes out the one that it overwrites. -/
def add (coins : Coins) (o : OutPoint) (coin : Coin) (mayOverwrite : Bool) : Coins :=
  if coin.isUnspendable || (coins.contains o && !mayOverwrite) then coins
  else if coin.isSpent then coins.erase o
  else coins.insert o coin

/-- The map after a request. -/
def after (coins : Coins) : Request → Coins
  | .add o coin mayOverwrite => Coins.add coins o coin mayOverwrite
  | .spend o => coins.erase o
  | _ => coins

/-- What the map wants the reply to a request to be. Where it holds no coin, the reply may show a spent one. -/
def Tells (coins : Coins) : Request → Reply → Prop
  | .read o, .coin found => unspentIn (.ok found) = coins[o]?
  | .spend o, .coin found => unspentIn (.ok found) = coins[o]?
  | .sight o, .sight seen => seen.coin.unspent? = coins[o]?
  | .holds o, .truth held => held = coins.contains o
  | .tip, .block _ => True
  | .add .., .nothing | .uncache _, .nothing | .flush, .nothing | .setTip _, .nothing => True
  | _, _ => False

theorem getElem?_add {mayOverwrite : Bool} :
    (add coins o coin mayOverwrite)[p]? = Shown.add (fun o => coins[o]?) o coin mayOverwrite p := by
  rw [add, Shown.add, Std.ExtTreeMap.contains_eq_isSome_getElem?]
  by_cases same : p = o
  · subst same
    cases coin.isUnspendable with
    | true => simp
    | false =>
      cases found : coins[p]? with
      | none => cases spent : coin.isSpent <;> simp [Coin.unspent?, spent]
      | some old =>
        cases mayOverwrite with
        | false => simp [found]
        | true => cases spent : coin.isSpent <;> simp [Coin.unspent?, spent]
  · simp only [same, false_and, if_false]
    split
    · rfl
    · split
      · rw [Entries.getElem?_erase_ite, if_neg same]
      · rw [Entries.getElem?_insert_ite, if_neg same]

theorem getElem?_spend : (coins.erase o)[p]? = Shown.spend (fun o => coins[o]?) o p :=
  Entries.getElem?_erase_ite

end Coins

namespace Layers

section Requests

variable {ρ : Type} [Backing ρ] {layers : Layers ρ} {depth : Nat} {cache : Cache}

/-- The requests that may be made in a run: all questions, drops and flushes, and additions and spends through
    a cache under empty ones. To add a coin without leave to overwrite is to say that the cache has an entry
    for it, or that the layer below the cache shows no unspent coin there. -/
inductive Permitted (layers : Layers ρ) (depth : Nat) : Request → Prop
  | read (o : OutPoint) : depth < layers.length → Permitted layers depth (.read o)
  | holds (o : OutPoint) : depth < layers.length → Permitted layers depth (.holds o)
  | tip : depth < layers.length → Permitted layers depth .tip
  | sight (o : OutPoint) : (cacheAt? depth layers).isSome = true → Permitted layers depth (.sight o)
  | uncache (o : OutPoint) : (cacheAt? depth layers).isSome = true → Permitted layers depth (.uncache o)
  | setTip (block : Hash256) : (cacheAt? depth layers).isSome = true → Permitted layers depth (.setTip block)
  | flush : (cacheAt? depth layers).isSome = true → Permitted layers depth .flush
  | spend (o : OutPoint) : (cacheAt? depth layers).isSome = true → Uncovered depth layers →
      Permitted layers depth (.spend o)
  | add {cache : Cache} (o : OutPoint) (coin : Coin) (mayOverwrite : Bool) : cacheAt? depth layers = some cache →
      Uncovered depth layers →
      (mayOverwrite = true ∨ o ∈ cache.entries ∨ shows (layers.drop (depth + 1)) o = none) →
      Permitted layers depth (.add o coin mayOverwrite)

omit [Backing ρ] in
theorem ifCache_of_isSome {α : Type} {op : Nat → Layers ρ → Outcome (Layers ρ) α}
    (there : (cacheAt? depth layers).isSome = true) : ifCache op depth layers = op depth layers :=
  if_pos there

omit [Backing ρ] in
theorem result_onCache {α : Type} {change : Cache → Outcome Cache α} (acting : cacheAt? depth layers = some cache) :
    (onCache change depth layers).result = (change cache).result := by
  induction layers generalizing depth with
  | nil =>
    rw [cacheAt?_nil] at acting
    cases acting
  | cons layer below ih =>
    cases depth with
    | succ depth => exact ih acting
    | zero =>
      cases layer with
      | root | relay | guarded => cases acting
      | cached skip here =>
        cases acting
        rfl

end Requests

variable {layers : Layers MemoryStore} {coins : Coins} {depth : Nat} {request : Request}

/-- A permitted request succeeds, and changes what the stack shows as it changes the map. If no entries lie
    over the layer that is asked, the reply is the map's. -/
theorem perform_stands (stands : Stands MemoryStore.Unspent layers fun o => coins[o]?)
    (permitted : Permitted layers depth request) :
    (∃ reply, (perform request depth layers).result = .ok reply ∧
      (Uncovered depth layers → Coins.Tells coins request reply)) ∧
    Stands MemoryStore.Unspent (perform request depth layers).state fun o => (Coins.after coins request)[o]? := by
  have laws := MemoryStore.dependable
  have unchanged := stands
  obtain ⟨stack, sound, seen⟩ := stands
  cases permitted with
  | read o inside =>
    obtain ⟨found, answered, told⟩ := read_answers laws stack o depth
    refine ⟨⟨.coin found, Outcome.result_map answered, fun uncovered => ?_⟩,
      (read_quiet laws.toSteady stack sound o depth).stands unchanged⟩
    rw [shows_drop_of_uncovered stack uncovered inside, seen] at told
    exact told
  | holds o inside =>
    refine ⟨⟨_, Outcome.result_map (holds_answers laws stack o depth), fun uncovered => ?_⟩,
      (holds_quiet laws.toSteady stack sound o depth).stands unchanged⟩
    rw [shows_drop_of_uncovered stack uncovered inside, seen]
    exact Std.ExtTreeMap.contains_eq_isSome_getElem?.symm
  | tip _ =>
    exact ⟨⟨_, rfl, fun _ => trivial⟩, (tip_quiet laws.toSteady stack sound depth).stands unchanged⟩
  | sight o there =>
    obtain ⟨cache, acting⟩ := Option.isSome_iff_exists.mp there
    obtain ⟨found, answered, told⟩ := read_answers laws stack o depth
    have quiet := read_quiet laws.toSteady stack sound o depth
    rw [perform, ifCache_of_isSome there]
    refine ⟨⟨_, Outcome.result_map (Outcome.result_map answered), fun uncovered => ?_⟩, quiet.stands unchanged⟩
    rw [shows_drop_of_uncovered stack uncovered (lt_length_of_cacheAt? acting), seen] at told
    cases found with
    | none => exact told
    | some coin => exact told
  | uncache o there =>
    obtain ⟨cache, acting⟩ := Option.isSome_iff_exists.mp there
    have quiet := thin_quiet (fun cache => .done () (cache.uncache o)) (fun cache => cache.thinned_uncache)
      stack sound depth
    exact ⟨⟨_, Outcome.result_map (result_onCache acting), fun _ => trivial⟩, quiet.stands unchanged⟩
  | setTip block there =>
    obtain ⟨cache, acting⟩ := Option.isSome_iff_exists.mp there
    have quiet := thin_quiet (fun cache => .done () { cache with tip := some block }) (fun _ => .refl)
      stack sound depth
    exact ⟨⟨_, Outcome.result_map (result_onCache acting), fun _ => trivial⟩, quiet.stands unchanged⟩
  | flush there =>
    obtain ⟨cache, acting⟩ := Option.isSome_iff_exists.mp there
    obtain ⟨ok, stands, _⟩ := flush_stands laws stack sound acting
    rw [seen] at stands
    exact ⟨⟨_, Outcome.result_map ok, fun _ => trivial⟩, stands⟩
  | spend o there uncovered =>
    obtain ⟨cache, acting⟩ := Option.isSome_iff_exists.mp there
    obtain ⟨⟨found, answered, told⟩, stands⟩ := spend_stands laws stack sound o acting uncovered
    rw [seen] at told stands
    rw [perform, ifCache_of_isSome there]
    refine ⟨⟨_, Outcome.result_map answered, fun _ => told⟩, ?_⟩
    rw [show Shown.spend _ o = fun p => (Coins.after coins (.spend o))[p]? from
      funext fun p => Coins.getElem?_spend.symm] at stands
    exact stands
  | add o coin mayOverwrite acting uncovered vouched =>
    obtain ⟨ok, stands⟩ := add_stands coin stack sound acting uncovered vouched
    rw [seen] at stands
    refine ⟨⟨_, Outcome.result_map ok, fun _ => trivial⟩, ?_⟩
    rw [show Shown.add _ o coin mayOverwrite = fun p => (Coins.after coins (.add o coin mayOverwrite))[p]? from
      funext fun p => Coins.getElem?_add.symm] at stands
    exact stands

/-- No permitted request brings the count of a cache out of balance. -/
theorem balanced_perform (every : EveryCache Cache.Balanced layers) (permitted : Permitted layers depth request) :
    EveryCache Cache.Balanced (perform request depth layers).state := by
  have lasting := Cache.lasting_balanced
  cases permitted with
  | read o _ => exact everyCache_read lasting every o depth
  | holds o _ => exact everyCache_holds lasting every o depth
  | tip _ => exact everyCache_tip lasting every depth
  | sight o there =>
    rw [perform, ifCache_of_isSome there]
    exact everyCache_read lasting every o depth
  | uncache o _ =>
    exact everyCache_onCache (fun cache => .done () (cache.uncache o)) (fun _ balanced => balanced.uncache) every depth
  | setTip block _ =>
    exact everyCache_onCache (fun cache => .done () { cache with tip := some block }) (fun _ balanced => balanced)
      every depth
  | flush _ => exact everyCache_flush lasting every depth
  | spend o there _ =>
    rw [perform, ifCache_of_isSome there]
    exact everyCache_spend lasting every o depth
  | add o coin mayOverwrite _ _ _ => exact everyCache_onCache _ (fun _ balanced => balanced.add) every depth

/-- The states of a stack in a run, each with the map that is kept beside it. Evictions may come at any time. -/
inductive Reached : Layers MemoryStore → Coins → Prop
  | start {layers : Layers MemoryStore} {store : MemoryStore} : Stack MemoryStore.Unspent layers →
      EveryCache (fun cache => ∃ budget draining, cache = .empty budget draining) layers → root? layers = some store →
      Reached layers store.coins
  | step {layers : Layers MemoryStore} {coins : Coins} {depth : Nat} {request : Request} : Reached layers coins →
      Permitted layers depth request → Reached (perform request depth layers).state (Coins.after coins request)
  | evict {layers : Layers MemoryStore} {coins : Coins} (depth : Nat) : Reached layers coins →
      Reached (onCache Cache.shrink depth layers).state coins

/-- Empty caches have sound flags over anything. -/
theorem sound_of_empty {ρ : Type} [Backing ρ] {layers : Layers ρ}
    (empty : EveryCache (fun cache => cache.entries = ∅) layers) : Sound layers := by
  induction layers with
  | nil => trivial
  | cons layer below ih =>
    obtain ⟨first, rest⟩ := everyCache_cons.mp empty
    refine ⟨?_, ih rest⟩
    cases layer with
    | root | relay | guarded => trivial
    | cached skip cache =>
      show cache.entries.SoundOver _
      rw [first skip cache rfl]
      exact Entries.soundOver_empty

namespace Reached

/-- In a run the stack shows what the map holds, and its flags are sound. -/
theorem stands (reached : Reached layers coins) : Stands MemoryStore.Unspent layers fun o => coins[o]? := by
  induction reached with
  | @start layers store stack new bottom =>
    have empty : EveryCache (fun cache => cache.entries = ∅) layers := by
      intro skip cache member
      obtain ⟨budget, draining, rfl⟩ := new skip cache member
      rfl
    obtain ⟨store', found, unspent, seen⟩ := root?_of_stack stack
    obtain rfl : store = store' := Option.some.inj (bottom.symm.trans found)
    refine ⟨stack, sound_of_empty empty, ?_⟩
    rw [seen (by rw [Uncovered, List.take_length]; exact empty), MemoryStore.storeShows_eq unspent]
  | step _ permitted ih => exact (perform_stands ih permitted).2
  | evict depth _ ih =>
    exact (thin_quiet Cache.shrink Cache.thinned_shrink ih.stack ih.sound depth).stands ih

theorem balanced (reached : Reached layers coins) : EveryCache Cache.Balanced layers := by
  induction reached with
  | start _ new _ =>
    intro skip cache member
    obtain ⟨budget, draining, rfl⟩ := new skip cache member
    exact Cache.balanced_empty budget draining
  | step _ permitted ih => exact balanced_perform ih permitted
  | evict depth _ ih => exact everyCache_onCache _ (fun _ balanced => balanced.shrink) ih depth

end Reached

/-- In a run no permitted request fails, every reply from a layer under empty caches is the one of the map, no
    cache ever takes more out of its count than is in it, and once all caches are flushed from the top down the
    store holds the map. -/
theorem answers_as_map (reached : Reached layers coins) :
    (∀ depth request, Permitted layers depth request → ∃ reply, (perform request depth layers).result = .ok reply ∧
      (Uncovered depth layers → Coins.Tells coins request reply)) ∧
    EveryCache Cache.Balanced layers ∧
    (drain layers).result = .ok () ∧ ∃ store, root? (drain layers).state = some store ∧ store.coins = coins := by
  have stands := reached.stands
  obtain ⟨ok, _, store, found, unspent, seen⟩ := drain_stands MemoryStore.dependable stands.stack stands.sound
  refine ⟨fun _ _ permitted => (perform_stands stands permitted).1, reached.balanced, ok, store, found, ?_⟩
  apply Std.ExtTreeMap.ext_getElem?
  intro o
  rw [MemoryStore.storeShows_eq unspent, stands.shows] at seen
  exact congrFun seen o

/-! ### A run -/

/-- Two new caches with a relay between them, over a store with one coin. -/
def twoCaches : Layers MemoryStore :=
  [.cached 0 (.empty .standard), .relay 0, .cached 0 (.empty .standard), .root .oneCoin]

/-- The two caches after the coin was spent through the upper one, and that one flushed. -/
def spentAndFlushed : Layers MemoryStore :=
  (perform .flush 0 (perform (.spend ⟨.zero, 0⟩) 0 twoCaches).state).state

theorem reached_spentAndFlushed : Reached spentAndFlushed ∅ := by
  have new : EveryCache (fun cache => ∃ budget draining, cache = .empty budget draining) twoCaches :=
    everyCache_cached.mpr ⟨⟨_, _, rfl⟩, everyCache_relay.mpr
      (everyCache_cached.mpr ⟨⟨_, _, rfl⟩, everyCache_root.mpr everyCache_nil⟩)⟩
  have start : Reached twoCaches MemoryStore.oneCoin.coins :=
    .start (.cached _ (.relay (.cached _ (.root MemoryStore.unspent_oneCoin)))) new rfl
  have spent : Reached _ (Coins.after MemoryStore.oneCoin.coins (.spend ⟨.zero, 0⟩)) :=
    start.step (.spend ⟨.zero, 0⟩ rfl uncovered_zero)
  have flushed : Reached spentAndFlushed _ := spent.step (.flush (by decide))
  exact flushed

/-- The spent coin is gone for those who ask the upper cache, which no longer knows of it, and at last from the
    store. -/
theorem spentAndFlushed_answers :
    Reached spentAndFlushed ∅ ∧
    (∃ reply, (perform (.holds ⟨.zero, 0⟩) 0 spentAndFlushed).result = .ok reply ∧
      Coins.Tells ∅ (.holds ⟨.zero, 0⟩) reply) ∧
    (drain spentAndFlushed).result = .ok () ∧
    ∃ store, root? (drain spentAndFlushed).state = some store ∧ store.coins = ∅ := by
  obtain ⟨answers, _, ok, drained⟩ := answers_as_map reached_spentAndFlushed
  obtain ⟨reply, performed, told⟩ := answers 0 (.holds ⟨.zero, 0⟩) (.holds ⟨.zero, 0⟩ (by decide))
  exact ⟨reached_spentAndFlushed, ⟨reply, performed, told uncovered_zero⟩, ok, drained⟩

end Layers

end CoinLayers
