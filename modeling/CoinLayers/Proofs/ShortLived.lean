import CoinLayers.Proofs.PlainMap
import CoinLayers.Proofs.Records

/-!
Coins that live shortly never reach the store.

All is said of one outpoint, at which the store has no unspent coin. While coins are added and spent at the top and
move down from cache to cache, an entry for the outpoint, at any layer, is fresh if and only if nothing unspent is
shown below it (`Entry.Exact`). This is a matter of that outpoint alone, whatever becomes of the others, so that
even a flush that fails keeps to it, and leaves what is shown as it is (`flush_calm`). So what is shown at the top is
what the additions and spends of the run made of it (`Handled.settled`). Over the store nothing is ever shown, so that
there each entry is fresh, and a spend makes it go (`handled_unwritten`).
-/
namespace CoinLayers

/-- An entry that is valid, repeats what is below if it is clean, and is fresh just where nothing is shown below. -/
structure Entry.Exact (entry : Entry) (below : Option Coin) : Prop where
  valid : entry.isValid = true
  fresh : entry.isFresh = true ↔ below = none
  clean : entry.isDirty = false → entry.coin.unspent? = below

/-- What is known of the entry for an outpoint, if there is one. -/
def Entries.Exact (entry : Option Entry) (below : Option Coin) : Prop :=
  ∀ mine, entry = some mine → mine.Exact below

theorem Entry.exact_loaded (coin : Coin) : (Entry.loaded coin).Exact coin.unspent? :=
  ⟨isValid_loaded coin, Coin.unspent?_eq_none.symm, fun _ => rfl⟩

/-- An exact entry over nothing is fresh: either it is a spent coin that was read, or a new one. -/
theorem Entry.Exact.over_nothing {entry : Entry} (exact : entry.Exact none) :
    entry.isFresh = true ∧ entry.isDirty = !entry.coin.isSpent := by
  have fresh := exact.fresh.mpr rfl
  have valid := exact.valid
  refine ⟨fresh, ?_⟩
  rw [isFresh] at fresh
  rw [isValid, fresh] at valid
  rw [isDirty]
  cases dirty : entry.flags.dirty <;> cases spent : entry.coin.isSpent <;> simp_all

/-- Over nothing a coin is seen if and only if it is that of a change. -/
theorem Entries.Exact.over_nothing {entry : Option Entry} (exact : Exact entry none) (coin : Coin) :
    through entry none = some coin ↔ ∃ mine, entry = some mine ∧ mine.isDirty = true ∧ mine.coin = coin := by
  cases entry with
  | none => simp [through]
  | some mine => simp [through, Coin.unspent?, (exact mine rfl).over_nothing.2]

/-- An entry stays exact with another coin, which is unspent if the entry is fresh. -/
theorem Entry.Exact.changed {entry : Entry} {below : Option Coin} {coin : Coin} (exact : entry.Exact below)
    (unspent : entry.isFresh = true → coin.isSpent = false) :
    Entry.Exact ⟨coin, { entry.flags with dirty := true }⟩ below := by
  refine ⟨?_, exact.fresh, nofun⟩
  rw [isFresh] at unspent
  cases fresh : entry.flags.fresh with
  | false => simp [isValid, fresh]
  | true => simp [isValid, fresh, unspent fresh]

namespace MergeStep

variable {old : Option Entry} {entry : Entry} {below : Option Coin}

/-- Exact entries do not clash, and what becomes of them is exact and shows what the upper one says. -/
theorem outcome_exact (mine : Entries.Exact old below) (exact : entry.Exact (Entries.through old below)) :
    of old entry ≠ .clash ∧ Entries.Exact ((of old entry).outcome old) below ∧
      Entries.through ((of old entry).outcome old) below =
        if entry.isDirty then entry.coin.unspent? else Entries.through old below := by
  cases old with
  | none =>
    grind [of, outcome, Entries.through, Entries.Exact, Entry.Exact, Entry.isValid, Entry.isDirty, Entry.isFresh,
      Coin.unspent?]
  | some mine =>
    grind [of, outcome, Entries.through, Entries.Exact, Entry.Exact, Entry.isValid, Entry.isDirty, Entry.isFresh,
      Coin.unspent?]

end MergeStep

/-! ### One cache -/

/-- What is seen at an outpoint does not change with its entry, and the entry stays exact. -/
def Entries.Still (old new : Option Entry) (below : Option Coin) : Prop :=
  Exact old below → Exact new below ∧ through new below = through old below

theorem Entries.Still.refl {entry : Option Entry} {below : Option Coin} : Still entry entry below :=
  fun exact => ⟨exact, rfl⟩

/-- An entry without changes can go. -/
theorem Entries.Thinned.still {entries thinner : Entries} (thinned : Thinned entries thinner) (o : OutPoint)
    (below : Option Coin) : Still entries[o]? thinner[o]? below := by
  intro exact
  rcases thinned o with same | ⟨gone, entry, found, clean⟩
  · rw [same]
    exact ⟨exact, rfl⟩
  · rw [gone, found]
    exact ⟨nofun, ((exact entry found).clean clean).symm⟩

namespace Cache

variable {cache : Cache} {o p : OutPoint} {coin : Coin} {entry : Entry} {below : Option Coin}

/-- What was read from below is kept in an exact entry. -/
theorem still_learn {answer : Except Failure (Option Coin)} (missing : cache.entries[p]? = none)
    (told : p = o → unspentIn answer = below) : Entries.Still cache.entries[o]? (cache.learn p answer).entries[o]? below := by
  match answer with
  | .ok (some coin) =>
    rw [learn, entries_load, Entries.getElem?_insert_ite]
    split
    · next same =>
      rw [same, missing, ← told same.symm]
      refine fun _ => ⟨?_, rfl⟩
      rintro _ ⟨⟩
      exact Entry.exact_loaded coin
    · exact .refl
  | .ok none => exact .refl
  | .error _ => exact .refl

/-- A kept entry is seen, and the eviction that it may set off is not. -/
theorem keep_exact (exact : Entries.Exact cache.entries[o]? below) (fits : o = p → entry.Exact below) :
    Entries.Exact (cache.keep p entry).state.entries[o]? below ∧
      Entries.through (cache.keep p entry).state.entries[o]? below =
        if o = p then entry.coin.unspent? else Entries.through cache.entries[o]? below := by
  have thinned : Entries.Thinned (cache.entries.insert p entry) (cache.keep p entry).state.entries := thinned_keep
  have inserted : Entries.Exact (cache.entries.insert p entry)[o]? below := by
    rw [Entries.getElem?_insert_ite]
    split
    · next same =>
      rintro _ ⟨⟩
      exact fits same
    · exact exact
  refine (thinned.still o below inserted).imp_right fun seen => ?_
  rw [seen, Entries.getElem?_insert_ite]
  split <;> rfl

/-- An entry stays exact if its coin is spent. -/
theorem exact_spend (exact : Entries.Exact cache.entries[o]? below) : Entries.Exact (cache.spend p).2.entries[o]? below := by
  rw [spend]
  split
  · exact exact
  · next entry found =>
    split
    · rw [entries_erase, Entries.getElem?_erase_ite]
      split
      · intro _ there
        cases there
      · exact exact
    · next stale =>
      rw [entries_touch, entries_put, Entries.getElem?_insert_ite]
      split
      · next same =>
        subst same
        rintro _ ⟨⟩
        exact (exact entry found).changed fun fresh => absurd fresh stale
      · exact exact

/-- The coin is then gone. -/
theorem through_spend (exact : Entries.Exact cache.entries[o]? below) (found : cache.entries[p]? = some entry) :
    Entries.through (cache.spend p).2.entries[o]? below =
      if o = p then none else Entries.through cache.entries[o]? below := by
  split
  · next same =>
    subst same
    have fresh : entry.isFresh = true → (fun _ => below : Shown) o = none := (exact entry found).fresh.mp
    have gone : (cache.spend o).2.entries.atop (fun _ => below) o =
        Shown.spend (cache.entries.atop fun _ => below) o o := congrFun (atop_spend found fresh) o
    exact gone.trans (if_pos rfl)
  · next different => rw [getElem?_spend_other different]

/-- It stays exact if a coin is added over it that the caller vouches for, and the coin is then seen, unless it is
    unspendable or another one is there. -/
theorem add_exact (exact : Entries.Exact cache.entries[o]? below) (unspent : coin.isSpent = false)
    (vouched : o = p → o ∈ cache.entries ∨ below = none) :
    Entries.Exact (cache.add p coin false).state.entries[o]? below ∧
      Entries.through (cache.add p coin false).state.entries[o]? below =
        if o = p ∧ coin.isUnspendable = false ∧ Entries.through cache.entries[o]? below = none then some coin
        else Entries.through cache.entries[o]? below := by
  rw [add]
  split
  · next unspendable => exact ⟨exact, by simp [unspendable, Outcome.done]⟩
  next spendable =>
  rw [Bool.not_eq_true] at spendable
  -- Where nothing was seen, what is kept is what the addition should show.
  have added {flags : Flags} (free : o = p → Entries.through cache.entries[o]? below = none) :
      (if o = p then (⟨coin, flags⟩ : Entry).coin.unspent? else Entries.through cache.entries[o]? below) =
        if o = p ∧ coin.isUnspendable = false ∧ Entries.through cache.entries[o]? below = none then some coin
        else Entries.through cache.entries[o]? below := by
    by_cases same : o = p
    · rw [if_pos same, if_pos ⟨same, spendable, free same⟩]
      exact Coin.unspent?_of_unspent unspent
    · rw [if_neg same, if_neg fun both => same both.1]
  split
  · next missing =>
    have nothing (same : o = p) : below = none := (vouched same).resolve_left fun there => by
      simp [Std.ExtTreeMap.mem_iff_isSome_getElem?, same, missing] at there
    rw [← added fun same => by rw [same, missing]; exact nothing same]
    refine keep_exact exact fun same => ?_
    refine ⟨Entry.isValid_of_unspent unspent, iff_of_true rfl (nothing same), fun clean => ?_⟩
    cases clean
  · next old found =>
    split
    · next gone =>
      rw [← added fun same => by rw [same, found]; exact Coin.unspent?_eq_none.mpr gone]
      refine keep_exact exact fun same => ?_
      subst same
      exact (exact old found).changed fun _ => unspent
    · next there =>
      refine ⟨exact, (if_neg ?_).symm⟩
      rintro ⟨same, _, nothing⟩
      rw [same, found] at nothing
      exact there (Coin.unspent?_eq_none.mp nothing)

/-- A merge leaves both caches exact, takes their entries together or leaves both as they are, and shows the same
    through the two. The outpoints may be taken in any order. -/
theorem exact_merge {batch : Entries} (order : List OutPoint) (tip : Hash256)
    (mine : Entries.Exact cache.entries[o]? below)
    (fits : Entries.Exact batch[o]? (Entries.through cache.entries[o]? below)) (covers : o ∈ batch → o ∈ order) :
    let merged := cache.mergeInOrder order batch tip
    Entries.Exact merged.state.2.entries[o]? below ∧
      Entries.Exact merged.state.1[o]? (Entries.through merged.state.2.entries[o]? below) ∧
      Entries.through merged.state.1[o]? (Entries.through merged.state.2.entries[o]? below) =
        Entries.through batch[o]? (Entries.through cache.entries[o]? below) ∧
      (merged.result = .ok () → merged.state.1[o]? = none) := by
  intro merged
  have left : merged.state.1 = (Merging.run ⟨cache, batch, 0, 0⟩ order).state.left := left_mergeInOrder
  have entries : merged.state.2.entries = (Merging.run ⟨cache, batch, 0, 0⟩ order).state.cache.entries :=
    entries_mergeInOrder
  have result : merged.result = (Merging.run ⟨cache, batch, 0, 0⟩ order).result := result_mergeInOrder
  rw [left, entries, result]
  rcases Merging.run_entrywise ⟨cache, batch, 0, 0⟩ order o with
    ⟨leftSame, cacheSame⟩ | ⟨entry, found, _, gone, stepped⟩
  · rw [leftSame, cacheSame]
    refine ⟨mine, fits, rfl, fun ok => ?_⟩
    rcases Merging.run_result ⟨cache, batch, 0, 0⟩ order with ⟨_, all⟩ | ⟨_, _, stopped, _⟩
    · cases there : batch[o]? with
      | none => rfl
      | some entry =>
        have taken := all o (covers (Std.ExtTreeMap.mem_iff_isSome_getElem?.mpr (by simp [there])))
        rw [leftSame] at taken
        exact there.symm.trans taken
    · rw [ok] at stopped
      cases stopped
  · have there : batch[o]? = some entry := found
    have exact := fits entry there
    obtain ⟨_, stillExact, seen⟩ := MergeStep.outcome_exact mine exact
    rw [gone, stepped, there]
    refine ⟨stillExact, nofun, ?_, fun _ => rfl⟩
    refine Eq.trans (show Entries.through none _ = _ from seen) ?_
    cases dirty : entry.isDirty with
    | true => rfl
    | false => exact (exact.clean dirty).symm

end Cache

/-! ### Stores that are only asked -/

/-- The stores that one becomes by being asked. -/
inductive Asked {ρ : Type} [Backing ρ] (first : ρ) : ρ → Prop
  | first : Asked first first
  | read {store : ρ} (o : OutPoint) : Asked first store → Asked first (Backing.read o store).2
  | holds {store : ρ} (o : OutPoint) : Asked first store → Asked first (Backing.holds o store).2
  | tip {store : ρ} : Asked first store → Asked first (Backing.tip store).2

/-- However a store is asked, it has no unspent coin at an outpoint. It may answer that it knows none, or a spent
    one, or fail. -/
def Blank {ρ : Type} [Backing ρ] (o : OutPoint) (first : ρ) : Prop :=
  ∀ store : ρ, Asked first store → storeShows store o = none

namespace Layers

variable {ρ α : Type} [Backing ρ] {first : ρ} {layers below before after : Layers ρ} {o : OutPoint} {depth : Nat}

/-- The entries for an outpoint are exact in all caches. -/
def ExactAt (o : OutPoint) : Layers ρ → Prop
  | [] => True
  | .cached skip cache :: below => Entries.Exact cache.entries[o]? (shows (below.drop skip) o) ∧ ExactAt o below
  | _ :: below => ExactAt o below

/-- Layers became others over a store that was only asked, with exact entries for an outpoint, and what is shown
    there did not change. -/
structure Calm (o : OutPoint) (first : ρ) (before after : Layers ρ) : Prop where
  stack : Stack (Asked first) after
  exact : ExactAt o after
  shows : shows after o = shows before o

namespace Calm

theorem refl (stack : Stack (Asked first) layers) (exact : ExactAt o layers) : Calm o first layers layers :=
  ⟨stack, exact, rfl⟩

theorem relay (calm : Calm o first below after) : Calm o first (.relay 0 :: below) (.relay 0 :: after) := by
  refine ⟨.relay calm.stack, calm.exact, ?_⟩
  rw [shows_relay, shows_relay]
  exact calm.shows

theorem guarded {guard later : ReadGuard} (calm : Calm o first below after) :
    Calm o first (.guarded 0 guard :: below) (.guarded 0 later :: after) := by
  refine ⟨.guarded later calm.stack, calm.exact, ?_⟩
  rw [shows_guarded, shows_guarded]
  exact calm.shows

/-- A cache may change too, if its own entry is still. -/
theorem cached {cache later : Cache} (calm : Calm o first below after)
    (exact : Entries.Exact cache.entries[o]? (Layers.shows below o))
    (still : Entries.Still cache.entries[o]? later.entries[o]? (Layers.shows below o)) :
    Calm o first (.cached 0 cache :: below) (.cached 0 later :: after) := by
  obtain ⟨stillExact, seen⟩ := still exact
  rw [← calm.shows] at stillExact
  refine ⟨.cached later calm.stack, ⟨stillExact, calm.exact⟩, ?_⟩
  rw [shows_cached, shows_cached]
  show Entries.through later.entries[o]? (Layers.shows after o) = Entries.through cache.entries[o]? (Layers.shows below o)
  rw [calm.shows, seen]

end Calm

/-- An operation that is calm where it acts is calm, if it leaves the layers above that place as they are. -/
theorem calm_at_depth (op : Nat → Layers ρ → Layers ρ)
    (descends : ∀ depth layer below, op (depth + 1) (layer :: below) = layer :: op depth below)
    (nothing : ∀ depth, op depth [] = [])
    (here : Stack (Asked first) (layers.drop depth) → ExactAt o (layers.drop depth) →
      Calm o first (layers.drop depth) (op 0 (layers.drop depth)))
    (stack : Stack (Asked first) layers) (exact : ExactAt o layers) : Calm o first layers (op depth layers) := by
  induction stack generalizing depth with
  | root asked =>
    cases depth with
    | zero => exact here (.root asked) exact
    | succ depth =>
      rw [descends, nothing]
      exact .refl (.root asked) exact
  | relay stack ih =>
    cases depth with
    | zero => exact here (.relay stack) exact
    | succ depth =>
      rw [descends]
      exact (ih here exact).relay
  | guarded guard stack ih =>
    cases depth with
    | zero => exact here (.guarded guard stack) exact
    | succ depth =>
      rw [descends]
      exact (ih here exact).guarded
  | cached cache stack ih =>
    cases depth with
    | zero => exact here (.cached cache stack) exact
    | succ depth =>
      rw [descends]
      exact (ih here exact.2).cached exact.1 .refl

/-- A store that shows nothing at an outpoint can be asked. -/
theorem calm_root {store later : ρ} (blank : Blank o first) (asked : Asked first store) (still : Asked first later) :
    Calm o first [.root store] [.root later] := by
  refine ⟨.root still, trivial, ?_⟩
  rw [shows_root, shows_root, blank _ still, blank _ asked]

section Questions

variable (blank : Blank o first)
include blank

theorem read_calm (stack : Stack (Asked first) layers) (exact : ExactAt o layers) (p : OutPoint) (depth : Nat) :
    Calm o first layers (read p depth layers).state := by
  refine calm_at_depth (fun depth layers => (read p depth layers).state) (fun _ _ _ => rfl)
    (fun depth => congrArg _ (read_nil depth)) (fun stack exact => ?_) stack exact
  generalize layers.drop depth = layers at stack exact
  induction stack with
  | root asked => exact calm_root blank asked (asked.read p)
  | relay _ ih => exact (ih exact).relay
  | @guarded below guard _ ih =>
    obtain ⟨later, watched⟩ := state_watch 0 guard (read p 0 below)
    show Calm o first _ (read p 0 (.guarded 0 guard :: below)).state
    rw [read, watched]
    exact (ih exact).guarded
  | @cached below cache stack ih =>
    show Calm o first _ (read p 0 (.cached 0 cache :: below)).state
    rw [read]
    cases found : cache.entries[p]? with
    | some entry => exact (Calm.refl stack exact.2).cached exact.1 .refl
    | none =>
      refine (ih exact.2).cached exact.1 (Cache.still_learn found ?_)
      rintro rfl
      rfl

theorem holds_calm (stack : Stack (Asked first) layers) (exact : ExactAt o layers) (p : OutPoint) (depth : Nat) :
    Calm o first layers (holds p depth layers).state := by
  refine calm_at_depth (fun depth layers => (holds p depth layers).state) (fun _ _ _ => rfl)
    (fun depth => congrArg _ (holds_nil depth)) (fun stack exact => ?_) stack exact
  generalize layers.drop depth = layers at stack exact
  induction stack with
  | root asked => exact calm_root blank asked (asked.holds p)
  | relay _ ih => exact (ih exact).relay
  | @guarded below guard _ ih =>
    obtain ⟨later, watched⟩ := state_watch 0 guard (holds p 0 below)
    show Calm o first _ (holds p 0 (.guarded 0 guard :: below)).state
    rw [holds, watched]
    exact (ih exact).guarded
  | @cached below cache stack _ =>
    show Calm o first _ (holds p 0 (.cached 0 cache :: below)).state
    rw [state_holds_cached]
    exact read_calm blank (.cached cache stack) exact p 0

theorem tip_calm (stack : Stack (Asked first) layers) (exact : ExactAt o layers) (depth : Nat) :
    Calm o first layers (tip depth layers).2 := by
  refine calm_at_depth (fun depth layers => (tip depth layers).2) (fun _ _ _ => rfl)
    (fun depth => congrArg _ (tip_nil depth)) (fun stack exact => ?_) stack exact
  generalize layers.drop depth = layers at stack exact
  induction stack with
  | root asked => exact calm_root blank asked asked.tip
  | relay _ ih => exact (ih exact).relay
  | guarded _ _ ih => exact (ih exact).guarded
  | @cached below cache stack ih =>
    show Calm o first _ (tip 0 (.cached 0 cache :: below)).2
    rw [tip]
    split
    · exact .refl (.cached cache stack) exact
    · exact (ih exact.2).cached exact.1 .refl

theorem tipOf_calm (stack : Stack (Asked first) below) (exact : ExactAt o below) (cache : Cache) :
    Calm o first below (tipOf cache 0 below).2 := by
  rw [tipOf]
  split
  · exact .refl stack exact
  · exact tip_calm blank stack exact 0

end Questions

/-- A change to a cache that only drops entries without changes is calm. -/
theorem thin_calm (change : Cache → Outcome Cache α)
    (thins : ∀ cache : Cache, Entries.Thinned cache.entries (change cache).state.entries)
    (stack : Stack (Asked first) layers) (exact : ExactAt o layers) (depth : Nat) :
    Calm o first layers (onCache change depth layers).state := by
  refine calm_at_depth (fun depth layers => (onCache change depth layers).state) (fun _ _ _ => rfl) ?_
    (fun stack exact => ?_) stack exact
  · intro depth
    cases depth <;> rfl
  · generalize layers.drop depth = layers at stack exact
    cases stack with
    | root asked => exact .refl (.root asked) exact
    | relay stack => exact .refl (.relay stack) exact
    | guarded guard stack => exact .refl (.guarded guard stack) exact
    | @cached below cache stack => exact (Calm.refl stack exact.2).cached exact.1 ((thins cache).still o _)

/-! ### Writing and flushing -/

/-- Whether there is a cache among the layers. -/
def hasCache : Layers ρ → Bool
  | [] => false
  | .cached .. :: _ => true
  | _ :: below => hasCache below

theorem hasCache_tip (depth : Nat) (layers : Layers ρ) : hasCache (tip depth layers).2 = hasCache layers := by
  induction layers generalizing depth with
  | nil => rw [tip_nil]
  | cons layer below ih =>
    cases depth with
    | succ depth => cases layer <;> simp [tip, hasCache, ih]
    | zero =>
      cases layer with
      | root store => rfl
      | relay skip | guarded skip guard => exact ih skip
      | cached skip cache =>
        rw [tip]
        split <;> rfl

theorem hasCache_tipOf (cache : Cache) (below : Layers ρ) : hasCache (tipOf cache 0 below).2 = hasCache below := by
  rw [tipOf]
  split
  · rfl
  · exact hasCache_tip 0 below

/-- A batch was handed to layers, and what is seen through the rest of it did not change. -/
structure Handed (o : OutPoint) (first : ρ) (batch : Entries) (before : Layers ρ)
    (written : Outcome (Entries × Layers ρ) Unit) : Prop where
  stack : Stack (Asked first) written.state.2
  exact : ExactAt o written.state.2
  left : Entries.Exact written.state.1[o]? (shows written.state.2 o)
  seen : Entries.through written.state.1[o]? (shows written.state.2 o) = Entries.through batch[o]? (shows before o)
  whole : written.result = .ok () → written.state.1[o]? = none

/-- The cache whose entries were handed over goes on with what is left of them. -/
theorem Handed.calm {cache later : Cache} {written : Outcome (Entries × Layers ρ) Unit}
    (handed : Handed o first cache.entries before written) (same : shows before o = shows below o)
    (rest : later.entries[o]? = written.state.1[o]?) :
    Calm o first (.cached 0 cache :: below) (.cached 0 later :: written.state.2) := by
  have left : Entries.Exact later.entries[o]? (shows written.state.2 o) := rest ▸ handed.left
  refine ⟨.cached later handed.stack, ⟨left, handed.exact⟩, ?_⟩
  rw [shows_cached, shows_cached]
  show Entries.through later.entries[o]? (shows written.state.2 o) = Entries.through cache.entries[o]? (shows below o)
  rw [rest, handed.seen, same]

/-- Layers with a cache take an exact entry, or leave it. -/
theorem write_handed {batch : Entries} (block : Hash256) (stack : Stack (Asked first) layers)
    (exact : ExactAt o layers) (caches : hasCache layers = true) (fits : Entries.Exact batch[o]? (shows layers o)) :
    Handed o first batch layers (write batch block 0 layers) := by
  induction stack with
  | root => cases caches
  | @relay below stack ih =>
    rw [shows_relay] at fits
    obtain ⟨stack, exact, left, seen, whole⟩ := ih exact caches fits
    refine ⟨.relay stack, exact, ?_, ?_, whole⟩
    · show Entries.Exact _ (shows (.relay 0 :: (write batch block 0 below).state.2) o)
      rw [shows_relay]
      exact left
    · show Entries.through _ (shows (.relay 0 :: (write batch block 0 below).state.2) o) = _
      rw [shows_relay, shows_relay]
      exact seen
  | @guarded below guard stack ih =>
    rw [shows_guarded] at fits
    obtain ⟨stack, exact, left, seen, whole⟩ := ih exact caches fits
    refine ⟨.guarded guard stack, exact, ?_, ?_, whole⟩
    · show Entries.Exact _ (shows (.guarded 0 guard :: (write batch block 0 below).state.2) o)
      rw [shows_guarded]
      exact left
    · show Entries.through _ (shows (.guarded 0 guard :: (write batch block 0 below).state.2) o) = _
      rw [shows_guarded, shows_guarded]
      exact seen
  | @cached below cache stack _ =>
    obtain ⟨mine, exact⟩ := exact
    rw [shows_cached] at fits
    obtain ⟨stillMine, left, seen, whole⟩ :=
      Cache.exact_merge (cache.drained batch) block mine fits Cache.mem_drained.mpr
    refine ⟨.cached _ stack, ⟨stillMine, exact⟩, ?_, ?_, whole⟩
    · show Entries.Exact _ (shows (.cached 0 (cache.merge batch block).state.2 :: below) o)
      rw [shows_cached]
      exact left
    · show Entries.through _ (shows (.cached 0 (cache.merge batch block).state.2 :: below) o) = _
      rw [shows_cached, shows_cached]
      exact seen

/-- A flush into another cache is calm, whether it succeeds or not. -/
theorem flush_calm (blank : Blank o first) (stack : Stack (Asked first) layers) (exact : ExactAt o layers)
    (caches : hasCache (layers.drop (depth + 1)) = true) : Calm o first layers (flush depth layers).state := by
  refine calm_at_depth (fun depth layers => (flush depth layers).state) (fun _ _ _ => rfl) ?_
    (fun stack exact => ?_) stack exact
  · intro depth
    cases depth <;> rfl
  rw [← List.drop_drop] at caches
  generalize layers.drop depth = layers at stack exact caches
  cases stack with
  | root asked => exact .refl (.root asked) exact
  | relay stack => exact .refl (.relay stack) exact
  | guarded guard stack => exact .refl (.guarded guard stack) exact
  | @cached below cache stack =>
    obtain ⟨mine, exact⟩ := exact
    have asked := tipOf_calm blank stack exact cache
    have fits : Entries.Exact cache.entries[o]? (shows (tipOf cache 0 below).2 o) := asked.shows ▸ mine
    have handed := write_handed (tipOf cache 0 below).1 asked.stack asked.exact
      ((hasCache_tipOf cache below).trans caches) fits
    show Calm o first _ (concludeFlush { cache with tip := some (tipOf cache 0 below).1 } (tipOf cache 0 below).1 0
      (write cache.entries (tipOf cache 0 below).1 0 (tipOf cache 0 below).2)).state
    rw [concludeFlush]
    split
    · next ok => exact handed.calm asked.shows (Eq.trans (by simp) (handed.whole ok).symm)
    · exact handed.calm asked.shows rfl

/-! ### Runs -/

/-- What may be asked of layers while coins at an outpoint are short-lived: questions and drops at any layer,
    flushes of caches over other caches, and spends and additions at the top. A coin is added at the outpoint only
    if nothing is shown there, or the cache on top has an entry for it. -/
inductive Allowed (o : OutPoint) (layers : Layers ρ) : Nat → Request → Prop
  | read (p : OutPoint) (depth : Nat) : Allowed o layers depth (.read p)
  | holds (p : OutPoint) (depth : Nat) : Allowed o layers depth (.holds p)
  | sight (p : OutPoint) (depth : Nat) : Allowed o layers depth (.sight p)
  | tip (depth : Nat) : Allowed o layers depth .tip
  | uncache (p : OutPoint) (depth : Nat) : Allowed o layers depth (.uncache p)
  | setTip (block : Hash256) (depth : Nat) : Allowed o layers depth (.setTip block)
  | flush (depth : Nat) : hasCache (layers.drop (depth + 1)) = true → Allowed o layers depth .flush
  | spend (p : OutPoint) : Allowed o layers 0 (.spend p)
  | add (p : OutPoint) {coin : Coin} : coin.isSpent = false →
      (p = o → shows layers o = none ∨ ∃ cache, cacheAt? 0 layers = some cache ∧ o ∈ cache.entries) →
      Allowed o layers 0 (.add p coin false)

/-- What is seen at an outpoint after a request, if `seen` was seen there before it: a spend takes the coin away,
    an addition puts one there if there is none. Requests that fail, and all others, change nothing. -/
def seenAfter (o : OutPoint) (seen : Option Coin) : Request → Except Failure Reply → Option Coin
  | .spend p, .ok _ => if o = p then none else seen
  | .add p coin _, .ok _ => if o = p ∧ coin.isUnspendable = false ∧ seen = none then some coin else seen
  | _, _ => seen

/-- The layers in a run of such requests, and the coin that the run put at the outpoint and has not taken away.
    Evictions may come at any time. -/
inductive Handled (o : OutPoint) (start : Layers ρ) : Layers ρ → Option Coin → Prop
  | start : Handled o start start none
  | step {layers : Layers ρ} {seen : Option Coin} {depth : Nat} {request : Request} : Handled o start layers seen →
      Allowed o layers depth request →
      Handled o start (perform request depth layers).state (seenAfter o seen request (perform request depth layers).result)
  | evict {layers : Layers ρ} {seen : Option Coin} (depth : Nat) : Handled o start layers seen →
      Handled o start (onCache Cache.shrink depth layers).state seen

/-- Layers over a store that was only asked, with exact entries for an outpoint, that show a given coin there. -/
structure Settled (o : OutPoint) (first : ρ) (seen : Option Coin) (layers : Layers ρ) : Prop where
  stack : Stack (Asked first) layers
  exact : ExactAt o layers
  shows : shows layers o = seen

theorem Calm.settled {seen : Option Coin} (calm : Calm o first before after) (shown : Layers.shows before o = seen) :
    Settled o first seen after :=
  ⟨calm.stack, calm.exact, calm.shows.trans shown⟩

/-- A spend through the cache on top takes the coin away, unless the read before it fails. -/
theorem spend_settled {cache : Cache} (blank : Blank o first) (stack : Stack (Asked first) (.cached 0 cache :: below))
    (exact : ExactAt o (.cached 0 cache :: below)) (p : OutPoint) :
    Settled o first
      (seenAfter o (shows (.cached 0 cache :: below) o) (.spend p)
        ((spend p 0 (.cached 0 cache :: below)).map Reply.coin).result)
      (spend p 0 (.cached 0 cache :: below)).state := by
  have calm := read_calm blank stack exact p 0
  cases told : (read p 0 (.cached 0 cache :: below)).result with
  | error why =>
    simp only [spend, Outcome.andThen, told, Outcome.map, Except.map, seenAfter]
    exact calm.settled rfl
  | ok found =>
    cases found with
    | none =>
      simp only [spend, Outcome.andThen, told, Outcome.map, Except.map, Outcome.done, Outcome.after, seenAfter]
      refine calm.settled ?_
      split
      · next same =>
        rw [same, shows, told]
        rfl
      · rfl
    | some coin =>
      obtain ⟨later, lower, left, kept⟩ := read_caches told
      obtain ⟨entry, found, _⟩ := Option.map_eq_some_iff.mp kept
      rw [left] at calm
      obtain ⟨mine, lowerExact⟩ := calm.exact
      have seen := calm.shows
      simp only [spend, Outcome.andThen, told, left, onCache, Outcome.map, Except.map, Outcome.done, Outcome.after,
        Outcome.mapState, seenAfter]
      cases calm.stack with
      | cached _ lowerStack =>
        refine ⟨.cached _ lowerStack, ⟨Cache.exact_spend mine, lowerExact⟩, ?_⟩
        rw [← seen, shows_cached, shows_cached]
        exact Cache.through_spend mine found

/-- An allowed request leaves all entries for the outpoint exact, writes nothing to the store, and changes what is
    seen there as it should. -/
theorem perform_settled {seen : Option Coin} (blank : Blank o first) (settled : Settled o first seen layers)
    {request : Request} (allowed : Allowed o layers depth request) :
    Settled o first (seenAfter o seen request (perform request depth layers).result) (perform request depth layers).state := by
  obtain ⟨stack, exact, shown⟩ := settled
  have stays {later : Layers ρ} (calm : Calm o first layers later) : Settled o first seen later := calm.settled shown
  cases allowed with
  | read p => exact stays (read_calm blank stack exact p depth)
  | holds p => exact stays (holds_calm blank stack exact p depth)
  | sight p =>
    refine stays ?_
    show Calm o first layers (ifCache (sight p) depth layers).state
    rw [ifCache]
    split
    · exact read_calm blank stack exact p depth
    · exact .refl stack exact
  | tip => exact stays (tip_calm blank stack exact depth)
  | uncache p =>
    exact stays (thin_calm (fun cache => .done () (cache.uncache p)) (fun cache => cache.thinned_uncache) stack exact depth)
  | setTip block =>
    exact stays (thin_calm (fun cache => .done () { cache with tip := some block }) (fun _ => .refl) stack exact depth)
  | flush _ caches => exact stays (flush_calm blank stack exact caches)
  | spend p =>
    cases stack with
    | root asked => exact stays (.refl (.root asked) exact)
    | relay stack => exact stays (.refl (.relay stack) exact)
    | guarded guard stack => exact stays (.refl (.guarded guard stack) exact)
    | cached cache stack =>
      rw [← shown]
      exact spend_settled blank (.cached cache stack) exact p
  | @add p coin unspent vouched =>
    cases stack with
    | root asked => exact stays (.refl (.root asked) exact)
    | relay stack => exact stays (.refl (.relay stack) exact)
    | guarded guard stack => exact stays (.refl (.guarded guard stack) exact)
    | @cached below cache stack =>
      have known (same : o = p) : o ∈ cache.entries ∨ shows below o = none := by
        rcases vouched same.symm with missing | ⟨_, here, there⟩
        · exact vouched_of_none (.cached cache stack) rfl missing
        · cases here
          exact .inl there
      obtain ⟨added, now⟩ := Cache.add_exact exact.1 unspent known
      refine ⟨.cached _ stack, ⟨added, exact.2⟩, ?_⟩
      have result : (perform (.add p coin false) 0 (.cached 0 cache :: below)).result = .ok .nothing := by
        show (cache.add p coin false).result.map _ = _
        rw [Cache.result_add]
        rfl
      rw [shows_cached] at shown
      show shows (.cached 0 (cache.add p coin false).state :: below) o = _
      rw [result, shows_cached, ← shown]
      exact now

/-! ### Down to the store -/

theorem exactAt_of_empty (stack : Stack (Asked first) layers)
    (new : EveryCache (fun cache => cache.entries = ∅) layers) : ExactAt o layers := by
  induction stack with
  | root => trivial
  | relay _ ih => exact ih (everyCache_relay.mp new)
  | guarded _ _ ih => exact ih (everyCache_guarded.mp new)
  | cached cache _ ih =>
    obtain ⟨empty, rest⟩ := everyCache_cached.mp new
    refine ⟨?_, ih rest⟩
    rw [empty, Std.ExtTreeMap.getElem?_empty]
    exact nofun

/-- With empty caches nothing is shown there. -/
theorem shows_of_empty (blank : Blank o first) (stack : Stack (Asked first) layers)
    (new : EveryCache (fun cache => cache.entries = ∅) layers) : shows layers o = none := by
  induction stack with
  | root asked => exact blank _ asked
  | relay _ ih =>
    rw [shows_relay]
    exact ih (everyCache_relay.mp new)
  | guarded _ _ ih =>
    rw [shows_guarded]
    exact ih (everyCache_guarded.mp new)
  | cached cache _ ih =>
    obtain ⟨empty, rest⟩ := everyCache_cached.mp new
    rw [shows_cached, empty, Entries.atop_empty]
    exact ih rest

/-- In a run from empty caches the store is only asked, the entries for the outpoint are exact, and the coin of
    the run is shown there. -/
theorem Handled.settled {start : Layers ρ} {seen : Option Coin} (handled : Handled o start layers seen)
    (blank : Blank o first) (stack : Stack (Asked first) start)
    (new : EveryCache (fun cache => cache.entries = ∅) start) : Settled o first seen layers := by
  induction handled with
  | start => exact ⟨stack, exactAt_of_empty stack new, shows_of_empty blank stack new⟩
  | step _ allowed ih => exact perform_settled blank ih allowed
  | evict depth _ ih => exact (thin_calm Cache.shrink Cache.thinned_shrink ih.stack ih.exact depth).settled ih.shows

/-- Where a cache lies in a stack, with exact entries all the way down. -/
theorem drop_of_cacheAt? {cache : Cache} (stack : Stack (Asked first) layers) (exact : ExactAt o layers)
    (here : cacheAt? depth layers = some cache) : ∃ below, layers.drop depth = .cached 0 cache :: below ∧
      Stack (Asked first) below ∧ Entries.Exact cache.entries[o]? (shows below o) ∧ ExactAt o below := by
  induction stack generalizing depth with
  | root =>
    cases depth with
    | zero => cases here
    | succ depth => rw [cacheAt?, cacheAt?_nil] at here; cases here
  | relay _ ih | guarded _ _ ih =>
    cases depth with
    | zero => cases here
    | succ depth => exact ih exact here
  | @cached below _ stack ih =>
    cases depth with
    | zero =>
      cases here
      exact ⟨below, rfl, stack, exact⟩
    | succ depth => exact ih exact.2 here

/-- Without a cache the layers show nothing at the outpoint. -/
theorem shows_of_noCache (blank : Blank o first) (stack : Stack (Asked first) layers)
    (noCache : hasCache layers = false) : shows layers o = none := by
  induction stack with
  | @root store asked => exact blank store asked
  | relay _ ih =>
    rw [shows_relay]
    exact ih noCache
  | guarded _ _ ih =>
    rw [shows_guarded]
    exact ih noCache
  | cached => cases noCache

/-- Without a cache in between a batch goes to the store as it is. -/
theorem root?_write (batch : Entries) (block : Hash256) (stack : Stack (Asked first) layers)
    (noCache : hasCache layers = false) : ∃ store, Asked first store ∧
      root? (write batch block 0 layers).state.2 = some (Backing.write batch block store).store := by
  induction stack with
  | @root store asked => exact ⟨store, asked, rfl⟩
  | relay _ ih | guarded _ _ ih => exact ih noCache
  | cached => cases noCache

/-- A flush reaches the store as it does without the layers above. -/
theorem root?_flush (stack : Stack (Asked first) layers) (inside : depth < layers.length) :
    root? (flush depth layers).state = root? (flush 0 (layers.drop depth)).state := by
  induction stack generalizing depth with
  | root =>
    have zero : depth = 0 := by simpa using inside
    rw [zero, List.drop_zero]
  | relay _ ih | guarded _ _ ih | cached _ _ ih =>
    cases depth with
    | zero => rfl
    | succ depth => exact ih (Nat.lt_of_succ_lt_succ inside)

theorem root?_flush_top (cache : Cache) (below : Layers ρ) :
    root? (flush 0 (.cached 0 cache :: below)).state =
      root? (write cache.entries (tipOf cache 0 below).1 0 (tipOf cache 0 below).2).state.2 := by
  simp only [flush, concludeFlush]
  split <;> rfl

/-- While coins come and go above a store that shows nothing at an outpoint, the store is never written. At any time
    the coin is shown that was added last, if it was not spent since; flushes, questions and evictions leave that as
    it is. The entry of the lowest cache is fresh, and it is a change only if its coin is unspent. Once the caches
    above are flushed, it is a change if and only if a coin is shown, which it then has; and this is what a flush of
    the lowest cache hands to the store. -/
theorem handled_unwritten {start : Layers ρ} {seen : Option Coin} (blank : Blank o first)
    (stack : Stack (Asked first) start) (new : EveryCache (fun cache => cache.entries = ∅) start)
    (handled : Handled o start layers seen) :
    (∃ store, root? layers = some store ∧ Asked first store) ∧ shows layers o = seen ∧
    ∀ depth cache, cacheAt? depth layers = some cache → hasCache (layers.drop (depth + 1)) = false →
      (∀ entry, cache.entries[o]? = some entry → entry.isFresh = true ∧ entry.isDirty = !entry.coin.isSpent) ∧
      (Uncovered depth layers →
        (∀ coin, shows layers o = some coin ↔
          ∃ entry, cache.entries[o]? = some entry ∧ entry.isDirty = true ∧ entry.coin = coin) ∧
        ∃ store block, Asked first store ∧
          root? (flush depth layers).state = some (Backing.write cache.entries block store).store) := by
  obtain ⟨stack, exact, shown⟩ := handled.settled blank stack new
  obtain ⟨store, found, asked, _⟩ := root?_of_stack stack
  refine ⟨⟨store, found, asked⟩, shown, fun depth cache here bottom => ?_⟩
  obtain ⟨below, there, lower, mine, lowerExact⟩ := drop_of_cacheAt? stack exact here
  rw [← List.drop_drop, there] at bottom
  have nothing := shows_of_noCache blank lower bottom
  rw [nothing] at mine
  refine ⟨fun entry there => (mine entry there).over_nothing, fun uncovered => ⟨fun coin => ?_, ?_⟩⟩
  · have seen : shows layers o = Entries.through cache.entries[o]? (shows below o) := by
      rw [← shows_drop_of_uncovered stack uncovered (lt_length_of_cacheAt? here), there, shows_cached]
      rfl
    rw [seen, nothing]
    exact mine.over_nothing coin
  · have asked := tipOf_calm blank lower lowerExact cache
    obtain ⟨store, still, written⟩ := root?_write cache.entries (tipOf cache 0 below).1 asked.stack
      ((hasCache_tipOf cache below).trans bottom)
    rw [root?_flush stack (lt_length_of_cacheAt? here), there, root?_flush_top]
    exact ⟨store, _, still, written⟩

/-! ### A run -/

/-- Two new caches over a store without coins. -/
def twoOverNothing : Layers MemoryStore :=
  [.cached 0 (.empty .standard), .cached 0 (.empty .standard), .root .empty]

/-- The two caches after a coin was added through the upper one, and that one flushed. -/
def addedAbove : Layers MemoryStore :=
  (perform .flush 0 (perform (.add ⟨.zero, 0⟩ ⟨5, 1, false, .empty, false⟩ false) 0 twoOverNothing).state).state

/-- The two caches after the coin was spent again. -/
def spentAbove : Layers MemoryStore :=
  (perform (.spend ⟨.zero, 0⟩) 0 addedAbove).state

/-- The two caches after the upper one was flushed once more. -/
def goneAbove : Layers MemoryStore :=
  (perform .flush 0 spentAbove).state

theorem asked_memory {first store : MemoryStore} (asked : Asked first store) : store = first := by
  induction asked with
  | first => rfl
  | read _ _ ih | holds _ _ ih | tip _ ih => exact ih

theorem handled_spentAbove : Handled ⟨.zero, 0⟩ twoOverNothing spentAbove none := by
  have added : Handled ⟨.zero, 0⟩ twoOverNothing addedAbove (some ⟨5, 1, false, .empty, false⟩) :=
    (Handled.start.step (.add ⟨.zero, 0⟩ rfl fun _ => .inl rfl)).step (.flush 0 rfl)
  exact added.step (.spend ⟨.zero, 0⟩)

/-- The coin that came and went leaves no change in the lower cache, whose flush writes nothing of it. -/
theorem goneAbove_unwritten :
    Handled ⟨.zero, 0⟩ twoOverNothing goneAbove none ∧ root? goneAbove = some .empty ∧
    shows goneAbove ⟨.zero, 0⟩ = none ∧
    ∃ cache, cacheAt? 1 goneAbove = some cache ∧
      (∀ entry, cache.entries[(⟨.zero, 0⟩ : OutPoint)]? = some entry → entry.isDirty = false) ∧
      ∃ block, root? (flush 1 goneAbove).state = some (MemoryStore.write cache.entries block .empty).store := by
  have stack : Stack (Asked MemoryStore.empty) twoOverNothing := .cached _ (.cached _ (.root .first))
  have new : EveryCache (fun cache => cache.entries = ∅) twoOverNothing :=
    everyCache_cached.mpr ⟨rfl, everyCache_cached.mpr ⟨rfl, everyCache_root.mpr everyCache_nil⟩⟩
  have blank : Blank ⟨.zero, 0⟩ MemoryStore.empty := by
    intro store asked
    rw [asked_memory asked]
    rfl
  have handled : Handled ⟨.zero, 0⟩ twoOverNothing goneAbove none := handled_spentAbove.step (.flush 0 rfl)
  obtain ⟨⟨store, found, asked⟩, gone, lowest⟩ := handled_unwritten blank stack new handled
  rw [asked_memory asked] at found
  obtain ⟨cache, here⟩ := Option.isSome_iff_exists.mp (show (cacheAt? 1 goneAbove).isSome = true by decide)
  have uncovered : Uncovered 1 goneAbove :=
    uncovered_flush rfl uncovered_zero
  obtain ⟨_, flushed⟩ := lowest 1 cache here rfl
  obtain ⟨changed, store, block, same, written⟩ := flushed uncovered
  rw [asked_memory same] at written
  refine ⟨handled, found, gone, cache, here, fun entry there => ?_, block, written⟩
  cases dirty : entry.isDirty with
  | false => rfl
  | true =>
    have seen := (changed entry.coin).mpr ⟨entry, there, dirty, rfl⟩
    rw [gone] at seen
    cases seen

end Layers

end CoinLayers
