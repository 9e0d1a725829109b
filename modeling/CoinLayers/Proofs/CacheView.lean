import CoinLayers.Eviction
import CoinLayers.Proofs.Overlay

/-!
What the operations of a cache do to the view through it. The view below the cache is any function; the
flags of the cache are taken to be sound over it, and every operation leaves them so.

Reading into the cache and evicting from it cannot be seen (`atop_learn`, `thinned_shrink`). To add or to
spend a coin changes the view at one outpoint, as it would change a plain map (`add_shown`, `spend_shown`).
-/
namespace CoinLayers

/-- A view after a coin was added. An unspendable coin is not kept, and an unspent coin that is there already
    stays unless it may be overwritten. A spent coin in its place is not seen. -/
def Shown.add (shown : Shown) (o : OutPoint) (coin : Coin) (mayOverwrite : Bool) : Shown := fun p =>
  if p = o ∧ coin.isUnspendable = false ∧ (mayOverwrite = true ∨ shown o = none) then coin.unspent? else shown p

/-- A view after a coin was spent. -/
def Shown.spend (shown : Shown) (o : OutPoint) : Shown := fun p =>
  if p = o then none else shown p

/-- The unspent coin in an answer to a read. -/
def unspentIn : Except Failure (Option Coin) → Option Coin
  | .ok (some coin) => coin.unspent?
  | _ => none

namespace Cache

variable {cache : Cache} {o : OutPoint} {coin : Coin} {entry : Entry} {shown : Shown}

@[simp] theorem entries_touch : (cache.touch o).entries = cache.entries := rfl

@[simp] theorem entries_put : (cache.put o entry).entries = cache.entries.insert o entry := rfl

@[simp] theorem entries_load : (cache.load o coin).entries = cache.entries.insert o (.loaded coin) := rfl

@[simp] theorem entries_emptied : cache.emptied.entries = ∅ := rfl

@[simp] theorem entries_recover {left : Entries} : (cache.recover left).entries = left := rfl

@[simp] theorem entries_erase : (cache.erase o).entries = cache.entries.erase o := by
  rw [erase]
  split
  · next missing =>
    apply Std.ExtTreeMap.ext_getElem?
    intro p
    rw [Entries.getElem?_erase_ite]
    by_cases same : p = o
    · simp [same, missing]
    · simp [same]
  · rfl

/-! ### Reading -/

theorem atop_learn {answer : Except Failure (Option Coin)} (missing : cache.entries[o]? = none)
    (told : unspentIn answer = shown o) : (cache.learn o answer).entries.atop shown = cache.entries.atop shown := by
  match answer with
  | .ok (some coin) =>
    funext p
    rw [learn, entries_load, Entries.atop_insert]
    split
    · next same =>
      subst same
      rw [Entries.atop_of_none missing, ← told]
      rfl
    · rfl
  | .ok none => rfl
  | .error _ => rfl

/-- A coin that was read repeats what is below, and is fresh only if it is spent. -/
theorem sound_learn {answer : Except Failure (Option Coin)} (told : unspentIn answer = shown o)
    (sound : cache.entries.SoundOver shown) : (cache.learn o answer).entries.SoundOver shown := by
  match answer with
  | .ok (some coin) =>
    refine sound.insert ⟨?_, fun _ => told⟩
    intro spent
    rw [← told]
    exact Coin.unspent?_eq_none.mpr spent
  | .ok none => exact sound
  | .error _ => exact sound

/-! ### Evicting -/

theorem thinned_pass (sweep : Sweep) : Entries.Thinned sweep.cache.entries (sweep.pass o).cache.entries := by
  rw [Sweep.pass]
  split
  · exact .refl
  · next found =>
    split
    · exact .refl
    · next clean =>
      rw [entries_erase]
      exact .erase found (by simpa using clean)

theorem thinned_sweep (target : Nat) (places : List OutPoint) (sweep : Sweep) :
    Entries.Thinned sweep.cache.entries (sweep.run target places).cache.entries := by
  induction places generalizing sweep with
  | nil => exact .refl
  | cons o younger ih =>
    rw [Sweep.run]
    split
    · exact .refl
    · exact (thinned_pass sweep).trans (ih (sweep.pass o))

@[simp] theorem entries_touchAll {places : List OutPoint} : (places.foldl touch cache).entries = cache.entries := by
  induction places generalizing cache with
  | nil => rfl
  | cons o rest ih => rw [List.foldl_cons, ih, entries_touch]

/-- An eviction drops only entries that have nothing to write. -/
theorem thinned_shrink (cache : Cache) : Entries.Thinned cache.entries cache.shrink.state.entries := by
  simpa [shrink] using thinned_sweep cache.budget.target cache.recency.oldestFirst ⟨cache, [], 0⟩

theorem thinned_uncache (cache : Cache) : Entries.Thinned cache.entries (cache.uncache o).entries := by
  rw [uncache]
  split
  · next clean =>
    obtain ⟨entry, found, undirty⟩ := (Option.any_eq_true ..).mp clean
    rw [entries_erase]
    exact .erase found (by simpa using undirty)
  · exact .refl

/-! ### Adding and spending -/

theorem result_keep : (cache.keep o entry).result = .ok () := by
  rw [keep]
  split <;> rfl

/-- To add a coin never fails. -/
theorem result_add {mayOverwrite : Bool} : (cache.add o coin mayOverwrite).result = .ok () := by
  rw [add]
  split
  · rfl
  split
  · exact result_keep
  split
  · exact result_keep
  split
  · rfl
  split
  · exact result_keep
  · exact result_keep

theorem thinned_keep : Entries.Thinned (cache.entries.insert o entry) (cache.keep o entry).state.entries := by
  rw [keep]
  split
  · exact thinned_shrink ((cache.put o entry).touch o)
  · exact .refl

/-- An entry kept with sound flags is seen, and the eviction that it may set off is not. -/
theorem keep_shown (cache : Cache) (sound : cache.entries.SoundOver shown) (fits : entry.Fits (shown o)) :
    (cache.keep o entry).state.entries.SoundOver shown ∧ ∀ p,
      (cache.keep o entry).state.entries.atop shown p =
        if p = o then entry.coin.unspent? else cache.entries.atop shown p := by
  have inserted := sound.insert fits
  refine ⟨thinned_keep.sound inserted, ?_⟩
  intro p
  rw [thinned_keep.atop inserted.agrees, Entries.atop_insert]

/-- A coin that nothing stops is kept in a dirty entry. -/
private theorem keep_adds (cache : Cache) {mayOverwrite : Bool} (sound : cache.entries.SoundOver shown)
    (spendable : entry.coin.isUnspendable = false)
    (free : mayOverwrite = true ∨ cache.entries.atop shown o = none) (dirty : entry.isDirty = true)
    (fresh : entry.isFresh = true → shown o = none) :
    (cache.keep o entry).result = .ok () ∧ (cache.keep o entry).state.entries.SoundOver shown ∧
      (cache.keep o entry).state.entries.atop shown =
        Shown.add (cache.entries.atop shown) o entry.coin mayOverwrite := by
  have fits : entry.Fits (shown o) := ⟨fresh, fun clean => by rw [dirty] at clean; cases clean⟩
  obtain ⟨stillSound, seen⟩ := keep_shown cache sound fits
  refine ⟨result_keep, stillSound, ?_⟩
  funext p
  rw [seen p]
  simp [Shown.add, spendable, free]

/-- An addition is seen as one to a plain map, and leaves the flags sound, unless the caller calls a coin
    new where the view below shows an unspent one. -/
theorem add_shown {mayOverwrite : Bool} (sound : cache.entries.SoundOver shown)
    (vouched : mayOverwrite = true ∨ o ∈ cache.entries ∨ shown o = none) :
    (cache.add o coin mayOverwrite).result = .ok () ∧
      (cache.add o coin mayOverwrite).state.entries.SoundOver shown ∧
      (cache.add o coin mayOverwrite).state.entries.atop shown =
        Shown.add (cache.entries.atop shown) o coin mayOverwrite := by
  rw [add]
  split
  · next unspendable =>
    refine ⟨rfl, sound, ?_⟩
    funext p
    simp [Outcome.done, Shown.add, unspendable]
  next spendable =>
  rw [Bool.not_eq_true] at spendable
  split
  · next missing =>
    have notThere : o ∉ cache.entries := by simp [Std.ExtTreeMap.mem_iff_isSome_getElem?, missing]
    have free : mayOverwrite = true ∨ cache.entries.atop shown o = none := by
      rw [Entries.atop_of_none missing]
      exact vouched.imp_right (Or.resolve_left · notThere)
    refine keep_adds cache sound spendable free rfl ?_
    intro fresh
    rcases vouched with allowed | there | absent
    · simp [Entry.isFresh, allowed] at fresh
    · exact absurd there notThere
    · exact absent
  · next old found =>
    have fresh : old.isFresh = true → shown o = none := (sound o old found).fresh
    split
    · next gone =>
      have free : mayOverwrite = true ∨ cache.entries.atop shown o = none :=
        .inr ((Entries.atop_of_some found).trans (Coin.unspent?_eq_none.mpr gone))
      exact keep_adds cache sound spendable free rfl fresh
    · next there =>
      have seen : cache.entries.atop shown o = some old.coin := by
        rw [Entries.atop_of_some found, Coin.unspent?_of_unspent (by simpa using there)]
      split
      · next refused =>
        refine ⟨rfl, sound, ?_⟩
        funext p
        simp only [Bool.not_eq_true'] at refused
        simp [Outcome.done, Shown.add, refused, seen]
      · next allowed =>
        have free : mayOverwrite = true ∨ cache.entries.atop shown o = none := .inl (by simpa using allowed)
        split
        · exact keep_adds { cache with overwritten := cache.overwritten.meet o } sound spendable free rfl fresh
        · exact keep_adds cache sound spendable free rfl fresh

/-- A spend answers the cached coin. -/
theorem spend_answers (found : cache.entries[o]? = some entry) : (cache.spend o).1 = some entry.coin := by
  rw [spend, found]
  dsimp only
  split <;> rfl

theorem getElem?_spend_other {p : OutPoint} (different : p ≠ o) : (cache.spend o).2.entries[p]? = cache.entries[p]? := by
  rw [spend]
  split
  · rfl
  · split
    · rw [entries_erase, Entries.getElem?_erase_ite, if_neg different]
    · rw [entries_touch, entries_put, Entries.getElem?_insert_ite, if_neg different]

/-- It is seen as a spend from a plain map. That an entry may go instead of becoming a tombstone is right if it is
    fresh with reason. -/
theorem atop_spend (found : cache.entries[o]? = some entry) (fresh : entry.isFresh = true → shown o = none) :
    (cache.spend o).2.entries.atop shown = Shown.spend (cache.entries.atop shown) o := by
  funext p
  rw [spend, found, Shown.spend]
  dsimp only
  split
  · next isFresh => rw [entries_erase, Entries.atop_erase, fresh isFresh]
  · rw [entries_touch, entries_put, Entries.atop_insert]
    rfl

theorem sound_spend (sound : cache.entries.SoundOver shown) : (cache.spend o).2.entries.SoundOver shown := by
  rw [spend]
  split
  · exact sound
  · split
    · rw [entries_erase]
      exact sound.erase
    · next stale =>
      refine sound.insert ⟨fun fresh => absurd fresh stale, ?_⟩
      intro clean
      simp [Entry.isDirty] at clean

/-- With sound flags a spend answers the cached coin, leaves the flags sound, and is seen as one. -/
theorem spend_shown (sound : cache.entries.SoundOver shown) (found : cache.entries[o]? = some entry) :
    (cache.spend o).1 = some entry.coin ∧ (cache.spend o).2.entries.SoundOver shown ∧
      (cache.spend o).2.entries.atop shown = Shown.spend (cache.entries.atop shown) o :=
  ⟨spend_answers found, sound_spend sound, atop_spend found (sound o entry found).fresh⟩

end Cache

end CoinLayers
