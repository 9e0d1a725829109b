import CoinLayers.Proofs.PlainMap

/-!
The flags of the caches in a run. Whatever is read, dropped, evicted and flushed at any layer, and however it
is mixed with the additions and spends that a run allows, each fresh entry stands over no unspent coin and each
clean one repeats what the layers below show. So no flush is ever refused, and clean entries can go without a
change to any answer.
-/
namespace CoinLayers.Layers

variable {ρ : Type} [Backing ρ] {o : OutPoint} {entry : Entry}

/-- In layers with sound flags an entry of any cache fits what the layers that this cache reads show. -/
theorem Sound.fits {layers below : Layers ρ} {depth skip : Nat} {cache : Cache} (sound : Sound layers)
    (here : layers.drop depth = .cached skip cache :: below) (found : cache.entries[o]? = some entry) :
    entry.Fits (shows (below.drop skip) o) := by
  induction depth generalizing layers with
  | zero =>
    rw [List.drop_zero] at here
    rw [here] at sound
    exact sound.1 o entry found
  | succ depth ih =>
    cases layers with
    | nil => cases here
    | cons layer rest => exact ih sound.2 here

/-- In a run the flags of every entry at every layer are sound. Hence no flush fails, and if entries without
    changes are dropped from a cache, all readers get the answers that they got before, and all that is permitted
    then is still answered as the map answers it. -/
theorem flags_sound {layers : Layers MemoryStore} {coins : Coins} (reached : Reached layers coins) :
    (∀ (depth skip : Nat) (cache : Cache) (below : Layers MemoryStore),
      layers.drop depth = .cached skip cache :: below →
      ∀ (o : OutPoint) (entry : Entry), cache.entries[o]? = some entry →
        (entry.isFresh = true → shows (below.drop skip) o = none) ∧
        (entry.isDirty = false → entry.coin.unspent? = shows (below.drop skip) o)) ∧
    (∀ depth, (cacheAt? depth layers).isSome = true → (flush depth layers).result = .ok ()) ∧
    ∀ (depth : Nat) (change : Cache → Outcome Cache Unit),
      (∀ cache : Cache, Entries.Thinned cache.entries (change cache).state.entries) →
      (∀ (o : OutPoint) (reader : Nat),
        unspentIn (read o reader (onCache change depth layers).state).result = unspentIn (read o reader layers).result ∧
        (holds o reader (onCache change depth layers).state).result = (holds o reader layers).result) ∧
      ∀ (place : Nat) (request : Request), Permitted (onCache change depth layers).state place request →
        ∃ reply, (perform request place (onCache change depth layers).state).result = .ok reply ∧
          (Uncovered place (onCache change depth layers).state → Coins.Tells coins request reply) := by
  obtain ⟨stack, sound, _⟩ := reached.stands
  refine ⟨?_, ?_, ?_⟩
  · intro depth skip cache below here o entry found
    have fits := sound.fits here found
    exact ⟨fits.fresh, fits.clean⟩
  · intro depth there
    obtain ⟨cache, acting⟩ := Option.isSome_iff_exists.mp there
    exact (flush_stands MemoryStore.dependable stack sound acting).1
  · intro depth change thins
    have quiet := thin_quiet change thins stack sound depth
    refine ⟨?_, fun _ _ permitted => (perform_stands (quiet.stands reached.stands) permitted).1⟩
    intro o reader
    rw [unspentIn_read, unspentIn_read, holds_answers MemoryStore.dependable quiet.stack,
      holds_answers MemoryStore.dependable stack, quiet.shows]
    exact ⟨rfl, rfl⟩

/-- The lower cache can be flushed after the upper one, and the entry that it holds can be asked to go. -/
theorem spentAndFlushed_sound :
    Reached spentAndFlushed ∅ ∧
    (flush 2 spentAndFlushed).result = .ok () ∧
    (holds ⟨.zero, 0⟩ 0 (onCache (fun cache => .done () (cache.uncache ⟨.zero, 0⟩)) 2 spentAndFlushed).state).result =
      (holds ⟨.zero, 0⟩ 0 spentAndFlushed).result := by
  obtain ⟨_, flushes, drops⟩ := flags_sound reached_spentAndFlushed
  have thins (cache : Cache) : Entries.Thinned cache.entries (cache.uncache ⟨.zero, 0⟩).entries :=
    cache.thinned_uncache
  obtain ⟨answered, _⟩ := drops 2 (fun cache => .done () (cache.uncache ⟨.zero, 0⟩)) thins
  exact ⟨reached_spentAndFlushed, flushes 2 (by decide), (answered ⟨.zero, 0⟩ 0).2⟩

end CoinLayers.Layers
