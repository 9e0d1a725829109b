import CoinLayers.Proofs.Drain

/-!
Merging composes writes. To merge a batch into a cache and then flush the cache is to write the entries of the
cache first and those of the batch after them, as soon as the flags of both are sound; and to flush a chain of
caches from the top down is to write their entries from the bottom up. The steps of a merge that record nothing
are right only because of what fresh flags say of the layers below.
-/
namespace CoinLayers

/-- Stores of unspent coins that show the same hold the same. -/
theorem MemoryStore.coins_eq_of_shows {store other : MemoryStore} (unspent : store.Unspent)
    (alsoUnspent : other.Unspent) (same : storeShows store = storeShows other) : store.coins = other.coins := by
  rw [storeShows_eq unspent, storeShows_eq alsoUnspent] at same
  exact Std.ExtTreeMap.ext_getElem? fun {o} => congrFun same o

namespace Layers

/-- Caches one on the other, down to a store in memory. -/
def chain (caches : List Cache) (store : MemoryStore) : Layers MemoryStore :=
  caches.map (.cached 0) ++ [.root store]

/-- The store after the entries of all caches were written to it, those of the last cache first. -/
def writeAll (block : Hash256) (caches : List Cache) (store : MemoryStore) : MemoryStore :=
  caches.foldr (fun cache store => (MemoryStore.write cache.entries block store).store) store

variable {caches : List Cache} {store : MemoryStore}

theorem stack_chain (unspent : store.Unspent) : Stack MemoryStore.Unspent (chain caches store) := by
  induction caches with
  | nil => exact .root unspent
  | cons cache rest ih => exact .cached cache ih

/-- Writing the entries of all caches leaves what the chain shows. -/
theorem writeAll_shows (block : Hash256) (unspent : store.Unspent) (sound : Sound (chain caches store)) :
    (writeAll block caches store).Unspent ∧ storeShows (writeAll block caches store) = shows (chain caches store) := by
  induction caches with
  | nil => exact ⟨unspent, rfl⟩
  | cons cache rest ih =>
    have flags : cache.entries.SoundOver (shows (chain rest store)) := sound.1
    obtain ⟨stillUnspent, seen⟩ := ih sound.2
    obtain ⟨_, _, _, written⟩ := MemoryStore.dependable.write cache.entries block _ stillUnspent
    refine ⟨stillUnspent.write, ?_⟩
    show storeShows (MemoryStore.write cache.entries block (writeAll block rest store)).store =
      shows (.cached 0 cache :: chain rest store)
    rw [shows_cached, List.drop_zero, Entries.atop_eq_patch flags.agrees, ← seen]
    exact written

/-- A merge of a batch and then a flush into a store in memory write what the cache has to write, and then the
    batch, if fresh entries of the cache stand over no coin of the store, its clean ones repeat the store, and
    the dirty fresh ones of the batch stand over no unspent coin in the view through the cache. The outpoints may
    be taken in any order. So do the flushes of a chain of caches with sound flags from the top down: they write
    the entries of all caches from the bottom up. -/
theorem merges_compose :
    (∀ (store : MemoryStore) (parent : Cache) (child : Entries) (order : List OutPoint) (tip first second : Hash256),
      store.Unspent → parent.entries.SoundOver (storeShows store) →
      (∀ (o : OutPoint) (entry : Entry), child[o]? = some entry → entry.isDirty = true → entry.isFresh = true →
        shows [.cached 0 parent, .root store] o = none) →
      (∀ o ∈ child, o ∈ order) →
      (parent.mergeInOrder order child tip).result = .ok () ∧ (parent.mergeInOrder order child tip).state.1 = ∅ ∧
      (flush 0 [.cached 0 (parent.mergeInOrder order child tip).state.2, .root store]).result = .ok () ∧
      ∃ drained, root? (flush 0 [.cached 0 (parent.mergeInOrder order child tip).state.2, .root store]).state =
          some drained ∧
        drained.coins =
          (MemoryStore.write child second (MemoryStore.write parent.entries first store).store).store.coins) ∧
    ∀ (caches : List Cache) (store : MemoryStore) (block : Hash256),
      store.Unspent → Sound (chain caches store) →
      (drain (chain caches store)).result = .ok () ∧
      ∃ drained, root? (drain (chain caches store)).state = some drained ∧
        drained.coins = (writeAll block caches store).coins := by
  refine ⟨?_, ?_⟩
  · intro store parent child order tip first second unspent sound fresh covers
    have raw : storeShows store = fun o => store.coins[o]? := MemoryStore.storeShows_eq unspent
    rw [shows_cached, List.drop_zero, shows_root] at fresh
    obtain ⟨ok, emptied, stillSound, seen⟩ := Cache.mergeInOrder_shown order tip sound fresh covers
    obtain ⟨flushed, drained, bottom, written⟩ :=
      flush_onto_memory (parent.mergeInOrder order child tip).state.2 store
    refine ⟨ok, emptied, flushed, drained, bottom, ?_⟩
    rw [Entries.atop_eq_patch stillSound.agrees, Entries.atop_eq_patch sound.agrees, raw] at seen
    have below : (fun o => (MemoryStore.write parent.entries first store).store.coins[o]?) =
        parent.entries.patch fun o => store.coins[o]? :=
      funext fun _ => MemoryStore.getElem?_write
    apply Std.ExtTreeMap.ext_getElem?
    intro o
    rw [written, seen, MemoryStore.getElem?_write, below]
  · intro caches store block unspent sound
    obtain ⟨ok, _, drained, bottom, stillUnspent, seen⟩ :=
      drain_stands MemoryStore.dependable (stack_chain unspent) sound
    obtain ⟨writtenUnspent, written⟩ := writeAll_shows block unspent sound
    exact ⟨ok, drained, bottom, MemoryStore.coins_eq_of_shows stillUnspent writtenUnspent (seen.trans written.symm)⟩

/-! ### A coin spent and made again -/

/-- A cache in which the coin of a store is spent. -/
def spending : Cache :=
  { Cache.empty .standard with entries := (∅ : Entries).insert ⟨.zero, 0⟩ ⟨.spent, ⟨true, false⟩⟩ }

/-- A cache with a new coin in the place of the spent one. -/
def remaking : Cache :=
  { Cache.empty .standard with
    entries := (∅ : Entries).insert ⟨.zero, 0⟩ ⟨⟨7, 2, false, .empty, false⟩, ⟨true, true⟩⟩ }

theorem sound_spending : spending.entries.SoundOver (storeShows MemoryStore.oneCoin) :=
  Entries.soundOver_empty.insert ⟨nofun, nofun⟩

theorem sound_remaking : remaking.entries.SoundOver (shows (chain [spending] .oneCoin)) :=
  Entries.soundOver_empty.insert ⟨fun _ => rfl, nofun⟩

/-- The new coin is fresh over the tombstone, and takes the place of the old one in the store by either way. -/
theorem remade_composes :
    MemoryStore.oneCoin.Unspent ∧ Sound (chain [remaking, spending] .oneCoin) ∧
    (∃ drained, root? (flush 0 [.cached 0 (spending.merge remaking.entries .zero).state.2,
        .root MemoryStore.oneCoin]).state = some drained ∧
      drained.coins = (MemoryStore.write remaking.entries .zero
        (MemoryStore.write spending.entries .zero .oneCoin).store).store.coins) ∧
    ∃ drained, root? (drain (chain [remaking, spending] .oneCoin)).state = some drained ∧
      drained.coins = (writeAll .zero [remaking, spending] .oneCoin).coins := by
  obtain ⟨merged, drains⟩ := merges_compose
  have unspent := MemoryStore.unspent_oneCoin
  have sound : Sound (chain [remaking, spending] .oneCoin) := ⟨sound_remaking, sound_spending, trivial, trivial⟩
  refine ⟨unspent, sound, ?_, ?_⟩
  · obtain ⟨_, _, _, drained⟩ := merged .oneCoin spending remaking.entries (spending.drained remaking.entries) .zero
      .zero .zero unspent sound_spending (fun o entry found _ isFresh => (sound_remaking o entry found).fresh isFresh)
      fun _ => Cache.mem_drained.mpr
    exact drained
  · exact (drains [remaking, spending] .oneCoin .zero unspent sound).2

end Layers

end CoinLayers
