import CoinLayers.Entry

/-!
Entries on top of a view: what the two show together, and when the flags of the entries tell the truth
about the view. Nothing here knows of caches or layers; a view is the function that gives for each
outpoint the unspent coin that can be seen there.

Entries can be looked through (`atop`), or written down (`patch`). With sound flags both show the same
(`atop_eq_patch`), and entries that have nothing to write can go without anyone noticing (`Thinned.atop`).
-/
namespace CoinLayers

/-- The coin, if it is unspent. -/
def Coin.unspent? (coin : Coin) : Option Coin :=
  if coin.isSpent then none else some coin

theorem Coin.unspent?_eq_none {coin : Coin} : coin.unspent? = none ↔ coin.isSpent = true := by
  simp [unspent?]

theorem Coin.unspent?_of_unspent {coin : Coin} (unspent : coin.isSpent = false) : coin.unspent? = some coin := by
  simp [unspent?, unspent]

/-- What a view shows: the unspent coin at each outpoint, if there is one. -/
abbrev Shown := OutPoint → Option Coin

/-- What the flags of an entry say of the view below: a fresh entry stands over no unspent coin, and a
    clean one repeats what is there. -/
structure Entry.Fits (entry : Entry) (below : Option Coin) : Prop where
  fresh : entry.isFresh = true → below = none
  clean : entry.isDirty = false → entry.coin.unspent? = below

namespace Entries

variable {entries : Entries} {shown : Shown} {o : OutPoint} {entry : Entry}

/-- What is seen at one outpoint: the coin of the entry, or what is below if there is no entry. -/
def through (entry : Option Entry) (below : Option Coin) : Option Coin :=
  match entry with
  | some entry => entry.coin.unspent?
  | none => below

/-- The view through the entries. -/
def atop (entries : Entries) (shown : Shown) : Shown := fun o => through entries[o]? (shown o)

/-- The view after the entries were written to it: only the dirty ones count. -/
def patch (entries : Entries) (shown : Shown) : Shown := fun o =>
  match entries[o]? with
  | some entry => if entry.isDirty then entry.coin.unspent? else shown o
  | none => shown o

/-- All flags tell the truth about the view below. -/
def SoundOver (entries : Entries) (shown : Shown) : Prop :=
  ∀ (o : OutPoint) (entry : Entry), entries[o]? = some entry → entry.Fits (shown o)

/-- The clean entries repeat what the view below shows. -/
def AgreesWith (entries : Entries) (shown : Shown) : Prop :=
  ∀ (o : OutPoint) (entry : Entry),
    entries[o]? = some entry → entry.isDirty = false → entry.coin.unspent? = shown o

/-- The fresh entries stand over no unspent coin. -/
def FreshOver (entries : Entries) (shown : Shown) : Prop :=
  ∀ (o : OutPoint) (entry : Entry), entries[o]? = some entry → entry.isFresh = true → shown o = none

theorem SoundOver.agrees (sound : entries.SoundOver shown) : entries.AgreesWith shown :=
  fun o entry found => (sound o entry found).clean

theorem atop_of_some (found : entries[o]? = some entry) : entries.atop shown o = entry.coin.unspent? := by
  simp [atop, through, found]

theorem atop_of_none (missing : entries[o]? = none) : entries.atop shown o = shown o := by
  simp [atop, through, missing]

/-- Where nothing is seen through entries, there is one, or nothing is seen below. -/
theorem vouched_of_atop (missing : entries.atop shown o = none) : o ∈ entries ∨ shown o = none := by
  cases found : entries[o]? with
  | some entry => exact .inl (Std.ExtTreeMap.mem_iff_isSome_getElem?.mpr (by simp [found]))
  | none => exact .inr ((atop_of_none found).symm.trans missing)

theorem patch_of_none (missing : entries[o]? = none) : entries.patch shown o = shown o := by
  simp [patch, missing]

theorem patch_of_dirty (found : entries[o]? = some entry) (dirty : entry.isDirty = true) :
    entries.patch shown o = entry.coin.unspent? := by
  simp [patch, found, dirty]

theorem patch_of_clean (found : entries[o]? = some entry) (clean : entry.isDirty = false) :
    entries.patch shown o = shown o := by
  simp [patch, found, clean]

@[simp] theorem atop_empty : (∅ : Entries).atop shown = shown := by
  funext o
  exact atop_of_none (by simp)

@[simp] theorem soundOver_empty : (∅ : Entries).SoundOver shown := by
  intro o entry found
  simp at found

/-- Both ways to put entries on a view agree as soon as the clean ones do. -/
theorem atop_eq_patch (agrees : entries.AgreesWith shown) : entries.atop shown = entries.patch shown := by
  funext o
  cases found : entries[o]? with
  | none => rw [atop_of_none found, patch_of_none found]
  | some entry =>
    cases dirty : entry.isDirty with
    | true => rw [atop_of_some found, patch_of_dirty found dirty]
    | false => rw [atop_of_some found, patch_of_clean found dirty, agrees o entry found dirty]

/-! ### Changing one entry -/

theorem getElem?_insert_ite {α : Type} {coins : Std.ExtTreeMap OutPoint α} {value : α} {p : OutPoint} :
    (coins.insert o value)[p]? = if p = o then some value else coins[p]? := by
  simp only [Std.ExtTreeMap.getElem?_insert, Std.LawfulEqOrd.compare_eq_iff_eq, @eq_comm _ o p]

theorem getElem?_erase_ite {α : Type} {coins : Std.ExtTreeMap OutPoint α} {p : OutPoint} :
    (coins.erase o)[p]? = if p = o then none else coins[p]? := by
  simp only [Std.ExtTreeMap.getElem?_erase, Std.LawfulEqOrd.compare_eq_iff_eq, @eq_comm _ o p]

theorem atop_insert {p : OutPoint} :
    atop (entries.insert o entry) shown p = if p = o then entry.coin.unspent? else atop entries shown p := by
  simp only [atop, getElem?_insert_ite]
  by_cases same : p = o
  · simp [same, through]
  · simp [same]

theorem atop_erase {p : OutPoint} :
    atop (entries.erase o) shown p = if p = o then shown o else atop entries shown p := by
  simp only [atop, getElem?_erase_ite]
  by_cases same : p = o
  · simp [same, through]
  · simp [same]

theorem SoundOver.insert (sound : entries.SoundOver shown) (fits : entry.Fits (shown o)) :
    SoundOver (entries.insert o entry) shown := by
  intro p other found
  rw [getElem?_insert_ite] at found
  split at found
  · next same =>
    rw [same, ← Option.some.inj found]
    exact fits
  · exact sound p other found

theorem SoundOver.erase (sound : entries.SoundOver shown) : SoundOver (entries.erase o) shown := by
  intro p other found
  rw [getElem?_erase_ite] at found
  split at found
  · cases found
  · exact sound p other found

/-! ### Dropping entries -/

/-- Some entries are gone, none of which had anything to write. -/
def Thinned (entries thinner : Entries) : Prop :=
  ∀ o : OutPoint, thinner[o]? = entries[o]? ∨
    thinner[o]? = none ∧ ∃ entry : Entry, entries[o]? = some entry ∧ entry.isDirty = false

variable {thinner thinnest : Entries}

theorem Thinned.refl : Thinned entries entries :=
  fun _ => .inl rfl

theorem Thinned.trans (first : Thinned entries thinner) (second : Thinned thinner thinnest) :
    Thinned entries thinnest := by
  intro o
  rcases second o with same | ⟨gone, entry, found, clean⟩
  · rw [same]
    exact first o
  · rcases first o with same | ⟨gone', _⟩
    · exact .inr ⟨gone, entry, same ▸ found, clean⟩
    · rw [gone'] at found
      cases found

theorem Thinned.erase (found : entries[o]? = some entry) (clean : entry.isDirty = false) :
    Thinned entries (entries.erase o) := by
  intro p
  rw [getElem?_erase_ite]
  by_cases same : p = o
  · subst same
    exact .inr ⟨by simp, entry, found, clean⟩
  · exact .inl (by simp [same])

theorem Thinned.sound (thinned : Thinned entries thinner) (sound : entries.SoundOver shown) :
    thinner.SoundOver shown := by
  intro o entry found
  rcases thinned o with same | ⟨gone, _⟩
  · exact sound o entry (same ▸ found)
  · rw [gone] at found
    cases found

/-- Entries that have nothing to write can go without a change to what is seen. -/
theorem Thinned.atop (thinned : Thinned entries thinner) (agrees : entries.AgreesWith shown) :
    thinner.atop shown = entries.atop shown := by
  funext o
  rcases thinned o with same | ⟨gone, entry, found, clean⟩
  · simp only [Entries.atop, same]
  · rw [atop_of_none gone, atop_of_some found, agrees o entry found clean]

/-! ### Handing entries over in part -/

/-- All entries left are entries of the batch, as they were. -/
def PartOf (left batch : Entries) : Prop :=
  ∀ (o : OutPoint) (entry : Entry), left[o]? = some entry → batch[o]? = some entry

theorem PartOf.refl {batch : Entries} : batch.PartOf batch :=
  fun _ _ found => found

/-- What it means that a batch was handed over in part: each entry is either still there, and the view has
    not changed at its outpoint, or it is gone, and the view shows what it says. -/
def Taken (batch left : Entries) (before after : Shown) : Prop :=
  ∀ o : OutPoint, left[o]? = batch[o]? ∧ after o = before o ∨ left[o]? = none ∧ after o = batch.patch before o

variable {batch left rest : Entries} {before between after : Shown}

theorem Taken.refl : Taken batch batch before before :=
  fun _ => .inl ⟨rfl, rfl⟩

theorem Taken.whole : Taken batch ∅ before (batch.patch before) :=
  fun _ => .inr ⟨by simp, rfl⟩

theorem Taken.trans (first : Taken batch left before between) (second : Taken left rest between after) :
    Taken batch rest before after := by
  intro o
  have patched (same : left[o]? = batch[o]?) (unchanged : between o = before o) :
      left.patch between o = batch.patch before o := by
    simp only [patch, same, unchanged]
  rcases first o with ⟨same, unchanged⟩ | ⟨gone, written⟩
  · rcases second o with ⟨same', unchanged'⟩ | ⟨gone', written'⟩
    · exact .inl ⟨same'.trans same, unchanged'.trans unchanged⟩
    · exact .inr ⟨gone', written'.trans (patched same unchanged)⟩
  · rcases second o with ⟨same', unchanged'⟩ | ⟨gone', written'⟩
    · exact .inr ⟨same'.trans gone, unchanged'.trans written⟩
    · exact .inr ⟨gone', (written'.trans (patch_of_none gone)).trans written⟩

/-- The entries at some outpoints can be written ahead of the others. -/
theorem taken_filter (batch : Entries) (before : Shown) (ahead : OutPoint → Bool) :
    Taken batch (batch.filter fun o _ => !ahead o) before (patch (batch.filter fun o _ => ahead o) before) := by
  intro o
  have written : (batch.filter fun o _ => ahead o)[o]? = if ahead o then batch[o]? else none := by
    rw [Std.ExtTreeMap.getElem?_filter']
    cases ahead o <;> cases batch[o]? <;> rfl
  rw [Std.ExtTreeMap.getElem?_filter', patch, patch, written]
  cases ahead o with
  | true => exact .inr ⟨by cases batch[o]? <;> rfl, rfl⟩
  | false => exact .inl ⟨by cases batch[o]? <;> rfl, rfl⟩

/-- What is true of all coins is true of the unspent ones. -/
theorem Taken.unspent (taken : Taken batch left before after) :
    Taken batch left (fun o => (before o).bind Coin.unspent?) (fun o => (after o).bind Coin.unspent?) := by
  have patched (o : OutPoint) : (batch.patch before o).bind Coin.unspent? =
      batch.patch (fun o => (before o).bind Coin.unspent?) o := by
    rw [patch, patch]
    split
    · next entry _ =>
      split
      · cases spent : entry.coin.isSpent <;> simp [Coin.unspent?, spent]
      · rfl
    · rfl
  intro o
  rcases taken o with ⟨same, unchanged⟩ | ⟨gone, written⟩
  · exact .inl ⟨same, congrArg (·.bind Coin.unspent?) unchanged⟩
  · exact .inr ⟨gone, (congrArg (·.bind Coin.unspent?) written).trans (patched o)⟩

/-- Once nothing is left, the view is the one that the batch was written to. -/
theorem Taken.eq_patch (taken : Taken batch ∅ before after) : after = batch.patch before := by
  funext o
  rcases taken o with ⟨same, unchanged⟩ | ⟨_, written⟩
  · rw [unchanged, patch_of_none (by simpa using same.symm)]
  · exact written

/-- What can be seen through a batch does not change while it is handed over. -/
theorem Taken.atop (taken : Taken batch left before after) (agrees : batch.AgreesWith before) :
    left.atop after = batch.atop before := by
  funext o
  rcases taken o with ⟨same, unchanged⟩ | ⟨gone, written⟩
  · simp only [Entries.atop, same, unchanged]
  · rw [atop_of_none gone, written, atop_eq_patch agrees]

/-- Where something is left, nothing has changed. -/
theorem Taken.of_left {o : OutPoint} {entry : Entry} (taken : Taken batch left before after)
    (found : left[o]? = some entry) : batch[o]? = some entry ∧ after o = before o := by
  rcases taken o with ⟨same, unchanged⟩ | ⟨gone, _⟩
  · exact ⟨same ▸ found, unchanged⟩
  · rw [gone] at found
    cases found

theorem Taken.part (taken : Taken batch left before after) : left.PartOf batch :=
  fun _ _ found => (taken.of_left found).1

theorem Taken.agrees (taken : Taken batch left before after) (agrees : batch.AgreesWith before) :
    left.AgreesWith after := by
  intro o entry found clean
  obtain ⟨there, unchanged⟩ := taken.of_left found
  rw [unchanged]
  exact agrees o entry there clean

theorem Taken.fresh (taken : Taken batch left before after) (fresh : batch.FreshOver before) :
    left.FreshOver after := by
  intro o entry found isFresh
  obtain ⟨there, unchanged⟩ := taken.of_left found
  rw [unchanged]
  exact fresh o entry there isFresh

end Entries

end CoinLayers
