import CoinLayers.OutPoint

/-!
The order in which outpoints were last used.

Every use takes the next number of a clock. An outpoint is older than another when its number is
smaller; the numbers are all different, so the order is total. What each operation does is said of the
list from the least to the most recently used: a use moves an outpoint to the end (`oldestFirst_touch`),
and to forget outpoints leaves the others in their order (`oldestFirst_forget`, `oldestFirst_retain`).
-/
namespace CoinLayers

/-- The last use of each outpoint on record. -/
structure Recency where
  stamps : Std.ExtTreeMap OutPoint Nat
  clock : Nat
  stamp_lt : ∀ {o : OutPoint} {t : Nat}, stamps[o]? = some t → t < clock
  stamp_inj : ∀ {o p : OutPoint} {t : Nat}, stamps[o]? = some t → stamps[p]? = some t → o = p

namespace Recency

def empty : Recency where
  stamps := ∅
  clock := 0
  stamp_lt := by simp
  stamp_inj := by simp

def size (recency : Recency) : Nat := recency.stamps.size

def contains (recency : Recency) (o : OutPoint) : Bool := recency.stamps.contains o

/-- A use of an outpoint: it becomes the newest. -/
def touch (recency : Recency) (o : OutPoint) : Recency where
  stamps := recency.stamps.insert o recency.clock
  clock := recency.clock + 1
  stamp_lt {p t} found := by
    rw [Std.ExtTreeMap.getElem?_insert] at found
    split at found
    · simp at found; omega
    · exact Nat.lt_succ_of_lt (recency.stamp_lt found)
  stamp_inj {p q t} first second := by
    rw [Std.ExtTreeMap.getElem?_insert] at first second
    split at first <;> split at second
    · next h₁ h₂ => rw [← Std.LawfulEqOrd.eq_of_compare h₁, ← Std.LawfulEqOrd.eq_of_compare h₂]
    · simp at first; have := recency.stamp_lt second; omega
    · simp at second; have := recency.stamp_lt first; omega
    · exact recency.stamp_inj first second

/-- The record without the outpoints that fail a test; the others keep their places. -/
def retain (recency : Recency) (keep : OutPoint → Bool) : Recency where
  stamps := recency.stamps.filter fun o _ => keep o
  clock := recency.clock
  stamp_lt found := by
    rw [Std.ExtTreeMap.getElem?_filter'] at found
    exact recency.stamp_lt (Option.eq_some_of_filter_eq_some found)
  stamp_inj first second := by
    rw [Std.ExtTreeMap.getElem?_filter'] at first second
    exact recency.stamp_inj (Option.eq_some_of_filter_eq_some first) (Option.eq_some_of_filter_eq_some second)

def forget (recency : Recency) (o : OutPoint) : Recency where
  stamps := recency.stamps.erase o
  clock := recency.clock
  stamp_lt found := by
    rw [Std.ExtTreeMap.getElem?_erase] at found
    split at found
    · simp at found
    · exact recency.stamp_lt found
  stamp_inj first second := by
    rw [Std.ExtTreeMap.getElem?_erase] at first second
    split at first <;> split at second <;> simp_all
    exact recency.stamp_inj first second

/-- The outpoints on record by their last use. -/
def byStamp (recency : Recency) : Std.ExtTreeMap Nat OutPoint :=
  .ofList (recency.stamps.toList.map Prod.swap)

/-- The outpoints on record from the least to the most recently used. -/
def oldestFirst (recency : Recency) : List OutPoint :=
  recency.byStamp.toList.map (·.2)

variable {recency : Recency} {o p : OutPoint}

/-- One outpoint was last used before another. -/
def Older (recency : Recency) (o p : OutPoint) : Prop :=
  ∃ t u, recency.stamps[o]? = some t ∧ recency.stamps[p]? = some u ∧ t < u

/-- The record by last use is the record of last uses read backwards. -/
theorem getElem?_byStamp {t : Nat} : recency.byStamp[t]? = some o ↔ recency.stamps[o]? = some t := by
  have distinct : (recency.stamps.toList.map Prod.swap).Pairwise fun a b => ¬compare a.1 b.1 = .eq := by
    rw [List.pairwise_map]
    refine Std.ExtTreeMap.distinct_keys_toList.imp_of_mem ?_
    intro a b memA memB different same
    apply different
    have stampA := Std.ExtTreeMap.mem_toList_iff_getElem?_eq_some.mp memA
    have stampB := Std.ExtTreeMap.mem_toList_iff_getElem?_eq_some.mp memB
    have equal : a.2 = b.2 := Std.LawfulEqOrd.eq_of_compare same
    rw [recency.stamp_inj stampA (equal ▸ stampB)]
    exact Std.ReflOrd.compare_self
  constructor
  · intro found
    by_cases listed : ((recency.stamps.toList.map Prod.swap).map Prod.fst).contains t
    · simp only [List.contains_iff_mem, List.mem_map] at listed
      obtain ⟨_, ⟨⟨p, u⟩, member, rfl⟩, rfl⟩ := listed
      have other : recency.byStamp[u]? = some p :=
        Std.ExtTreeMap.getElem?_ofList_of_mem Std.ReflOrd.compare_self distinct (List.mem_map_of_mem member)
      have same : p = o := Option.some.inj (other.symm.trans found)
      exact same ▸ Std.ExtTreeMap.mem_toList_iff_getElem?_eq_some.mp member
    · have missing : recency.byStamp[t]? = none :=
        Std.ExtTreeMap.getElem?_ofList_of_contains_eq_false (Bool.eq_false_iff.mpr listed)
      exact absurd (missing.symm.trans found) (by simp)
  · intro stamp
    exact Std.ExtTreeMap.getElem?_ofList_of_mem Std.ReflOrd.compare_self distinct
      (List.mem_map_of_mem (Std.ExtTreeMap.mem_toList_iff_getElem?_eq_some.mpr stamp))

theorem mem_oldestFirst : o ∈ recency.oldestFirst ↔ o ∈ recency.stamps := by
  simp only [oldestFirst, List.mem_map]
  constructor
  · rintro ⟨⟨t, p⟩, member, rfl⟩
    have stamp := getElem?_byStamp.mp (Std.ExtTreeMap.mem_toList_iff_getElem?_eq_some.mp member)
    exact Std.ExtTreeMap.mem_iff_isSome_getElem?.mpr (by simp [stamp])
  · intro member
    obtain ⟨t, stamp⟩ := Option.isSome_iff_exists.mp (Std.ExtTreeMap.mem_iff_isSome_getElem?.mp member)
    exact ⟨(t, o), Std.ExtTreeMap.mem_toList_iff_getElem?_eq_some.mpr (getElem?_byStamp.mpr stamp), rfl⟩

theorem pairwise_oldestFirst : recency.oldestFirst.Pairwise recency.Older := by
  rw [oldestFirst, List.pairwise_map]
  refine Std.ExtTreeMap.ordered_keys_toList.imp_of_mem ?_
  intro a b memA memB before
  refine ⟨a.1, b.1, getElem?_byStamp.mp (Std.ExtTreeMap.mem_toList_iff_getElem?_eq_some.mp memA),
    getElem?_byStamp.mp (Std.ExtTreeMap.mem_toList_iff_getElem?_eq_some.mp memB), ?_⟩
  exact Nat.compare_eq_lt.mp before

theorem Older.ne (older : recency.Older o p) : o ≠ p := by
  rintro rfl
  obtain ⟨t, u, first, second, less⟩ := older
  have same : t = u := Option.some.inj (first.symm.trans second)
  omega

theorem Older.asymm (older : recency.Older o p) : ¬recency.Older p o := by
  rintro ⟨t, u, first, second, less⟩
  obtain ⟨t', u', first', second', less'⟩ := older
  have same : t = u' := Option.some.inj (first.symm.trans second')
  have same' : u = t' := Option.some.inj (second.symm.trans first')
  omega

/-- A list is the order of last use as soon as it is sorted and holds the outpoints on record. -/
theorem eq_oldestFirst {places : List OutPoint} (sorted : places.Pairwise recency.Older)
    (members : ∀ o, o ∈ places ↔ o ∈ recency.stamps) : places = recency.oldestFirst := by
  have unique : ∀ {l : List OutPoint}, l.Pairwise recency.Older → l.Nodup := fun sorted =>
    List.nodup_iff_pairwise_ne.mpr (sorted.imp fun older => older.ne)
  have perm : places.Perm recency.oldestFirst :=
    (List.perm_ext_iff_of_nodup (unique sorted) (unique pairwise_oldestFirst)).mpr fun o =>
      (members o).trans mem_oldestFirst.symm
  exact perm.eq_of_pairwise (fun _ _ _ _ older newer => absurd newer older.asymm) sorted pairwise_oldestFirst

/-- A use makes an outpoint the newest, and changes nothing else. -/
theorem oldestFirst_touch : (recency.touch o).oldestFirst = recency.oldestFirst.filter (· ≠ o) ++ [o] := by
  have unchanged : ∀ {p : OutPoint}, p ≠ o → (recency.touch o).stamps[p]? = recency.stamps[p]? := by
    intro p different
    rw [touch, Std.ExtTreeMap.getElem?_insert, if_neg]
    exact fun same => different (Std.LawfulEqOrd.eq_of_compare same).symm
  refine (eq_oldestFirst ?_ ?_).symm
  · rw [List.pairwise_append]
    refine ⟨?_, List.pairwise_singleton .., ?_⟩
    · refine (pairwise_oldestFirst.filter _).imp_of_mem ?_
      rintro p q memP memQ ⟨t, u, first, second, less⟩
      simp only [List.mem_filter, decide_eq_true_eq] at memP memQ
      exact ⟨t, u, by rw [unchanged memP.2, first], by rw [unchanged memQ.2, second], less⟩
    · intro p memP q memQ
      simp only [List.mem_filter, decide_eq_true_eq, List.mem_singleton] at memP memQ
      obtain ⟨t, stamp⟩ := Option.isSome_iff_exists.mp
        (Std.ExtTreeMap.mem_iff_isSome_getElem?.mp (mem_oldestFirst.mp memP.1))
      refine ⟨t, recency.clock, by rw [unchanged memP.2, stamp], ?_, recency.stamp_lt stamp⟩
      rw [memQ, touch, Std.ExtTreeMap.getElem?_insert_self]
  · intro p
    simp only [List.mem_append, List.mem_filter, decide_eq_true_eq, List.mem_singleton, mem_oldestFirst, touch,
      Std.ExtTreeMap.mem_insert, Std.LawfulEqOrd.compare_eq_iff_eq]
    by_cases same : p = o
    · simp [same]
    · simp [same, Ne.symm same]

theorem oldestFirst_retain {keep : OutPoint → Bool} :
    (recency.retain keep).oldestFirst = recency.oldestFirst.filter keep := by
  have unchanged {p : OutPoint} :
      (recency.retain keep).stamps[p]? = recency.stamps[p]?.filter fun _ => keep p :=
    Std.ExtTreeMap.getElem?_filter'
  refine (eq_oldestFirst ?_ ?_).symm
  · refine (pairwise_oldestFirst.filter _).imp_of_mem ?_
    rintro p q memP memQ ⟨t, u, first, second, less⟩
    simp only [List.mem_filter] at memP memQ
    exact ⟨t, u, by simp [unchanged, first, memP.2], by simp [unchanged, second, memQ.2], less⟩
  · intro p
    simp only [List.mem_filter, mem_oldestFirst, Std.ExtTreeMap.mem_iff_isSome_getElem?, unchanged]
    cases recency.stamps[p]? <;> simp

theorem oldestFirst_forget : (recency.forget o).oldestFirst = recency.oldestFirst.filter (· ≠ o) := by
  have unchanged : ∀ {p : OutPoint}, p ≠ o → (recency.forget o).stamps[p]? = recency.stamps[p]? := by
    intro p different
    rw [forget, Std.ExtTreeMap.getElem?_erase, if_neg]
    exact fun same => different (Std.LawfulEqOrd.eq_of_compare same).symm
  refine (eq_oldestFirst ?_ ?_).symm
  · refine (pairwise_oldestFirst.filter _).imp_of_mem ?_
    rintro p q memP memQ ⟨t, u, first, second, less⟩
    simp only [List.mem_filter, decide_eq_true_eq] at memP memQ
    exact ⟨t, u, by rw [unchanged memP.2, first], by rw [unchanged memQ.2, second], less⟩
  · intro p
    simp only [List.mem_filter, decide_eq_true_eq, mem_oldestFirst, forget, Std.ExtTreeMap.mem_erase, ne_eq,
      Std.LawfulEqOrd.compare_eq_iff_eq]
    by_cases same : p = o
    · simp [same]
    · simp [same, Ne.symm same]

theorem oldestFirst_empty : empty.oldestFirst = [] := by
  decide

end Recency

end CoinLayers
