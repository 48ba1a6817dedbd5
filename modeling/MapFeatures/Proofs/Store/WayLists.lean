import MapFeatures.Proofs.SortByKey
import MapFeatures.Store.WayLists
/-!
# WayLists — entries in the order of their ids

Sorting leaves the entries of one id in the order they had (`Sound.sort`).  Bisection finds where the smaller ids end
(`lowerBound_spec`), so in sorted entries `find?` finds the first one of a relation (`Sound.find?_eq`).
-/
namespace MapFeatures
namespace WayListStore

/-- Whether entries are in the order of their ids. -/
def Ordered (entries : List WayLists) : Prop := entries.Pairwise fun a b => a.relation ≤ b.relation

/-! ## Sorting -/

/-- Whether a store that counts as sorted is in order. -/
def Sound (s : WayListStore) : Prop := s.sorted = true → Ordered s.toList

theorem Sound.sort {s : WayListStore} (h : s.Sound) :
    Ordered s.sort.toList ∧ s.sort.sorted = true ∧
      ∀ relation, s.sort.toList.filter (·.relation = relation) = s.toList.filter (·.relation = relation) := by
  unfold WayListStore.sort
  split
  · next hsorted => exact ⟨h hsorted, hsorted, fun _ => rfl⟩
  · exact ⟨SortByKey.pairwise_mergeSort WayLists.relation _, rfl, SortByKey.filter_mergeSort WayLists.relation _⟩

theorem toList_sort_perm (s : WayListStore) : s.sort.toList.Perm s.toList := by
  unfold WayListStore.sort
  split
  · exact .refl _
  · exact List.mergeSort_perm _ _

theorem toList_append (s : WayListStore) (batch : List WayLists) : (s.append batch).toList = s.toList ++ batch := by
  unfold WayListStore.append
  split
  · next h => rw [List.isEmpty_iff.1 h, List.append_nil]
  · simp [toList]

theorem Sound.append {s : WayListStore} (h : s.Sound) (batch : List WayLists) : (s.append batch).Sound := by
  unfold WayListStore.append
  split
  · exact h
  · exact fun hsorted => by cases hsorted

/-! ## Bisection -/

/-- Whether a place is where the ids that are smaller than some id end. -/
def Bound (entries : Array WayLists) (relation : RelationId) (place : Nat) : Prop :=
  ∀ (i : Nat) (e : WayLists), entries[i]? = some e → (e.relation < relation ↔ i < place)

theorem Ordered.le {entries : Array WayLists} (h : Ordered entries.toList) {i j : Nat} {a b : WayLists} (hij : i ≤ j)
    (ha : entries[i]? = some a) (hb : entries[j]? = some b) : a.relation ≤ b.relation := by
  rw [← Array.getElem?_toList] at ha hb
  obtain ⟨hi, rfl⟩ := List.getElem?_eq_some_iff.1 ha
  obtain ⟨hj, rfl⟩ := List.getElem?_eq_some_iff.1 hb
  rcases Nat.lt_or_eq_of_le hij with hlt | rfl
  · exact List.pairwise_iff_getElem.1 h i j hi hj hlt
  · exact Int.le_refl _

/-- **Bisection of entries in order** finds the place between `low` and `high` where the smaller ids end, if there is
one. -/
theorem lowerBound_spec {entries : Array WayLists} (h : Ordered entries.toList) (relation : RelationId) (low high : Nat)
    (hle : low ≤ high)
    (hlow : ∀ (i : Nat) (e : WayLists), entries[i]? = some e → i < low → e.relation < relation)
    (hhigh : ∀ (i : Nat) (e : WayLists), entries[i]? = some e → high ≤ i → relation ≤ e.relation) :
    Bound entries relation (lowerBound entries relation low high) := by
  fun_induction lowerBound entries relation low high with
  | case1 low high hlt middle hnone ih =>
    -- nothing is as far as the middle
    refine ih (by omega) hlow fun i e he hi => ?_
    rw [Array.getElem?_eq_none (Nat.le_trans (Array.getElem?_eq_none_iff.1 hnone) hi)] at he
    cases he
  | case2 low high hlt middle d hd hless ih =>
    exact ih (by omega) (fun i e he hi => Int.lt_of_le_of_lt (h.le (by omega) he hd) hless) hhigh
  | case3 low high hlt middle d hd hless ih =>
    exact ih (by omega) hlow fun i e he hi => Int.le_trans (Int.not_lt.1 hless) (h.le hi hd he)
  | case4 low high hnot =>
    refine fun i e he => ⟨fun hless => ?_, fun hi => hlow i e he hi⟩
    refine Nat.lt_of_not_le fun hi => ?_
    exact Int.not_lt.2 (hhigh i e he (by omega)) hless

/-- The first entry of an id is where the smaller ids end, if it is there at all. -/
theorem find?_eq_of_bound {entries : Array WayLists} (h : Ordered entries.toList) {relation : RelationId} {place : Nat}
    (hplace : Bound entries relation place) :
    entries[place]?.filter (·.relation = relation) = entries.toList.find? (·.relation = relation) := by
  have hget : ∀ {i : Nat} (hi : i < entries.toList.length), entries[i]? = some entries.toList[i] := by
    intro i hi
    rw [← Array.getElem?_toList, List.getElem?_eq_getElem hi]
  cases hat : entries[place]?.filter (·.relation = relation) with
  | some e =>
    obtain ⟨he, hid⟩ := Option.filter_eq_some_iff.1 hat
    rw [← Array.getElem?_toList] at he
    obtain ⟨hlt, he⟩ := List.getElem?_eq_some_iff.1 he
    rw [eq_comm, List.find?_eq_some_iff_getElem]
    refine ⟨hid, place, hlt, he, fun j hj => ?_⟩
    have hless := (hplace j _ (hget (Nat.lt_trans hj hlt))).2 hj
    simpa using Int.ne_of_lt hless
  | none =>
    refine (List.find?_eq_none.2 fun e he hid => ?_).symm
    obtain ⟨i, hi, rfl⟩ := List.getElem_of_mem he
    have hid := of_decide_eq_true hid
    -- it is no earlier than the place, and what is at the place is no later
    have hle : place ≤ i := Nat.le_of_not_lt fun hlt => Int.ne_of_lt ((hplace i _ (hget hi)).2 hlt) hid
    have hplaced := hget (Nat.lt_of_le_of_lt hle hi)
    have hbefore := h.le hle hplaced (hget hi)
    have hafter : ¬ entries.toList[place].relation < relation := fun hless =>
      Nat.lt_irrefl place ((hplace place _ hplaced).1 hless)
    rw [hplaced, Option.filter_eq_none_iff] at hat
    refine hat _ rfl (decide_eq_true ?_)
    exact Int.le_antisymm (hid ▸ hbefore) (Int.not_lt.1 hafter)

/-- **In sorted entries the first one of a relation is found**, and in others too. -/
theorem Sound.find?_eq {s : WayListStore} (h : s.Sound) (relation : RelationId) :
    s.find? relation = s.toList.find? (·.relation = relation) := by
  unfold WayListStore.find?
  split
  · next hsorted =>
    have hordered := h hsorted
    refine find?_eq_of_bound hordered (lowerBound_spec hordered relation 0 s.entries.size (Nat.zero_le _) ?_ ?_)
    · intro i e _ hi
      cases hi
    · intro i e he hi
      rw [Array.getElem?_eq_none hi] at he
      cases he
  · exact (Array.find?_toList).symm

end WayListStore
end MapFeatures
