/-!
# SortByKey — lists sorted by a key of their members

Members of one key stay in the order they have (`filter_mergeSort`).  If the keys grow in some order of a list, sorting
brings that order back (`mergeSort_eq_of_perm`).
-/
namespace MapFeatures
namespace SortByKey

variable {α β : Type} [LE β] [DecidableLE β] [Std.IsLinearOrder β] (key : α → β)

theorem key_le_trans (a b c : α) (hab : decide (key a ≤ key b) = true) (hbc : decide (key b ≤ key c) = true) :
    decide (key a ≤ key c) = true :=
  decide_eq_true (Std.le_trans (of_decide_eq_true hab) (of_decide_eq_true hbc))

theorem key_le_total (a b : α) : (decide (key a ≤ key b) || decide (key b ≤ key a)) = true := by
  rw [Bool.or_eq_true, decide_eq_true_eq, decide_eq_true_eq]
  exact Std.le_total

theorem pairwise_mergeSort (l : List α) : (l.mergeSort fun a b => key a ≤ key b).Pairwise fun a b => key a ≤ key b :=
  (List.pairwise_mergeSort (key_le_trans key) (key_le_total key) l).imp fun h => of_decide_eq_true h

/-- **Sorting is stable**: the members of one key stay in the order they have. -/
theorem filter_mergeSort [DecidableEq β] (l : List α) (k : β) :
    (l.mergeSort fun a b => key a ≤ key b).filter (key · = k) = l.filter (key · = k) := by
  have hperm := List.mergeSort_perm l fun a b => key a ≤ key b
  -- the members of one key are in order, so they are a part of the sorted list
  have hsorted : (l.filter (key · = k)).Pairwise fun a b => decide (key a ≤ key b) = true := by
    rw [List.pairwise_filter]
    refine List.pairwise_of_forall fun a b ha hb => ?_
    rw [decide_eq_true_eq] at ha hb ⊢
    exact Std.le_of_eq (ha.trans hb.symm)
  have hpart := (List.sublist_mergeSort (key_le_trans key) (key_le_total key) hsorted List.filter_sublist).filter
    (key · = k)
  rw [List.filter_filter, List.filter_congr fun e _ => Bool.and_self _] at hpart
  exact (hpart.eq_of_length (hperm.filter _).length_eq.symm).symm

/-- **Growing keys** bring a list back, in whatever order its members are. -/
theorem mergeSort_eq_of_perm [LT β] [Std.LawfulOrderLT β] {found l : List α} (hperm : found.Perm l)
    (hgrow : l.Pairwise fun a b => key a < key b) : (found.mergeSort fun a b => key a ≤ key b) = l := by
  have hback := (List.mergeSort_perm found fun a b => key a ≤ key b).trans hperm
  have hdistinct := (hback.pairwise_iff fun h => Ne.symm h).2 (hgrow.imp Std.ne_of_lt)
  refine hback.eq_of_pairwise (fun a b _ _ hab hba => absurd hab (Std.not_gt_of_lt hba)) ?_ hgrow
  exact ((pairwise_mergeSort key found).and hdistinct).imp fun h => Std.lt_of_le_of_ne h.1 h.2

end SortByKey
end MapFeatures
