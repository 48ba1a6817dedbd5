import MapFeatures.Proofs.Plane.Meeting
import MapFeatures.Proofs.Plane.Sides
import MapFeatures.Proofs.SortByKey
/-!
# SelfIntersection — the sweep finds the sides that meet as they must not

Two sides of a ring `Clash` if they have a point in common that is not where one of them ends and the other one starts.
For sides of a closed ring that is what `conflict` tells of their meeting (`conflict_iff_clash`).  A side that has a
point in common with another one does not start beyond its end, so the sweep stops too early for none of them
(`sweepFindsConflict_eq_false_iff`), in whatever order it meets the two.
-/
namespace MapFeatures
namespace Plane

/-! ## Sides that clash -/

/-- Whether two numbered sides of a ring of `count` sides have a point in common, other than the end of one of them if
the other is the next. -/
def Clash (count : Nat) (a b : Nat × Segment) : Prop :=
  ∃ x ∈ a.2.points ∩ b.2.points, ((a.1 + 1) % count = b.1 → x ≠ a.2.finish.real) ∧
    ((b.1 + 1) % count = a.1 → x ≠ b.2.finish.real)

theorem Clash.symm {count : Nat} {a b : Nat × Segment} (h : Clash count a b) : Clash count b a := by
  obtain ⟨x, ⟨ha, hb⟩, hnext, hnext'⟩ := h
  exact ⟨x, ⟨hb, ha⟩, hnext', hnext⟩

theorem succ_mod_eq_iff {count i j : Nat} (hi : i < count) :
    (i + 1) % count = j ↔ i + 1 = j ∧ j < count ∨ i + 1 = count ∧ j = 0 := by
  rcases Nat.lt_or_eq_of_le hi with hlt | heq
  · rw [Nat.mod_eq_of_lt hlt]
    omega
  · rw [← heq, Nat.succ_eq_add_one, Nat.mod_self]
    omega

theorem adjacent_iff {count i j : Nat} (hi : i < count) (hj : j < count) :
    adjacent count i j = true ↔ (i + 1) % count = j ∨ (j + 1) % count = i := by
  rw [succ_mod_eq_iff hi, succ_mod_eq_iff hj]
  simp only [adjacent, Bool.or_eq_true, decide_eq_true_eq]
  omega

/-- In a ring of three sides or more no two are each other's next one. -/
theorem not_next_both {count i j : Nat} (hcount : 3 ≤ count) (hi : i < count) (hj : j < count)
    (hnext : (i + 1) % count = j) : ¬ (j + 1) % count = i := by
  rw [succ_mod_eq_iff hi] at hnext
  rw [succ_mod_eq_iff hj]
  omega

variable {ring : List Point} {a b : Nat × Segment}

theorem mem_edges_iff : a ∈ edges ring ↔ ∃ h : a.1 < (sides ring).length, (sides ring)[a.1] = a.2 := by
  rw [edges_eq]
  constructor
  · intro ha
    obtain ⟨i, hi, rfl⟩ := List.mem_iff_getElem.1 ha
    simp at hi
    simp [hi]
  · rintro ⟨h, hside⟩
    refine List.mem_iff_getElem.2 ⟨a.1, by simpa using h, ?_⟩
    simp [hside]

theorem start_ne_finish (ha : a ∈ edges ring) : a.2.start ≠ a.2.finish := by
  obtain ⟨hlt, hside⟩ := mem_edges_iff.1 ha
  have hmem : a.2 ∈ sides ring := hside ▸ List.getElem_mem hlt
  rw [sides, List.mem_filter] at hmem
  simpa [Segment.isPoint] using hmem.2

theorem finish_eq_start (hclosed : isClosed ring = true) (ha : a ∈ edges ring) (hb : b ∈ edges ring)
    (hnext : (a.1 + 1) % (sides ring).length = b.1) : a.2.finish = b.2.start := by
  obtain ⟨hi, hside⟩ := mem_edges_iff.1 ha
  obtain ⟨hj, hside'⟩ := mem_edges_iff.1 hb
  rw [← hside, ← hside']
  exact finish_getElem_sides hclosed hi hj hnext

/-- **Sides with two points in common clash**, since at most one of them may be shared. -/
theorem clash_of_nontrivial (hcount : 3 ≤ (sides ring).length) (ha : a ∈ edges ring) (hb : b ∈ edges ring)
    (h : (a.2.points ∩ b.2.points).Nontrivial) : Clash (sides ring).length a b := by
  obtain ⟨hi, -⟩ := mem_edges_iff.1 ha
  obtain ⟨hj, -⟩ := mem_edges_iff.1 hb
  by_cases hnext : (a.1 + 1) % (sides ring).length = b.1
  · obtain ⟨x, hx, hne⟩ := h.exists_ne a.2.finish.real
    exact ⟨x, hx, fun _ => hne, fun hback => absurd hback (not_next_both hcount hi hj hnext)⟩
  · obtain ⟨x, hx, hne⟩ := h.exists_ne b.2.finish.real
    exact ⟨x, hx, fun hnext' => absurd hnext' hnext, fun _ => hne⟩

theorem clash_of_start_eq (ha : a ∈ edges ring) (hb : b ∈ edges ring)
    (h : a.2.start = b.2.start) : Clash (sides ring).length a b := by
  have hmem : a.2.start.real ∈ b.2.points := h ▸ b.2.start_mem_points
  refine ⟨a.2.start.real, ⟨a.2.start_mem_points, hmem⟩, fun _ he => ?_, fun _ he => ?_⟩
  · exact start_ne_finish ha (Point.real_injective he)
  · exact start_ne_finish hb (h.symm.trans (Point.real_injective he))

theorem clash_of_finish_eq (hclosed : isClosed ring = true) (ha : a ∈ edges ring) (hb : b ∈ edges ring)
    (h : a.2.finish = b.2.finish) : Clash (sides ring).length a b := by
  have hmem : a.2.finish.real ∈ b.2.points := h ▸ b.2.finish_mem_points
  refine ⟨a.2.finish.real, ⟨a.2.finish_mem_points, hmem⟩, fun hnext => ?_, fun hnext => ?_⟩
  · exact absurd ((finish_eq_start hclosed ha hb hnext).symm.trans h) (start_ne_finish hb)
  · exact absurd ((finish_eq_start hclosed hb ha hnext).symm.trans h.symm) (start_ne_finish ha)

/-! ## What is told of two sides -/

theorem sharedEnd?_mem {s t : Segment} {p : Point} (h : s.sharedEnd? t = some p) : p.real ∈ s.points ∩ t.points := by
  unfold Segment.sharedEnd? at h
  split at h
  · next hfinish =>
    cases h
    rw [Bool.or_eq_true, decide_eq_true_eq, decide_eq_true_eq] at hfinish
    refine ⟨s.finish_mem_points, ?_⟩
    rcases hfinish with he | he
    · exact he ▸ t.start_mem_points
    · exact he ▸ t.finish_mem_points
  · split at h
    · next hstart =>
      cases h
      rw [Bool.or_eq_true, decide_eq_true_eq, decide_eq_true_eq] at hstart
      refine ⟨s.start_mem_points, ?_⟩
      rcases hstart with he | he
      · exact he ▸ t.start_mem_points
      · exact he ▸ t.finish_mem_points
    · cases h

theorem isSome_sharedEnd? {s t : Segment} (h : s.finish = t.start ∨ t.finish = s.start) :
    (s.sharedEnd? t).isSome = true := by
  unfold Segment.sharedEnd?
  split
  · rfl
  · next hfinish =>
    have hstart : s.start = t.finish := by
      rcases h with h | h
      · exact absurd (by simp [h]) hfinish
      · exact h.symm
    rw [if_pos (by simp [hstart])]
    rfl

/-- **Neighbours that touch do so in the end that they share**, so they do not clash. -/
theorem sharedEnd?_of_touch (hclosed : isClosed ring = true) (ha : a ∈ edges ring) (hb : b ∈ edges ring)
    (hnext : (a.1 + 1) % (sides ring).length = b.1 ∨ (b.1 + 1) % (sides ring).length = a.1) {p : Point}
    (htouch : a.2.points ∩ b.2.points = {p.real}) :
    a.2.sharedEnd? b.2 = some p ∧ ¬ Clash (sides ring).length a b := by
  have hcommon : ∀ x ∈ a.2.points ∩ b.2.points, x = p.real := fun x hx => Set.eq_of_mem_singleton (htouch ▸ hx)
  have hends := hnext.imp (finish_eq_start hclosed ha hb) (finish_eq_start hclosed hb ha)
  obtain ⟨q, hshared⟩ := Option.isSome_iff_exists.1 (isSome_sharedEnd? hends)
  have hq : q = p := Point.real_injective (hcommon _ (sharedEnd?_mem hshared))
  refine ⟨hq ▸ hshared, fun ⟨x, hx, hahead, hback⟩ => ?_⟩
  rcases hnext with hnext | hnext
  · have hmem : a.2.finish.real ∈ b.2.points := finish_eq_start hclosed ha hb hnext ▸ b.2.start_mem_points
    exact hahead hnext ((hcommon x hx).trans (hcommon _ ⟨a.2.finish_mem_points, hmem⟩).symm)
  · have hmem : b.2.finish.real ∈ a.2.points := finish_eq_start hclosed hb ha hnext ▸ a.2.start_mem_points
    exact hback hnext ((hcommon x hx).trans (hcommon _ ⟨hmem, b.2.finish_mem_points⟩).symm)

/-- **Sides conflict if and only if they clash.** -/
theorem conflict_iff_clash (hclosed : isClosed ring = true) (hcount : 3 ≤ (sides ring).length) (ha : a ∈ edges ring)
    (hb : b ∈ edges ring) : conflict (sides ring).length a b = true ↔ Clash (sides ring).length a b := by
  obtain ⟨hi, -⟩ := mem_edges_iff.1 ha
  obtain ⟨hj, -⟩ := mem_edges_iff.1 hb
  have htells := a.2.meet_tells b.2
  unfold conflict
  cases hmeet : a.2.meet b.2 with
  | apart =>
    have hempty := Segment.meet_eq_apart_iff.1 hmeet
    exact iff_of_false (by simp) fun ⟨x, hx, _⟩ => Set.notMem_empty x (hempty ▸ hx)
  | touch p =>
    rw [hmeet] at htells
    by_cases hadjacent : adjacent (sides ring).length a.1 b.1 = true
    · obtain ⟨hshared, hnot⟩ := sharedEnd?_of_touch hclosed ha hb ((adjacent_iff hi hj).1 hadjacent) htells
      exact iff_of_false (by simp [hadjacent, hshared]) hnot
    · have hnot := not_or.1 (mt (adjacent_iff hi hj).2 hadjacent)
      have hp : p.real ∈ a.2.points ∩ b.2.points := (Set.ext_iff.1 htells p.real).2 rfl
      exact iff_of_true (by simp [hadjacent]) ⟨p.real, hp, fun h => absurd h hnot.1, fun h => absurd h hnot.2⟩
  | crossing =>
    rw [hmeet] at htells
    obtain ⟨x, hx, hends⟩ := htells
    exact iff_of_true rfl ⟨x, hx ▸ Set.mem_singleton x, fun _ => hends _ (by simp), fun _ => hends _ (by simp)⟩
  | overlap =>
    rw [hmeet] at htells
    exact iff_of_true rfl (clash_of_nontrivial hcount ha hb htells)

/-! ## The sweep -/

theorem minX_le_maxX_of_conflict {count : Nat} (h : conflict count a b = true) : b.2.minX ≤ a.2.maxX := by
  have hmeet : a.2.meet b.2 ≠ .apart := by
    intro hmeet
    rw [conflict, hmeet] at h
    cases h
  obtain ⟨x, hx, hx'⟩ := Set.nonempty_iff_ne_empty.2 (mt Segment.meet_eq_apart_iff.2 hmeet)
  have hle := (Segment.mem_box_of_mem hx').1.1.trans (Segment.mem_box_of_mem hx).1.2
  unfold Segment.minX Segment.maxX
  exact_mod_cast hle

theorem mem_takeWhile_of_le {α : Type} {key : α → Int} {bound : Int} {b : α} : ∀ {l : List α},
    l.Pairwise (fun a c => key a ≤ key c) → b ∈ l → key b ≤ bound → b ∈ l.takeWhile fun c => key c ≤ bound
  | c :: l, hsorted, hb, hle => by
    rw [List.pairwise_cons] at hsorted
    rw [List.mem_cons] at hb
    have hfirst : decide (key c ≤ bound) = true := by
      rcases hb with rfl | hb
      · exact decide_eq_true hle
      · exact decide_eq_true ((hsorted.1 b hb).trans hle)
    rw [List.takeWhile_cons, if_pos hfirst, List.mem_cons]
    exact hb.imp_right fun hb => mem_takeWhile_of_le hsorted.2 hb hle

/-- **The sweep misses no conflict** in segments that are in the order of their smallest `x`. -/
theorem sweepFindsConflict_eq_false_iff {count : Nat} : ∀ {l : List (Nat × Segment)},
    l.Pairwise (fun a b => a.2.minX ≤ b.2.minX) →
      (sweepFindsConflict count l = false ↔ l.Pairwise fun a b => conflict count a b = false)
  | [], _ => by simp [sweepFindsConflict]
  | a :: rest, hsorted => by
    rw [List.pairwise_cons] at hsorted
    rw [sweepFindsConflict, Bool.or_eq_false_iff, sweepFindsConflict_eq_false_iff hsorted.2, List.pairwise_cons,
      List.any_eq_false]
    refine and_congr_left fun _ => ⟨fun h b hb => ?_, fun h b hb => ?_⟩
    · refine Bool.eq_false_iff.2 fun hconflict => ?_
      exact h b (mem_takeWhile_of_le hsorted.2 hb (minX_le_maxX_of_conflict hconflict)) hconflict
    · rw [h b ((List.takeWhile_sublist _).subset hb)]
      exact Bool.false_ne_true

/-- **A ring does not meet itself if it has less than three sides or no two of them clash.** -/
theorem selfIntersects_eq_false_iff (hclosed : isClosed ring = true) :
    selfIntersects ring = false ↔
      (3 ≤ (sides ring).length → (edges ring).Pairwise fun a b => ¬ Clash (sides ring).length a b) := by
  have hlength : (edges ring).length = (sides ring).length := by simp [edges_eq]
  unfold selfIntersects
  dsimp only
  rw [hlength]
  split
  · next hfew => exact iff_of_true rfl fun hcount => absurd hfew (Nat.not_lt.2 hcount)
  · next hmany =>
    have hcount := Nat.not_lt.1 hmany
    have hsorted := SortByKey.pairwise_mergeSort (fun a : Nat × Segment => a.2.minX) (edges ring)
    have hperm := List.mergeSort_perm (edges ring) fun a b => a.2.minX ≤ b.2.minX
    rw [sweepFindsConflict_eq_false_iff hsorted, ← hperm.pairwise_iff fun h => mt Clash.symm h]
    have hclash : ∀ {a b}, a ∈ (edges ring).mergeSort (fun a b => a.2.minX ≤ b.2.minX) →
        b ∈ (edges ring).mergeSort (fun a b => a.2.minX ≤ b.2.minX) →
        (conflict (sides ring).length a b = false ↔ ¬ Clash (sides ring).length a b) := by
      intro a b ha hb
      rw [← conflict_iff_clash hclosed hcount (hperm.mem_iff.1 ha) (hperm.mem_iff.1 hb), Bool.not_eq_true]
    exact ⟨fun h _ => h.imp_of_mem fun ha hb => (hclash ha hb).1,
      fun h => (h hcount).imp_of_mem fun ha hb => (hclash ha hb).2⟩

/-- **The sweep leaves out no pair**: it finds what comparing each side with every other one does. -/
theorem selfIntersects_eq_false_iff_conflict (hclosed : isClosed ring = true) :
    selfIntersects ring = false ↔
      (3 ≤ (sides ring).length → (edges ring).Pairwise fun a b => ¬ conflict (sides ring).length a b = true) := by
  rw [selfIntersects_eq_false_iff hclosed]
  refine imp_congr_right fun hcount => List.Pairwise.iff_of_mem fun ha hb => ?_
  rw [conflict_iff_clash hclosed hcount ha hb]

/-! ## In terms of the sides -/

/-- Whether two sides that do not follow each other have a point in common. -/
def TouchesItself (l : List Segment) : Prop :=
  ∃ i j, ∃ (hi : i < l.length) (hj : j < l.length), i ≠ j ∧ (i + 1) % l.length ≠ j ∧ (j + 1) % l.length ≠ i ∧
    (l[i].points ∩ l[j].points).Nonempty

/-- Whether a side and the next one have a point in common that is not the end of the one. -/
def FoldsBack (l : List Segment) : Prop :=
  ∃ i j, ∃ (hi : i < l.length) (hj : j < l.length), (i + 1) % l.length = j ∧
    ∃ x ∈ l[i].points ∩ l[j].points, x ≠ l[i].finish.real

theorem not_pairwise_clash_iff (hcount : 3 ≤ (sides ring).length) :
    (¬ (edges ring).Pairwise fun a b => ¬ Clash (sides ring).length a b) ↔
      TouchesItself (sides ring) ∨ FoldsBack (sides ring) := by
  have hlength : (edges ring).length = (sides ring).length := by simp [edges_eq]
  have hget : ∀ (i : Nat) (hi : i < (edges ring).length),
      (edges ring)[i] = (i, (sides ring).get ⟨i, hlength ▸ hi⟩) := by
    intro i hi
    simp [edges_eq]
  rw [List.pairwise_iff_getElem]
  push Not
  constructor
  · rintro ⟨i, j, hi, hj, hij, hclash⟩
    rw [hget i hi, hget j hj] at hclash
    obtain ⟨x, hx, hnext, hback⟩ := hclash
    rw [hlength] at hi hj
    by_cases h : (i + 1) % (sides ring).length = j
    · exact Or.inr ⟨i, j, hi, hj, h, x, hx, hnext h⟩
    · by_cases h' : (j + 1) % (sides ring).length = i
      · exact Or.inr ⟨j, i, hj, hi, h', x, hx.symm, hback h'⟩
      · exact Or.inl ⟨i, j, hi, hj, hij.ne, h, h', x, hx⟩
  · intro h
    -- two sides with different numbers clash in one order or the other
    have hpair : ∀ i j (hi : i < (sides ring).length) (hj : j < (sides ring).length), i ≠ j →
        Clash (sides ring).length (i, (sides ring)[i]) (j, (sides ring)[j]) →
        ∃ i j, ∃ (hi : i < (edges ring).length) (hj : j < (edges ring).length), i < j ∧
          Clash (sides ring).length (edges ring)[i] (edges ring)[j] := by
      intro i j hi hj hne hclash
      rw [← hlength] at hi hj
      rcases Nat.lt_or_gt_of_ne hne with hlt | hlt
      · exact ⟨i, j, hi, hj, hlt, by rwa [hget i hi, hget j hj]⟩
      · exact ⟨j, i, hj, hi, hlt, by rw [hget i hi, hget j hj]; exact hclash.symm⟩
    rcases h with ⟨i, j, hi, hj, hne, hnext, hback, x, hx⟩ | ⟨i, j, hi, hj, hnext, x, hx, hend⟩
    · exact hpair i j hi hj hne ⟨x, hx, fun h => absurd h hnext, fun h => absurd h hback⟩
    · have hback := not_next_both hcount hi hj hnext
      refine hpair i j hi hj (fun he => hback (he ▸ hnext)) ⟨x, hx, fun _ => hend, fun h => absurd h hback⟩

/-- **The sweep finds exactly the bad pairs.**  A closed ring meets itself if and only if it has three sides or more, and
two of them that do not follow each other have a point in common, or a side and the next one have one besides the end of
the one, which is where the other starts. -/
theorem selfIntersects_iff (hclosed : isClosed ring = true) :
    (∀ i j (hi : i < (sides ring).length) (hj : j < (sides ring).length), (i + 1) % (sides ring).length = j →
        (sides ring)[i].finish = (sides ring)[j].start) ∧
      (selfIntersects ring = true ↔
        3 ≤ (sides ring).length ∧ (TouchesItself (sides ring) ∨ FoldsBack (sides ring))) := by
  refine ⟨fun i j hi hj => finish_getElem_sides hclosed hi hj, ?_⟩
  rw [← Bool.not_eq_false, selfIntersects_eq_false_iff hclosed, Classical.not_imp]
  exact and_congr_right not_pairwise_clash_iff

/-- A bow tie, whose first and third side cross. -/
theorem selfIntersects_iff_bow_tie :
    let ring : List Point := [⟨0, 0⟩, ⟨4, 4⟩, ⟨4, 0⟩, ⟨0, 4⟩, ⟨0, 0⟩]
    isClosed ring = true ∧ (TouchesItself (sides ring) ∨ FoldsBack (sides ring)) := by
  have hclosed : isClosed [⟨0, 0⟩, ⟨4, 4⟩, ⟨4, 0⟩, ⟨0, 4⟩, ⟨0, 0⟩] = true := by decide
  have hfound : selfIntersects [⟨0, 0⟩, ⟨4, 4⟩, ⟨4, 0⟩, ⟨0, 4⟩, ⟨0, 0⟩] = true := by
    rw [← Bool.not_eq_false, selfIntersects_eq_false_iff_conflict hclosed]
    decide
  exact ⟨hclosed, ((selfIntersects_iff hclosed).2.1 hfound).2⟩

end Plane
end MapFeatures
