import Mathlib
import MapFeatures.Proofs.Plane.Turns
/-!
# Chords — where a straight way leaves what a ring encloses

A straight way between two points that a ring encloses leaves and comes back through points of the ring.  The nearest of
them on both sides are the ends of a chord (`exists_chord`), on which the turns stay the same; so the middles of the chords
tell whether the whole way is enclosed (`segment_subset_enclosed_iff`).  A convex ring encloses what is to the left of
none of its sides (`enclosed_eq_of_isConvex`), so there all ways between enclosed points are.
-/
namespace MapFeatures
namespace Plane

open AffineMap

variable {ring : List Point} {a b w x y z : ℝ × ℝ}

/-! ## Chords -/

theorem isClosed_outline (ring : List Point) : IsClosed (outline ring) := by
  have hunion : outline ring = ⋃ s ∈ {s | s ∈ segments ring}, s.points := by
    ext x
    simp [outline]
  rw [hunion]
  refine (segments ring).finite_toSet.isClosed_biUnion fun s _ => ?_
  rw [Segment.points, segment_eq_image_lineMap]
  exact (isCompact_Icc.image lineMap_continuous).isClosed

/-- Whether a ring has the ends of a way and nothing between them. -/
structure IsChord (ring : List Point) (y z : ℝ × ℝ) : Prop where
  first : y ∈ outline ring
  last : z ∈ outline ring
  ne : y ≠ z
  apart : Disjoint (openSegment ℝ y z) (outline ring)

/-- **The nearest point on the way.** -/
theorem exists_nearest {c : Set (ℝ × ℝ)} (hc : IsClosed c) (hx : x ∉ c) (ha : ∃ y ∈ segment ℝ x a, y ∈ c) :
    ∃ y ∈ segment ℝ x a, y ∈ c ∧ y ≠ x ∧ Disjoint (openSegment ℝ x y) c := by
  have hparts : (Set.Icc (0 : ℝ) 1 ∩ Set.preimage (lineMap x a) c).Nonempty := by
    obtain ⟨y, hy, hyc⟩ := ha
    obtain ⟨part, hpart, rfl⟩ := mem_segment_iff_lineMap.1 hy
    exact ⟨part, hpart, hyc⟩
  obtain ⟨r, ⟨hr, hrc⟩, hleast⟩ :=
    (isCompact_Icc.inter_right (hc.preimage lineMap_continuous)).exists_isLeast hparts
  refine ⟨lineMap x a r, mem_segment_iff_lineMap.2 ⟨r, hr, rfl⟩, hrc, fun h => hx (h ▸ hrc), ?_⟩
  refine Set.disjoint_left.2 fun z hz hzc => ?_
  rw [openSegment_eq_image_lineMap] at hz
  obtain ⟨part, ⟨hlow, hhigh⟩, rfl⟩ := hz
  rw [lineMap_lineMap_right] at hzc
  have hpos : 0 < r := hr.1.lt_of_ne fun h => hx (by simpa [← h] using hrc)
  have hless : part * r < r := mul_lt_of_lt_one_left hpos hhigh
  have hnear := hleast ⟨⟨mul_nonneg hlow.le hr.1, hless.le.trans hr.2⟩, hzc⟩
  exact absurd hnear (not_le.2 hless)

theorem meets_of_mem_enclosed (hclosed : isClosed ring = true) (ha : a ∈ enclosed ring) (hx : x ∉ enclosed ring) :
    ∃ y ∈ segment ℝ x a, y ∈ outline ring := by
  by_contra hnone
  have hdisjoint : Disjoint (segment ℝ x a) (outline ring) :=
    Set.disjoint_left.2 fun y hy hon => hnone ⟨y, hy, hon⟩
  rw [mem_enclosed_iff, not_or, not_ne_iff] at hx
  rcases ha with hon | hturns
  · exact hnone ⟨a, right_mem_segment ℝ x a, hon⟩
  · exact hturns ((turns_eq_of_disjoint hclosed hdisjoint).symm.trans hx.2)

/-- **A way between enclosed points leaves what is enclosed along a chord.** -/
theorem exists_chord (hclosed : isClosed ring = true) (ha : a ∈ enclosed ring) (hb : b ∈ enclosed ring)
    (hx : x ∈ segment ℝ a b) (hout : x ∉ enclosed ring) :
    ∃ y ∈ segment ℝ a b, ∃ z ∈ segment ℝ a b, IsChord ring y z ∧ x ∈ openSegment ℝ y z := by
  have hon : x ∉ outline ring := fun h => hout (Or.inl h)
  obtain ⟨y, hy, hyon, hyx, hbefore⟩ := exists_nearest (isClosed_outline ring) hon (meets_of_mem_enclosed hclosed ha hout)
  obtain ⟨z, hz, hzon, hzx, hbehind⟩ := exists_nearest (isClosed_outline ring) hon (meets_of_mem_enclosed hclosed hb hout)
  have hbetween : x ∈ segment ℝ y z := by
    rw [mem_segment_iff_wbtw] at *
    exact (((hx.trans_left_right hy.symm).symm.trans_left_right hz.symm)).symm
  have hinside : x ∈ openSegment ℝ y z := mem_openSegment_of_ne_left_right hyx hzx hbetween
  have hsegment := convex_segment (𝕜 := ℝ) a b
  refine ⟨y, ?_, z, ?_, ⟨hyon, hzon, ?_, ?_⟩, hinside⟩
  · exact hsegment.segment_subset hx (left_mem_segment ℝ a b) hy
  · exact hsegment.segment_subset hx (right_mem_segment ℝ a b) hz
  · rintro rfl
    rw [openSegment_same] at hinside
    exact hyx hinside.symm
  · obtain ⟨part, -, hpart⟩ := mem_segment_iff_lineMap.1 hbetween
    have hparts := openSegment_subset_union y z ⟨part, hpart⟩
    rw [openSegment_symm] at hbefore
    refine Set.disjoint_left.2 fun w hw hwon => ?_
    rcases hparts hw with rfl | hw | hw
    · exact hon hwon
    · exact Set.disjoint_left.1 hbefore hw hwon
    · exact Set.disjoint_left.1 hbehind hw hwon

/-- Inside of a chord the turns are the same everywhere. -/
theorem IsChord.turns_eq (h : IsChord ring y z) (hclosed : isClosed ring = true) (ha : a ∈ openSegment ℝ y z)
    (hb : b ∈ openSegment ℝ y z) : turns ring a = turns ring b :=
  turns_eq_of_disjoint hclosed (h.apart.mono_left ((convex_openSegment y z).segment_subset ha hb))

/-- **A way between enclosed points stays where the ring encloses the middle of each chord on it.** -/
theorem segment_subset_enclosed_iff (hclosed : isClosed ring = true) (ha : a ∈ enclosed ring) (hb : b ∈ enclosed ring) :
    segment ℝ a b ⊆ enclosed ring ↔
      ∀ y ∈ segment ℝ a b, ∀ z ∈ segment ℝ a b, IsChord ring y z → midpoint ℝ y z ∈ enclosed ring := by
  constructor
  · intro h y hy z hz _
    exact h ((convex_segment a b).segment_subset hy hz (midpoint_mem_segment y z))
  · intro h x hx
    by_contra hout
    obtain ⟨y, hy, z, hz, hchord, hinside⟩ := exists_chord hclosed ha hb hx hout
    have hmiddle : midpoint ℝ y z ∈ openSegment ℝ y z := midpoint_mem_openSegment y z
    have hsame := hchord.turns_eq hclosed hinside hmiddle
    rw [mem_enclosed_iff, not_or, not_ne_iff] at hout
    rcases h y hy z hz hchord with hon | hturns
    · exact Set.disjoint_left.1 hchord.apart hmiddle hon
    · exact hturns (hsame.symm.trans hout.2)

/-! ## Convex rings -/

/-- Whether a ring has nothing to the left of any of its sides: it runs clockwise around a convex area. -/
def IsConvex (ring : List Point) : Prop := ∀ s ∈ sides ring, ∀ p ∈ ring, turn s.start s.finish p ≠ .left

instance (ring : List Point) : Decidable (IsConvex ring) := inferInstanceAs (Decidable (∀ _ ∈ _, _))

/-- The points of the real plane that are to the left of no side. -/
def beneathSides (ring : List Point) : Set (ℝ × ℝ) := {x | ∀ s ∈ sides ring, leftOf s.start.real s.finish.real x ≤ 0}

theorem convex_beneathSides (ring : List Point) : Convex ℝ (beneathSides ring) := by
  refine convex_iff_segment_subset.2 fun a ha b hb x hx s hs => ?_
  obtain ⟨part, ⟨hlow, hhigh⟩, rfl⟩ := mem_segment_iff_lineMap.1 hx
  rw [leftOf_lineMap]
  have hfrom := mul_nonpos_of_nonneg_of_nonpos (sub_nonneg.2 hhigh) (ha s hs)
  have hto := mul_nonpos_of_nonneg_of_nonpos hlow (hb s hs)
  linarith

theorem exists_side_of_mem_outline (hclosed : isClosed ring = true) (hseveral : 1 < ring.toFinset.card)
    (hx : x ∈ outline ring) : ∃ s ∈ sides ring, x ∈ s.points := by
  obtain ⟨s, hs, hx⟩ := hx
  by_cases hpoint : s.isPoint = true
  · rw [Segment.points_of_isPoint hpoint, Set.mem_singleton_iff] at hx
    obtain ⟨q, hq⟩ := exists_side_to hclosed hseveral (mem_of_mem_segments hs).1
    exact ⟨_, hq, hx ▸ Segment.finish_mem_points _⟩
  · exact ⟨s, List.mem_filter.2 ⟨hs, by simpa using hpoint⟩, hx⟩

theorem real_ne_of_mem_sides {s : Segment} (hs : s ∈ sides ring) : s.start.real ≠ s.finish.real := by
  have hproper : s.start ≠ s.finish := by simpa [Segment.isPoint] using (List.mem_filter.1 hs).2
  exact Point.real_injective.ne hproper

theorem leftOf_nonpos_of_isConvex (hconvex : IsConvex ring) {s : Segment} (hs : s ∈ sides ring) :
    ∀ p ∈ ring, leftOf s.start.real s.finish.real p.real ≤ 0 :=
  fun p hp => leftOf_real_nonpos_iff.2 (hconvex s hs p hp)

/-- Where a convex ring turns around a point off it, the point is properly on the right of each side. -/
theorem leftOf_neg_of_turns (hclosed : isClosed ring = true) (hconvex : IsConvex ring) (hoff : w ∉ outline ring)
    (hturns : turns ring w ≠ 0) {s : Segment} (hs : s ∈ sides ring) : leftOf s.start.real s.finish.real w < 0 := by
  by_contra hleft
  exact hturns (turns_eq_zero_of_leftOf hclosed (real_ne_of_mem_sides hs) (leftOf_nonpos_of_isConvex hconvex hs) hoff
    (not_lt.1 hleft))

/-- **A convex ring encloses what is to the left of no side**, if it goes around any point. -/
theorem enclosed_eq_of_isConvex (hclosed : isClosed ring = true) (hseveral : 1 < ring.toFinset.card)
    (hconvex : IsConvex ring) (hoff : w ∉ outline ring) (hturns : turns ring w ≠ 0) :
    enclosed ring = beneathSides ring := by
  ext x
  constructor
  · rintro (hon | hx) s hs
    · exact leftOf_nonpos_of_mem_outline (leftOf_nonpos_of_isConvex hconvex hs) hon
    · by_cases hon : x ∈ outline ring
      · exact leftOf_nonpos_of_mem_outline (leftOf_nonpos_of_isConvex hconvex hs) hon
      · exact (leftOf_neg_of_turns hclosed hconvex hon hx hs).le
  · -- on the way from `w` there is a point of the ring, and beyond it one is on the left of its side
    intro hx
    by_contra hout
    obtain ⟨y, hy, hyon⟩ := meets_of_mem_enclosed hclosed (Or.inr hturns : w ∈ enclosed ring) hout
    obtain ⟨s, hs, hys⟩ := exists_side_of_mem_outline hclosed hseveral hyon
    have hzero : leftOf s.start.real s.finish.real y = 0 := Segment.side_of_mem hys
    have hinside := leftOf_neg_of_turns hclosed hconvex hoff hturns hs
    obtain ⟨part, ⟨hlow, hhigh⟩, rfl⟩ := mem_segment_iff_lineMap.1 hy
    rw [leftOf_lineMap] at hzero
    have hfrom := mul_nonpos_of_nonneg_of_nonpos (sub_nonneg.2 hhigh) (hx s hs)
    have hpart : part = 0 := by
      by_contra hne
      have := mul_neg_of_pos_of_neg (hlow.lt_of_ne' hne) hinside
      linarith
    rw [hpart, lineMap_apply_zero] at hyon
    exact hout (Or.inl hyon)

theorem Segment.meetAlong_ne_crossing (s t : Segment) : s.meetAlong t ≠ .crossing := by
  unfold meetAlong
  dsimp only
  split_ifs <;> simp

/-- Segments that cross have their ends on different sides of each other. -/
theorem Segment.left_of_crossing {s t : Segment} (h : s.meet t = .crossing) : ¬ t.isPoint = true ∧
    (turn t.start t.finish s.start = .left ∨ turn t.start t.finish s.finish = .left) := by
  unfold meet at h
  dsimp only at h
  split_ifs at h with hs hheld ht hheld' hline hsame hstart hfinish hstart' hfinish'
  · exact absurd h (meetAlong_ne_crossing s t)
  · refine ⟨ht, ?_⟩
    rw [Bool.or_eq_true, decide_eq_true_eq, decide_eq_true_eq, not_or] at hsame
    cases hfrom : turn t.start t.finish s.start with
    | left => exact Or.inl rfl
    | straight => exact absurd (decide_eq_true hfrom) (by simpa using hstart')
    | right =>
      cases hto : turn t.start t.finish s.finish with
      | left => exact Or.inr rfl
      | straight => exact absurd (decide_eq_true hto) (by simpa using hfinish')
      | right => exact absurd (hfrom.trans hto.symm) hsame.2

/-- **What is to the left of no side crosses none.** -/
theorem meet_ne_crossing_of_beneathSides {s t : Segment} (hstart : s.start.real ∈ beneathSides ring)
    (hfinish : s.finish.real ∈ beneathSides ring) (ht : t ∈ segments ring) : s.meet t ≠ .crossing := by
  intro hcross
  obtain ⟨hproper, hleft⟩ := Segment.left_of_crossing hcross
  have hside : t ∈ sides ring := List.mem_filter.2 ⟨ht, by simpa using hproper⟩
  exact hleft.elim (leftOf_real_nonpos_iff.1 (hstart t hside)) (leftOf_real_nonpos_iff.1 (hfinish t hside))

end Plane
end MapFeatures
