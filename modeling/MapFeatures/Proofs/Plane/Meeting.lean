import Mathlib.Analysis.Convex.Segment
import Mathlib.Data.Prod.Lex
import Mathlib.Data.Real.Basic
import Mathlib.Data.Set.Subsingleton
import Mathlib.Tactic.FieldSimp
import Mathlib.Tactic.Linarith
import Mathlib.Tactic.LinearCombination
import Mathlib.Tactic.Positivity
import MapFeatures.Plane.Segment
/-!
# Meeting — `meet` tells what two segments have in common

Segments have whole ends, but two of them may cross anywhere, so their points are taken in the real plane
(`Segment.points`).  Two facts carry the cases.  The side of a line that a point lies on changes evenly along a segment
(`side_along`), so segments that do not lie in one line meet in one point at most, and they do if each has its ends on
different sides of the other.  In one line a segment is what lies between its first and its last point
(`mem_points_iff_between`).  `meet_tells` puts them together.
-/
namespace MapFeatures
namespace Plane

/-! ## Sides of a line -/

theorem turn_eq_straight_iff {a b c : Point} : turn a b c = .straight ↔ cross a b c = 0 := by
  unfold turn
  dsimp only
  split
  · exact iff_of_false (by decide) (by omega)
  · split
    · exact iff_of_false (by decide) (by omega)
    · exact iff_of_true rfl (by omega)

theorem turn_eq_left_iff {a b c : Point} : turn a b c = .left ↔ 0 < cross a b c := by
  unfold turn
  dsimp only
  split
  · exact iff_of_true rfl ‹_›
  · split
    · exact iff_of_false (by decide) ‹_›
    · exact iff_of_false (by decide) ‹_›

theorem turn_eq_right_iff {a b c : Point} : turn a b c = .right ↔ cross a b c < 0 := by
  unfold turn
  dsimp only
  split
  · exact iff_of_false (by decide) (by omega)
  · split
    · exact iff_of_true rfl ‹_›
    · exact iff_of_false (by decide) ‹_›

/-- The point in the real plane. -/
def Point.real (p : Point) : ℝ × ℝ := (p.x, p.y)

@[simp] theorem Point.real_fst (p : Point) : p.real.1 = p.x := rfl

@[simp] theorem Point.real_snd (p : Point) : p.real.2 = p.y := rfl

theorem Point.real_injective : Function.Injective Point.real := by
  rintro ⟨x, y⟩ ⟨x', y'⟩ h
  rw [Point.real, Point.real, Prod.mk.injEq, Int.cast_inj, Int.cast_inj] at h
  rw [Point.mk.injEq]
  exact h

/-- Points are in the order of the real plane, first by `x` and then by `y`. -/
theorem Point.before_iff {p q : Point} : p.before q = true ↔ toLex p.real < toLex q.real := by
  rw [Prod.Lex.toLex_lt_toLex, Point.before, Bool.or_eq_true, Bool.and_eq_true, decide_eq_true_eq, decide_eq_true_eq,
    decide_eq_true_eq]
  unfold Point.real
  dsimp only
  norm_cast

theorem Point.not_before_iff {p q : Point} : ¬ p.before q = true ↔ toLex q.real ≤ toLex p.real := by
  rw [before_iff, not_lt]

namespace Segment

variable {s t : Segment} {p : Point} {x y : ℝ × ℝ}

/-- All points of the real plane that lie on the segment, its ends included. -/
def points (s : Segment) : Set (ℝ × ℝ) := segment ℝ s.start.real s.finish.real

/-- The point at a part of the way. -/
def along (s : Segment) (part : ℝ) : ℝ × ℝ :=
  (s.start.x + part * (s.finish.x - s.start.x), s.start.y + part * (s.finish.y - s.start.y))

/-- How far to the left of the segment's line a point lies, in units that depend on the segment. -/
def side (s : Segment) (x : ℝ × ℝ) : ℝ :=
  (s.finish.x - s.start.x) * (x.2 - s.start.y) - (s.finish.y - s.start.y) * (x.1 - s.start.x)

theorem side_real (s : Segment) (p : Point) : s.side p.real = (cross s.start s.finish p : ℝ) := by
  unfold side cross Point.real
  push_cast
  rfl

theorem mem_points_iff : x ∈ s.points ↔ ∃ part, 0 ≤ part ∧ part ≤ 1 ∧ s.along part = x := by
  rw [points, segment_eq_image', Set.mem_image]
  simp only [Set.mem_Icc, and_assoc]
  rfl

theorem start_mem_points (s : Segment) : s.start.real ∈ s.points := left_mem_segment ℝ _ _

theorem finish_mem_points (s : Segment) : s.finish.real ∈ s.points := right_mem_segment ℝ _ _

/-- **The side changes evenly along a segment.** -/
theorem side_along (s t : Segment) (part : ℝ) :
    s.side (t.along part) = (1 - part) * s.side t.start.real + part * s.side t.finish.real := by
  unfold side along Point.real
  ring

theorem side_start (s : Segment) : s.side s.start.real = 0 := by
  unfold side Point.real
  ring

theorem side_finish (s : Segment) : s.side s.finish.real = 0 := by
  unfold side Point.real
  ring

theorem side_of_mem (hx : x ∈ s.points) : s.side x = 0 := by
  obtain ⟨part, -, -, rfl⟩ := mem_points_iff.1 hx
  rw [side_along, side_start, side_finish]
  ring

/-! ## Segments of different lines -/

/-- Whether two numbers are on different sides of zero, or one of them is zero and the other is not. -/
def Apart (a b : ℝ) : Prop := a * b ≤ 0 ∧ a ≠ b

theorem Apart.part {a b : ℝ} (h : Apart a b) : 0 ≤ a / (a - b) ∧ a / (a - b) ≤ 1 := by
  obtain ⟨hprod, hne⟩ := h
  rcases lt_or_gt_of_ne hne with hlt | hlt
  · have ha : a ≤ 0 := by nlinarith
    have hb : 0 ≤ b := by nlinarith
    constructor
    · exact div_nonneg_of_nonpos ha (by linarith)
    · rw [div_le_one_of_neg (by linarith)]
      linarith
  · have ha : 0 ≤ a := by nlinarith
    have hb : b ≤ 0 := by nlinarith
    constructor
    · exact div_nonneg ha (by linarith)
    · rw [div_le_one (by linarith)]
      linarith

/-- The ends of each are seen from the other by one determinant. -/
theorem side_sub_side (s t : Segment) :
    s.side t.start.real - s.side t.finish.real = t.side s.finish.real - t.side s.start.real := by
  unfold side Point.real
  ring

/-- **Segments with their ends on different sides of each other meet.** -/
theorem exists_common (hs : Apart (s.side t.start.real) (s.side t.finish.real))
    (ht : Apart (t.side s.start.real) (t.side s.finish.real)) : ∃ x, x ∈ s.points ∩ t.points := by
  obtain ⟨hlow, hhigh⟩ := hs.part
  obtain ⟨hlow', hhigh'⟩ := ht.part
  refine ⟨_, mem_points_iff.2 ⟨_, hlow', hhigh', rfl⟩, mem_points_iff.2 ⟨_, hlow, hhigh, ?_⟩⟩
  -- both parts of the way lead to the point that is told by the sides alone
  have hdet := side_sub_side s t
  have hne : s.side t.start.real - s.side t.finish.real ≠ 0 := sub_ne_zero.2 hs.2
  have hne' : t.side s.start.real - t.side s.finish.real ≠ 0 := sub_ne_zero.2 ht.2
  have hneg : t.side s.start.real - t.side s.finish.real = -(s.side t.start.real - s.side t.finish.real) := by
    linarith
  rw [hneg]
  unfold along
  rw [Prod.mk.injEq]
  constructor
  · field_simp
    unfold side Point.real
    ring
  · field_simp
    unfold side Point.real
    ring

/-- **A segment that is not all on one side of a line has one point on it at most.** -/
theorem eq_of_side_eq_zero (hs : s.side t.start.real ≠ s.side t.finish.real) (hx : x ∈ t.points) (hy : y ∈ t.points)
    (hzero : s.side x = 0) (hzero' : s.side y = 0) : x = y := by
  obtain ⟨part, -, -, rfl⟩ := mem_points_iff.1 hx
  obtain ⟨part', -, -, rfl⟩ := mem_points_iff.1 hy
  rw [side_along] at hzero hzero'
  have hprod : (part - part') * (s.side t.finish.real - s.side t.start.real) = 0 := by linarith
  rcases mul_eq_zero.1 hprod with h | h
  · rw [sub_eq_zero.1 h]
  · exact absurd (sub_eq_zero.1 h).symm hs

theorem eq_of_common (hs : s.side t.start.real ≠ s.side t.finish.real) (hx : x ∈ s.points ∩ t.points)
    (hy : y ∈ s.points ∩ t.points) : x = y :=
  eq_of_side_eq_zero hs hx.2 hy.2 (side_of_mem hx.1) (side_of_mem hy.1)

/-- An end of `t` on the line of `s` is the only point that `s` and `t` may have in common. -/
theorem eq_start_of_common (hs : s.side t.start.real ≠ s.side t.finish.real) (hzero : s.side t.start.real = 0)
    (hx : x ∈ s.points ∩ t.points) : x = t.start.real :=
  eq_of_side_eq_zero hs hx.2 t.start_mem_points (side_of_mem hx.1) hzero

theorem eq_finish_of_common (hs : s.side t.start.real ≠ s.side t.finish.real) (hzero : s.side t.finish.real = 0)
    (hx : x ∈ s.points ∩ t.points) : x = t.finish.real :=
  eq_of_side_eq_zero hs hx.2 t.finish_mem_points (side_of_mem hx.1) hzero

/-- **A segment that lies to one side of another does not meet it.** -/
theorem disjoint_of_side (h : 0 < s.side t.start.real * s.side t.finish.real) : s.points ∩ t.points = ∅ := by
  rw [Set.eq_empty_iff_forall_notMem]
  intro x hx
  obtain ⟨part, hlow, hhigh, rfl⟩ := mem_points_iff.1 hx.2
  have hside := side_of_mem hx.1
  rw [side_along] at hside
  have hrest : 0 ≤ 1 - part := by linarith
  rcases pos_and_pos_or_neg_and_neg_of_mul_pos h with ⟨ha, hb⟩ | ⟨ha, hb⟩
  · have hmin := Convex.min_le_combo (s.side t.start.real) (s.side t.finish.real) hrest hlow (sub_add_cancel 1 part)
    rw [smul_eq_mul, smul_eq_mul, hside] at hmin
    exact absurd (lt_min ha hb) (not_lt.2 hmin)
  · have hmax := Convex.combo_le_max (s.side t.start.real) (s.side t.finish.real) hrest hlow (sub_add_cancel 1 part)
    rw [smul_eq_mul, smul_eq_mul, hside] at hmax
    exact absurd (max_lt ha hb) (not_lt.2 hmax)

/-! ## Segments of one line -/

theorem apart_sub {a b c : ℝ} (hne : a ≠ b) (hlow : min a b ≤ c) (hhigh : c ≤ max a b) : Apart (a - c) (b - c) := by
  refine ⟨?_, fun h => hne (sub_left_injective h)⟩
  rcases le_total a b with h | h
  · rw [min_eq_left h] at hlow
    rw [max_eq_right h] at hhigh
    exact mul_nonpos_of_nonpos_of_nonneg (sub_nonpos.2 hlow) (sub_nonneg.2 hhigh)
  · rw [min_eq_right h] at hlow
    rw [max_eq_left h] at hhigh
    exact mul_nonpos_of_nonneg_of_nonpos (sub_nonneg.2 hhigh) (sub_nonpos.2 hlow)

/-- **A segment has the points of its line that are between its ends**, in width or, if it is upright, in height. -/
theorem mem_of_box (hside : s.side x = 0)
    (hx : min (s.start.x : ℝ) s.finish.x ≤ x.1 ∧ x.1 ≤ max (s.start.x : ℝ) s.finish.x)
    (hy : (s.start.x : ℝ) = s.finish.x →
      min (s.start.y : ℝ) s.finish.y ≤ x.2 ∧ x.2 ≤ max (s.start.y : ℝ) s.finish.y) : x ∈ s.points := by
  obtain ⟨x₁, x₂⟩ := x
  unfold side at hside
  rw [mem_points_iff]
  unfold along
  simp only [Prod.mk.injEq]
  dsimp only at *
  by_cases hwide : (s.start.x : ℝ) = s.finish.x
  · have hy := hy hwide
    rw [← hwide, min_self, max_self] at hx
    have hx₁ : x₁ = s.start.x := le_antisymm hx.2 hx.1
    by_cases hhigh : (s.start.y : ℝ) = s.finish.y
    · rw [← hhigh, min_self, max_self] at hy
      exact ⟨0, le_rfl, zero_le_one, by linarith, by linarith [hy.1, hy.2]⟩
    · have hpart := (apart_sub hhigh hy.1 hy.2).part
      have hne : (s.start.y : ℝ) - s.finish.y ≠ 0 := sub_ne_zero.2 hhigh
      rw [sub_sub_sub_cancel_right] at hpart
      refine ⟨_, hpart.1, hpart.2, by rw [← hwide, hx₁]; ring, ?_⟩
      field_simp
      ring
  · have hpart := (apart_sub hwide hx.1 hx.2).part
    have hne : (s.start.x : ℝ) - s.finish.x ≠ 0 := sub_ne_zero.2 hwide
    rw [sub_sub_sub_cancel_right] at hpart
    refine ⟨_, hpart.1, hpart.2, ?_, ?_⟩
    · field_simp
      ring
    · field_simp
      linarith

theorem between_of_along {p q : Point} (h : toLex p.real ≤ toLex q.real) {part : ℝ} (hlow : 0 ≤ part)
    (hhigh : part ≤ 1) :
    toLex p.real ≤ toLex ((⟨p, q⟩ : Segment).along part) ∧ toLex ((⟨p, q⟩ : Segment).along part) ≤ toLex q.real := by
  rw [Prod.Lex.toLex_le_toLex] at *
  rw [Prod.Lex.toLex_le_toLex]
  unfold Point.real along at *
  dsimp only at *
  rcases h with hx | ⟨hx, hy⟩
  · constructor
    · rcases eq_or_lt_of_le hlow with rfl | hpos
      · simp
      · left
        have := mul_pos hpos (sub_pos.2 hx)
        linarith
    · rcases eq_or_lt_of_le hhigh with rfl | hless
      · simp
      · left
        have := mul_pos (sub_pos.2 hless) (sub_pos.2 hx)
        linarith
  · have hup := mul_nonneg hlow (sub_nonneg.2 hy)
    have hdown := mul_nonneg (sub_nonneg.2 hhigh) (sub_nonneg.2 hy)
    rw [hx]
    exact ⟨Or.inr ⟨by ring, by linarith⟩, Or.inr ⟨by ring, by linarith⟩⟩

theorem mem_of_between {p q : Point} (hside : (⟨p, q⟩ : Segment).side x = 0) (hlow : toLex p.real ≤ toLex x)
    (hhigh : toLex x ≤ toLex q.real) : x ∈ (⟨p, q⟩ : Segment).points := by
  obtain ⟨x₁, x₂⟩ := x
  rw [Prod.Lex.toLex_le_toLex, Point.real] at hlow hhigh
  dsimp only at hlow hhigh
  have hleft : (p.x : ℝ) ≤ x₁ := hlow.elim le_of_lt fun h => h.1.le
  have hright : x₁ ≤ (q.x : ℝ) := hhigh.elim le_of_lt fun h => h.1.le
  refine mem_of_box hside ⟨min_le_of_left_le hleft, le_max_of_le_right hright⟩ fun hupright => ?_
  dsimp only at hupright
  have hbelow : (p.y : ℝ) ≤ x₂ := hlow.elim (fun h => by linarith) fun h => h.2
  have habove : x₂ ≤ (q.y : ℝ) := hhigh.elim (fun h => by linarith) fun h => h.2
  exact ⟨min_le_of_left_le hbelow, le_max_of_le_right habove⟩

theorem real_first_le_last (s : Segment) : toLex s.first.real ≤ toLex s.last.real := by
  unfold first last
  split
  · next h => exact (Point.before_iff.1 h).le
  · next h => exact Point.not_before_iff.1 h

/-- **A segment is what lies on its line between its first and its last point.** -/
theorem mem_points_iff_between :
    x ∈ s.points ↔ s.side x = 0 ∧ toLex s.first.real ≤ toLex x ∧ toLex x ≤ toLex s.last.real := by
  have hpoints : x ∈ s.points ↔ x ∈ (⟨s.first, s.last⟩ : Segment).points := by
    unfold points first last
    split
    · rw [segment_symm]
    · rfl
  have hside : s.side x = 0 ↔ (⟨s.first, s.last⟩ : Segment).side x = 0 := by
    unfold first last
    split
    · have hneg : (⟨s.finish, s.start⟩ : Segment).side x = -s.side x := by
        unfold side
        ring
      rw [hneg, neg_eq_zero]
    · rfl
  rw [hpoints, hside]
  constructor
  · intro hx
    obtain ⟨part, hlow, hhigh, rfl⟩ := mem_points_iff.1 hx
    exact ⟨side_of_mem hx, between_of_along s.real_first_le_last hlow hhigh⟩
  · rintro ⟨hzero, hlow, hhigh⟩
    exact mem_of_between hzero hlow hhigh

/-- If a segment lies on the line of another that is no point, then so does the other on its. -/
theorem side_eq_zero_comm (hs : s.start ≠ s.finish) (hstart : s.side t.start.real = 0)
    (hfinish : s.side t.finish.real = 0) : t.side s.start.real = 0 ∧ t.side s.finish.real = 0 := by
  have hdet := side_sub_side s t
  have hzero : t.side s.start.real = 0 := by
    have hdirection : (s.finish.x : ℝ) - s.start.x ≠ 0 ∨ (s.finish.y : ℝ) - s.start.y ≠ 0 := by
      by_contra hnot
      push Not at hnot
      exact hs (Point.real_injective (Prod.ext (sub_eq_zero.1 hnot.1).symm (sub_eq_zero.1 hnot.2).symm))
    unfold side Point.real at *
    dsimp only at *
    rcases hdirection with hx | hy
    · refine (mul_eq_zero.1 ?_).resolve_left hx
      linear_combination ((t.start.x : ℝ) - t.finish.x) * hstart + ((t.start.x : ℝ) - s.start.x) * (hfinish - hstart)
    · refine (mul_eq_zero.1 ?_).resolve_left hy
      linear_combination ((t.start.y : ℝ) - t.finish.y) * hstart + ((t.start.y : ℝ) - s.start.y) * (hfinish - hstart)
  refine ⟨hzero, ?_⟩
  linarith

/-! ## What is told -/

/-- Whether a meeting tells what two segments have in common. -/
def Tells (s t : Segment) : Meeting → Prop
  | .apart => s.points ∩ t.points = ∅
  | .touch p => s.points ∩ t.points = {p.real}
  | .crossing => ∃ x, s.points ∩ t.points = {x} ∧ ∀ p ∈ [s.start, s.finish, t.start, t.finish], x ≠ p.real
  | .overlap => (s.points ∩ t.points).Nontrivial

theorem side_eq_zero_iff : s.side p.real = 0 ↔ turn s.start s.finish p = .straight := by
  rw [side_real, turn_eq_straight_iff, Int.cast_eq_zero]

theorem apart_of_turn_ne {q : Point} (h : turn s.start s.finish p ≠ turn s.start s.finish q) :
    Apart (s.side p.real) (s.side q.real) := by
  rw [side_real, side_real]
  have hne : cross s.start s.finish p ≠ cross s.start s.finish q := by
    intro he
    rw [turn, turn, he] at h
    exact h rfl
  refine ⟨?_, fun he => hne (Int.cast_injective he)⟩
  by_contra hpos
  push Not at hpos
  rcases pos_and_pos_or_neg_and_neg_of_mul_pos hpos with ⟨ha, hb⟩ | ⟨ha, hb⟩
  · rw [Int.cast_pos] at ha hb
    exact h ((turn_eq_left_iff.2 ha).trans (turn_eq_left_iff.2 hb).symm)
  · rw [Int.cast_lt_zero] at ha hb
    exact h ((turn_eq_right_iff.2 ha).trans (turn_eq_right_iff.2 hb).symm)

theorem side_mul_side_pos {q : Point} (h : turn s.start s.finish p = turn s.start s.finish q)
    (hne : turn s.start s.finish p ≠ .straight) : 0 < s.side p.real * s.side q.real := by
  rw [side_real, side_real]
  cases hturn : turn s.start s.finish p with
  | straight => exact absurd hturn hne
  | left =>
    have hp := turn_eq_left_iff.1 hturn
    have hq := turn_eq_left_iff.1 (h.symm.trans hturn)
    exact mul_pos (Int.cast_pos.2 hp) (Int.cast_pos.2 hq)
  | right =>
    have hp := turn_eq_right_iff.1 hturn
    have hq := turn_eq_right_iff.1 (h.symm.trans hturn)
    exact mul_pos_of_neg_of_neg (Int.cast_lt_zero.2 hp) (Int.cast_lt_zero.2 hq)

/-! ### In one line -/

theorem toLex_later (p q : Point) :
    toLex (if p.before q then q else p).real = max (toLex p.real) (toLex q.real) := by
  split
  · next h => exact (max_eq_right (Point.before_iff.1 h).le).symm
  · next h => exact (max_eq_left (Point.not_before_iff.1 h)).symm

theorem toLex_earlier (p q : Point) :
    toLex (if p.before q then p else q).real = min (toLex p.real) (toLex q.real) := by
  split
  · next h => exact (min_eq_left (Point.before_iff.1 h).le).symm
  · next h => exact (min_eq_right (Point.not_before_iff.1 h)).symm

/-- Whether a point lies on the lines of both segments. -/
def OnLines (s t : Segment) (p : Point) : Prop := s.side p.real = 0 ∧ t.side p.real = 0

/-- **In one line the common points lie between the later start and the earlier end.** -/
theorem tells_meetAlong (hstart : s.OnLines t s.start) (hfinish : s.OnLines t s.finish) (hstart' : s.OnLines t t.start)
    (hfinish' : s.OnLines t t.finish) : s.Tells t (s.meetAlong t) := by
  have hends : s.OnLines t s.first ∧ s.OnLines t s.last ∧ s.OnLines t t.first ∧ s.OnLines t t.last := by
    unfold first last
    refine ⟨?_, ?_, ?_, ?_⟩ <;> split <;> assumption
  have hlow := toLex_later s.first t.first
  have hhigh := toLex_earlier s.last t.last
  have honLow : s.OnLines t (if s.first.before t.first then t.first else s.first) := by
    split
    · exact hends.2.2.1
    · exact hends.1
  have honHigh : s.OnLines t (if s.last.before t.last then s.last else t.last) := by
    split
    · exact hends.2.1
    · exact hends.2.2.2
  unfold meetAlong
  dsimp only
  generalize (if s.first.before t.first then t.first else s.first) = low at hlow honLow ⊢
  generalize (if s.last.before t.last then s.last else t.last) = high at hhigh honHigh ⊢
  have hcommon : ∀ x, x ∈ s.points ∩ t.points ↔
      (s.side x = 0 ∧ t.side x = 0) ∧ toLex low.real ≤ toLex x ∧ toLex x ≤ toLex high.real := by
    intro x
    rw [Set.mem_inter_iff, mem_points_iff_between, mem_points_iff_between, hlow, hhigh, max_le_iff, le_min_iff]
    tauto
  split
  · next h =>
    have hlt := Point.before_iff.1 h
    exact ⟨low.real, (hcommon _).2 ⟨honLow, le_rfl, hlt.le⟩, high.real, (hcommon _).2 ⟨honHigh, hlt.le, le_rfl⟩,
      fun he => hlt.ne (congrArg toLex he)⟩
  · next h =>
    split
    · next he =>
      subst he
      refine Set.eq_singleton_iff_unique_mem.2 ⟨(hcommon _).2 ⟨honLow, le_rfl, le_rfl⟩, fun x hx => ?_⟩
      obtain ⟨-, hfrom, hto⟩ := (hcommon x).1 hx
      exact toLex.injective (le_antisymm hto hfrom)
    · next hne =>
      have hlt : toLex high.real < toLex low.real := by
        refine lt_of_le_of_ne (Point.not_before_iff.1 h) fun he => hne ?_
        exact Point.real_injective (toLex.injective he.symm)
      refine Set.eq_empty_iff_forall_notMem.2 fun x hx => ?_
      obtain ⟨-, hfrom, hto⟩ := (hcommon x).1 hx
      exact absurd (hfrom.trans hto) (not_le.2 hlt)

/-! ### All cases -/

theorem holds_box_iff : ((Box.ofPoint s.start).extend s.finish).holds p = true ↔
    (min s.start.x s.finish.x ≤ p.x ∧ p.x ≤ max s.start.x s.finish.x) ∧
      (min s.start.y s.finish.y ≤ p.y ∧ p.y ≤ max s.start.y s.finish.y) := by
  rw [Box.holds, Bool.and_eq_true, Bool.and_eq_true, Bool.and_eq_true, decide_eq_true_eq, decide_eq_true_eq,
    decide_eq_true_eq, decide_eq_true_eq, and_assoc]
  rfl

theorem mem_box_of_mem (hx : x ∈ s.points) :
    (min (s.start.x : ℝ) s.finish.x ≤ x.1 ∧ x.1 ≤ max (s.start.x : ℝ) s.finish.x) ∧
      (min (s.start.y : ℝ) s.finish.y ≤ x.2 ∧ x.2 ≤ max (s.start.y : ℝ) s.finish.y) := by
  obtain ⟨a, b, ha, hb, hab, rfl⟩ := hx
  exact ⟨⟨Convex.min_le_combo _ _ ha hb hab, Convex.combo_le_max _ _ ha hb hab⟩,
    ⟨Convex.min_le_combo _ _ ha hb hab, Convex.combo_le_max _ _ ha hb hab⟩⟩

/-- **A segment holds its points.** -/
theorem holds_iff : s.holds p = true ↔ p.real ∈ s.points := by
  rw [holds, Bool.and_eq_true, decide_eq_true_eq, ← side_eq_zero_iff, holds_box_iff]
  constructor
  · rintro ⟨hside, hx, hy⟩
    refine mem_of_box hside ?_ fun _ => ?_
    · rw [Point.real_fst]
      exact_mod_cast hx
    · rw [Point.real_snd]
      exact_mod_cast hy
  · intro hx
    refine ⟨side_of_mem hx, ?_⟩
    obtain ⟨hwide, hhigh⟩ := mem_box_of_mem hx
    rw [Point.real_fst] at hwide
    rw [Point.real_snd] at hhigh
    constructor
    · exact_mod_cast hwide
    · exact_mod_cast hhigh

theorem points_of_isPoint (h : s.isPoint = true) : s.points = {s.start.real} := by
  have hends : s.start = s.finish := of_decide_eq_true h
  rw [points, ← hends, segment_same]

theorem isPoint_iff : s.isPoint = true ↔ s.start = s.finish := decide_eq_true_iff

/-- Segments that do not lie in one line have nothing in common if one of them is all on one side of the other. -/
theorem disjoint_of_one_side (ht : t.start ≠ t.finish)
    (hline : ¬ (turn s.start s.finish t.start = .straight ∧ turn s.start s.finish t.finish = .straight))
    (hsame : turn s.start s.finish t.start = turn s.start s.finish t.finish ∨
      turn t.start t.finish s.start = turn t.start t.finish s.finish) : s.points ∩ t.points = ∅ := by
  rcases hsame with hsame | hsame
  · exact disjoint_of_side (side_mul_side_pos hsame fun h => hline ⟨h, hsame ▸ h⟩)
  · have hne : turn t.start t.finish s.start ≠ .straight := by
      intro h
      have hzero := side_eq_zero_comm ht (side_eq_zero_iff.2 h) (side_eq_zero_iff.2 (hsame ▸ h))
      exact hline ⟨side_eq_zero_iff.1 hzero.1, side_eq_zero_iff.1 hzero.2⟩
    rw [Set.inter_comm]
    exact disjoint_of_side (side_mul_side_pos hsame hne)

/-- A common point is no end unless that end lies straight on the other segment. -/
theorem ne_end_of_common (hx : x ∈ s.points ∩ t.points)
    (ht : turn s.start s.finish t.start ≠ .straight ∧ turn s.start s.finish t.finish ≠ .straight)
    (hs : turn t.start t.finish s.start ≠ .straight ∧ turn t.start t.finish s.finish ≠ .straight) :
    ∀ p ∈ [s.start, s.finish, t.start, t.finish], x ≠ p.real := by
  intro p hp he
  have hside := side_of_mem hx.1
  have hside' := side_of_mem hx.2
  rw [he, side_eq_zero_iff] at hside hside'
  simp only [List.mem_cons, List.not_mem_nil, or_false] at hp
  rcases hp with rfl | rfl | rfl | rfl
  · exact hs.1 hside'
  · exact hs.2 hside'
  · exact ht.1 hside
  · exact ht.2 hside

/-- **What the meeting of two segments tells that are no points.** -/
theorem tells_meet_of_proper (hs : ¬ s.isPoint = true) (ht : ¬ t.isPoint = true) : s.Tells t (s.meet t) := by
  unfold meet
  rw [if_neg hs, if_neg ht]
  rw [isPoint_iff] at hs ht
  dsimp only
  split
  · next hline =>
    rw [Bool.and_eq_true, decide_eq_true_eq, decide_eq_true_eq] at hline
    have hstart := side_eq_zero_iff.2 hline.1
    have hfinish := side_eq_zero_iff.2 hline.2
    obtain ⟨hstart', hfinish'⟩ := side_eq_zero_comm hs hstart hfinish
    exact tells_meetAlong ⟨s.side_start, hstart'⟩ ⟨s.side_finish, hfinish'⟩ ⟨hstart, t.side_start⟩
      ⟨hfinish, t.side_finish⟩
  · next hline =>
    rw [Bool.and_eq_true, decide_eq_true_eq, decide_eq_true_eq] at hline
    split
    · next hsame =>
      rw [Bool.or_eq_true, decide_eq_true_eq, decide_eq_true_eq] at hsame
      exact disjoint_of_one_side ht hline hsame
    · next hdiff =>
      rw [Bool.or_eq_true, decide_eq_true_eq, decide_eq_true_eq, not_or] at hdiff
      have hapart := apart_of_turn_ne hdiff.1
      have hapart' := apart_of_turn_ne hdiff.2
      obtain ⟨x, hx⟩ := exists_common hapart hapart'
      have hsingle : s.points ∩ t.points = {x} :=
        Set.eq_singleton_iff_unique_mem.2 ⟨hx, fun y hy => eq_of_common hapart.2 hy hx⟩
      split
      · next h => rw [Tells, hsingle, eq_start_of_common hapart.2 (side_eq_zero_iff.2 h) hx]
      · next htStart =>
        split
        · next h => rw [Tells, hsingle, eq_finish_of_common hapart.2 (side_eq_zero_iff.2 h) hx]
        · next htFinish =>
          split
          · next h => rw [Tells, hsingle, eq_start_of_common hapart'.2 (side_eq_zero_iff.2 h) hx.symm]
          · next hsStart =>
            split
            · next h => rw [Tells, hsingle, eq_finish_of_common hapart'.2 (side_eq_zero_iff.2 h) hx.symm]
            · next hsFinish =>
              exact ⟨x, hsingle, ne_end_of_common hx ⟨htStart, htFinish⟩ ⟨hsStart, hsFinish⟩⟩

/-- **What a meeting tells is what two segments have in common.** -/
theorem meet_tells (s t : Segment) : s.Tells t (s.meet t) := by
  by_cases hs : s.isPoint = true
  · have hpoints := points_of_isPoint hs
    rw [meet, if_pos hs]
    split
    · next hholds => rw [Tells, hpoints, Set.singleton_inter_of_mem (holds_iff.1 hholds)]
    · next hnot =>
      rw [Tells, hpoints, Set.singleton_inter_eq_empty]
      exact mt holds_iff.2 hnot
  · by_cases ht : t.isPoint = true
    · have hpoints := points_of_isPoint ht
      rw [meet, if_neg hs, if_pos ht]
      split
      · next hholds => rw [Tells, hpoints, Set.inter_singleton_of_mem (holds_iff.1 hholds)]
      · next hnot =>
        rw [Tells, hpoints, Set.inter_singleton_eq_empty]
        exact mt holds_iff.2 hnot
    · exact tells_meet_of_proper hs ht

theorem meet_eq_apart_iff : s.meet t = .apart ↔ s.points ∩ t.points = ∅ := by
  have htells := meet_tells s t
  cases hmeet : s.meet t with
  | apart =>
    rw [hmeet] at htells
    exact iff_of_true rfl htells
  | touch p =>
    rw [hmeet, Tells] at htells
    exact iff_of_false (by simp) (by simp [htells])
  | crossing =>
    rw [hmeet] at htells
    obtain ⟨x, hx, -⟩ := htells
    exact iff_of_false (by simp) (by simp [hx])
  | overlap =>
    rw [hmeet] at htells
    exact iff_of_false (by simp) htells.nonempty.ne_empty

end Segment
end Plane
end MapFeatures
