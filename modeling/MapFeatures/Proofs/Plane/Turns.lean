import Mathlib
import MapFeatures.Proofs.Plane.Meeting
import MapFeatures.Proofs.Plane.Sides
/-!
# Turns — a way that does not meet a ring stays inside or outside of it

`locate` counts turns around points with whole coordinates.  Counted around any point of the real plane (`turns`), they
do not change along a straight way that does not meet the ring (`turns_eq_of_disjoint`): whatever comes into the strip
between the heights of the way goes out of it on the same side (`risesPast_add_beside`), and around a closed ring each
corner that is beside the way is left as often as it is reached.  So a point with a way out has no turns around it
(`turns_eq_zero_of_way_out`), as one beyond a line that has the ring on its other side (`turns_eq_zero_of_leftOf`).
-/
namespace MapFeatures
namespace Plane

open Classical AffineMap

/-! ## Lines of the real plane -/

/-- How far to the left of the line from `u` to `v` a point lies, in units that depend on the line. -/
def leftOf (u v x : ℝ × ℝ) : ℝ := (v.1 - u.1) * (x.2 - u.2) - (v.2 - u.2) * (x.1 - u.1)

variable {u v w a b x y z : ℝ × ℝ}

theorem mem_segment_iff_lineMap : x ∈ segment ℝ a b ↔ ∃ part : ℝ, (0 ≤ part ∧ part ≤ 1) ∧ lineMap a b part = x := by
  rw [segment_eq_image_lineMap, Set.mem_image]
  rfl

theorem leftOf_lineMap (u v a b : ℝ × ℝ) (part : ℝ) :
    leftOf u v (lineMap a b part) = (1 - part) * leftOf u v a + part * leftOf u v b := by
  simp only [leftOf, lineMap_apply, vsub_eq_sub, vadd_eq_add, smul_eq_mul, Prod.fst_add, Prod.snd_add, Prod.smul_fst,
    Prod.smul_snd, Prod.fst_sub, Prod.snd_sub]
  ring

theorem leftOf_swap (u v x : ℝ × ℝ) : leftOf v u x = -leftOf u v x := by
  unfold leftOf
  ring

theorem leftOf_left (u v : ℝ × ℝ) : leftOf u v u = 0 := by
  unfold leftOf
  ring

theorem leftOf_real (p q r : Point) : leftOf p.real q.real r.real = cross p q r := Segment.side_real ⟨p, q⟩ r

theorem leftOf_real_nonpos_iff {p q r : Point} : leftOf p.real q.real r.real ≤ 0 ↔ turn p q r ≠ .left := by
  rw [leftOf_real, Ne, turn_eq_left_iff, not_lt, Int.cast_nonpos]

theorem leftOf_right (u v : ℝ × ℝ) : leftOf u v v = 0 := by
  unfold leftOf
  ring

/-- What lies on a line between the heights of two of its points lies between them. -/
theorem mem_segment_of_level (huv : u.2 < v.2) (hline : leftOf u v x = 0) (hlow : u.2 ≤ x.2) (hhigh : x.2 ≤ v.2) :
    x ∈ segment ℝ u v := by
  have hpos : 0 < v.2 - u.2 := sub_pos.2 huv
  refine mem_segment_iff_lineMap.2 ⟨(x.2 - u.2) / (v.2 - u.2), ⟨?_, ?_⟩, ?_⟩
  · exact div_nonneg (sub_nonneg.2 hlow) hpos.le
  · rw [div_le_one hpos]
    linarith
  · unfold leftOf at hline
    refine Prod.ext ?_ ?_
    · simp only [lineMap_apply, vsub_eq_sub, vadd_eq_add, smul_eq_mul, Prod.fst_add, Prod.smul_fst, Prod.fst_sub]
      field_simp
      linarith
    · simp only [lineMap_apply, vsub_eq_sub, vadd_eq_add, smul_eq_mul, Prod.snd_add, Prod.smul_snd, Prod.snd_sub]
      field_simp
      ring

/-- **A way that does not meet a line stays on one side of it.** -/
theorem leftOf_pos_iff (h : ∀ x ∈ segment ℝ y z, leftOf u v x ≠ 0) : 0 < leftOf u v y ↔ 0 < leftOf u v z := by
  by_contra hnot
  have hapart : Segment.Apart (leftOf u v y) (leftOf u v z) := by
    rcases lt_or_ge 0 (leftOf u v y) with hy | hy
    · have hz : leftOf u v z ≤ 0 := not_lt.1 fun hz => hnot (iff_of_true hy hz)
      exact ⟨mul_nonpos_of_nonneg_of_nonpos hy.le hz, (hz.trans_lt hy).ne'⟩
    · have hz : 0 < leftOf u v z := Classical.byContradiction fun hz => hnot (iff_of_false (not_lt.2 hy) hz)
      exact ⟨mul_nonpos_of_nonpos_of_nonneg hy hz.le, (hy.trans_lt hz).ne⟩
  refine h _ (mem_segment_iff_lineMap.2 ⟨_, hapart.part, rfl⟩) ?_
  have hne : leftOf u v y - leftOf u v z ≠ 0 := sub_ne_zero.2 hapart.2
  rw [leftOf_lineMap]
  field_simp
  ring

theorem snd_mem_of_mem_segment (hx : x ∈ segment ℝ a b) : min a.2 b.2 ≤ x.2 ∧ x.2 ≤ max a.2 b.2 := by
  obtain ⟨r, q, hr, hq, hrq, rfl⟩ := hx
  exact ⟨Convex.min_le_combo _ _ hr hq hrq, Convex.combo_le_max _ _ hr hq hrq⟩

/-! ## Passing a point -/

/-- Whether the way from `u` up to `v` passes the height of `x` on the right of it. -/
def RisesPast (u v x : ℝ × ℝ) : Prop := u.2 ≤ x.2 ∧ x.2 < v.2 ∧ 0 < leftOf u v x

/-- Whether `w` is on the right of the way from `a` up to `b`. -/
def Beside (a b w : ℝ × ℝ) : Prop := a.2 < w.2 ∧ w.2 ≤ b.2 ∧ leftOf a b w < 0

/-- The point of a rising way at the height of `w` is as far to the left of a line through `w` as `w` is to the right
of the way. -/
theorem exists_level (hlow : a.2 < w.2) (hhigh : w.2 ≤ b.2) (huv : u.2 < v.2) (hw : leftOf u v w = 0) :
    ∃ y ∈ segment ℝ a b, y.2 = w.2 ∧ (leftOf a b w < 0 ↔ 0 < leftOf u v y) := by
  have hpos : 0 < b.2 - a.2 := by linarith
  refine ⟨lineMap a b ((w.2 - a.2) / (b.2 - a.2)), mem_segment_iff_lineMap.2 ⟨_, ⟨?_, ?_⟩, rfl⟩, ?_, ?_⟩
  · exact div_nonneg (by linarith) hpos.le
  · rw [div_le_one hpos]
    linarith
  · simp only [lineMap_apply, vsub_eq_sub, vadd_eq_add, smul_eq_mul, Prod.snd_add, Prod.smul_snd, Prod.snd_sub]
    field_simp
    ring
  · have hside : leftOf u v (lineMap a b ((w.2 - a.2) / (b.2 - a.2))) * (b.2 - a.2) = -leftOf a b w * (v.2 - u.2) := by
      rw [leftOf_lineMap]
      field_simp
      unfold leftOf at *
      linear_combination (b.2 - a.2) * hw
    rw [← neg_pos, ← mul_pos_iff_of_pos_right (sub_pos.2 huv), ← hside, mul_pos_iff_of_pos_right hpos]

/-- Between the heights of a rising side a way that does not meet it is on one side of it. -/
theorem leftOf_pos_iff_of_disjoint (huv : u.2 < v.2) (h : Disjoint (segment ℝ a b) (segment ℝ u v))
    (hy : y ∈ segment ℝ a b) (hz : z ∈ segment ℝ a b) (hylow : u.2 ≤ y.2) (hyhigh : y.2 ≤ v.2) (hzlow : u.2 ≤ z.2)
    (hzhigh : z.2 ≤ v.2) : 0 < leftOf u v y ↔ 0 < leftOf u v z := by
  refine leftOf_pos_iff fun x hx hline => ?_
  obtain ⟨hlow, hhigh⟩ := snd_mem_of_mem_segment hx
  have hon : x ∈ segment ℝ u v :=
    mem_segment_of_level huv hline ((le_min hylow hzlow).trans hlow) (hhigh.trans (max_le hyhigh hzhigh))
  exact Set.disjoint_left.1 h ((convex_segment a b).segment_subset hy hz hx) hon

theorem strip_levels {u v a b : ℝ} (huv : u < v) (hab : a ≤ b) :
    ((if u ≤ a ∧ a < v then 1 else 0) + if a < u ∧ u ≤ b then 1 else 0 : ℤ) =
      (if u ≤ b ∧ b < v then 1 else 0) + if a < v ∧ v ≤ b then 1 else 0 := by
  have hbelow : ((if u ≤ a ∧ a < v then 1 else 0) + if a < u ∧ u ≤ b then 1 else 0 : ℤ) =
      if u ≤ b ∧ a < v then 1 else 0 := by
    rcases le_or_gt u a with h | h
    · simp [h, h.not_gt, h.trans hab]
    · simp [h, h.not_ge, h.trans huv]
  have habove : ((if u ≤ b ∧ b < v then 1 else 0) + if a < v ∧ v ≤ b then 1 else 0 : ℤ) =
      if u ≤ b ∧ a < v then 1 else 0 := by
    rcases lt_or_ge b v with h | h
    · simp [h, h.not_ge, hab.trans_lt h]
    · simp [h, h.not_gt, huv.le.trans h]
  rw [hbelow, habove]

/-- **What comes into the strip between the heights of a way goes out of it**, on the right of the way. -/
theorem risesPast_add_beside (huv : u.2 < v.2) (hab : a.2 ≤ b.2) (h : Disjoint (segment ℝ a b) (segment ℝ u v)) :
    ((if RisesPast u v a then 1 else 0) + if Beside a b u then 1 else 0 : ℤ) =
      (if RisesPast u v b then 1 else 0) + if Beside a b v then 1 else 0 := by
  -- whether the part of the way between the heights of the side is on its left
  let left := ∃ y ∈ segment ℝ a b, u.2 ≤ y.2 ∧ y.2 ≤ v.2 ∧ 0 < leftOf u v y
  have hleft : ∀ y ∈ segment ℝ a b, u.2 ≤ y.2 → y.2 ≤ v.2 → (0 < leftOf u v y ↔ left) := by
    intro y hy hlow hhigh
    refine ⟨fun hpos => ⟨y, hy, hlow, hhigh, hpos⟩, fun ⟨z, hz, hzlow, hzhigh, hpos⟩ => ?_⟩
    exact (leftOf_pos_iff_of_disjoint huv h hy hz hlow hhigh hzlow hzhigh).2 hpos
  have hend : ∀ y ∈ segment ℝ a b, (RisesPast u v y ↔ (u.2 ≤ y.2 ∧ y.2 < v.2) ∧ left) := by
    intro y hy
    rw [RisesPast, ← and_assoc]
    exact and_congr_right fun hlevel => hleft y hy hlevel.1 hlevel.2.le
  have hcorner : ∀ w, leftOf u v w = 0 → u.2 ≤ w.2 → w.2 ≤ v.2 →
      (Beside a b w ↔ (a.2 < w.2 ∧ w.2 ≤ b.2) ∧ left) := by
    intro w hw hlow hhigh
    rw [Beside, ← and_assoc]
    refine and_congr_right fun hlevel => ?_
    obtain ⟨y, hy, hylevel, hside⟩ := exists_level hlevel.1 hlevel.2 huv hw
    rw [hside]
    exact hleft y hy (hylevel ▸ hlow) (hylevel ▸ hhigh)
  simp only [hend a (left_mem_segment ℝ a b), hend b (right_mem_segment ℝ a b), hcorner u (leftOf_left u v) le_rfl huv.le,
    hcorner v (leftOf_right u v) huv.le le_rfl]
  by_cases hl : left
  · simp only [hl, and_true]
    exact strip_levels huv hab
  · simp only [hl, and_false]

/-! ## Turns around a point -/

/-- What a side adds to the turns around a point of the real plane. -/
noncomputable def Segment.turnsPast (s : Segment) (x : ℝ × ℝ) : ℤ :=
  (if RisesPast s.start.real s.finish.real x then 1 else 0) - if RisesPast s.finish.real s.start.real x then 1 else 0

/-- How many times a ring turns around a point of the real plane. -/
noncomputable def turns (ring : List Point) (x : ℝ × ℝ) : ℤ := ((segments ring).map (·.turnsPast x)).sum

/-- The points of the real plane that are on a ring. -/
def outline (ring : List Point) : Set (ℝ × ℝ) := {x | ∃ s ∈ segments ring, x ∈ s.points}

/-- The points of the real plane that a ring goes around or through. -/
def enclosed (ring : List Point) : Set (ℝ × ℝ) := {x | x ∈ outline ring ∨ turns ring x ≠ 0}

theorem mem_enclosed_iff {ring : List Point} : x ∈ enclosed ring ↔ x ∈ outline ring ∨ turns ring x ≠ 0 := Iff.rfl

theorem turnsAround_eq (s : Segment) (p : Point) : turnsAround p s = s.turnsPast p.real := by
  have hright : leftOf s.finish.real s.start.real p.real = -(cross s.start s.finish p : ℝ) := by
    rw [leftOf_swap, leftOf_real]
  simp only [turnsAround, Segment.turnsPast, RisesPast, leftOf_real s.start, hright, Point.real_snd, neg_pos, Bool.and_eq_true,
    decide_eq_true_eq, turn_eq_left_iff, turn_eq_right_iff, Int.cast_le, Int.cast_lt, Int.cast_pos, Int.cast_lt_zero,
    and_assoc]
  -- a side does not rise and fall at once
  split
  · next h => rw [if_neg fun h' => absurd h.2.1 (not_lt.2 h'.1)]; rfl
  · split
    · rfl
    · rfl

theorem not_risesPast (h : v.2 ≤ u.2) (x : ℝ × ℝ) : ¬ RisesPast u v x :=
  fun hrise => absurd (hrise.1.trans_lt hrise.2.1) (not_lt.2 h)

theorem beside_congr_of_level (hlevel : u.2 = v.2) (h : Disjoint (segment ℝ a b) (segment ℝ u v)) :
    Beside a b u ↔ Beside a b v := by
  unfold Beside
  rw [← hlevel]
  refine and_congr_right fun hlow => and_congr_right fun hhigh => ?_
  rw [← neg_pos, ← leftOf_swap, ← neg_pos, ← leftOf_swap]
  refine leftOf_pos_iff fun x hx hline => ?_
  obtain ⟨hfrom, hto⟩ := snd_mem_of_mem_segment hx
  rw [← hlevel, min_self] at hfrom
  rw [← hlevel, max_self] at hto
  rw [leftOf_swap, neg_eq_zero] at hline
  exact Set.disjoint_left.1 h (mem_segment_of_level (hlow.trans_le hhigh) hline (hlow.le.trans hfrom) (hto.trans hhigh)) hx

/-- **The turns that a side adds change by what is beside the way**, if the side does not meet it. -/
theorem turnsPast_add_beside (s : Segment) (hab : a.2 ≤ b.2) (h : Disjoint (segment ℝ a b) s.points) :
    s.turnsPast a + (if Beside a b s.start.real then 1 else 0) =
      s.turnsPast b + if Beside a b s.finish.real then 1 else 0 := by
  unfold Segment.turnsPast
  rcases lt_trichotomy s.start.real.2 s.finish.real.2 with hrise | hlevel | hfall
  · have hstrip := risesPast_add_beside hrise hab h
    simp only [not_risesPast hrise.le, if_false]
    linarith
  · simp only [not_risesPast hlevel.le, not_risesPast hlevel.ge, if_false, beside_congr_of_level hlevel h]
  · have hstrip := risesPast_add_beside hfall hab (segment_symm ℝ s.start.real s.finish.real ▸ h)
    simp only [not_risesPast hfall.le, if_false]
    linarith

/-- Around a ring each point is left as often as it is reached. -/
theorem Leads.sum_start_add (f : Point → ℤ) {p q : Point} {l : List Segment} (h : Leads p l q) :
    (l.map fun s => f s.start).sum + f q = (l.map fun s => f s.finish).sum + f p := by
  induction h with
  | stay p => rfl
  | go p hrest ih =>
    rw [List.map_cons, List.map_cons, List.sum_cons, List.sum_cons]
    linarith

/-- **Along a way that does not meet the ring the turns stay the same.** -/
theorem turns_eq_of_disjoint {ring : List Point} (hclosed : isClosed ring = true)
    (h : Disjoint (segment ℝ a b) (outline ring)) : turns ring a = turns ring b := by
  wlog hab : a.2 ≤ b.2 generalizing a b with hflip
  · rw [segment_symm] at h
    exact (hflip h (le_of_not_ge hab)).symm
  have hside : ∀ s ∈ segments ring, s.turnsPast a + (if Beside a b s.start.real then 1 else 0) =
      s.turnsPast b + if Beside a b s.finish.real then 1 else 0 := by
    intro s hs
    have houtline : s.points ⊆ outline ring := fun x hx => ⟨s, hs, hx⟩
    exact turnsPast_add_beside s hab (h.mono_right houtline)
  have hsum := congrArg List.sum (List.map_congr_left hside)
  obtain ⟨p, hleads⟩ := leads_around hclosed
  rw [List.sum_map_add, List.sum_map_add,
    add_right_cancel (hleads.sum_start_add fun q => if Beside a b q.real then 1 else 0)] at hsum
  exact add_right_cancel hsum

/-! ## What is told of points with whole coordinates -/

theorem foldl_turnsAround (ring : List Point) (p : Point) :
    (segments ring).foldl (fun turns s => turns + turnsAround p s) 0 = turns ring p.real := by
  rw [turns, ← List.map_congr_left fun s _ => turnsAround_eq s p, List.sum_eq_foldl, List.foldl_map]

theorem any_holds_iff (ring : List Point) (p : Point) :
    (segments ring).any (·.holds p) = true ↔ p.real ∈ outline ring := by
  rw [List.any_eq_true]
  exact exists_congr fun s => and_congr_right fun _ => Segment.holds_iff

theorem locate_eq {ring : List Point} (hlong : ring.length ≠ 1) (p : Point) : locate ring p =
    if p.real ∈ outline ring then .boundary else if turns ring p.real = 0 then .outside else .inside := by
  have hmore : ¬ ring = [p] := fun h => hlong (by rw [h]; rfl)
  simp only [locate, foldl_turnsAround, Bool.or_eq_true, decide_eq_true_eq, any_holds_iff, hmore, false_or]

theorem locate_ne_outside_iff {ring : List Point} (hlong : ring.length ≠ 1) (p : Point) :
    locate ring p ≠ .outside ↔ p.real ∈ enclosed ring := by
  rw [locate_eq hlong, mem_enclosed_iff]
  split_ifs with hon hzero
  · simp [hon]
  · simp [hon, hzero]
  · simp [hon, hzero]

theorem locate_eq_inside_iff {ring : List Point} (hlong : ring.length ≠ 1) (p : Point) :
    locate ring p = .inside ↔ p.real ∉ outline ring ∧ turns ring p.real ≠ 0 := by
  rw [locate_eq hlong]
  split_ifs with hon hzero
  · simp [hon]
  · simp [hon, hzero]
  · simp [hon, hzero]

/-! ## Ways out -/

variable {ring : List Point} {s : Segment}

theorem mem_of_mem_segments (hs : s ∈ segments ring) : s.start ∈ ring ∧ s.finish ∈ ring := by
  have hpair := mem_segments_iff.1 hs
  exact ⟨hpair.mem (by simp), hpair.mem (by simp)⟩

theorem turns_eq_zero_of_far (h : ∀ p ∈ ring, |(p.y : ℝ)| < |x.2|) : turns ring x = 0 := by
  have hnot : ∀ p ∈ ring, ∀ q ∈ ring, ¬ RisesPast p.real q.real x := by
    rintro p hp q hq ⟨hlow, hhigh, -⟩
    have hfar := abs_lt.1 (h p hp)
    have hfar' := abs_lt.1 (h q hq)
    rw [Point.real_snd] at hlow hhigh
    rcases abs_cases x.2 with ⟨habs, -⟩ | ⟨habs, -⟩
    · linarith [hfar'.2]
    · linarith [hfar.1]
  have hside : ∀ s ∈ segments ring, s.turnsPast x = 0 := by
    intro s hs
    obtain ⟨hstart, hfinish⟩ := mem_of_mem_segments hs
    rw [Segment.turnsPast, if_neg (hnot _ hstart _ hfinish), if_neg (hnot _ hfinish _ hstart), sub_zero]
  rw [turns, List.map_congr_left hside]
  simp

theorem exists_above (ring : List Point) : ∃ m : ℝ, ∀ p ∈ ring, |(p.y : ℝ)| < m := by
  induction ring with
  | nil => exact ⟨0, fun p hp => absurd hp List.not_mem_nil⟩
  | cons q ring ih =>
    obtain ⟨m, hm⟩ := ih
    refine ⟨max m (|(q.y : ℝ)| + 1), List.forall_mem_cons.2 ⟨?_, fun p hp => ?_⟩⟩
    · exact lt_max_of_lt_right (lt_add_one _)
    · exact lt_max_of_lt_left (hm p hp)

/-- **A point with a way out is not turned around**: straight on, up or down, without meeting the ring. -/
theorem turns_eq_zero_of_way_out (hclosed : isClosed ring = true) {d : ℝ × ℝ} (hd : d.2 ≠ 0)
    (h : ∀ r : ℝ, 0 ≤ r → x + r • d ∉ outline ring) : turns ring x = 0 := by
  obtain ⟨m, hm⟩ := exists_above ring
  have hdpos : 0 < |d.2| := abs_pos.2 hd
  let r := (|x.2| + |m|) / |d.2|
  have hr : 0 ≤ r := div_nonneg (add_nonneg (abs_nonneg _) (abs_nonneg _)) hdpos.le
  have hfar : turns ring (x + r • d) = 0 := by
    refine turns_eq_zero_of_far fun p hp => (hm p hp).trans_le ?_
    have hlong : |r * d.2| = |x.2| + |m| := by
      rw [abs_mul, abs_of_nonneg hr]
      exact div_mul_cancel₀ _ hdpos.ne'
    have hsum : |r * d.2| - |x.2| ≤ |x.2 + r * d.2| := by
      have := abs_sub_abs_le_abs_sub (r * d.2) (-x.2)
      rw [abs_neg, sub_neg_eq_add, add_comm (r * d.2)] at this
      exact this
    have habove : (x + r • d).2 = x.2 + r * d.2 := rfl
    rw [habove]
    linarith [le_abs_self m]
  rw [← hfar]
  refine turns_eq_of_disjoint hclosed (Set.disjoint_left.2 fun y hy => ?_)
  obtain ⟨part, ⟨hlow, -⟩, rfl⟩ := mem_segment_iff_lineMap.1 hy
  have hon : lineMap x (x + r • d) part = x + (part * r) • d := by
    rw [lineMap_apply, vsub_eq_sub, vadd_eq_add, add_sub_cancel_left, smul_smul, add_comm]
  rw [hon]
  exact h _ (mul_nonneg hlow hr)

theorem leftOf_nonpos_of_mem_outline (h : ∀ p ∈ ring, leftOf u v p.real ≤ 0) (hx : x ∈ outline ring) :
    leftOf u v x ≤ 0 := by
  obtain ⟨s, hs, hx⟩ := hx
  obtain ⟨hstart, hfinish⟩ := mem_of_mem_segments hs
  obtain ⟨part, ⟨hlow, hhigh⟩, rfl⟩ := mem_segment_iff_lineMap.1 hx
  rw [leftOf_lineMap]
  have hfrom := mul_nonpos_of_nonneg_of_nonpos (sub_nonneg.2 hhigh) (h _ hstart)
  have hto := mul_nonpos_of_nonneg_of_nonpos hlow (h _ hfinish)
  linarith

theorem exists_direction (huv : u ≠ v) : ∃ d : ℝ × ℝ, d.2 ≠ 0 ∧ 0 < (v.1 - u.1) * d.2 - (v.2 - u.2) * d.1 := by
  by_cases hwide : v.1 - u.1 = 0
  · have hhigh : v.2 - u.2 ≠ 0 := fun h => huv (Prod.ext (sub_eq_zero.1 hwide).symm (sub_eq_zero.1 h).symm)
    refine ⟨(-(v.2 - u.2), 1), one_ne_zero, ?_⟩
    have := mul_self_pos.2 hhigh
    dsimp only
    rw [hwide]
    linarith
  · refine ⟨(0, v.1 - u.1), hwide, ?_⟩
    have := mul_self_pos.2 hwide
    dsimp only
    linarith

/-- **Beyond a line that has the ring on its right there are no turns**, and none on the line but off the ring. -/
theorem turns_eq_zero_of_leftOf (hclosed : isClosed ring = true) (huv : u ≠ v)
    (h : ∀ p ∈ ring, leftOf u v p.real ≤ 0) (hx : x ∉ outline ring) (hleft : 0 ≤ leftOf u v x) : turns ring x = 0 := by
  obtain ⟨d, hd, haway⟩ := exists_direction huv
  refine turns_eq_zero_of_way_out hclosed hd fun r hr hon => ?_
  have hfurther : leftOf u v (x + r • d) = leftOf u v x + r * ((v.1 - u.1) * d.2 - (v.2 - u.2) * d.1) := by
    simp only [leftOf, Prod.fst_add, Prod.snd_add, Prod.smul_fst, Prod.smul_snd, smul_eq_mul]
    ring
  have hside := leftOf_nonpos_of_mem_outline h hon
  rcases hr.eq_or_lt with rfl | hpos
  · rw [zero_smul, add_zero] at hon
    exact hx hon
  · have := mul_pos hpos haway
    linarith

end Plane
end MapFeatures
