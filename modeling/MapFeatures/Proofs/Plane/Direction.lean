import MapFeatures.Proofs.Plane.SelfIntersection
/-!
# Direction — the direction of a ring read forwards and backwards

The direction is the turn between two sides of the ring, one that comes to its least point and one that leaves it
(`winding?_cases`).  If there is only one of each, the same two are found backwards (`winding?_reverse`).  That is so in
a ring of three sides or more that does not meet itself (`passesOnce`), and there the turn is no straight one
(`isSome_winding?`): else the two sides would run along each other.
-/
namespace MapFeatures
namespace Plane

/-! ## Turns -/

def Winding.opposite : Winding → Winding
  | clockwise => counterClockwise
  | counterClockwise => clockwise

theorem Winding.eq_opposite_iff {w v : Winding} : w = v.opposite ↔ w ≠ v := by
  cases w <;> cases v <;> decide

/-- The direction of a ring that makes this turn at its least point. -/
def Turn.winding? : Turn → Option Winding
  | left => some .counterClockwise
  | right => some .clockwise
  | straight => none

theorem winding?_turn_swap (a b c : Point) :
    (turn c b a).winding? = (turn a b c).winding?.map Winding.opposite := by
  have hcross : cross c b a = -cross a b c := by
    unfold cross
    ring
  cases hturn : turn a b c with
  | left =>
    have := turn_eq_left_iff.1 hturn
    rw [turn_eq_right_iff.2 (by omega)]
    rfl
  | right =>
    have := turn_eq_right_iff.1 hturn
    rw [turn_eq_left_iff.2 (by omega)]
    rfl
  | straight =>
    have := turn_eq_straight_iff.1 hturn
    rw [turn_eq_straight_iff.2 (by omega)]
    rfl

/-! ## The least point -/

/-- Whether no point of a ring is less than `v`, which is one of them. -/
def IsLeast (ring : List Point) (v : Point) : Prop := v ∈ ring ∧ ∀ p ∈ ring, ¬ p.before v = true

variable {ring : List Point} {u v w : Point}

theorem IsLeast.eq (hv : IsLeast ring v) (hw : IsLeast ring w) : v = w := by
  have hle := Point.not_before_iff.1 (hv.2 w hw.1)
  have hge := Point.not_before_iff.1 (hw.2 v hv.1)
  exact Point.real_injective (toLex.injective (le_antisymm hle hge))

theorem isLeast_reverse : IsLeast ring.reverse v ↔ IsLeast ring v := by
  simp [IsLeast]

theorem splitAtLeast_eq_none_iff : splitAtLeast ring = none ↔ ring = [] := by
  cases ring with
  | nil => exact iff_of_true rfl rfl
  | cons p rest =>
    refine iff_of_false ?_ (List.cons_ne_nil p rest)
    unfold splitAtLeast
    split
    · simp
    · split
      · simp
      · simp

theorem splitAtLeast_spec : ∀ {ring before after : List Point} {least : Point},
    splitAtLeast ring = some (before, least, after) → ring = before ++ least :: after ∧ IsLeast ring least
  | p :: rest, before, after, least, h => by
    unfold splitAtLeast at h
    split at h
    · next hnone =>
      cases h
      rw [splitAtLeast_eq_none_iff.1 hnone]
      refine ⟨rfl, List.mem_singleton_self p, fun q hq => ?_⟩
      rw [List.mem_singleton.1 hq, Point.not_before_iff]
    · next before' least' after' hsome =>
      obtain ⟨rfl, hmem, hleast⟩ := splitAtLeast_spec hsome
      simp only [Point.not_before_iff] at hleast
      split at h
      · next hlt =>
        cases h
        refine ⟨rfl, List.mem_cons_of_mem p hmem, ?_⟩
        simp only [Point.not_before_iff]
        exact List.forall_mem_cons.2 ⟨(Point.before_iff.1 hlt).le, hleast⟩
      · next hge =>
        cases h
        refine ⟨rfl, List.mem_cons_self, ?_⟩
        simp only [Point.not_before_iff]
        have hle := Point.not_before_iff.1 hge
        exact List.forall_mem_cons.2 ⟨le_rfl, fun q hq => hle.trans (hleast q hq)⟩

/-- **The direction is the turn from a side that comes to the least point to one that leaves it**, unless the ring has
one point only. -/
theorem winding?_cases (hclosed : isClosed ring = true) (hlong : 4 ≤ ring.length) :
    (winding? ring = none ∧ ∀ p ∈ ring, ∀ q ∈ ring, p = q) ∨
      ∃ u v w, IsLeast ring v ∧ ⟨u, v⟩ ∈ sides ring ∧ ⟨v, w⟩ ∈ sides ring ∧ winding? ring = (turn u v w).winding? := by
  have hproper : ¬ (decide (ring.length < 4) || !isClosed ring) = true := by
    rw [hclosed, decide_eq_false (Nat.not_lt.2 hlong)]
    decide
  unfold winding?
  rw [if_neg hproper]
  match hsplit : splitAtLeast ring with
  | none =>
    rw [splitAtLeast_eq_none_iff.1 hsplit] at hlong
    exact absurd hlong (by decide)
  | some (before, v, after) =>
    obtain ⟨rfl, hleast⟩ := splitAtLeast_spec hsplit
    dsimp only
    match hnext : (after ++ before).find? (· ≠ v), hprevious : (after ++ before).reverse.find? (· ≠ v) with
    | some w, some u =>
      right
      refine ⟨u, v, w, hleast, previous_mem_sides hclosed hprevious, next_mem_sides hclosed hnext, ?_⟩
      dsimp only
      cases turn u v w with
      | left => rfl
      | right => rfl
      | straight => rfl
    | none, some u =>
      have hother := List.find?_some hprevious
      have hmem := List.mem_reverse.1 (List.mem_of_find?_eq_some hprevious)
      exact absurd hother (List.find?_eq_none.1 hnext u hmem)
    | some w, none =>
      have hother := List.find?_some hnext
      have hmem := List.mem_reverse.2 (List.mem_of_find?_eq_some hnext)
      exact absurd hother (List.find?_eq_none.1 hprevious w hmem)
    | none, none =>
      left
      have hall : ∀ p ∈ before ++ v :: after, p = v := by
        intro p hp
        simp only [List.find?_eq_none, List.mem_append, ne_eq, decide_not, Bool.not_eq_true', decide_eq_false_iff_not,
          not_not] at hnext
        simp only [List.mem_append, List.mem_cons] at hp
        rcases hp with hp | rfl | hp
        · exact hnext p (Or.inr hp)
        · rfl
        · exact hnext p (Or.inl hp)
      exact ⟨rfl, fun p hp q hq => (hall p hp).trans (hall q hq).symm⟩

/-! ## Rings that pass their least point once -/

/-- Whether a ring comes to a point from one other point only, and goes on to one only. -/
def PassesOnce (ring : List Point) (v : Point) : Prop :=
  (∀ p q, ⟨p, v⟩ ∈ sides ring → ⟨q, v⟩ ∈ sides ring → p = q) ∧
    ∀ p q, ⟨v, p⟩ ∈ sides ring → ⟨v, q⟩ ∈ sides ring → p = q

/-- **Read backwards, a ring runs the other way**, if it passes its least point once. -/
theorem winding?_reverse (hclosed : isClosed ring = true) (honce : ∀ v, IsLeast ring v → PassesOnce ring v) :
    winding? ring.reverse = (winding? ring).map Winding.opposite := by
  by_cases hlong : 4 ≤ ring.length
  · have hclosed' : isClosed ring.reverse = true := (isClosed_reverse ring).trans hclosed
    have hlong' : 4 ≤ ring.reverse.length := by rwa [List.length_reverse]
    rcases winding?_cases hclosed hlong with ⟨hnone, hall⟩ | ⟨u, v, w, hv, hu, hw, hturn⟩
    · rcases winding?_cases hclosed' hlong' with ⟨hnone', -⟩ | ⟨u, v, w, hv, hu, -, -⟩
      · rw [hnone, hnone']
        rfl
      · rw [mem_sides_reverse, mem_sides_iff] at hu
        have hmem := hu.1.subset
        exact absurd (hall v (hmem (by simp)) u (hmem (by simp))) hu.2
    · rcases winding?_cases hclosed' hlong' with ⟨-, hall⟩ | ⟨u', v', w', hv', hu', hw', hturn'⟩
      · rw [mem_sides_iff] at hu
        have hmem := hu.1.subset
        simp only [List.mem_reverse] at hall
        exact absurd (hall u (hmem (by simp)) v (hmem (by simp))) hu.2
      · -- backwards, the side that leaves the least point comes to it
        obtain rfl : v = v' := hv.eq (isLeast_reverse.1 hv')
        rw [mem_sides_reverse] at hu' hw'
        rw [hturn', hturn, (honce v hv).2 u' w hu' hw, (honce v hv).1 w' u hw' hu, winding?_turn_swap]
  · have hshort : ∀ r : List Point, r.length < 4 → winding? r = none := by
      intro r hr
      rw [winding?, decide_eq_true hr]
      rfl
    rw [hshort ring (Nat.not_le.1 hlong), hshort ring.reverse (by rw [List.length_reverse]; exact Nat.not_le.1 hlong)]
    rfl

/-! ## Rings that do not meet themselves -/

theorem exists_mem_edges {s : Segment} (h : s ∈ sides ring) : ∃ i, (i, s) ∈ edges ring := by
  obtain ⟨i, hi, hside⟩ := List.mem_iff_getElem.1 h
  exact ⟨i, mem_edges_iff.2 ⟨hi, hside⟩⟩

theorem eq_of_clash (hclosed : isClosed ring = true) (hcount : 3 ≤ (sides ring).length)
    (hapart : selfIntersects ring = false) {a b : Nat × Segment} (ha : a ∈ edges ring) (hb : b ∈ edges ring)
    (hclash : Clash (sides ring).length a b) : a = b := by
  have hpairwise := (selfIntersects_eq_false_iff hclosed).1 hapart hcount
  have : Std.Symm fun a b => ¬ Clash (sides ring).length a b := ⟨fun _ _ h => mt Clash.symm h⟩
  by_contra hne
  exact hpairwise.forall ha hb hne hclash

/-- **A ring that does not meet itself passes each point once.** -/
theorem passesOnce (hclosed : isClosed ring = true) (hcount : 3 ≤ (sides ring).length)
    (hapart : selfIntersects ring = false) (v : Point) : PassesOnce ring v := by
  constructor
  · intro p q hp hq
    obtain ⟨i, hi⟩ := exists_mem_edges hp
    obtain ⟨j, hj⟩ := exists_mem_edges hq
    have heq := eq_of_clash hclosed hcount hapart hi hj (clash_of_finish_eq hclosed hi hj rfl)
    exact congrArg (fun a : Nat × Segment => a.2.start) heq
  · intro p q hp hq
    obtain ⟨i, hi⟩ := exists_mem_edges hp
    obtain ⟨j, hj⟩ := exists_mem_edges hq
    have heq := eq_of_clash hclosed hcount hapart hi hj (clash_of_start_eq hi hj rfl)
    exact congrArg (fun a : Nat × Segment => a.2.finish) heq

/-- Of two points straight ahead the nearer one lies on the way to the other. -/
theorem mem_points_of_straight (hu : v.before u = true) (hle : toLex u.real ≤ toLex w.real)
    (hturn : turn v w u = .straight) : u.real ∈ (⟨v, w⟩ : Segment).points := by
  have hv := (Point.before_iff.1 hu).le
  have hback : ¬ w.before v = true := Point.not_before_iff.2 (hv.trans hle)
  rw [Segment.mem_points_iff_between]
  unfold Segment.first Segment.last
  rw [if_neg hback, if_neg hback]
  exact ⟨Segment.side_eq_zero_iff.2 hturn, hv, hle⟩

/-- Two segments that leave a point in one direction run along each other; the first of them is written backwards. -/
theorem nontrivial_of_straight (hu : v.before u = true) (hw : v.before w = true) (hturn : turn u v w = .straight) :
    ((⟨u, v⟩ : Segment).points ∩ (⟨v, w⟩ : Segment).points).Nontrivial := by
  have hback : (⟨u, v⟩ : Segment).points = (⟨v, u⟩ : Segment).points := segment_symm ℝ u.real v.real
  have hcross := turn_eq_straight_iff.1 hturn
  have hother : ∀ p : Point, v.before p = true → p.real ≠ v.real := fun p hp he =>
    (Point.before_iff.1 hp).ne (congrArg toLex he.symm)
  rw [hback]
  have hv : v.real ∈ (⟨v, u⟩ : Segment).points ∩ (⟨v, w⟩ : Segment).points :=
    ⟨Segment.start_mem_points _, Segment.start_mem_points _⟩
  rcases le_total (toLex u.real) (toLex w.real) with hle | hle
  · have hmem : u.real ∈ (⟨v, w⟩ : Segment).points := by
      refine mem_points_of_straight hu hle (turn_eq_straight_iff.2 ?_)
      unfold cross at *
      linear_combination hcross
    exact ⟨u.real, ⟨Segment.finish_mem_points _, hmem⟩, v.real, hv, hother u hu⟩
  · have hmem : w.real ∈ (⟨v, u⟩ : Segment).points := by
      refine mem_points_of_straight hw hle (turn_eq_straight_iff.2 ?_)
      unfold cross at *
      linear_combination -hcross
    exact ⟨w.real, ⟨hmem, Segment.finish_mem_points _⟩, v.real, hv, hother w hw⟩

/-- **At its least point a ring that does not meet itself bends.** -/
theorem turn_ne_straight (hclosed : isClosed ring = true) (hcount : 3 ≤ (sides ring).length)
    (hapart : selfIntersects ring = false) (hv : IsLeast ring v) (hu : ⟨u, v⟩ ∈ sides ring)
    (hw : ⟨v, w⟩ ∈ sides ring) : turn u v w ≠ .straight := by
  intro hturn
  obtain ⟨hpair, hne⟩ := mem_sides_iff.1 hu
  obtain ⟨hpair', hne'⟩ := mem_sides_iff.1 hw
  have hbefore : ∀ p ∈ ring, p ≠ v → v.before p = true := by
    intro p hp hother
    rw [Point.before_iff]
    refine lt_of_le_of_ne (Point.not_before_iff.1 (hv.2 p hp)) fun he => hother ?_
    exact Point.real_injective (toLex.injective he.symm)
  have hmeet := nontrivial_of_straight (hbefore u (hpair.subset (by simp)) hne)
    (hbefore w (hpair'.subset (by simp)) hne'.symm) hturn
  obtain ⟨i, hi⟩ := exists_mem_edges hu
  obtain ⟨j, hj⟩ := exists_mem_edges hw
  have heq := eq_of_clash hclosed hcount hapart hi hj (clash_of_nontrivial hcount hi hj hmeet)
  exact hne (congrArg (fun a : Nat × Segment => a.2.start) heq)

/-- **The direction of a ring that does not meet itself is known.** -/
theorem isSome_winding? (hclosed : isClosed ring = true) (hlong : 4 ≤ ring.length) (hcount : 3 ≤ (sides ring).length)
    (hapart : selfIntersects ring = false) : (winding? ring).isSome = true := by
  rcases winding?_cases hclosed hlong with ⟨-, hall⟩ | ⟨u, v, w, hv, hu, hw, hturn⟩
  · have hmem : (sides ring)[0] ∈ sides ring := List.getElem_mem (Nat.lt_of_lt_of_le (by decide) hcount)
    obtain ⟨hpair, hne⟩ := mem_sides_iff.1 hmem
    exact absurd (hall _ (hpair.subset (by simp)) _ (hpair.subset (by simp))) hne
  · have hbends := turn_ne_straight hclosed hcount hapart hv hu hw
    rw [hturn]
    cases h : turn u v w with
    | left => rfl
    | right => rfl
    | straight => exact absurd h hbends

end Plane
end MapFeatures
