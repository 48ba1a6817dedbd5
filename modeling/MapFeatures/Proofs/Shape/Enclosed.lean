import MapFeatures.Proofs.Plane.Chords
import MapFeatures.Proofs.Plane.Direction
import MapFeatures.Proofs.Plane.SelfIntersection
import MapFeatures.Shape.Validity
/-!
# Enclosed — how far the holes of a sound polygon are inside the shell

The check of a polygon looks at the corners of its holes.  Between two corners a side of a hole may leave the shell, if the
shell is not convex (`not_sound_polygon_holes`): then it has a chord of the shell that is outside.  Where each chord on a
side has its middle inside, the side is, and so is a hole of a convex shell (`sound_polygon_holes`).
-/
namespace MapFeatures

open Plane (segments outline enclosed IsChord IsConvex)

/-! ## What a check has seen -/

namespace Path

variable {wanted : Plane.Winding} {p shell hole : Path}

theorem checkRing_eq_none_iff : p.checkRing wanted = none ↔
    p.isFinite = true ∧ (minRingPoints ≤ List.length p ∧ p.hasDistinct 3 = true) ∧ Plane.isClosed p.points = true ∧
      Plane.selfIntersects p.points = false ∧ p.winding? = some wanted := by
  unfold checkRing
  split_ifs with hfinite hfew hopen hmeets hdirection
  · simp_all
  · refine iff_of_false (by simp) fun h => ?_
    rw [Bool.or_eq_true, decide_eq_true_eq, Bool.not_eq_true'] at hfew
    rcases hfew with hshort | hrepeated
    · exact absurd h.2.1.1 (Nat.not_le.2 hshort)
    · rw [h.2.1.2] at hrepeated
      cases hrepeated
  · simp_all
  · simp_all
  · simp_all
  · simp_all

theorem vertexInside_iff (hlong : shell.points.length ≠ 1) : shell.vertexInside hole = true ↔
    (∀ q ∈ hole.points, q.real ∈ enclosed shell.points) ∧
      ∃ q ∈ hole.points, q.real ∉ outline shell.points ∧ Plane.turns shell.points q.real ≠ 0 := by
  simp only [vertexInside, Bool.and_eq_true, List.all_map, List.any_map, List.all_eq_true, List.any_eq_true,
    Function.comp_apply, decide_eq_true_eq, Plane.locate_ne_outside_iff hlong, Plane.locate_eq_inside_iff hlong]

theorem severalPoints_of_winding? (hclosed : Plane.isClosed p.points = true) (hlong : minRingPoints ≤ List.length p)
    (h : p.winding? = some wanted) : 1 < p.points.toFinset.card := by
  have hlong' : 4 ≤ p.points.length := by rwa [points, List.length_map]
  rcases Plane.winding?_cases hclosed hlong' with ⟨hnone, -⟩ | ⟨u, v, -, -, huv, -⟩
  · rw [winding?, hnone] at h
    cases h
  · obtain ⟨hpair, hne⟩ := Plane.mem_sides_iff.1 huv
    rw [Finset.one_lt_card]
    exact ⟨u, List.mem_toFinset.2 (hpair.mem (by simp)), v, List.mem_toFinset.2 (hpair.mem (by simp)), hne⟩

end Path

namespace Polygon

theorem check_eq_none_iff {p : Polygon} : p.check = none ↔ p.shell.checkRing .clockwise = none ∧
    ∀ hole ∈ p.holes, hole.checkRing .counterClockwise = none ∧ p.shell.vertexInside hole = true := by
  have hholes : ∀ holes, check.holesFault p holes = none ↔
      ∀ hole ∈ holes, hole.checkRing .counterClockwise = none ∧ p.shell.vertexInside hole = true := by
    intro holes
    induction holes with
    | nil => simp [check.holesFault]
    | cons hole holes ih =>
      rw [check.holesFault, Option.or_eq_none_iff, Option.or_eq_none_iff, ih, List.forall_mem_cons]
      simp
  rw [check, Option.or_eq_none_iff, hholes]

end Polygon

/-- Whether a ring is as its check wants it, its sides being compared pair by pair. -/
def Path.SoundInPairs (wanted : Plane.Winding) (p : Path) : Prop :=
  p.isFinite = true ∧ (minRingPoints ≤ List.length p ∧ p.hasDistinct 3 = true) ∧ Plane.isClosed p.points = true ∧
    ((Plane.edges p.points).Pairwise fun a b => ¬ Plane.conflict (Plane.sides p.points).length a b = true) ∧
    p.winding? = some wanted

instance (wanted : Plane.Winding) (p : Path) : Decidable (p.SoundInPairs wanted) :=
  inferInstanceAs (Decidable (_ ∧ _ ∧ _ ∧ _ ∧ _))

theorem Path.SoundInPairs.checkRing_eq_none {wanted : Plane.Winding} {p : Path} (h : p.SoundInPairs wanted) :
    p.checkRing wanted = none := by
  obtain ⟨hfinite, hpoints, hclosed, hpairs, hdirection⟩ := h
  have hapart := (Plane.selfIntersects_eq_false_iff_conflict hclosed).2 fun _ => hpairs
  exact checkRing_eq_none_iff.2 ⟨hfinite, hpoints, hclosed, hapart, hdirection⟩

theorem Polygon.check_eq_none_of_pairs {p : Polygon} (hshell : p.shell.SoundInPairs .clockwise)
    (hholes : ∀ hole ∈ p.holes, hole.SoundInPairs .counterClockwise ∧ p.shell.vertexInside hole = true) :
    p.check = none :=
  check_eq_none_iff.2 ⟨hshell.checkRing_eq_none, fun hole hhole =>
    ⟨(hholes hole hhole).1.checkRing_eq_none, (hholes hole hhole).2⟩⟩

/-- **How far the check of a polygon ensures that its holes are inside the shell.** -/
theorem sound_polygon_holes {p : Polygon} (hsound : p.check = none) : ∀ hole ∈ p.holes,
    let shell := p.shell.points
    (∀ q ∈ hole.points, q.real ∈ enclosed shell) ∧
      (∀ s ∈ segments hole.points, s.points ⊆ enclosed shell ↔
        ∀ y ∈ s.points, ∀ z ∈ s.points, IsChord shell y z → midpoint ℝ y z ∈ enclosed shell) ∧
      (∀ s ∈ segments hole.points, (s.points ∩ outline shell).Subsingleton → s.points ⊆ enclosed shell) ∧
      (IsConvex shell → outline hole.points ⊆ enclosed shell ∧
        ∀ s ∈ segments hole.points, ∀ t ∈ segments shell, s.meet t ≠ .crossing) := by
  intro hole hhole shell
  obtain ⟨hshell, hholes⟩ := Polygon.check_eq_none_iff.1 hsound
  obtain ⟨-, ⟨hlong, -⟩, hclosed, -, hdirection⟩ := Path.checkRing_eq_none_iff.1 hshell
  have hseveral := Path.severalPoints_of_winding? hclosed hlong hdirection
  have hmore : p.shell.points.length ≠ 1 := by
    rw [Path.points, List.length_map]
    exact (Nat.lt_of_lt_of_le (by decide) hlong).ne'
  obtain ⟨hcorners, w, -, hoff, hturns⟩ := (Path.vertexInside_iff hmore).1 (hholes hole hhole).2
  have hends : ∀ s ∈ segments hole.points, s.start.real ∈ enclosed shell ∧ s.finish.real ∈ enclosed shell := fun s hs =>
    ⟨hcorners _ (Plane.mem_of_mem_segments hs).1, hcorners _ (Plane.mem_of_mem_segments hs).2⟩
  have hchords : ∀ s ∈ segments hole.points, s.points ⊆ enclosed shell ↔
      ∀ y ∈ s.points, ∀ z ∈ s.points, IsChord shell y z → midpoint ℝ y z ∈ enclosed shell :=
    fun s hs => Plane.segment_subset_enclosed_iff hclosed (hends s hs).1 (hends s hs).2
  refine ⟨hcorners, hchords, fun s hs hone => (hchords s hs).2 fun y hy z hz hchord => ?_, fun hconvex => ?_⟩
  · exact absurd (hone ⟨hy, hchord.first⟩ ⟨hz, hchord.last⟩) hchord.ne
  · have henclosed := Plane.enclosed_eq_of_isConvex hclosed hseveral hconvex hoff hturns
    rw [henclosed] at hends ⊢
    refine ⟨?_, fun s hs t ht => Plane.meet_ne_crossing_of_beneathSides (hends s hs).1 (hends s hs).2 ht⟩
    rintro x ⟨s, hs, hx⟩
    exact (Plane.convex_beneathSides shell).segment_subset (hends s hs).1 (hends s hs).2 hx

/-- A square with a square hole. -/
def yard : Polygon :=
  ⟨[⟨0, 0⟩, ⟨0, 4⟩, ⟨4, 4⟩, ⟨4, 0⟩, ⟨0, 0⟩], [[⟨1, 1⟩, ⟨2, 1⟩, ⟨2, 2⟩, ⟨1, 2⟩, ⟨1, 1⟩]]⟩

theorem sound_polygon_holes_yard : yard.check = none ∧ ∀ hole ∈ yard.holes,
    outline hole.points ⊆ enclosed yard.shell.points ∧
      ∀ s ∈ segments hole.points, ∀ t ∈ segments yard.shell.points, s.meet t ≠ .crossing := by
  have hsound : yard.check = none := Polygon.check_eq_none_of_pairs (by decide +kernel) (by decide +kernel)
  have hconvex : IsConvex yard.shell.points := by decide +kernel
  exact ⟨hsound, fun hole hhole => (sound_polygon_holes hsound hole hhole).2.2.2 hconvex⟩

/-- A square that is open at the top between two arms, with a square hole that reaches from arm to arm. -/
def bay : Polygon :=
  ⟨[⟨0, 0⟩, ⟨0, 10⟩, ⟨3, 10⟩, ⟨3, 3⟩, ⟨7, 3⟩, ⟨7, 10⟩, ⟨10, 10⟩, ⟨10, 0⟩, ⟨0, 0⟩],
    [[⟨1, 1⟩, ⟨9, 1⟩, ⟨9, 8⟩, ⟨1, 8⟩, ⟨1, 1⟩]]⟩

/-- **All corners of a hole may be inside while a side of it crosses the shell**, where the shell is not convex. -/
theorem not_sound_polygon_holes :
    (¬ ∀ p : Polygon, (∀ ring ∈ p.rings, ring.isFinite = true) → p.check = none → ∀ hole ∈ p.holes,
        ∀ s ∈ segments hole.points, ∀ t ∈ segments p.shell.points, s.meet t ≠ .crossing) ∧
      ¬ ∀ p : Polygon, (∀ ring ∈ p.rings, ring.isFinite = true) → p.check = none → ∀ hole ∈ p.holes,
        outline hole.points ⊆ enclosed p.shell.points := by
  have hfinite : ∀ ring ∈ bay.rings, ring.isFinite = true := by decide +kernel
  have hsound : bay.check = none := Polygon.check_eq_none_of_pairs (by decide +kernel) (by decide +kernel)
  constructor
  · intro h
    have hcross : ∃ hole ∈ bay.holes, ∃ s ∈ segments hole.points, ∃ t ∈ segments bay.shell.points,
        s.meet t = .crossing := by decide +kernel
    obtain ⟨hole, hhole, s, hs, t, ht, hmeet⟩ := hcross
    exact h bay hfinite hsound hole hhole s hs t ht hmeet
  · intro h
    -- the middle of the opening is on the side that goes across it
    have hopening : ∃ hole ∈ bay.holes, ∃ s ∈ segments hole.points, s.holds (Coord.point ⟨5, 8⟩) = true ∧
        Plane.locate bay.shell.points (Coord.point ⟨5, 8⟩) = .outside := by decide +kernel
    obtain ⟨hole, hhole, s, hs, hheld, houtside⟩ := hopening
    have hon : (Coord.point ⟨5, 8⟩).real ∈ outline hole.points := ⟨s, hs, Plane.Segment.holds_iff.1 hheld⟩
    have hlong : bay.shell.points.length ≠ 1 := by decide +kernel
    exact (Plane.locate_ne_outside_iff hlong _).2 (h bay hfinite hsound hole hhole hon) houtside

end MapFeatures
