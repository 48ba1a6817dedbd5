import MapFeatures.Proofs.Number.Units
import MapFeatures.Proofs.Plane.Direction
import MapFeatures.Proofs.Shape.Faults
/-!
# Corrected — what a correction mends and what it leaves

A corrected ring is closed (`isClosed_corrected`).  It is turned round at most once, by what its direction was before.
A ring that has three points and does not meet itself passes each point once, so turned round it runs the other way
(`winding?_corrected`), and no correction leaves an open ring or a wrong direction to be found (`check_correct`).

A ring that touches itself at its least point may have the wrong direction both ways, as it is told by the first of its
passes through that point.  Such a ring, unless it has the same points backwards, is turned round again by each
correction, and no other is (`correct_correct_iff`).
-/
namespace MapFeatures

open Plane (Winding isClosed sides selfIntersects IsLeast PassesOnce)

namespace Path

variable {p : Path} {wanted : Winding}

/-! ## Corrected rings -/

/-- The ring closed and in the wanted direction. -/
def corrected (wanted : Winding) (p : Path) : Path := p.close.orient wanted

/-- **A ring is turned round if it runs the other way.** -/
theorem orient_eq_if (wanted : Winding) (p : Path) :
    p.orient wanted = if p.winding? = some wanted.opposite then p.reverse else p := by
  unfold orient
  cases p.winding? with
  | none => rfl
  | some w =>
    simp only [Option.some.injEq, Winding.eq_opposite_iff]
    exact (ite_not _ _ _).symm

theorem mem_corrected {c : Coord} (h : c ∈ p.corrected wanted) : c ∈ p := by
  rcases along_orient wanted p.close with he | he
  · exact mem_close (he ▸ h)
  · exact mem_close (List.mem_reverse.1 (he ▸ h))

theorem isFinite_corrected (hfinite : p.isFinite = true) (wanted : Winding) : (p.corrected wanted).isFinite = true :=
  List.all_eq_true.2 fun _ hc => isFinite_of_mem hfinite (mem_corrected hc)

theorem points_reverse (p : Path) : points p.reverse = (points p).reverse := List.map_reverse

theorem isClosed_corrected (hfinite : p.isFinite = true) (wanted : Winding) :
    isClosed (p.corrected wanted).points = true := by
  have hclosed := isClosed_close hfinite
  rcases along_orient wanted p.close with he | he
  · rw [corrected, he, hclosed]
  · rw [corrected, he, points_reverse, Plane.isClosed_reverse, hclosed]

/-! ## Three points -/

theorem hasDistinct_iff : ∀ (n : Nat) (p : Path), hasDistinct n p = true ↔ n ≤ (List.toFinset p).card
  | 0, p => iff_of_true (by rw [hasDistinct]) (Nat.zero_le _)
  | n + 1, [] => iff_of_false Bool.false_ne_true (Nat.not_succ_le_zero n)
  | n + 1, c :: rest => by
    have hrest : (rest.filter (· ≠ c)).toFinset = (c :: rest).toFinset.erase c := by
      ext d
      simp [and_comm]
    rw [hasDistinct, hasDistinct_iff n, hrest, Finset.card_erase_of_mem (by simp)]
    have hpos : 0 < (c :: rest).toFinset.card := Finset.card_pos.2 ⟨c, by simp⟩
    omega

/-- **Plain coordinates are at as many points as there are of them.** -/
theorem card_toFinset_points (hplain : ∀ c ∈ p, c.Plain) : p.points.toFinset.card = (List.toFinset p).card := by
  have himage : p.points.toFinset = (List.toFinset p).image Coord.point := by
    ext q
    simp [points]
  rw [himage]
  refine Finset.card_image_of_injOn fun c hc d hd h => ?_
  simp only [List.coe_toFinset, Set.mem_ofPred_eq] at hc hd
  exact (Coord.point_inj (hplain c hc) (hplain d hd)).1 h

theorem three_le_sides (hplain : ∀ c ∈ p, c.Plain) (hclosed : isClosed p.points = true)
    (hdistinct : p.hasDistinct 3 = true) : 3 ≤ (sides p.points).length := by
  have hthree : 3 ≤ p.points.toFinset.card := by rwa [card_toFinset_points hplain, ← hasDistinct_iff]
  exact hthree.trans (Plane.card_toFinset_le_sides hclosed (Nat.lt_of_lt_of_le (by decide) hthree))

/-! ## The direction of a corrected ring -/

/-- **A corrected ring runs as wanted**, if it is long enough and does not meet itself. -/
theorem winding?_corrected (hplain : ∀ c ∈ p, c.Plain) (hlong : minRingPoints ≤ List.length (p.corrected wanted))
    (hdistinct : (p.corrected wanted).hasDistinct 3 = true)
    (hapart : selfIntersects (p.corrected wanted).points = false) :
    (p.corrected wanted).winding? = some wanted := by
  have hfinite : p.isFinite = true := List.all_eq_true.2 fun c hc => (hplain c hc).1
  have hclosed := isClosed_corrected hfinite wanted
  have hcount := three_le_sides (fun c hc => hplain c (mem_corrected hc)) hclosed hdistinct
  have hlong' : 4 ≤ (p.corrected wanted).points.length := by rwa [points, List.length_map]
  obtain ⟨w, hw⟩ := Option.isSome_iff_exists.1 (Plane.isSome_winding? hclosed hlong' hcount hapart)
  have hother : w ≠ wanted.opposite := by
    rintro rfl
    by_cases hturn : p.close.winding? = some wanted.opposite
    · -- turned round it runs the other way, so it has run the wanted way before
      have hback := Plane.winding?_reverse hclosed fun v _ => Plane.passesOnce hclosed hcount hapart v
      rw [hw, corrected, orient_eq_if, if_pos hturn, points_reverse, List.reverse_reverse] at hback
      exact Winding.eq_opposite_iff.1 rfl (Option.some.inj (hback.symm.trans hturn))
    · rw [corrected, orient_eq_if, if_neg hturn] at hw
      exact hturn hw
  rw [winding?, hw, not_ne_iff.1 (mt Winding.eq_opposite_iff.2 hother)]

theorem checkRing_corrected (hplain : ∀ c ∈ p, c.Plain) :
    (p.corrected wanted).checkRing wanted ≠ some .notClosed ∧
      (p.corrected wanted).checkRing wanted ≠ some .wrongOrientation := by
  have hfinite : p.isFinite = true := List.all_eq_true.2 fun c hc => (hplain c hc).1
  have hclosed := isClosed_corrected hfinite wanted
  unfold checkRing
  rw [isFinite_corrected hfinite, hclosed, Bool.not_true, if_neg Bool.false_ne_true]
  split
  · decide
  · next hcounts =>
    rw [Bool.not_eq_true, Bool.or_eq_false_iff, Bool.not_eq_false', decide_eq_false_iff_not, Nat.not_lt] at hcounts
    rw [if_neg Bool.false_ne_true]
    split
    · decide
    · next hmeets =>
      rw [Bool.not_eq_true] at hmeets
      rw [if_neg (not_not.2 (winding?_corrected hplain hcounts.1 hcounts.2 hmeets))]
      decide

end Path

/-! ## Corrected areas -/

/-- The rings of a polygon, each with the direction that it is to run in. -/
def Polygon.directed (p : Polygon) : List (Winding × Path) :=
  (.clockwise, p.shell) :: p.holes.map fun hole => (.counterClockwise, hole)

theorem Polygon.correct_eq (p : Polygon) :
    p.correct = ⟨p.shell.corrected .clockwise, p.holes.map (Path.corrected .counterClockwise)⟩ := by
  rw [correct, ofRings, orient, List.map_map]
  rfl

/-- **A correction corrects each ring.** -/
theorem Polygon.directed_correct (p : Polygon) :
    p.correct.directed = p.directed.map fun r => (r.1, r.2.corrected r.1) := by
  rw [correct_eq, directed, directed, List.map_cons, List.map_map, List.map_map]
  rfl

theorem Polygon.mem_rings_of_mem_directed {p : Polygon} {r : Winding × Path} (h : r ∈ p.directed) : r.2 ∈ p.rings := by
  rw [directed, List.mem_cons, List.mem_map] at h
  obtain rfl | ⟨hole, hhole, rfl⟩ := h
  · exact List.mem_cons_self
  · exact List.mem_cons_of_mem _ hhole

/-- A fault is one of a ring, unless it tells that a hole is not inside. -/
theorem Polygon.checkRing_of_mem_faults {p : Polygon} {fault : Fault} (h : fault ∈ p.faults)
    (hplace : fault ≠ .interiorRingOutside) : ∃ r ∈ p.directed, r.2.checkRing r.1 = some fault := by
  rw [faults, List.mem_append, Option.mem_toList, List.mem_flatMap] at h
  obtain hshell | ⟨hole, hhole, hfault⟩ := h
  · exact ⟨(.clockwise, p.shell), List.mem_cons_self, hshell⟩
  · rw [holeFaults, List.mem_append, Option.mem_toList] at hfault
    obtain hfault | houtside := hfault
    · exact ⟨(.counterClockwise, hole), List.mem_cons_of_mem _ (List.mem_map_of_mem hhole), hfault⟩
    · split at houtside
      · cases houtside
      · exact absurd (List.mem_singleton.1 houtside) hplace

theorem Polygon.not_mem_faults_correct {p : Polygon} (hplain : ∀ ring ∈ p.rings, ∀ c ∈ ring, c.Plain) :
    Fault.notClosed ∉ p.correct.faults ∧ Fault.wrongOrientation ∉ p.correct.faults := by
  have hring : ∀ r ∈ p.correct.directed,
      r.2.checkRing r.1 ≠ some .notClosed ∧ r.2.checkRing r.1 ≠ some .wrongOrientation := by
    rw [directed_correct, List.forall_mem_map]
    exact fun r hr => Path.checkRing_corrected (hplain r.2 (mem_rings_of_mem_directed hr))
  constructor
  · intro hfault
    obtain ⟨r, hr, hcheck⟩ := checkRing_of_mem_faults hfault (by decide)
    exact (hring r hr).1 hcheck
  · intro hfault
    obtain ⟨r, hr, hcheck⟩ := checkRing_of_mem_faults hfault (by decide)
    exact (hring r hr).2 hcheck

/-- **No check finds an open ring or a wrong direction in what is corrected**, in a polygon or in several: each ring
that has enough points and does not meet itself runs as it is to. -/
theorem check_correct {mp : MultiPolygon} (hplain : ∀ p ∈ mp, ∀ ring ∈ p.rings, ∀ c ∈ ring, c.Plain) :
    (∀ p ∈ mp, p.correct.check ≠ some .notClosed ∧ p.correct.check ≠ some .wrongOrientation) ∧
      (mp.correct.check ≠ some .notClosed ∧ mp.correct.check ≠ some .wrongOrientation) ∧
      ∀ p ∈ mp, ∀ r ∈ p.correct.directed, minRingPoints ≤ List.length r.2 → r.2.hasDistinct 3 = true →
        selfIntersects r.2.points = false → r.2.winding? = some r.1 := by
  refine ⟨fun p hp => ?_, ?_, fun p hp => ?_⟩
  · obtain ⟨hclosed, hdirection⟩ := Polygon.not_mem_faults_correct (hplain p hp)
    rw [Polygon.check_eq]
    exact ⟨fun h => hclosed (List.mem_of_head? h), fun h => hdirection (List.mem_of_head? h)⟩
  · have hfaults : Fault.notClosed ∉ mp.correct.faults ∧ Fault.wrongOrientation ∉ mp.correct.faults := by
      simp only [MultiPolygon.faults, MultiPolygon.correct, List.flatMap_map, List.mem_flatMap, not_exists, not_and]
      exact ⟨fun p hp => (Polygon.not_mem_faults_correct (hplain p hp)).1,
        fun p hp => (Polygon.not_mem_faults_correct (hplain p hp)).2⟩
    rw [MultiPolygon.check_eq]
    split
    · decide
    · exact ⟨fun h => hfaults.1 (List.mem_of_head? h), fun h => hfaults.2 (List.mem_of_head? h)⟩
  · rw [Polygon.directed_correct, List.forall_mem_map]
    intro r hr hlong hdistinct hapart
    exact Path.winding?_corrected (hplain p hp r.2 (Polygon.mem_rings_of_mem_directed hr)) hlong hdistinct hapart

/-- A square with a square hole, both open and running the wrong way. -/
def courtyard : Polygon :=
  ⟨[⟨0, 0⟩, ⟨4, 0⟩, ⟨4, 4⟩, ⟨0, 4⟩], [[⟨1, 1⟩, ⟨1, 2⟩, ⟨2, 2⟩, ⟨2, 1⟩]]⟩

theorem check_correct_courtyard :
    (∀ p ∈ [courtyard], ∀ ring ∈ p.rings, ∀ c ∈ ring, c.Plain) ∧ courtyard.check = some .notClosed ∧
      courtyard.correct.check ≠ some .notClosed ∧ ∀ r ∈ courtyard.correct.directed, r.2.winding? = some r.1 := by
  have hplain : ∀ p ∈ [courtyard], ∀ ring ∈ p.rings, ∀ c ∈ ring, c.Plain := by decide +kernel
  obtain ⟨hcheck, -, hdirection⟩ := check_correct hplain
  have hproper : ∀ r ∈ courtyard.correct.directed, minRingPoints ≤ List.length r.2 ∧ r.2.hasDistinct 3 = true ∧
      isClosed r.2.points = true ∧ (Plane.edges r.2.points).Pairwise fun a b =>
        ¬ Plane.conflict (sides r.2.points).length a b = true := by decide +kernel
  refine ⟨hplain, by decide +kernel, (hcheck courtyard List.mem_cons_self).1, fun r hr => ?_⟩
  obtain ⟨hlong, hdistinct, hclosed, hpairs⟩ := hproper r hr
  have hapart := (Plane.selfIntersects_eq_false_iff_conflict hclosed).2 fun _ => hpairs
  exact hdirection courtyard List.mem_cons_self r hr hlong hdistinct hapart

/-! ## Correcting twice -/

/-- Whether a ring that is to be turned round runs as wanted then, or has the same points read backwards. -/
def Plane.Steady (wanted : Winding) (ring : List Plane.Point) : Prop :=
  winding? ring = some wanted.opposite → winding? ring.reverse = some wanted.opposite → ring.reverse = ring

instance (wanted : Winding) (ring : List Plane.Point) : Decidable (Plane.Steady wanted ring) :=
  inferInstanceAs (Decidable (_ → _ → _))

namespace Path

variable {p : Path} {wanted : Winding}

theorem points_orient (wanted : Winding) (p : Path) : (p.orient wanted).points =
    if Plane.winding? p.points = some wanted.opposite then p.points.reverse else p.points := by
  rw [orient_eq_if, apply_ite points, points_reverse]
  rfl

theorem orient_orient_iff :
    ((p.orient wanted).orient wanted).points = (p.orient wanted).points ↔ Plane.Steady wanted p.points := by
  unfold Plane.Steady
  rw [points_orient, points_orient]
  split
  · next hturn =>
    split
    · next hback =>
      rw [List.reverse_reverse]
      exact ⟨fun h _ _ => h.symm, fun h => (h hturn hback).symm⟩
    · next hback => exact iff_of_true rfl fun _ h => absurd h hback
  · next hkept => exact iff_of_true rfl fun h => absurd h hkept

/-- **A ring that passes its least point once is turned round once.** -/
theorem orient_orient (hclosed : isClosed p.points = true)
    (honce : ∀ v, IsLeast p.points v → PassesOnce p.points v) :
    (p.orient wanted).orient wanted = p.orient wanted := by
  rw [orient_eq_if wanted p]
  split
  · next hturn =>
    have hback : winding? p.reverse ≠ some wanted.opposite := by
      rw [winding?, points_reverse, Plane.winding?_reverse hclosed honce]
      rw [winding?] at hturn
      rw [hturn, Option.map_some, Ne, Option.some.injEq]
      exact Winding.eq_opposite_iff.1 rfl
    rw [orient_eq_if, if_neg hback]
  · next hkept => rw [orient_eq_if, if_neg hkept]

theorem corrected_corrected (hfinite : p.isFinite = true) (wanted : Winding) :
    (p.corrected wanted).corrected wanted = (p.close.orient wanted).orient wanted := by
  have hclose := close_eq_of_isClosed (isFinite_corrected hfinite wanted) (isClosed_corrected hfinite wanted)
  rw [corrected, hclose, corrected]

end Path

namespace Polygon

variable {p : Polygon}

/-- **Correcting twice leaves all points where they are exactly if each ring is steady.** -/
theorem region_correct_correct_iff (hfinite : ∀ ring ∈ p.rings, ring.isFinite = true) :
    p.correct.correct.region = p.correct.region ↔ ∀ r ∈ p.directed, Plane.Steady r.1 r.2.close.points := by
  have hring : ∀ ring ∈ p.rings, ∀ wanted, ((ring.corrected wanted).corrected wanted).points =
      (ring.corrected wanted).points ↔ Plane.Steady wanted ring.close.points := by
    intro ring hr wanted
    rw [Path.corrected_corrected (hfinite ring hr), Path.corrected, Path.orient_orient_iff]
  rw [correct_eq, correct_eq, region, region, Plane.Region.mk.injEq, List.map_map, List.map_map, List.map_map,
    List.map_inj_left, directed, List.forall_mem_cons, List.forall_mem_map]
  exact and_congr (hring p.shell List.mem_cons_self .clockwise)
    (forall₂_congr fun hole hhole => hring hole (List.mem_cons_of_mem _ hhole) .counterClockwise)

theorem correct_correct (hfinite : ∀ ring ∈ p.rings, ring.isFinite = true)
    (honce : ∀ ring ∈ p.rings, ∀ v, IsLeast ring.close.points v → PassesOnce ring.close.points v) :
    p.correct.correct = p.correct := by
  have hring : ∀ ring ∈ p.rings, ∀ wanted, (ring.corrected wanted).corrected wanted = ring.corrected wanted := by
    intro ring hr wanted
    rw [Path.corrected_corrected (hfinite ring hr), Path.corrected,
      Path.orient_orient (Path.isClosed_close (hfinite ring hr)) (honce ring hr)]
  rw [correct_eq, correct_eq, Polygon.mk.injEq, List.map_map, List.map_inj_left]
  exact ⟨hring p.shell List.mem_cons_self .clockwise,
    fun hole hhole => hring hole (List.mem_cons_of_mem _ hhole) .counterClockwise⟩

end Polygon

/-- **Correcting twice is correcting once exactly if each ring is steady**, coordinates being compared as numbers.
Nothing changes at all if each ring passes its least point once. -/
theorem correct_correct_iff {mp : MultiPolygon} (hfinite : ∀ p ∈ mp, ∀ ring ∈ p.rings, ring.isFinite = true) :
    (mp.correct.correct.map Polygon.region = mp.correct.map Polygon.region ↔
        ∀ p ∈ mp, ∀ r ∈ p.directed, Plane.Steady r.1 r.2.close.points) ∧
      ((∀ p ∈ mp, ∀ ring ∈ p.rings, ∀ v, IsLeast ring.close.points v → PassesOnce ring.close.points v) →
        mp.correct.correct = mp.correct) := by
  constructor
  · rw [MultiPolygon.correct, MultiPolygon.correct, List.map_map, List.map_map, List.map_map, List.map_inj_left]
    exact forall₂_congr fun p hp => Polygon.region_correct_correct_iff (hfinite p hp)
  · intro honce
    rw [MultiPolygon.correct, MultiPolygon.correct, List.map_map]
    exact List.map_congr_left fun p hp => Polygon.correct_correct (hfinite p hp) (honce p hp)

theorem correct_correct_courtyard :
    (∀ p ∈ [courtyard], ∀ ring ∈ p.rings, ring.isFinite = true) ∧
      (∀ p ∈ [courtyard], ∀ r ∈ p.directed, Plane.Steady r.1 r.2.close.points) ∧
      MultiPolygon.correct (MultiPolygon.correct [courtyard]) = MultiPolygon.correct [courtyard] := by
  have hfinite : ∀ p ∈ [courtyard], ∀ ring ∈ p.rings, ring.isFinite = true := by decide +kernel
  have hproper : ∀ p ∈ [courtyard], ∀ ring ∈ p.rings, isClosed ring.close.points = true ∧
      3 ≤ (sides ring.close.points).length ∧ (Plane.edges ring.close.points).Pairwise fun a b =>
        ¬ Plane.conflict (sides ring.close.points).length a b = true := by decide +kernel
  have htwice := (correct_correct_iff hfinite).2 fun p hp ring hr v _ => by
    obtain ⟨hclosed, hcount, hpairs⟩ := hproper p hp ring hr
    exact Plane.passesOnce hclosed hcount ((Plane.selfIntersects_eq_false_iff_conflict hclosed).2 fun _ => hpairs) v
  exact ⟨hfinite, (correct_correct_iff hfinite).1.1 (congrArg (List.map Polygon.region) htwice), htwice⟩

/-- Two triangles that touch in their least point, both traced against the clock. -/
def pinched : Polygon := ⟨[⟨1, 2⟩, ⟨0, 0⟩, ⟨1, -2⟩, ⟨2, -1⟩, ⟨0, 0⟩, ⟨2, 0⟩, ⟨1, 2⟩], []⟩

/-- **The triangles are turned round and back**: read backwards, the first pass through their point leads from the one
to the other, and it bends against the clock too. -/
theorem not_correct_correct :
    ¬ ∀ mp : MultiPolygon, (∀ p ∈ mp, ∀ ring ∈ p.rings, ring.isFinite = true) →
      mp.correct.correct.map Polygon.region = mp.correct.map Polygon.region := by
  intro h
  have hturned : (MultiPolygon.correct (MultiPolygon.correct [pinched])).map Polygon.region ≠
      (MultiPolygon.correct [pinched]).map Polygon.region := by decide +kernel
  exact hturned (h [pinched] (by decide +kernel))

end MapFeatures
