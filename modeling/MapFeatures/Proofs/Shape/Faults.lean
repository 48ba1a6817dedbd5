import MapFeatures.Proofs.Ring.Assembled
/-!
# Faults — a check tells the first fault of a shape

The faults of an area are those of its rings in order, and `check` is the first of them (`MultiPolygon.check_eq`).  Of a
ring that comes of locations too few points means fewer than three distinct ones (`checkRing_eq_tooFewPoints_iff`), of a
line fewer than two (`checkLines_eq`).
-/
namespace MapFeatures

/-! ## Areas -/

namespace Polygon

/-- All faults of a hole, those of the ring itself first. -/
def holeFaults (p : Polygon) (hole : Path) : List Fault :=
  (hole.checkRing .counterClockwise).toList ++ if p.shell.vertexInside hole then [] else [.interiorRingOutside]

/-- All faults of a polygon, those of the shell first. -/
def faults (p : Polygon) : List Fault := (p.shell.checkRing .clockwise).toList ++ p.holes.flatMap p.holeFaults

theorem head?_toList_append {α : Type} (a : Option α) (l : List α) : (a.toList ++ l).head? = a.or l.head? := by
  cases a with
  | none => rfl
  | some a => rfl

theorem holesFault_eq (p : Polygon) : ∀ holes : List Path, check.holesFault p holes = (holes.flatMap p.holeFaults).head?
  | [] => rfl
  | hole :: holes => by
    rw [check.holesFault, holesFault_eq p holes, List.flatMap_cons, holeFaults, List.append_assoc, head?_toList_append,
      Option.or_assoc]
    split
    · rfl
    · rfl

theorem check_eq (p : Polygon) : p.check = p.faults.head? := by
  rw [check, holesFault_eq, faults, head?_toList_append]

end Polygon

namespace MultiPolygon

/-- All faults of a multi-polygon in order. -/
def faults (mp : MultiPolygon) : List Fault := mp.flatMap Polygon.faults

/-- **A check tells the first fault**, or that there is nothing to check. -/
theorem check_eq (mp : MultiPolygon) : mp.check = if mp.isEmpty then some .tooFewPoints else mp.faults.head? := by
  have hfirst : Polygon.check = fun p => p.faults.head? := funext Polygon.check_eq
  rw [check, faults, List.head?_flatMap, hfirst]

end MultiPolygon

/-! ## Too few points -/

namespace Path

variable {p : Path}

/-- **A ring of locations has too few points if fewer than three are distinct.** -/
theorem checkRing_eq_tooFewPoints_iff (h : p.IsRing) (wanted : Plane.Winding) :
    p.checkRing wanted = some .tooFewPoints ↔ hasDistinct 3 p = false := by
  have hlong : decide (List.length p < minRingPoints) = false := decide_eq_false (Nat.not_lt.2 h.long)
  rw [checkRing, h.finite, hlong, Bool.false_or]
  cases hasDistinct 3 p with
  | false => exact iff_of_true rfl rfl
  | true =>
    refine iff_of_false ?_ (by decide)
    rw [Bool.not_true, if_neg Bool.false_ne_true, if_neg Bool.false_ne_true]
    split
    · decide
    · split
      · decide
      · split
        · decide
        · decide

theorem checkLine_eq (h : p.isFinite = true) :
    p.checkLine = if hasDistinct 2 p then none else some .tooFewPoints := by
  rw [checkLine, h]
  cases hasDistinct 2 p with
  | false => rfl
  | true => rfl

end Path

/-- Whether there are lines, and each has two distinct points. -/
def AllLines (lines : List Path) : Prop := lines ≠ [] ∧ ∀ p ∈ lines, p.hasDistinct 2 = true

instance (lines : List Path) : Decidable (AllLines lines) := inferInstanceAs (Decidable (_ ∧ _))

/-- **Lines have too few points unless each is a line**, and no other fault. -/
theorem checkLines_eq {lines : List Path} (h : ∀ p ∈ lines, p.isFinite = true) :
    checkLines lines = if AllLines lines then none else some .tooFewPoints := by
  unfold checkLines
  by_cases hempty : lines = []
  · rw [if_pos (List.isEmpty_iff.2 hempty), if_neg fun hall => hall.1 hempty]
  · rw [if_neg fun he => hempty (List.isEmpty_iff.1 he)]
    by_cases hall : ∀ p ∈ lines, p.hasDistinct 2 = true
    · rw [if_pos ⟨hempty, hall⟩, List.findSome?_eq_none_iff]
      intro p hp
      rw [Path.checkLine_eq (h p hp), if_pos (hall p hp)]
    · rw [if_neg fun hboth => hall hboth.2]
      match hfirst : lines.findSome? Path.checkLine with
      | none =>
        refine absurd (fun p hp => ?_) hall
        have hsound := List.findSome?_eq_none_iff.1 hfirst p hp
        rw [Path.checkLine_eq (h p hp)] at hsound
        exact Decidable.byContradiction fun hfew => by rw [if_neg hfew] at hsound; cases hsound
      | some fault =>
        obtain ⟨p, hp, hfault⟩ := List.exists_of_findSome?_eq_some hfirst
        rw [Path.checkLine_eq (h p hp)] at hfault
        split at hfault
        · cases hfault
        · exact hfault.symm

/-- **An area has too few points somewhere if one of its rings has.** -/
theorem MultiPolygon.tooFewPoints_mem_faults_iff {mp : MultiPolygon} (h : ∀ p ∈ mp, ∀ ring ∈ p.rings, ring.IsRing) :
    .tooFewPoints ∈ mp.faults ↔ ∃ ring ∈ mp.flatMap Polygon.rings, ring.hasDistinct 3 = false := by
  have hpolygon : ∀ p ∈ mp, (.tooFewPoints ∈ p.faults ↔ ∃ ring ∈ p.rings, ring.hasDistinct 3 = false) := by
    intro p hp
    have hring := fun ring hr => Path.checkRing_eq_tooFewPoints_iff (h p hp ring hr)
    have hhole : ∀ hole ∈ p.holes, (.tooFewPoints ∈ p.holeFaults hole ↔ hole.hasDistinct 3 = false) := by
      intro hole hh
      rw [Polygon.holeFaults, List.mem_append, Option.mem_toList,
        ← hring hole (List.mem_cons_of_mem _ hh) .counterClockwise]
      split
      · simp
      · simp
    simp only [Polygon.rings, List.mem_cons, exists_eq_or_imp]
    rw [Polygon.faults, List.mem_append, Option.mem_toList, hring p.shell List.mem_cons_self, List.mem_flatMap]
    refine or_congr_right (exists_congr fun hole => ?_)
    exact and_congr_right fun hh => hhole hole hh
  rw [faults, List.mem_flatMap]
  constructor
  · rintro ⟨p, hp, hfault⟩
    obtain ⟨ring, hring, hfew⟩ := (hpolygon p hp).1 hfault
    exact ⟨ring, List.mem_flatMap.2 ⟨p, hp, hring⟩, hfew⟩
  · rintro ⟨ring, hring, hfew⟩
    obtain ⟨p, hp, hring⟩ := List.mem_flatMap.1 hring
    exact ⟨p, hp, (hpolygon p hp).2 ⟨ring, hring, hfew⟩⟩

end MapFeatures
