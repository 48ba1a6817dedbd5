import MapFeatures.Shape
/-!
# Orientation — shells run clockwise, holes against the clock

`orient` reverses a ring only if its direction is known and is the other one, so a ring without a direction stays as
it is.  In no case it does more (`Polygon.along_orient`).
-/
namespace MapFeatures

open Plane (Winding)

namespace Path

def winding? (p : Path) : Option Winding := Plane.winding? p.points

/-- The ring in the wanted direction. -/
def orient (wanted : Winding) (p : Path) : Path :=
  match p.winding? with
  | none => p
  | some w => if w = wanted then p else p.reverse

/-- Whether a path is a ring, in its own direction or in the other. -/
def Along (ring p : Path) : Prop := p = ring ∨ p = ring.reverse

theorem along_orient (wanted : Winding) (p : Path) : p.Along (p.orient wanted) := by
  unfold orient
  split
  · exact Or.inl rfl
  · split
    · exact Or.inl rfl
    · exact Or.inr rfl

end Path

namespace Polygon

/-- Whether a polygon has the rings of another one, each in its own direction or in the other. -/
structure Along (p q : Polygon) : Prop where
  shell : p.shell.Along q.shell
  count : p.holes.length = q.holes.length
  holes : ∀ s ∈ p.holes.zip q.holes, s.1.Along s.2

/-- The polygon with its shell clockwise and its holes counter-clockwise. -/
def orient (p : Polygon) : Polygon := ⟨p.shell.orient .clockwise, p.holes.map (Path.orient .counterClockwise)⟩

theorem along_orient (p : Polygon) : p.Along p.orient where
  shell := Path.along_orient .clockwise p.shell
  count := by rw [orient, List.length_map]
  holes := by
    rintro ⟨hole, turned⟩ hmem
    rw [orient, ← List.map_id p.holes, List.map_map, List.zip_map'] at hmem
    obtain ⟨r, -, hr⟩ := List.mem_map.1 hmem
    cases hr
    exact Path.along_orient .counterClockwise r

/-- The polygon with closed rings in the right directions. -/
def correct (p : Polygon) : Polygon := (ofRings p.shell p.holes).orient

end Polygon

def MultiPolygon.correct (mp : MultiPolygon) : MultiPolygon := mp.map Polygon.correct

end MapFeatures
