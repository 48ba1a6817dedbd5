import MapFeatures.Ring.Merge
import MapFeatures.Shape.Measure
import MapFeatures.Shape.Validity
/-!
# Assembly — multi-polygons from outer and inner rings

Every outer ring is a shell.  An inner ring becomes a hole of the smallest shell around it, and is dropped if there is
none.  What is around what, how large a shell is and which way its rings run is asked of `Primitives`; the program's own
are `Primitives.exact`.
-/
namespace MapFeatures
namespace Assembly

/-- **What is asked of rings and shells** to put them together. -/
structure Primitives where
  Box : Type
  /-- The box around a ring, if there is one. -/
  ringBox? : Path → Option Box
  /-- The box around a shell, if there is one. -/
  shellBox? : Polygon → Option Box
  boxesMeet : Box → Box → Bool
  /-- Whether a coordinate is inside a shell or on its boundary. -/
  touches : Polygon → Coord → Bool
  /-- Whether a coordinate is properly inside a shell. -/
  contains : Polygon → Coord → Bool
  area : Polygon → Float
  /-- The polygon with its rings in the right directions. -/
  orient : Polygon → Polygon
  along_orient : ∀ p : Polygon, p.Along (orient p)

namespace Primitives

variable (P : Primitives)

/-- Whether `ring` lies within `shell`: their boxes meet, no coordinate of the ring is outside, one is inside. -/
def within (ring : Path) (shell : Polygon) : Bool :=
  match P.ringBox? ring, P.shellBox? shell with
  | some b, some c => P.boxesMeet c b && ring.all (P.touches shell) && ring.any (P.contains shell)
  | _, _ => false

/-- The number of the first of those shells around `ring` that have the least area, in the order of all floats. -/
def container? (shells : List Polygon) (ring : Path) : Option Nat :=
  let candidates := shells.zipIdx.filter fun s => P.within ring s.1
  (candidates.map fun s => (Binary64.totalRank (P.area s.1), s.2)).foldl smaller none |>.map (·.2)
where
  smaller : Option (Int × Nat) → Int × Nat → Option (Int × Nat)
    | none, c => some c
    | some best, c => some (if c.1 < best.1 then c else best)

/-- The shells, each with the rings as holes that it is the container of. -/
def withHoles (shells : List Polygon) (rings : List Path) : List Polygon :=
  rings.foldl (fun polygons ring =>
    match P.container? shells ring with
    | none => polygons
    | some i => polygons.modify i (·.addHole ring)) shells

/-- The polygon with closed rings in the right directions. -/
def correct (p : Polygon) : Polygon := P.orient (Polygon.ofRings p.shell p.holes)

/-- The corrected multi-polygon of outer and inner rings. -/
def multiPolygon (outer inner : List Fragment) : MultiPolygon :=
  let shells := outer.map fun ring => Polygon.ofRings (Path.ofLocations ring) []
  (P.withHoles shells (inner.map Path.ofLocations)).map P.correct

/-- What lies where is decided on exact points, areas are computed in floats, and shells run clockwise. -/
def exact : Primitives where
  Box := Plane.Box
  ringBox? ring := Plane.Box.around? ring.points
  shellBox? shell := shell.region.box?
  boxesMeet := Plane.Box.meets
  touches shell c := shell.region.holds c.point
  contains shell c := shell.region.locate c.point = .inside
  area := Polygon.area
  orient := Polygon.orient
  along_orient := Polygon.along_orient

end Primitives

/-- **The corrected multi-polygon** of outer and inner rings. -/
def multiPolygon (outer inner : List Fragment) : MultiPolygon := Primitives.exact.multiPolygon outer inner

end Assembly
end MapFeatures
