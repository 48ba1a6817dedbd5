import MapFeatures.Plane.Ring
/-!
# Region — areas with holes
-/
namespace MapFeatures
namespace Plane

/-- What is inside the shell and outside every hole. -/
structure Region where
  shell : List Point
  holes : List (List Point)
deriving DecidableEq, Repr

namespace Region

def rings (r : Region) : List (List Point) := r.shell :: r.holes

def edges (r : Region) : List Segment := r.rings.flatMap segments

def box? (r : Region) : Option Box := Box.around? r.shell

/-- The place of `p`, which is inside the shell, among the holes: the first one that has it decides. -/
def locateAmong (p : Point) : List (List Point) → Place
  | [] => .inside
  | hole :: rest =>
    match Plane.locate hole p with
    | .outside => locateAmong p rest
    | .boundary => .boundary
    | .inside => .outside

/-- Where `p` lies. -/
def locate (r : Region) (p : Point) : Place :=
  match Plane.locate r.shell p with
  | .outside => .outside
  | .boundary => .boundary
  | .inside => locateAmong p r.holes

def holds (r : Region) (p : Point) : Bool := r.locate p ≠ .outside

def scale (k : Int) (r : Region) : Region := ⟨r.shell.map (Point.scale k), r.holes.map (·.map (Point.scale k))⟩

/-- Whether the region and the segment have a point in common. -/
def meetsSegment (r : Region) (s : Segment) : Bool :=
  r.edges.any (·.meets s) || r.holds s.start || r.holds s.finish

def meetsPath (r : Region) (path : List Point) : Bool := (segments path).any r.meetsSegment

/-- Whether two regions have a point in common: a ring of the second meets the first, or the shell of the first lies in
the second. -/
def meets (r t : Region) : Bool := t.rings.any r.meetsPath || t.meetsPath r.shell

end Region
end Plane
end MapFeatures
