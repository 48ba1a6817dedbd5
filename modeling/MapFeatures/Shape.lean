import MapFeatures.Location
import MapFeatures.Plane.Region
/-!
# Shape — lines, polygons and multi-polygons in projected degrees

Coordinates are floats, `x` the longitude and `y` the projected latitude.  A polygon is a shell with holes; `ofRings`
closes its rings.  Everything that is decided about a shape is decided on its exact points (`Coord.point`), provided
that its coordinates are finite.
-/
namespace MapFeatures

/-- A position in projected degrees. -/
structure Coord where
  x : Float
  y : Float
deriving DecidableEq, Repr, Inhabited

namespace Coord

def isFinite (c : Coord) : Bool := Binary64.isFinite c.x && Binary64.isFinite c.y

/-- The exact position of a finite coordinate, in units of the smallest positive float.  An infinite coordinate has none,
nor has NaN: what is decided on exact points is told for finite coordinates only, as those of locations are. -/
def point (c : Coord) : Plane.Point := ⟨Binary64.units c.x, Binary64.units c.y⟩

/-- Whether two coordinates are equal as numbers; the two zeros are, and NaN equals nothing. -/
def same (c d : Coord) : Bool :=
  if c.isFinite && d.isFinite then c.point = d.point else c.x == d.x && c.y == d.y

end Coord

def Location.coord (l : Location) : Coord := ⟨l.lonDegrees, l.latpDegrees⟩

abbrev Path := List Coord

namespace Path

def ofLocations (ls : List Location) : Path := ls.map Location.coord

def points (p : Path) : List Plane.Point := p.map Coord.point

def isFinite (p : Path) : Bool := p.all Coord.isFinite

/-- The path with its first coordinate added at the end, unless it ends there already. -/
def close (p : Path) : Path :=
  match p.head?, p.getLast? with
  | some first, some last => if first.same last then p else p ++ [first]
  | _, _ => p

end Path

/-- An area: what is inside the shell and outside every hole. -/
structure Polygon where
  shell : Path
  holes : List Path
deriving DecidableEq, Repr, Inhabited

abbrev MultiPolygon := List Polygon

namespace Polygon

/-- The polygon of these rings, each closed. -/
def ofRings (shell : Path) (holes : List Path) : Polygon := ⟨shell.close, holes.map Path.close⟩

/-- The polygon with one hole more, closed. -/
def addHole (p : Polygon) (hole : Path) : Polygon := { p with holes := p.holes ++ [hole.close] }

def rings (p : Polygon) : List Path := p.shell :: p.holes

def region (p : Polygon) : Plane.Region := ⟨p.shell.points, p.holes.map Path.points⟩

end Polygon

/-- The outline of the first polygon; empty if there is none. -/
def MultiPolygon.outline (mp : MultiPolygon) : Path :=
  match mp with
  | [] => []
  | p :: _ => p.shell

end MapFeatures
