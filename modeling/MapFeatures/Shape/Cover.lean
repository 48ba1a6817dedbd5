import MapFeatures.Plane.Overlap
import MapFeatures.Shape.Measure
/-!
# Cover — polygons that meet, cover or overlap other shapes

All coordinates are to be finite, since all tests are made on exact points.  Regions are divided by the common divisor of
their coordinates first, so that exact numbers stay short.
-/
namespace MapFeatures

/-- A shape that is compared with polygons. -/
inductive Probe
  | point (at_ : Coord)
  | line (path : Path)
  | polygon (area : Polygon)
  | multiPolygon (areas : MultiPolygon)
deriving Repr

namespace Polygon

/-- The area that two polygons share, to the nearest float. -/
def overlap (p q : Polygon) : Float :=
  let r := p.region
  let t := q.region
  match Plane.commonDivisor (r.coordinates ++ t.coordinates) with
  | 0 => 0
  | unit =>
    let area := Plane.sharedArea (r.shrink unit) (t.shrink unit)
    Binary64.ofRatio false (area.num.natAbs * (unit * unit)) (area.den * Nat.pow 2 (2 * Binary64.unitBits))

/-- Whether `p` covers all of `q`. -/
def covers (p q : Polygon) : Bool :=
  let r := p.region
  let t := q.region
  match Plane.commonDivisor (r.coordinates ++ t.coordinates) with
  | 0 => false
  | unit => (r.shrink unit).covers (t.shrink unit)

end Polygon

namespace Probe

/-- The smallest box around the shape. -/
def box? : Probe → Option Plane.Box
  | point c => some (Plane.Box.ofPoint c.point)
  | line path => Plane.Box.around? path.points
  | polygon p => p.region.box?
  | multiPolygon mp => Plane.Box.around? (mp.flatMap fun p => p.shell.points)

/-- Whether the shape and a polygon have a point in common. -/
def meets (p : Polygon) : Probe → Bool
  | point c => p.region.holds c.point
  | line path => p.region.meetsPath path.points
  | polygon q => p.region.meets q.region
  | multiPolygon mp => mp.any fun q => p.region.meets q.region

/-- Whether the shape is completely in a polygon.  A point may lie on the boundary; of a line or an area something has
to be inside. -/
def coveredBy (p : Polygon) : Probe → Bool
  | point c => p.region.holds c.point
  | line path => p.region.coversPath path.points
  | polygon q => p.covers q
  | multiPolygon mp => !mp.isEmpty && mp.all p.covers

/-- The area that the shape shares with a polygon. -/
def overlap (p : Polygon) : Probe → Float
  | point _ => 0
  | line _ => 0
  | polygon q => p.overlap q
  | multiPolygon mp => mp.foldl (fun total q => total + p.overlap q) 0

end Probe
end MapFeatures
