import MapFeatures.Feature.Attribute
import MapFeatures.Ids
import MapFeatures.Shape
/-!
# Feature — shapes in layers, ready to be drawn
-/
namespace MapFeatures

inductive Geometry
  | point (at_ : Coord)
  | line (path : Path)
  | lines (paths : List Path)
  | polygon (area : Polygon)
  | multiPolygon (areas : MultiPolygon)
deriving DecidableEq, Repr, Inhabited

/-- A shape in a layer, made from an element. -/
structure Feature where
  layer : String
  geometry : Geometry
  attributes : Attributes
  minZoom : UInt8
  kind : ElementKind
  /-- The id of the element, or the way id that stands for a relation. -/
  id : Int
deriving DecidableEq, Repr, Inhabited

end MapFeatures
