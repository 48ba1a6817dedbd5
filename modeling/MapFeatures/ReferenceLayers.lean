import MapFeatures.Shape.Cover
import Std.Data.HashMap
/-!
# ReferenceLayers — named sets of labelled polygons that shapes are compared with

A layer has a tree of its polygons by the boxes around them, so a query looks only at those whose boxes meet that of the
shape.  A tree is searched in an order of its own (`TreeSearch`); what is found is put in the order in which the polygons
were added by their numbers in the layer.  The coordinates of the polygons are to be finite: their boxes and all tests
are those of their exact points.
-/
namespace MapFeatures

/-- A polygon with its label, its number and the box around it. -/
structure ReferenceShape where
  label : String
  polygon : Polygon
  /-- How many shapes of its layer came before it. -/
  order : Nat
  box : Plane.Box
deriving Repr

/-- A tree of shapes, told by how it was made. -/
inductive ShapeTree
  | empty
  | loaded (shapes : List ReferenceShape)
  | inserted (tree : ShapeTree) (shape : ReferenceShape)

namespace ShapeTree

/-- The shapes of a tree in the order they came in, and then some others. -/
def shapesThen : ShapeTree → List ReferenceShape → List ReferenceShape
  | empty, others => others
  | loaded shapes, others => shapes ++ others
  | inserted tree shape, others => tree.shapesThen (shape :: others)

def shapes (t : ShapeTree) : List ReferenceShape := t.shapesThen []

def size (t : ShapeTree) : Nat := t.shapes.length

end ShapeTree

/-- **How trees are searched**: the shapes found for a box are those whose boxes meet it, each once, in an order that may
depend on how the tree was made. -/
structure TreeSearch where
  meeting : ShapeTree → Plane.Box → List ReferenceShape
  meeting_perm : ∀ (tree : ShapeTree) (box : Plane.Box),
    (meeting tree box).Perm (tree.shapes.filter fun s => s.box.meets box)

/-- The search that finds shapes in the order they came in. -/
def TreeSearch.inOrder : TreeSearch := ⟨fun tree box => tree.shapes.filter fun s => s.box.meets box, fun _ _ => .refl _⟩

/-- The trees of the layers by their names. -/
structure ReferenceLayers where
  search : TreeSearch
  layers : Std.HashMap String ShapeTree

namespace ReferenceLayers

/-- No layers; those that come will be searched like this. -/
def searchedBy (search : TreeSearch) : ReferenceLayers := ⟨search, ∅⟩

def empty : ReferenceLayers := searchedBy .inOrder

/-- A labelled polygon with its number; none for one that is empty. -/
def shape? (label : String) (polygon : Polygon) (order : Nat) : Option ReferenceShape :=
  polygon.region.box?.map fun box => ⟨label, polygon, order, box⟩

def tree (r : ReferenceLayers) (layer : String) : ShapeTree := r.layers.getD layer .empty

/-- The layers with one polygon more, which gets the size of the tree as its number.  An empty polygon is left out, but
its layer is there. -/
def add (r : ReferenceLayers) (layer label : String) (polygon : Polygon) : ReferenceLayers :=
  let tree := r.tree layer
  let extended :=
    match shape? label polygon tree.size with
    | some shape => .inserted tree shape
    | none => tree
  { r with layers := r.layers.insert layer extended }

/-- The shapes numbered from zero on. -/
def numbered (shapes : List ReferenceShape) : List ReferenceShape :=
  shapes.zipIdx.map fun s => { s.1 with order := s.2 }

/-- The layers with one of them replaced.  Empty polygons are left out before the others are numbered. -/
def load (r : ReferenceLayers) (layer : String) (polygons : List (String × Polygon)) : ReferenceLayers :=
  let shapes := numbered (polygons.filterMap fun p => shape? p.1 p.2 0)
  { r with layers := r.layers.insert layer (.loaded shapes) }

def hasLayer (r : ReferenceLayers) (layer : String) : Bool := r.layers.contains layer

def shapeCount (r : ReferenceLayers) (layer : String) : Nat := (r.tree layer).size

/-- The shapes of a layer whose boxes meet that of the probe, as they are found. -/
def candidates (r : ReferenceLayers) (layer : String) (probe : Probe) : List ReferenceShape :=
  match r.layers[layer]?, probe.box? with
  | some tree, some box => r.search.meeting tree box
  | _, _ => []

/-- The candidates that pass a test, in the order they were added. -/
def matching (r : ReferenceLayers) (layer : String) (probe : Probe) (test : ReferenceShape → Bool) :
    List ReferenceShape :=
  ((r.candidates layer probe).filter test).mergeSort fun a b => a.order ≤ b.order

/-- The first candidate found that passes a test. -/
def matchingOnce? (r : ReferenceLayers) (layer : String) (probe : Probe) (test : ReferenceShape → Bool) :
    Option ReferenceShape :=
  (r.candidates layer probe).find? test

/-- The shapes that meet the probe, in the order they were added. -/
def intersecting (r : ReferenceLayers) (layer : String) (probe : Probe) : List ReferenceShape :=
  r.matching layer probe fun s => probe.meets s.polygon

/-- The shapes that cover the probe, in the order they were added. -/
def covering (r : ReferenceLayers) (layer : String) (probe : Probe) : List ReferenceShape :=
  r.matching layer probe fun s => probe.coveredBy s.polygon

/-- One shape that meets the probe. -/
def intersectingOnce? (r : ReferenceLayers) (layer : String) (probe : Probe) : Option ReferenceShape :=
  r.matchingOnce? layer probe fun s => probe.meets s.polygon

/-- One shape that covers the probe. -/
def coveringOnce? (r : ReferenceLayers) (layer : String) (probe : Probe) : Option ReferenceShape :=
  r.matchingOnce? layer probe fun s => probe.coveredBy s.polygon

/-- The area that the probe shares with the shapes of a layer, counted for each shape. -/
def overlap (r : ReferenceLayers) (layer : String) (probe : Probe) : Float :=
  (r.candidates layer probe).foldl (fun total s => total + probe.overlap s.polygon) 0

end ReferenceLayers
end MapFeatures
