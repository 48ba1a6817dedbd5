import MapFeatures.Classify.Error
import MapFeatures.Classify.Notice
import MapFeatures.Feature.Basic
import MapFeatures.ReferenceLayers
import MapFeatures.Store.Objects
/-!
# Element — one element and the shapes that are built of it

Each of the four shapes is built when it is first asked for and then kept.  A shape with too few points is absent; one
with another fault is kept, but does not count as sound.  What cannot be built is not kept, so it is tried again.
-/
namespace MapFeatures

/-- What an element consists of. -/
inductive Source
  | node (at_ : Location)
  | way (nodes : List NodeId)
  | relation (ways : WayLists)
deriving DecidableEq, Repr

structure Element where
  /-- The id in the input. -/
  id : Int
  /-- The id of its features. -/
  featureId : Int
  tags : Tags
  source : Source

namespace Element

def kind (e : Element) : ElementKind :=
  match e.source with
  | .node _ => .node
  | .way _ => .way
  | .relation _ => .relation

/-- Ways that end where they start are closed, and so are relations. -/
def isClosed (e : Element) : Bool :=
  match e.source with
  | .node _ => false
  | .way nodes => 1 < nodes.length && nodes.head? = nodes.getLast?
  | .relation _ => true

def tag (e : Element) (key : String) : String := (e.tags.get? key).getD ""

end Element

/-- What classifiers may look at beside the element. -/
structure Surroundings where
  store : ObjectStore
  layers : ReferenceLayers

/-- A shape that is built when it is first asked for. -/
inductive Cached (α : Type)
  | unbuilt
  /-- There is nothing usable. -/
  | absent
  | built (shape : α) (sound : Bool)
deriving Repr

namespace Cached

variable {α : Type}

/-- The shape, sound or not. -/
def get? : Cached α → Option α
  | built shape _ => some shape
  | _ => none

/-- The shape if it is sound. -/
def sound? : Cached α → Option α
  | built shape true => some shape
  | _ => none

/-- What becomes of a shape that was built, given its fault. -/
def settle (shape : Option α) (check : α → Option Fault) : Cached α :=
  match shape with
  | none => absent
  | some shape =>
    match check shape with
    | none => built shape true
    | some fault => if fault.isDegenerate then absent else built shape false

end Cached

/-- The shapes of an element as far as they are built. -/
structure Shapes where
  line : Cached Path
  polygon : Cached Polygon
  lines : Cached (List Path)
  multiPolygon : Cached MultiPolygon

def Shapes.unbuilt : Shapes := ⟨.unbuilt, .unbuilt, .unbuilt, .unbuilt⟩

/-- An element that is being classified. -/
structure Loaded where
  element : Element
  shapes : Shapes
  /-- What there is to tell so far, the last first. -/
  notices : List Notice

/-- Work on an element that may fail; shapes that were built before it fails stay built. -/
abbrev Building := ExceptT ProcessingError (StateM Loaded)

namespace Building

def tell (notice : Notice) : Building Unit :=
  modify fun l => { l with notices := notice :: l.notices }

/-- The result of the store, whose errors concern the element. -/
def fromStore {α : Type} (result : Except StoreError α) : Building α := do
  let e := (← get).element
  match result with
  | .ok value => pure value
  | .error cause => throw (.geometry e.kind e.id cause)

/-- The result of the store; ways that it was made without are told. -/
def fromBuilt {α : Type} (result : Except StoreError (Built α)) : Building α := do
  let built ← fromStore result
  built.skipped.forM fun id => tell (.skippedWay id)
  pure built.value

/-- Settles a shape; its fault is told if the store is to be verbose, unless it leaves nothing to show. -/
def settle {α : Type} (env : Surroundings) (check : α → Option Fault) (shape : Option α) : Building (Cached α) := do
  match shape.bind check with
  | some fault =>
    if !fault.isDegenerate && env.store.config.verbose then
      let e := (← get).element
      tell (.faultyShape e.kind e.id fault)
  | none => pure ()
  pure (Cached.settle shape check)

/-- The shape that is kept, or else the one that is built now, which is kept from then on. -/
def lazily {α : Type} (kept : Shapes → Cached α) (keep : Cached α → Shapes → Shapes)
    (build : Building (Cached α)) : Building (Cached α) := do
  match kept (← get).shapes with
  | .unbuilt =>
    let shape ← build
    modify fun l => { l with shapes := keep shape l.shapes }
    pure shape
  | shape => pure shape

/-- The area of a closed way. -/
def polygon (env : Surroundings) : Building (Cached Polygon) :=
  lazily Shapes.polygon (fun shape s => { s with polygon := shape }) do
    let shape ← match (← get).element.source with
      | .way nodes => some <$> fromStore (env.store.polygon nodes)
      | _ => pure none
    settle env Polygon.check shape

/-- The area of a relation. -/
def multiPolygon (env : Surroundings) : Building (Cached MultiPolygon) :=
  lazily Shapes.multiPolygon (fun shape s => { s with multiPolygon := shape }) do
    let shape ← match (← get).element.source with
      | .relation ways => some <$> fromBuilt (env.store.multiPolygon ways.outer ways.inner)
      | _ => pure none
    settle env MultiPolygon.check shape

/-- The outer ways of a relation, each as a line. -/
def lines (env : Surroundings) : Building (Cached (List Path)) :=
  lazily Shapes.lines (fun shape s => { s with lines := shape }) do
    let shape ← match (← get).element.source with
      | .relation ways => some <$> fromBuilt (env.store.lines ways.outer)
      | _ => pure none
    settle env checkLines shape

/-- The line of a way; of a relation, the outline of its area. -/
def line (env : Surroundings) : Building (Cached Path) :=
  lazily Shapes.line (fun shape s => { s with line := shape }) do
    let shape ← match (← get).element.source with
      | .relation _ => do pure ((← multiPolygon env).get?.map MultiPolygon.outline)
      | .way nodes => some <$> fromStore (env.store.line nodes)
      | .node _ => pure none
    settle env Path.checkLine shape

/-- What the element is compared with polygons as. -/
def probe (env : Surroundings) : Building (Option Probe) := do
  let e := (← get).element
  match e.source with
  | .node at_ => pure (some (.point at_.coord))
  | .way _ =>
    if e.isClosed then pure ((← polygon env).get?.map .polygon) else pure ((← line env).get?.map .line)
  | .relation _ => pure ((← multiPolygon env).get?.map .multiPolygon)

/-- What the element is drawn as: areas only if they are asked for and there can be one.  Of a relation that is no area
the outer ways are drawn, but a multi-polygon is drawn by its outline. -/
def geometry (env : Surroundings) (area : Bool) : Building (Option Geometry) := do
  let e := (← get).element
  match e.source with
  | .node at_ => pure (some (.point at_.coord))
  | .way _ =>
    if area && e.isClosed then pure ((← polygon env).get?.map .polygon) else pure ((← line env).get?.map .line)
  | .relation _ =>
    if area then pure ((← multiPolygon env).get?.map .multiPolygon)
    else if e.tag "type" = "multipolygon" then pure ((← line env).get?.map .line)
    else pure ((← lines env).get?.map .lines)

/-- The middle of the element. -/
def centroid (env : Surroundings) : Building (Option Coord) := do
  let e := (← get).element
  match e.source with
  | .node at_ => pure (some at_.coord)
  | .way _ =>
    if e.isClosed then pure ((← polygon env).get?.bind Polygon.centroid?)
    else pure ((← line env).get?.bind Path.centroid?)
  | .relation _ => pure ((← multiPolygon env).get?.bind MultiPolygon.centroid?)

/-- The area of a sound closed way or relation, else zero. -/
def area (env : Surroundings) : Building Float := do
  let e := (← get).element
  match e.source with
  | .node _ => pure 0
  | .way _ => if e.isClosed then pure (((← polygon env).sound?.map Polygon.area).getD 0) else pure 0
  | .relation _ => pure (((← multiPolygon env).sound?.map MultiPolygon.area).getD 0)

/-- The length of a way, or of the outer ways of a relation; zero for a node. -/
def length (env : Surroundings) : Building Float := do
  match (← get).element.source with
  | .node _ => pure 0
  | .way _ => pure (((← line env).get?.map Path.length).getD 0)
  | .relation _ =>
    pure (((← lines env).get?.map fun paths => paths.foldl (fun total p => total + p.length) 0).getD 0)

end Building
end MapFeatures
