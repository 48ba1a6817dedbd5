import MapFeatures.Classify.Element
import MapFeatures.Feature.Metadata
/-!
# Context — what a classifier asks and does while an element is classified

A question is a `Call`; each has answers of its own type, and `Context.answer` gives the answer and the context after
it.  Features are made by `assign` and `assignCentroid`; attributes and the minimum zoom go to the feature made last.
-/
namespace MapFeatures

/-- How far the classification of an element has come. -/
inductive Phase
  | idle
  | loaded (element : Loaded)
  | classified (element : Loaded)

/-- The phase without its element. -/
inductive Stage
  | idle
  | geometryBuilt
  | classified
deriving DecidableEq, Repr

def Stage.name : Stage → String
  | idle => "Idle"
  | geometryBuilt => "GeometryBuilt"
  | classified => "Classified"

namespace Phase

def stage : Phase → Stage
  | idle => .idle
  | loaded _ => .geometryBuilt
  | classified _ => .classified

def element? : Phase → Option Loaded
  | idle => none
  | loaded l => some l
  | classified l => some l

/-- The phase with another state of its element. -/
def withElement (l : Loaded) : Phase → Phase
  | idle => idle
  | loaded _ => loaded l
  | classified _ => classified l

end Phase

structure Context where
  phase : Phase
  /-- The features of the element so far. -/
  features : List Feature
  metadata : LayerMetadata
  /-- What there is to tell about the element, the last first. -/
  notices : List Notice

/-- What a classifier may ask or do. -/
inductive Call
  | stage
  | kind
  | id
  | tags
  | has (key : String)
  | find (key : String)
  | relationIds
  | findInRelation (relation : RelationId) (key : String)
  | isClosedRing
  | area
  | length
  | overlapArea (layer : String)
  | intersects (layer : String)
  | coveredBy (layer : String)
  | intersectingLabels (layer : String)
  | coveringLabels (layer : String)
  | assign (layer : String) (area : Bool)
  | assignCentroid (layer : String)
  | setAttribute (a : Attribute)
  | setMinZoom (minZoom : UInt8)

/-- The type of the answer to a call. -/
abbrev Call.Answer : Call → Type
  | stage => Stage
  | kind => Option ElementKind
  | id => Int
  | tags => Option Tags
  | has _ => Bool
  | find _ => String
  | relationIds => List RelationId
  | findInRelation _ _ => String
  | isClosedRing => Bool
  | area => Except ProcessingError Float
  | length => Except ProcessingError Float
  | overlapArea _ => Except ProcessingError Float
  | intersects _ => Except ProcessingError Bool
  | coveredBy _ => Except ProcessingError Bool
  | intersectingLabels _ => Except ProcessingError (List String)
  | coveringLabels _ => Except ProcessingError (List String)
  | assign _ _ => Except ProcessingError Bool
  | assignCentroid _ => Except ProcessingError Bool
  | setAttribute _ => Unit
  | setMinZoom _ => Unit

namespace Context

def empty : Context := ⟨.idle, [], ∅, []⟩

def stage (c : Context) : Stage := c.phase.stage

def element? (c : Context) : Option Element := c.phase.element?.map Loaded.element

/-- Loads an element; features and notices of an earlier one are dropped. -/
def begin (c : Context) (e : Element) : Context :=
  { c with phase := .loaded ⟨e, .unbuilt, []⟩, features := [], notices := [] }

/-- The classification is over. -/
def markClassified (c : Context) : Context :=
  match c.phase with
  | .loaded l => { c with phase := .classified l }
  | _ => c

def reset (c : Context) : List Feature × Context := (c.features, { c with phase := .idle, features := [] })

def takeMetadata (c : Context) : LayerMetadata × Context := (c.metadata, { c with metadata := ∅ })

/-- Work on the element; without one the answer is `idle`. -/
def work {α : Type} (c : Context) (idle : α) (w : Building α) : Except ProcessingError α × Context :=
  match c.phase.element? with
  | none => (.ok idle, c)
  | some l =>
    let (result, l) := w.run.run { l with notices := c.notices }
    (result, { c with phase := c.phase.withElement l, notices := l.notices })

/-- A question about the layers, answered for the shape of the element; without one the answer is `absent`. -/
def query {α : Type} (env : Surroundings) (absent : α) (ask : Probe → α) : Building α := do
  pure (((← Building.probe env).map ask).getD absent)

/-- The labels of some shapes in order, each once. -/
def labels (shapes : List ReferenceShape) : List String :=
  (TextMap.ofList (shapes.map fun s => (s.label, ()))).keys

/-- A feature of the element in a layer, unless there is no shape; whether there is a feature. -/
def emit (c : Context) (layer : String) (geometry : Option Geometry) : Bool × Context :=
  match c.element?, geometry with
  | some e, some geometry =>
    (true, { c with features := c.features ++ [⟨layer, geometry, [], 0, e.kind, e.featureId⟩] })
  | _, _ => (false, c)

/-- Builds a shape and makes a feature of it. -/
def assignWith (c : Context) (layer : String) (build : Building (Option Geometry)) :
    Except ProcessingError Bool × Context :=
  match c.work none build with
  | (.error e, c) => (.error e, c)
  | (.ok geometry, c) =>
    let (made, c) := c.emit layer geometry
    (.ok made, c)

/-- Changes the feature made last, if there is one. -/
def changeLast (change : Feature → Feature) : List Feature → List Feature
  | [] => []
  | [f] => [change f]
  | f :: rest => f :: changeLast change rest

/-- Sets an attribute of the feature made last and records its type. -/
def setAttribute (c : Context) (a : Attribute) : Context :=
  match c.features.getLast? with
  | none => { c with notices := .attributeWithoutFeature a.key :: c.notices }
  | some f =>
    { c with
      metadata := c.metadata.record f.layer a.key a.value.type
      features := changeLast (fun f => { f with attributes := Attributes.set a f.attributes }) c.features }

/-- Sets the minimum zoom of the feature made last. -/
def setMinZoom (c : Context) (minZoom : UInt8) : Context :=
  if c.features.isEmpty then { c with notices := .zoomWithoutFeature :: c.notices }
  else { c with features := changeLast (fun f => { f with minZoom }) c.features }

/-- The relations of a way; nodes and relations have none. -/
def relationIds (env : Surroundings) (c : Context) : List RelationId :=
  match c.element? with
  | some e => if e.kind = .way then env.store.index.relationsFor e.id else []
  | none => []

/-- **The answer to a call**, and the context after it. -/
def answer (env : Surroundings) (c : Context) : (call : Call) → call.Answer × Context
  | .stage => (c.stage, c)
  | .kind => (c.element?.map Element.kind, c)
  | .id => ((c.element?.map Element.id).getD 0, c)
  | .tags => (c.element?.map Element.tags, c)
  | .has key => ((c.element?.map fun e => e.tags.contains key).getD false, c)
  | .find key => ((c.element?.map fun e => e.tag key).getD "", c)
  | .relationIds => (c.relationIds env, c)
  | .findInRelation relation key => (env.store.index.tagValue relation key, c)
  | .isClosedRing => ((c.element?.map Element.isClosed).getD false, c)
  | .area => c.work 0 (Building.area env)
  | .length => c.work 0 (Building.length env)
  | .overlapArea layer => c.work 0 (query env 0 fun p => env.layers.overlap layer p)
  | .intersects layer => c.work false (query env false fun p => (env.layers.intersectingOnce? layer p).isSome)
  | .coveredBy layer => c.work false (query env false fun p => (env.layers.coveringOnce? layer p).isSome)
  | .intersectingLabels layer => c.work [] (query env [] fun p => labels (env.layers.intersecting layer p))
  | .coveringLabels layer => c.work [] (query env [] fun p => labels (env.layers.covering layer p))
  | .assign layer area => c.assignWith layer (Building.geometry env area)
  | .assignCentroid layer => c.assignWith layer do pure ((← Building.centroid env).map .point)
  | .setAttribute a => ((), c.setAttribute a)
  | .setMinZoom minZoom => ((), c.setMinZoom minZoom)

end Context
end MapFeatures
