import MapFeatures.Classify.Script
/-!
# Processor — elements one after the other through a classifier

An element is loaded, its script is run, and its features are handed out, all of them or, if it fails, none.  The
metadata stays until it is taken.
-/
namespace MapFeatures

structure FeatureProcessor (σ : Type) where
  classifier : Classifier σ
  /-- What the classifier has in mind. -/
  memory : σ
  context : Context
  /-- How many features the last element gave. -/
  lastCount : Nat

namespace FeatureProcessor

variable {σ : Type}

def ofClassifier (classifier : Classifier σ) : FeatureProcessor σ := ⟨classifier, classifier.fresh, .empty, 0⟩

def isSignificant (p : FeatureProcessor σ) (tags : Tags) : Bool := p.classifier.significantKeys.any tags.contains

def hasOutput (p : FeatureProcessor σ) : Bool := 0 < p.lastCount

/-- **The features of an element**, or why there are none. -/
def process (env : Surroundings) (p : FeatureProcessor σ) (e : Element) :
    Except ProcessingError (List Feature) × FeatureProcessor σ :=
  let script := p.classifier.classify e.kind p.memory
  let ((result, memory), context) := script.run env (p.context.begin e)
  let (features, context) := context.markClassified.reset
  match result with
  | .error err => (.error err, { p with memory, context, lastCount := 0 })
  | .ok () => (.ok features, { p with memory, context, lastCount := features.length })

/-- The metadata so far, and the processor without it. -/
def takeMetadata (p : FeatureProcessor σ) : LayerMetadata × FeatureProcessor σ :=
  let (metadata, context) := p.context.takeMetadata
  (metadata, { p with context })

end FeatureProcessor

namespace Element

def ofNode (id : NodeId) (at_ : Location) (tags : Tags) : Element := ⟨id, id, tags, .node at_⟩

def ofWay (id : WayId) (nodes : List NodeId) (tags : Tags) : Element := ⟨id, id, tags, .way nodes⟩

/-- The features of a relation have the id of a way that stands for it. -/
def ofRelation (ways : WayLists) (standIn : WayId) (tags : Tags) : Element :=
  ⟨ways.relation, standIn, tags, .relation ways⟩

end Element
end MapFeatures
