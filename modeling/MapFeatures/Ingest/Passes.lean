import MapFeatures.Classify.Processor
import MapFeatures.Ingest.Counters
import MapFeatures.Record
/-!
# Passes — the input becomes features in three passes

`scan` records the relations that the classifier asks for and marks their ways.  `blocks` stores the nodes and the
marked ways and classifies both, all nodes before all ways.  `relations` classifies the recorded relations.

The last two passes have to wait for the first.  They stop at the first error: the features of the elements before it
stay, but the metadata of the block it is in is lost.
-/
namespace MapFeatures

structure Ingest (σ : Type) where
  env : Surroundings
  classifier : Classifier σ
  /-- Whether the relations are recorded. -/
  scanned : Bool
  /-- The metadata of all blocks and relations so far. -/
  metadata : LayerMetadata
  /-- All features so far in the order they were made. -/
  features : Array Feature

/-- An ingest with a pass under way. -/
structure Underway (σ : Type) where
  ingest : Ingest σ
  processor : FeatureProcessor σ
  counters : Counters

/-- A part of a pass; what it does before it fails stays done. -/
abbrev Work (σ : Type) := ExceptT ProcessingError (StateM (Underway σ))

namespace Work

variable {σ : Type}

def count (counters : Counters) : Work σ Unit := modify fun u => { u with counters := u.counters + counters }

/-- Goes on with another store. -/
def keepStore (store : ObjectStore) : Work σ Unit :=
  modify fun u => { u with ingest := { u.ingest with env := { u.ingest.env with store } } }

def renewProcessor : Work σ Unit := modify fun u => { u with processor := .ofClassifier u.ingest.classifier }

/-- Classifies an element and hands out its features. -/
def classify (e : Element) : Work σ Unit := do
  let u ← get
  let (result, processor) := u.processor.process u.ingest.env e
  set { u with processor }
  match result with
  | .error err => throw err
  | .ok features =>
    modify fun u => { u with ingest := { u.ingest with features := u.ingest.features ++ features } }
    count (.ofClassified processor.hasOutput)

/-- Adds the metadata of the processor to that of the ingest. -/
def collectMetadata : Work σ Unit :=
  modify fun u =>
    let (metadata, processor) := u.processor.takeMetadata
    { u with processor, ingest := { u.ingest with metadata := u.ingest.metadata.merge metadata } }

/-- Classifies a node that has a significant tag. -/
def node (n : NodeRecord) : Work σ Unit := do
  if (← get).processor.isSignificant n.tags then classify (.ofNode n.id n.at_ n.tags)

/-- Stores the nodes of a block and then classifies them. -/
def nodes (block : List NodeRecord) : Work σ Unit := do
  count (.ofGiven block.length block.length)
  match (← get).ingest.env.store.insertNodes (block.map fun n => (n.id, n.at_)) with
  | .error cause => throw (.storage cause)
  | .ok store => keepStore store
  block.forM node
  collectMetadata

/-- Classifies a way that has a tag. -/
def way (w : WayRecord) : Work σ Unit := if w.tags.isEmpty then pure () else classify (.ofWay w.id w.nodes w.tags)

/-- Stores the marked ways of a block and then classifies the ways. -/
def ways (block : List WayRecord) : Work σ Unit := do
  let store := (← get).ingest.env.store
  let marked := block.filter fun w => store.usedWays.contains w.id
  count (.ofGiven block.length marked.length)
  keepStore (store.insertWays (marked.map fun w => (w.id, w.nodes)))
  block.forM way
  collectMetadata

/-- Nodes first and then ways, each in the order of the blocks. -/
def blocks (bs : List Block) : Work σ Unit := do
  ((bs.map Block.nodes).filter (!·.isEmpty)).forM nodes
  renewProcessor
  ((bs.map Block.ways).filter (!·.isEmpty)).forM ways

/-- Classifies a recorded relation under the next way id. -/
def relation (ways : WayLists) : Work σ Unit := do
  let store := (← get).ingest.env.store
  let (standIn, store') := store.drawRelationWay
  keepStore store'
  classify (.ofRelation ways standIn ((store.index.tagsFor? ways.relation).getD ∅))
  collectMetadata

/-- The recorded relations in their order. -/
def relations : Work σ Unit := do
  let recorded := (← get).ingest.env.store.wayLists.toList
  count (.ofGiven recorded.length 0)
  recorded.forM relation

end Work

namespace Ingest

variable {σ : Type}

/-- An ingest that has not seen any input. -/
def ofStore (store : ObjectStore) (layers : ReferenceLayers) (classifier : Classifier σ) : Ingest σ :=
  ⟨⟨store, layers⟩, classifier, false, ∅, #[]⟩

/-- The store with a relation recorded and its ways marked. -/
def recordRelation (store : ObjectStore) (r : RelationRecord) : ObjectStore :=
  let members := r.ways.outer ++ r.ways.inner
  let index := members.foldl (fun i way => i.recordContainment r.ways.relation way) store.index
  { store with
    index := index.storeTags r.ways.relation r.tags
    usedWays := members.foldl UsedWays.mark store.usedWays }

/-- **The first pass**: all relations at once.  The estimate of how many nodes will follow changes no answer. -/
def scan (i : Ingest σ) (rs : List RelationRecord) (estimate : Nat) : Counters × Ingest σ :=
  let accepted := rs.filter fun r => i.classifier.scansRelation r.tags
  let store := accepted.foldl recordRelation (i.env.store.reserveUsedWays estimate)
  let store := { store with wayLists := (store.wayLists.append (accepted.map (·.ways))).sort }
  (.ofGiven rs.length accepted.length, { i with env := { i.env with store }, scanned := true })

/-- Runs a pass that has to wait for the scan. -/
def run (i : Ingest σ) (pass : Pass) (work : Work σ Unit) : Except ProcessingError Counters × Ingest σ :=
  if i.scanned then
    let (result, u) := work.run.run ⟨i, .ofClassifier i.classifier, .zero⟩
    (result.map fun _ => u.counters, u.ingest)
  else (.error (.passOrder pass), i)

/-- **The second pass**: some blocks; it may be run for other blocks again. -/
def blocks (i : Ingest σ) (bs : List Block) : Except ProcessingError Counters × Ingest σ :=
  i.run .blocks (Work.blocks bs)

/-- **The third pass**: the recorded relations. -/
def relations (i : Ingest σ) : Except ProcessingError Counters × Ingest σ := i.run .relations Work.relations

end Ingest
end MapFeatures
