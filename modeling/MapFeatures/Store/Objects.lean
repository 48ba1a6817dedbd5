import MapFeatures.Config
import MapFeatures.Ring.Assembly
import MapFeatures.Store.Nodes
import MapFeatures.Store.RelationIndex
import MapFeatures.Store.UsedWays
import MapFeatures.Store.WayLists
import MapFeatures.Store.Ways
/-!
# Objects — all elements that are kept, and the shapes made of them

A shape is built from references.  Under enforced integrity the first that is missing is an error; otherwise missing
nodes are left out, and so are missing ways, which are listed beside the shape (`Built.skipped`).
-/
namespace MapFeatures

structure ObjectStore where
  config : StoreConfig
  nodes : NodeStore
  ways : WayStore
  usedWays : UsedWays
  index : RelationIndex
  wayLists : WayListStore
  /-- The id of the next way that stands for a relation. -/
  nextRelationWay : WayId

/-- A result, and the missing ways it was made without. -/
structure Built (α : Type) where
  value : α
  skipped : List WayId
deriving Repr

namespace ObjectStore

/-- A store with these nodes and nothing else. -/
def withNodes (config : StoreConfig) (nodes : NodeStore) : ObjectStore :=
  ⟨config, nodes, .empty, .empty, .empty, .empty, -1⟩

/-- An empty store of the kind that the settings ask for. -/
def create (config : StoreConfig) : Except StoreError ObjectStore :=
  if config.compactStorage then
    (CompactNodes.create config.compactNodeCapacity).map fun nodes => withNodes config (.compact nodes)
  else .ok (withNodes config .empty)

def insertNodes (s : ObjectStore) (batch : List (NodeId × Location)) : Except StoreError ObjectStore :=
  (s.nodes.insert batch).map fun nodes => { s with nodes }

def insertWays (s : ObjectStore) (batch : List (WayId × List NodeId)) : ObjectStore :=
  { s with ways := s.ways.insert batch }

def pointFor (s : ObjectStore) (id : NodeId) : Except StoreError Location :=
  match s.nodes.at? id with
  | some point => .ok point
  | none => .error (.missingNode id)

def nodesFor (s : ObjectStore) (id : WayId) : Except StoreError (List NodeId) :=
  match s.ways.nodesFor? id with
  | some nodes => .ok nodes
  | none => .error (.missingWay id)

/-- Sizes the set of used ways for the estimated number of nodes, or for the nodes that are stored if those are more. -/
def reserveUsedWays (s : ObjectStore) (estimate : Nat) : ObjectStore :=
  { s with usedWays := s.usedWays.reserve (max estimate s.nodes.size) s.config.compactStorage }

/-- The id for the next relation that becomes features, and the store without it. -/
def drawRelationWay (s : ObjectStore) : WayId × ObjectStore :=
  (s.nextRelationWay, { s with nextRelationWay := s.nextRelationWay - 1 })

/-- The locations of nodes in their order. -/
def locations (s : ObjectStore) : List NodeId → Except StoreError (List Location)
  | [] => .ok []
  | id :: rest =>
    match s.nodes.at? id with
    | some l => (s.locations rest).map (l :: ·)
    | none => if s.config.enforceIntegrity then .error (.missingNode id) else s.locations rest

/-- The locations of the nodes of each way, in the order of the ways. -/
def fragments (s : ObjectStore) : List WayId → Except StoreError (Built (List Fragment))
  | [] => .ok ⟨[], []⟩
  | id :: rest =>
    match s.ways.nodesFor? id with
    | some nodes => do
      let fragment ← s.locations nodes
      let others ← s.fragments rest
      .ok ⟨fragment :: others.value, others.skipped⟩
    | none =>
      if s.config.enforceIntegrity then .error (.missingWay id)
      else (s.fragments rest).map fun others => ⟨others.value, id :: others.skipped⟩

/-- The line through some nodes. -/
def line (s : ObjectStore) (nodes : List NodeId) : Except StoreError Path :=
  (s.locations nodes).map Path.ofLocations

/-- The area inside some nodes, in the right direction. -/
def polygon (s : ObjectStore) (nodes : List NodeId) : Except StoreError Polygon :=
  (s.line nodes).map fun shell => (Polygon.ofRings shell []).correct

/-- The area of a relation.  If its outer ways do not close into any ring, there is none, and its inner ways are not
looked at. -/
def multiPolygon (s : ObjectStore) (outer inner : List WayId) : Except StoreError (Built MultiPolygon) := do
  let outerWays ← s.fragments outer
  let outerRings := Fragment.mergeRings outerWays.value
  if outerRings.isEmpty then .ok ⟨[], outerWays.skipped⟩
  else
    let innerWays ← s.fragments inner
    .ok ⟨Assembly.multiPolygon outerRings (Fragment.mergeRings innerWays.value),
      outerWays.skipped ++ innerWays.skipped⟩

/-- One line for each way of at least two locations. -/
def lines (s : ObjectStore) (ways : List WayId) : Except StoreError (Built (List Path)) :=
  (s.fragments ways).map fun built =>
    ⟨(built.value.filter fun f => 1 < List.length f).map Path.ofLocations, built.skipped⟩

def reopen (s : ObjectStore) : ObjectStore := { s with wayLists := .empty }

/-- The store without any elements. -/
def clear (s : ObjectStore) : Except StoreError ObjectStore :=
  s.nodes.clear.map fun nodes => { withNodes s.config nodes with wayLists := s.wayLists.clear }

end ObjectStore
end MapFeatures
