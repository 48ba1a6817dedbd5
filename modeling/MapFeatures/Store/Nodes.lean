import MapFeatures.Store.CompactNodes
/-!
# Nodes — where nodes are, in a hash map or in a flat file
-/
namespace MapFeatures

/-- The locations of nodes by their ids. -/
inductive NodeStore
  | hashed (locations : Std.HashMap NodeId Location)
  | compact (nodes : CompactNodes)

namespace NodeStore

def empty : NodeStore := .hashed ∅

/-- The location that was stored last for a node. -/
def at? : NodeStore → NodeId → Option Location
  | hashed locations, id => locations[id]?
  | compact nodes, id => nodes.at? id

/-- The store with a batch of nodes, a later one replacing an earlier one of the same id. -/
def insert : NodeStore → List (NodeId × Location) → Except StoreError NodeStore
  | hashed locations, batch => .ok (.hashed (batch.foldl (fun m node => m.insert node.1 node.2) locations))
  | compact nodes, batch => (nodes.insert batch).map .compact

/-- How many nodes are stored. -/
def size : NodeStore → Nat
  | hashed locations => locations.size
  | compact nodes => nodes.count

def isEmpty (s : NodeStore) : Bool := s.size = 0

/-- How many ids a flat file has room for. -/
def capacity? : NodeStore → Option UInt64
  | hashed _ => none
  | compact nodes => some nodes.capacity

def clear : NodeStore → Except StoreError NodeStore
  | hashed _ => .ok .empty
  | compact nodes => nodes.clear.map .compact

end NodeStore
end MapFeatures
