import MapFeatures.Ids
import Std.Data.HashMap
/-!
# Ways — the nodes of ways
-/
namespace MapFeatures

/-- The node lists of ways by their ids. -/
structure WayStore where
  nodes : Std.HashMap WayId (List NodeId)

namespace WayStore

def empty : WayStore := ⟨∅⟩

/-- The store with a batch of ways, a later one replacing an earlier one of the same id. -/
def insert (s : WayStore) (batch : List (WayId × List NodeId)) : WayStore :=
  ⟨batch.foldl (fun m way => m.insert way.1 way.2) s.nodes⟩

def nodesFor? (s : WayStore) (id : WayId) : Option (List NodeId) := s.nodes[id]?

def contains (s : WayStore) (id : WayId) : Bool := s.nodes.contains id

def size (s : WayStore) : Nat := s.nodes.size

end WayStore
end MapFeatures
