import MapFeatures.Location
import MapFeatures.Store.WayLists
import MapFeatures.TextMap
/-!
# Record — elements as they come from the input

Nodes and ways come in blocks, in which they may be mixed.  Relations come with their members told apart.
-/
namespace MapFeatures

structure NodeRecord where
  id : NodeId
  at_ : Location
  tags : Tags
deriving DecidableEq

structure WayRecord where
  id : WayId
  nodes : List NodeId
  tags : Tags
deriving DecidableEq

structure RelationRecord where
  /-- The id and the member ways. -/
  ways : WayLists
  tags : Tags
deriving DecidableEq

/-- A node or a way. -/
inductive Record
  | node (n : NodeRecord)
  | way (w : WayRecord)
deriving DecidableEq

namespace Record

def node? : Record → Option NodeRecord
  | node n => some n
  | way _ => none

def way? : Record → Option WayRecord
  | node _ => none
  | way w => some w

end Record

/-- Records that are handed on together. -/
abbrev Block := List Record

namespace Block

def nodes (b : Block) : List NodeRecord := b.filterMap Record.node?

def ways (b : Block) : List WayRecord := b.filterMap Record.way?

end Block
end MapFeatures
