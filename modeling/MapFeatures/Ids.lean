/-!
# Ids — how map elements are named

Nodes, ways and relations have whole numbers as ids, each kind its own.  Features made from relations carry negative
way ids, which no way has.
-/
namespace MapFeatures

abbrev NodeId := Int

abbrev WayId := Int

abbrev RelationId := Int

/-- The three kinds of map elements. -/
inductive ElementKind
  | node
  | way
  | relation
deriving DecidableEq, Repr, Inhabited

namespace ElementKind

def name : ElementKind → String
  | node => "Node"
  | way => "Way"
  | relation => "Relation"

def all : List ElementKind := [node, way, relation]

end ElementKind
end MapFeatures
