import MapFeatures.Ids
import MapFeatures.TextMap
import Std.Data.HashMap
/-!
# RelationIndex — which relations a way is in, and the tags of relations
-/
namespace MapFeatures

structure RelationIndex where
  relationsOf : Std.HashMap WayId (List RelationId)
  tagsOf : Std.HashMap RelationId Tags

namespace RelationIndex

def empty : RelationIndex := ⟨∅, ∅⟩

/-- Notes that a relation has a way as a member, again if it is noted already. -/
def recordContainment (i : RelationIndex) (relation : RelationId) (way : WayId) : RelationIndex :=
  { i with relationsOf := i.relationsOf.alter way fun rs => some (rs.getD [] ++ [relation]) }

/-- Replaces the tags of a relation. -/
def storeTags (i : RelationIndex) (relation : RelationId) (tags : Tags) : RelationIndex :=
  { i with tagsOf := i.tagsOf.insert relation tags }

def containsWay (i : RelationIndex) (way : WayId) : Bool := i.relationsOf.contains way

def relationsFor (i : RelationIndex) (way : WayId) : List RelationId := i.relationsOf.getD way []

def tagsFor? (i : RelationIndex) (relation : RelationId) : Option Tags := i.tagsOf[relation]?

/-- The value of a tag of a relation, empty if either is unknown. -/
def tagValue (i : RelationIndex) (relation : RelationId) (key : String) : String :=
  ((i.tagsFor? relation).bind (·.get? key)).getD ""

def wayCount (i : RelationIndex) : Nat := i.relationsOf.size

def relationCount (i : RelationIndex) : Nat := i.tagsOf.size

end RelationIndex
end MapFeatures
