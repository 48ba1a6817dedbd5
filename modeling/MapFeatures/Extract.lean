import MapFeatures.Record
/-!
# Extract — what an input file holds

Nodes, ways and relations in the order of the file.  Of the members of a relation only the ways are used.
-/
namespace MapFeatures

/-- A member of a relation. -/
structure Member where
  kind : ElementKind
  id : Int
  role : String
deriving DecidableEq, Repr

/-- The member ways of a relation: those with the role `inner`, and all others. -/
def WayLists.ofMembers (relation : RelationId) (members : List Member) : WayLists :=
  let ways := members.filter (·.kind = .way)
  ⟨relation, (ways.filter (·.role ≠ "inner")).map (·.id), (ways.filter (·.role = "inner")).map (·.id)⟩

/-- An element of a file. -/
inductive Entry
  | record (r : Record)
  | relation (id : RelationId) (members : List Member) (tags : Tags)
deriving DecidableEq

abbrev Extract := List Entry

namespace Extract

/-- The nodes and ways in their order. -/
def records (x : Extract) : List Record :=
  x.filterMap fun
    | .record r => some r
    | .relation _ _ _ => none

/-- The relations in their order. -/
def relations (x : Extract) : List RelationRecord :=
  x.filterMap fun
    | .record _ => none
    | .relation id members tags => some ⟨.ofMembers id members, tags⟩

end Extract
end MapFeatures
