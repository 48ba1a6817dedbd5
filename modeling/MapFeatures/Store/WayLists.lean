import MapFeatures.Ids
/-!
# WayLists — the member ways of relations

Entries are appended in batches.  Once they are sorted, `find?` searches by bisection, else one by one; both give the
first entry of a relation.
-/
namespace MapFeatures

/-- The outer and inner ways of a relation. -/
structure WayLists where
  relation : RelationId
  outer : List WayId
  inner : List WayId
deriving DecidableEq, Repr, Inhabited

structure WayListStore where
  entries : Array WayLists
  /-- Set only while the entries are in the order of their ids. -/
  sorted : Bool
  /-- For how many entries there is room. -/
  room : Nat

namespace WayListStore

/-- A new store, which does not count as sorted. -/
def empty : WayListStore := ⟨#[], false, 0⟩

/-- The store without its entries; it keeps its room, and it is sorted. -/
def clear (s : WayListStore) : WayListStore := ⟨#[], true, s.room⟩

def append (s : WayListStore) (batch : List WayLists) : WayListStore :=
  if batch.isEmpty then s
  else
    let entries := s.entries ++ batch
    ⟨entries, false, max s.room entries.size⟩

/-- The entries in the order of their ids, those of one id in the order they have. -/
def sort (s : WayListStore) : WayListStore :=
  if s.sorted then s
  else ⟨(s.entries.toList.mergeSort fun a b => a.relation ≤ b.relation).toArray, true, s.room⟩

/-- **Bisection** between `low` and `high`: the first place from which on no entry has a smaller id, provided that the
entries are in order. -/
def lowerBound (entries : Array WayLists) (relation : RelationId) (low high : Nat) : Nat :=
  if low < high then
    let middle := (low + high) / 2
    match entries[middle]? with
    | none => lowerBound entries relation low middle
    | some e =>
      if e.relation < relation then lowerBound entries relation (middle + 1) high
      else lowerBound entries relation low middle
  else low
termination_by high - low

/-- The first entry of a relation. -/
def find? (s : WayListStore) (relation : RelationId) : Option WayLists :=
  if s.sorted then
    s.entries[lowerBound s.entries relation 0 s.entries.size]?.filter (·.relation = relation)
  else s.entries.find? (·.relation = relation)

def toList (s : WayListStore) : List WayLists := s.entries.toList

def size (s : WayListStore) : Nat := s.entries.size

def isEmpty (s : WayListStore) : Bool := s.entries.isEmpty

def holdsNothing (s : WayListStore) : Bool := s.room = 0

end WayListStore
end MapFeatures
