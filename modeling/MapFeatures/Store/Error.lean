import MapFeatures.Ids
/-!
# Error — what a store may fail with
-/
namespace MapFeatures

/-- A check of the program on itself.  Where one fails, the program stops and nothing is answered. -/
inductive Check
  /-- The product of two numbers has room in 64 bits. -/
  | product
  /-- The longitude of a node in the flat file is not the one that stands for nothing. -/
  | longitude
deriving DecidableEq, Repr

def Check.message : Check → String
  | product => "attempt to multiply with overflow"
  | longitude => "longitude outside the valid range"

inductive StoreError
  /-- A node is referenced that is not stored. -/
  | missingNode (id : NodeId)
  /-- A way is referenced that is not stored. -/
  | missingWay (id : WayId)
  /-- A node id does not fit into the flat file. -/
  | compactRangeExceeded (id : NodeId) (capacity : UInt64)
  /-- The flat file cannot be made. -/
  | storageUnavailable
  /-- The program stops at a check. -/
  | stopped (check : Check)
deriving DecidableEq, Repr

namespace StoreError

def message : StoreError → String
  | missingNode id => "Node " ++ toString id ++ " is referenced, but missing from the node store"
  | missingWay id => "Way " ++ toString id ++ " is referenced, but missing from the way store"
  | compactRangeExceeded id capacity =>
    "Node " ++ toString id ++ " does not fit into the compact node store (capacity " ++ toString capacity.toNat ++ ")"
  | storageUnavailable => "Error accessing store backing file"
  | stopped check => check.message

/-- Whether an element refers to one that is not there. -/
def isMissingReference : StoreError → Bool
  | missingNode _ => true
  | missingWay _ => true
  | _ => false

/-- The check that stops the program, if one does. -/
def check? : StoreError → Option Check
  | stopped check => some check
  | _ => none

end StoreError
end MapFeatures
