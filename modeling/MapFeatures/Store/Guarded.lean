/-!
# Guarded — a value that stays usable after a holder has failed

Whoever changes the value holds it.  A holder that fails leaves its change behind, and the value is marked for good;
later holders go on with it.
-/
namespace MapFeatures

structure Guarded (α : Type) where
  value : α
  /-- Whether a holder has failed. -/
  poisoned : Bool
deriving DecidableEq, Repr

namespace Guarded

variable {α : Type}

def ofValue (value : α) : Guarded α := ⟨value, false⟩

def update (g : Guarded α) (change : α → α) : Guarded α := { g with value := change g.value }

/-- A holder changes the value and fails before it lets go. -/
def updateAndFail (g : Guarded α) (change : α → α) : Guarded α := ⟨change g.value, true⟩

end Guarded
end MapFeatures
