/-!
# Counters — what a pass has done
-/
namespace MapFeatures

structure Counters where
  /-- Elements that were given to the pass. -/
  elements : Nat
  /-- Elements that were stored. -/
  stored : Nat
  /-- Elements that were classified. -/
  classified : Nat
  /-- Elements that gave a feature. -/
  withOutput : Nat
deriving DecidableEq, Repr

namespace Counters

def zero : Counters := ⟨0, 0, 0, 0⟩

protected def add (a b : Counters) : Counters :=
  ⟨a.elements + b.elements, a.stored + b.stored, a.classified + b.classified, a.withOutput + b.withOutput⟩

instance : Add Counters := ⟨Counters.add⟩

def ofGiven (elements stored : Nat) : Counters := ⟨elements, stored, 0, 0⟩

def ofClassified (hasOutput : Bool) : Counters := ⟨0, 0, 1, if hasOutput then 1 else 0⟩

end Counters
end MapFeatures
