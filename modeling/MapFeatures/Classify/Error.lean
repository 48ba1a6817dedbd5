import MapFeatures.Store.Error
/-!
# Error — why elements do not become features
-/
namespace MapFeatures

/-- The passes that have to wait for the scan of the relations. -/
inductive Pass
  | blocks
  | relations
deriving DecidableEq, Repr

def Pass.name : Pass → String
  | blocks => "block pass"
  | relations => "relation pass"

inductive ProcessingError
  /-- The shape of an element cannot be built. -/
  | geometry (kind : ElementKind) (id : Int) (cause : StoreError)
  /-- Elements cannot be stored. -/
  | storage (cause : StoreError)
  /-- The classifier gives up. -/
  | classification (reason : String)
  /-- A pass is run before the relations are scanned. -/
  | passOrder (pass : Pass)
deriving DecidableEq, Repr

namespace ProcessingError

/-- What went wrong, without the cause. -/
def headline : ProcessingError → String
  | geometry kind id _ => "Could not build the geometry of " ++ kind.name ++ " " ++ toString id
  | storage _ => "Could not store input elements"
  | classification reason => "Classification failed: " ++ reason
  | passOrder pass => "The " ++ pass.name ++ " can only run after the relation scan completed"

/-- The error of a store that is behind it. -/
def cause? : ProcessingError → Option StoreError
  | geometry _ _ cause => some cause
  | storage cause => some cause
  | _ => none

def message (e : ProcessingError) : String :=
  match e.cause? with
  | none => e.headline
  | some cause => e.headline ++ ": " ++ cause.message

/-- The check that stops the program, if one does. -/
def check? (e : ProcessingError) : Option Check := e.cause?.bind StoreError.check?

/-- Whether a shape cannot be built because an element is missing. -/
def isMissingReference : ProcessingError → Bool
  | geometry _ _ cause => cause.isMissingReference
  | _ => false

end ProcessingError
end MapFeatures
