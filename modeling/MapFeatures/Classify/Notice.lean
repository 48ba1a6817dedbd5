import MapFeatures.Ids
import MapFeatures.Shape.Validity
/-!
# Notice — what is worth telling while elements are classified
-/
namespace MapFeatures

inductive Notice
  /-- The shape of an element is faulty, but usable. -/
  | faultyShape (kind : ElementKind) (id : Int) (fault : Fault)
  /-- A relation is built without one of its ways. -/
  | skippedWay (id : WayId)
  /-- There is no feature yet that could have the attribute. -/
  | attributeWithoutFeature (key : String)
  /-- There is no feature yet that could have the minimum zoom. -/
  | zoomWithoutFeature
deriving DecidableEq, Repr

namespace Notice

def level : Notice → String
  | faultyShape _ _ _ => "INFO"
  | skippedWay _ => "WARN"
  | attributeWithoutFeature _ => "ERROR"
  | zoomWithoutFeature => "ERROR"

def text : Notice → String
  | faultyShape kind id fault => kind.name ++ " " ++ toString id ++ " has " ++ fault.text
  | skippedWay id => "Way " ++ toString id ++ " is referenced, but missing. Skipping it."
  | attributeWithoutFeature key => "Can't add attribute " ++ key ++ " if no layer is set"
  | zoomWithoutFeature => "Can't set a minimum zoom if no layer is set"

end Notice
end MapFeatures
