import MapFeatures.Classify.Script
import MapFeatures.Number.Reading
/-!
# Rules — the classifier that a configuration describes

The first rule that holds of an element decides.  Its attributes are set in their order; empty values are left out, and
so are values of numeric attributes that are no numbers.
-/
namespace MapFeatures

namespace Rule

/-- Whether the tags have the key of the rule, with its value if it has one. -/
def holds (r : Rule) (tags : Tags) : Bool :=
  match tags.get? r.key with
  | none => false
  | some value => r.value.all (· = value)

def appliesTo (r : Rule) (kind : ElementKind) : Bool := r.elements.contains kind

end Rule

namespace AttributeRule

/-- The attribute that a tag value becomes, if it becomes one. -/
def attribute? (a : AttributeRule) (value : String) : Option Attribute :=
  let name := a.rename.getD a.key
  let minZoom := a.minZoom.getD 0
  if value.isEmpty then none
  else
    match a.kind with
    | .string => some ⟨name, .string value, minZoom⟩
    | .numeric => (Number.read? value).map fun n => ⟨name, .number n, minZoom⟩
    | .boolean => some ⟨name, .boolean (value = "yes" || value = "true" || value = "1"), minZoom⟩

/-- Sets the attribute that the tag of the element becomes. -/
def apply (a : AttributeRule) : Script Unit := do
  match a.attribute? (← Script.call (.find a.key)) with
  | some new => Script.call (.setAttribute new)
  | none => pure ()

end AttributeRule

namespace Rule

/-- Makes the feature of a rule. -/
def emit (r : Rule) : Script (Except ProcessingError Bool) :=
  if r.centroid then Script.call (.assignCentroid r.layer) else Script.call (.assign r.layer r.area)

/-- Makes the feature of a rule and, if there is one, sets its minimum zoom and its attributes. -/
def apply (r : Rule) : Script (Except ProcessingError Unit) := do
  match ← r.emit with
  | .error e => pure (.error e)
  | .ok false => pure (.ok ())
  | .ok true =>
    match r.minZoom with
    | some minZoom => Script.call (.setMinZoom minZoom)
    | none => pure ()
    r.attributes.forM AttributeRule.apply
    pure (.ok ())

end Rule

namespace Config

/-- The first rule that holds of an element. -/
def ruleFor? (c : Config) (kind : ElementKind) (tags : Option Tags) : Option Rule :=
  c.rules.find? fun r => r.appliesTo kind && tags.any r.holds

/-- The classifier that follows the rules. -/
def classifier (c : Config) : Classifier Unit where
  fresh := ()
  significantKeys := c.nodeKeys
  scansRelation tags := isAreaRelation tags || c.rules.any fun r => r.appliesTo .relation && r.holds tags
  classify kind _ := do
    match c.ruleFor? kind (← Script.call .tags) with
    | none => pure (.ok (), ())
    | some r => pure (← r.apply, ())

end Config
end MapFeatures
