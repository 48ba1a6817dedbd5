import MapFeatures.Feature.Attribute
import MapFeatures.TextMap
/-!
# Metadata — which attributes the features of a layer have

For each layer that has any, the keys and the type that was recorded last for each.  `merge` adds the records of another
collection as if they came later.
-/
namespace MapFeatures

abbrev LayerMetadata := TextMap (TextMap AttributeType)

namespace LayerMetadata

def keysOf (m : LayerMetadata) (layer : String) : TextMap AttributeType := (TextMap.get? m layer).getD ∅

/-- Records the type of an attribute. -/
def record (m : LayerMetadata) (layer key : String) (type : AttributeType) : LayerMetadata :=
  TextMap.insert m layer ((keysOf m layer).insert key type)

/-- The type that was recorded last for an attribute. -/
def typeOf? (m : LayerMetadata) (layer key : String) : Option AttributeType :=
  (TextMap.get? m layer).bind (·.get? key)

/-- Both together; where both have a type, that of the second counts. -/
def merge (m other : LayerMetadata) : LayerMetadata :=
  other.entries.foldl (fun m e => TextMap.insert m e.1 ((keysOf m e.1).merge e.2)) m

end LayerMetadata
end MapFeatures
