import MapFeatures.Config
import MapFeatures.Json.Decode
/-!
# Reader — configurations from JSON

Each record names its fields in their order.  Settings that are left out have their defaults, and the result is checked.
-/
namespace MapFeatures

open Json

def ElementKind.ofJson? : Decoder ElementKind := asChoice [("node", .node), ("way", .way), ("relation", .relation)]

def AttributeKind.ofJson? : Decoder AttributeKind :=
  asChoice [("string", .string), ("numeric", .numeric), ("boolean", .boolean)]

def zoom? : Decoder UInt8 := fun j => (asNatBelow 256 j).map UInt8.ofNat

def StoreConfig.ofJson? : Decoder StoreConfig := fun j => do
  match ← fields? ["compact_storage", "enforce_integrity", "compact_node_capacity", "store_path", "verbose"] j with
  | [compactStorage, enforceIntegrity, capacity, storePath, verbose] =>
    some ⟨← orElse default.compactStorage asBool compactStorage,
      ← orElse default.enforceIntegrity asBool enforceIntegrity,
      ← orElse default.compactNodeCapacity (fun j => (asNatBelow UInt64.size j).map UInt64.ofNat) capacity,
      ← orElse default.storePath (asOptional asText) storePath,
      ← orElse default.verbose asBool verbose⟩
  | _ => none

def AttributeRule.ofJson? : Decoder AttributeRule := fun j => do
  match ← fields? ["key", "rename", "min_zoom", "kind"] j with
  | [key, rename, minZoom, kind] =>
    some ⟨← required asText key, ← orElse none (asOptional asText) rename,
      ← orElse none (asOptional zoom?) minZoom, ← orElse .string AttributeKind.ofJson? kind⟩
  | _ => none

def Rule.ofJson? : Decoder Rule := fun j => do
  match ← fields? ["key", "value", "elements", "layer", "area", "centroid", "min_zoom", "attributes"] j with
  | [key, value, elements, layer, area, centroid, minZoom, attributes] =>
    some ⟨← required asText key, ← orElse none (asOptional asText) value,
      ← orElse ElementKind.all (asList ElementKind.ofJson?) elements, ← required asText layer,
      ← orElse false asBool area, ← orElse false asBool centroid, ← orElse none (asOptional zoom?) minZoom,
      ← orElse [] (asList AttributeRule.ofJson?) attributes⟩
  | _ => none

namespace Config

/-- The settings that a JSON value stands for, not checked yet. -/
def ofJson? : Decoder Config := fun j => do
  match ← fields? ["store", "significant_node_keys", "rules"] j with
  | [store, keys, rules] =>
    some ⟨← orElse .default StoreConfig.ofJson? store, ← orElse [] (asList asText) keys,
      ← orElse [] (asList Rule.ofJson?) rules⟩
  | _ => none

/-- The settings of a JSON value that must be settings in order. -/
def ofJson (j : Json) : Except ConfigError Config :=
  match ofJson? j with
  | none => .error .malformed
  | some c =>
    match c.check with
    | some e => .error e
    | none => .ok c

/-- The settings that a text holds. -/
def ofText (text : String) : Except ConfigError Config :=
  match Json.parse? text with
  | none => .error .malformed
  | some j => ofJson j

/-- The settings that a file holds; there is no content if it cannot be read. -/
def ofFile (content : Option ByteArray) : Except ConfigError Config :=
  match content.bind String.fromUTF8? with
  | none => .error .unreadable
  | some text => ofText text

end Config
end MapFeatures
