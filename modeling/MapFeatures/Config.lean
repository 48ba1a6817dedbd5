import MapFeatures.Ids
/-!
# Config — the settings of a run

A configuration says how elements are stored and by which rules they become features.  `check` finds what is wrong with
one; `nodeKeys` are the keys that make a node worth classifying.
-/
namespace MapFeatures

/-- How elements are stored. -/
structure StoreConfig where
  /-- Node positions go into a flat file indexed by node id instead of a hash map. -/
  compactStorage : Bool
  /-- A reference to a missing node or way is an error; otherwise what is missing is left out. -/
  enforceIntegrity : Bool
  /-- Ids below this fit into the flat file. -/
  compactNodeCapacity : UInt64
  /-- The flat file; without one it is a temporary file. -/
  storePath : Option String
  /-- Faults of single shapes are reported. -/
  verbose : Bool
deriving DecidableEq, Repr

namespace StoreConfig

def default : StoreConfig := ⟨false, true, 16777216, none, false⟩

instance : Inhabited StoreConfig := ⟨default⟩

end StoreConfig

/-- What kind of attribute a tag value becomes. -/
inductive AttributeKind
  | string
  | numeric
  | boolean
deriving DecidableEq, Repr, Inhabited

/-- A tag that is copied to the feature. -/
structure AttributeRule where
  key : String
  /-- The name of the attribute, if it is not the key. -/
  rename : Option String
  minZoom : Option UInt8
  kind : AttributeKind
deriving DecidableEq, Repr, Inhabited

/-- Elements of these kinds with this tag go into a layer. -/
structure Rule where
  key : String
  /-- The value that the tag must have; any will do if there is none. -/
  value : Option String
  elements : List ElementKind
  layer : String
  /-- Closed ways and relations become areas. -/
  area : Bool
  /-- Only the centroid becomes a feature. -/
  centroid : Bool
  minZoom : Option UInt8
  attributes : List AttributeRule
deriving DecidableEq, Repr, Inhabited

structure Config where
  store : StoreConfig
  significantNodeKeys : List String
  rules : List Rule
deriving DecidableEq, Repr, Inhabited

/-- Why there is no usable configuration. -/
inductive ConfigError
  /-- The file cannot be read as text. -/
  | unreadable
  /-- The text is no configuration. -/
  | malformed
  | noCompactCapacity
  | ruleWithoutKeyOrLayer (rule : Nat)
  | ruleWithoutElements (rule : Nat)
deriving DecidableEq, Repr

namespace ConfigError

/-- What is wrong with the settings; nothing for a text that is none. -/
def description? : ConfigError → Option String
  | unreadable => none
  | malformed => none
  | noCompactCapacity => some "compact storage needs a compact_node_capacity above zero"
  | ruleWithoutKeyOrLayer rule => some ("rule #" ++ toString rule ++ " needs both a key and a layer")
  | ruleWithoutElements rule => some ("rule #" ++ toString rule ++ " does not apply to any element kind")

/-- The message for settings that contradict themselves. -/
def message? (e : ConfigError) : Option String := e.description?.map ("Invalid config: " ++ ·)

end ConfigError

namespace Rule

/-- What is wrong with the rule numbered `index`. -/
def check (index : Nat) (r : Rule) : Option ConfigError :=
  if r.key.isEmpty || r.layer.isEmpty then some (.ruleWithoutKeyOrLayer index)
  else if r.elements.isEmpty then some (.ruleWithoutElements index)
  else none

end Rule

namespace Config

/-- The first thing that is wrong with the settings: storage comes before the rules, which come in their order. -/
def check (c : Config) : Option ConfigError :=
  if c.store.compactStorage && c.store.compactNodeCapacity = 0 then some .noCompactCapacity
  else c.rules.zipIdx.findSome? fun r => r.1.check r.2

/-- The list without entries that equal the one before. -/
def dropRepeats : List String → List String
  | a :: b :: rest => if a = b then dropRepeats (b :: rest) else a :: dropRepeats (b :: rest)
  | short => short

/-- Nodes with one of these keys are classified: the significant keys if there are any, else the keys of the rules for
nodes, each once and in order. -/
def nodeKeys (c : Config) : List String :=
  if c.significantNodeKeys.isEmpty then
    dropRepeats (((c.rules.filter fun r => r.elements.contains .node).map Rule.key).mergeSort fun a b => a ≤ b)
  else c.significantNodeKeys

end Config
end MapFeatures
