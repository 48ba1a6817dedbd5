import MapFeatures.Json.Reader
/-!
# Decode — typed values from JSON

A record is an object, or an array of its fields in their order.  Members that are not fields of it are skipped, a field
given twice is refused.  A choice is its name, or an object with the name as its only key and null as its value.
-/
namespace MapFeatures
namespace Json

/-- The value of type `α` that a JSON value stands for, if it is of that type. -/
abbrev Decoder (α : Type) := Json → Option α

def asBool : Decoder Bool
  | .bool b => some b
  | _ => none

def asText : Decoder String
  | .string (some s) => some s
  | _ => none

/-- A whole number below `bound`. -/
def asNatBelow (bound : Nat) : Decoder Nat
  | .number n => n.toNat?.filter (· < bound)
  | _ => none

def asList {α : Type} (item : Decoder α) : Decoder (List α)
  | .array items => items.mapM item
  | _ => none

/-- Null stands for nothing. -/
def asOptional {α : Type} (item : Decoder α) : Decoder (Option α)
  | .null => some none
  | value => (item value).map some

/-- One of the named values. -/
def asChoice {α : Type} (choices : List (String × α)) : Decoder α
  | .string (some name) => choices.lookup name
  | .object [(some name, .null)] => choices.lookup name
  | _ => none

/-- The values of the fields in their order, none for a field that is missing. -/
def fields? (names : List String) : Decoder (List (Option Json))
  | .object members =>
    if members.all (·.1.isSome) then
      names.mapM fun name =>
        match members.filter (·.1 = some name) with
        | [] => some none
        | [member] => some (some member.2)
        | _ => none
    else none
  | .array items =>
    if items.length ≤ names.length then some ((List.range names.length).map (items[·]?)) else none
  | _ => none

def required {α : Type} (decode : Decoder α) (field : Option Json) : Option α := field.bind decode

/-- A field that is `default` if it is missing. -/
def orElse {α : Type} (default : α) (decode : Decoder α) : Option Json → Option α
  | none => some default
  | some value => decode value

end Json
end MapFeatures
