import MapFeatures.Json.Lexer
/-!
# Reader — JSON documents as values

The reader keeps the containers that are open on a stack and takes one token at a time, so nesting is bounded by
nothing.  A document is one value.
-/
namespace MapFeatures
namespace Json

/-- A container that is still open, with its contents in reverse. -/
inductive Frame
  | array (items : List Json)
  | object (members : List (Option String × Json)) (key : Option String)

/-- What may come next. -/
inductive Expected
  /-- A value. -/
  | value
  /-- The first item of an array, or its end. -/
  | itemOrEnd
  /-- The first key of an object, or its end. -/
  | keyOrEnd
  /-- A key. -/
  | key
  /-- The colon behind a key. -/
  | colon
  /-- A comma, or the end of the innermost container. -/
  | commaOrEnd
  /-- Nothing more: the document is this value. -/
  | nothing (document : Json)

/-- The containers that are open, the innermost first, and what may come next. -/
abbrev Progress := List Frame × Expected

/-- A value is complete: it goes into the innermost container, or it is the document. -/
def complete (value : Json) : List Frame → Progress
  | [] => ([], .nothing value)
  | .array items :: outer => (.array (value :: items) :: outer, .commaOrEnd)
  | .object members key :: outer => (.object ((key, value) :: members) key :: outer, .commaOrEnd)

/-- A token at the start of a value. -/
def beginValue (frames : List Frame) : Token → Option Progress
  | .atom value => some (complete value frames)
  | .openArray => some (.array [] :: frames, .itemOrEnd)
  | .openObject => some (.object [] none :: frames, .keyOrEnd)
  | _ => none

/-- A token in the place of a key; a key must be a string. -/
def beginMember (frames : List Frame) (t : Token) : Option Progress :=
  match frames, t with
  | .object members _ :: outer, .atom (.string key) => some (.object members key :: outer, .colon)
  | _, _ => none

/-- The end of the innermost container. -/
def close (frames : List Frame) (t : Token) : Option Progress :=
  match frames, t with
  | .array items :: outer, .closeArray => some (complete (.array items.reverse) outer)
  | .object members _ :: outer, .closeObject => some (complete (.object members.reverse) outer)
  | _, _ => none

/-- One token. -/
def advance (progress : Progress) (t : Token) : Option Progress :=
  let (frames, expected) := progress
  match expected, t with
  | .value, t => beginValue frames t
  | .itemOrEnd, .closeArray => close frames .closeArray
  | .itemOrEnd, t => beginValue frames t
  | .keyOrEnd, .closeObject => close frames .closeObject
  | .keyOrEnd, t => beginMember frames t
  | .key, t => beginMember frames t
  | .colon, .colon => some (frames, .value)
  | .commaOrEnd, .comma =>
    match frames with
    | .array _ :: _ => some (frames, .value)
    | .object _ _ :: _ => some (frames, .key)
    | [] => none
  | .commaOrEnd, t => close frames t
  | _, _ => none

def ofTokens? (tokens : List Token) : Option Json :=
  match tokens.foldlM advance ([], .value) with
  | some (_, .nothing document) => some document
  | _ => none

def parse? (document : String) : Option Json := (tokens? document).bind ofTokens?

end Json
end MapFeatures
