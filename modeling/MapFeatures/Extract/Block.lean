import MapFeatures.Extract
import MapFeatures.Wire
/-!
# Block — a block of an extract as a message

A block has a table of texts, and groups of elements that refer to it.  Positions are whole multiples of a step, which
is given in billionths of a degree, counted from an origin.
-/
namespace MapFeatures.Extract

open Wire

/-- What the elements of a block have in common. -/
structure BlockHead where
  texts : Array ByteArray
  step : Int64
  latOrigin : Int64
  lonOrigin : Int64

namespace BlockHead

def text? (h : BlockHead) (index : UInt64) : Option String := h.texts[index.toNat]?.bind String.fromUTF8?

/-- The entries before the first that is not a text. -/
def tags (h : BlockHead) (pairs : List (UInt64 × UInt64)) : Tags :=
  let texts := pairs.map fun p => (h.text? p.1).bind fun key => (h.text? p.2).map fun value => (key, value)
  TextMap.ofList ((texts.takeWhile Option.isSome).filterMap id)

def degrees (billionths : Int64) : Float := 1e-9 * Float.ofInt billionths.toInt

/-- The location so many steps from the origin. -/
def location (h : BlockHead) (lat lon : Int64) : Location :=
  .ofDegrees (degrees (h.latOrigin + h.step * lat)) (degrees (h.lonOrigin + h.step * lon))

/-- The head of a block. -/
def ofMessage? (m : Message) : Option BlockHead := do
  let tables ← m.messages? 1
  if tables.isEmpty then none
  let texts := (tables.map fun t => t.bytes 1).flatten
  let number (n : Nat) (default : Int64) : Int64 := ((m.word? n).map UInt64.toInt64).getD default
  some ⟨texts.toArray, number 17 100, number 19 0, number 20 0⟩

end BlockHead

def tagsOf? (h : BlockHead) (m : Message) : Option Tags := do some (h.tags ((← m.words? 2).zip (← m.words? 3)))

/-- A node that stands alone. -/
def node? (h : BlockHead) (m : Message) : Option Entry := do
  let id ← m.word? 1
  let lat ← m.word? 8
  let lon ← m.word? 9
  some (.record (.node ⟨(alternating id).toInt, h.location (alternating lat) (alternating lon), ← tagsOf? h m⟩))

/-- Keys and values of one node after the other, each ended by a zero, as pairs. -/
def tagRows : List UInt64 → List (UInt64 × UInt64) → List (List (UInt64 × UInt64))
  | [], row => if row.isEmpty then [] else [row.reverse]
  | [_], row => [row.reverse]
  | 0 :: rest, row => row.reverse :: tagRows rest []
  | key :: value :: rest, row => tagRows rest ((key, value) :: row)

/-- Nodes that are given together; positions and ids by their differences. -/
def nodesTogether? (h : BlockHead) (m : Message) : Option (List Entry) := do
  let numbers (n : Nat) : Option (List Int64) := do some (sums ((← m.words? n).map alternating))
  let ids ← numbers 1
  let lats ← numbers 8
  let lons ← numbers 9
  let rows := tagRows (← m.words? 10) []
  let tagged := (ids.zip (lats.zip lons)).zip (rows ++ List.replicate (ids.length - rows.length) [])
  some (tagged.map fun e => .record (.node ⟨e.1.1.toInt, h.location e.1.2.1 e.1.2.2, h.tags e.2⟩))

/-- A way, whose nodes are given by their differences. -/
def way? (h : BlockHead) (m : Message) : Option Entry := do
  let id ← m.word? 1
  let nodes := (sums ((← m.words? 8).map alternating)).map Int64.toInt
  some (.record (.way ⟨id.toInt64.toInt, nodes, ← tagsOf? h m⟩))

/-- The kind of a member. -/
def memberKind? (w : UInt64) : Option ElementKind :=
  match w with
  | 0 => some .node
  | 1 => some .way
  | 2 => some .relation
  | _ => none

/-- A relation, whose members are given by their differences.  A role that is no text counts as empty. -/
def relation? (h : BlockHead) (m : Message) : Option Entry := do
  let id ← m.word? 1
  let roles ← m.words? 8
  let ids := sums ((← m.words? 9).map alternating)
  let kinds ← (← m.words? 10).mapM memberKind?
  let members := (roles.zip (ids.zip kinds)).map fun e => ⟨e.2.2, e.2.1.toInt, (h.text? e.1).getD ""⟩
  some (.relation id.toInt64.toInt members (← tagsOf? h m))

/-- The elements of a group: nodes alone, nodes together, ways, relations. -/
def group? (h : BlockHead) (m : Message) : Option (List Entry) := do
  let nodes ← (← m.messages? 1).mapM (node? h)
  let together ← (← m.messages? 2).mapM (nodesTogether? h)
  let ways ← (← m.messages? 3).mapM (way? h)
  let relations ← (← m.messages? 4).mapM (relation? h)
  some (nodes ++ together.flatten ++ ways ++ relations)

/-- **The elements of a block** in the order of its groups. -/
def ofBlock? (bytes : ByteArray) : Option Extract := do
  let m : Message ← fields? bytes
  let h ← BlockHead.ofMessage? m
  some ((← (← m.messages? 2).mapM (group? h)).flatten)

end MapFeatures.Extract
