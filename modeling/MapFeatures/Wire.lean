/-!
# Wire — messages of numbered fields

A message is a sequence of fields in any order.  A field has a number, and its value is a word or a text of bytes, which
may be a message again, or several words in a row.
-/
namespace MapFeatures.Wire

inductive Value
  | word (w : UInt64)
  | bytes (b : ByteArray)

structure Field where
  number : Nat
  value : Value

/-- The word at a place, seven bits to a byte, the lowest first, and the place after it.  At most ten bytes count. -/
def word? (b : ByteArray) (place : Nat) : Option (UInt64 × Nat) := go 10 place 0 0
where
  go : Nat → Nat → UInt64 → UInt64 → Option (UInt64 × Nat)
    | 0, _, _, _ => none
    | count + 1, place, shift, sum => do
      let byte ← b[place]?
      let sum := sum ||| (byte &&& 127).toUInt64 <<< shift
      if byte &&& 128 = 0 then some (sum, place + 1) else go count (place + 1) (shift + 7) sum

/-- The number that some bytes are, the lowest first. -/
def fixed? (b : ByteArray) (place count : Nat) : Option (UInt64 × Nat) :=
  if place + count ≤ b.size then
    some ((b.extract place (place + count)).toList.foldr (fun byte sum => sum <<< 8 ||| byte.toUInt64) 0, place + count)
  else none

/-- The field at a place, and the place after it. -/
def field? (b : ByteArray) (place : Nat) : Option (Field × Nat) := do
  let (tag, place) ← word? b place
  let number := (tag >>> 3).toNat
  if number = 0 then none
  else
    match (tag &&& 7).toNat with
    | 0 =>
      let (w, place) ← word? b place
      some (⟨number, .word w⟩, place)
    | 1 =>
      let (w, place) ← fixed? b place 8
      some (⟨number, .word w⟩, place)
    | 2 =>
      let (size, place) ← word? b place
      let stop := place + size.toNat
      if stop ≤ b.size then some (⟨number, .bytes (b.extract place stop)⟩, stop) else none
    | 5 =>
      let (w, place) ← fixed? b place 4
      some (⟨number, .word w⟩, place)
    | _ => none

/-- All fields from a place on.  Each takes at least one byte, so the bytes are fuel enough. -/
def fieldsFrom? (b : ByteArray) : Nat → Nat → Array Field → Option (Array Field)
  | 0, place, found => if b.size ≤ place then some found else none
  | fuel + 1, place, found =>
    if b.size ≤ place then some found
    else do
      let (f, place) ← field? b place
      fieldsFrom? b fuel place (found.push f)

def fields? (b : ByteArray) : Option (List Field) := (fieldsFrom? b b.size 0 #[]).map Array.toList

/-- All words from a place on.  Each takes at least one byte, so the bytes are fuel enough. -/
def wordsFrom? (b : ByteArray) : Nat → Nat → Array UInt64 → Option (Array UInt64)
  | 0, place, found => if b.size ≤ place then some found else none
  | fuel + 1, place, found =>
    if b.size ≤ place then some found
    else do
      let (w, place) ← word? b place
      wordsFrom? b fuel place (found.push w)

abbrev Message := List Field

namespace Message

def values (m : Message) (number : Nat) : List Value := (m.filter (·.number = number)).map (·.value)

/-- The texts of the fields with a number. -/
def bytes (m : Message) (number : Nat) : List ByteArray :=
  (m.values number).filterMap fun
    | .bytes b => some b
    | .word _ => none

/-- The word of the last field with a number. -/
def word? (m : Message) (number : Nat) : Option UInt64 :=
  ((m.values number).filterMap fun
    | .word w => some w
    | .bytes _ => none).getLast?

def messages? (m : Message) (number : Nat) : Option (List Message) := (m.bytes number).mapM fields?

/-- The words in the fields with a number, alone or in a row. -/
def words? (m : Message) (number : Nat) : Option (List UInt64) := do
  let rows ← (m.values number).mapM fun
    | .word w => some #[w]
    | .bytes b => wordsFrom? b b.size 0 #[]
  some (rows.map Array.toList).flatten

end Message

/-- The number that a word is if odd words are negative: 0, -1, 1, -2, and so on. -/
def alternating (w : UInt64) : Int64 := ((w >>> 1) ^^^ (0 - (w &&& 1))).toInt64

/-- Numbers, of which all but the first are given by their differences. -/
def sums (differences : List Int64) : List Int64 := go 0 differences
where
  go (last : Int64) : List Int64 → List Int64
    | [] => []
    | d :: rest => (last + d) :: go (last + d) rest

end MapFeatures.Wire
