import MapFeatures.Json
/-!
# Lexer — the tokens of a JSON document

The lexer reads one character at a time (`step`), so `tokens?` is a plain fold.  Numbers and names are collected as
words and read when they end; the characters of a string are collected as code points, among them the halves of
surrogate pairs that escapes may write.
-/
namespace MapFeatures
namespace Json

inductive Token
  | openArray
  | closeArray
  | openObject
  | closeObject
  | comma
  | colon
  | atom (value : Json)
deriving Inhabited

/-! ## Numbers and names -/

def digit? (c : Char) : Option Nat := if c.isDigit then some (c.toNat - '0'.toNat) else none

/-- The number that a run of digits writes; none for no digits or other characters. -/
def digitsValue? : List Char → Option Nat
  | [] => none
  | cs => cs.foldlM (fun n c => (digit? c).map (10 * n + ·)) 0

/-- The part before the first character that satisfies `p`, and what comes after that character. -/
def splitAt? (p : Char → Bool) (cs : List Char) : List Char × Option (List Char) :=
  match cs.dropWhile fun c => !p c with
  | [] => (cs, none)
  | _ :: rest => (cs.takeWhile fun c => !p c, some rest)

/-- An exponent: digits after an optional sign. -/
def exponent? : List Char → Option Int
  | '-' :: cs => (digitsValue? cs).map fun n => -(n : Int)
  | '+' :: cs => (digitsValue? cs).map Int.ofNat
  | cs => (digitsValue? cs).map Int.ofNat

/-- Whether the digits before the point are written as they must be: without a zero in front of others. -/
def wholeDigits? : List Char → Option Nat
  | '0' :: _ :: _ => none
  | cs => digitsValue? cs

/-- A number without its sign. -/
def unsignedNumeral? (negative : Bool) (word : List Char) : Option Numeral := do
  let (mantissa, exponentPart) := splitAt? (fun c => c = 'e' || c = 'E') word
  let (before, after) := splitAt? (· = '.') mantissa
  let whole ← wholeDigits? before
  let exponent ← exponentPart.elim (some 0) exponent?
  match after with
  | none => some ⟨negative, whole, exponent, exponentPart.isNone⟩
  | some places =>
    let fraction ← digitsValue? places
    some ⟨negative, whole * Nat.pow 10 places.length + fraction, exponent - places.length, false⟩

def numeral? : List Char → Option Numeral
  | '-' :: cs => unsignedNumeral? true cs
  | cs => unsignedNumeral? false cs

/-- The value of a word outside of strings. -/
def word? (word : List Char) : Option Json :=
  if word = "null".toList then some .null
  else if word = "true".toList then some (.bool true)
  else if word = "false".toList then some (.bool false)
  else (numeral? word).map .number

/-! ## Strings -/

def isHighHalf (n : Nat) : Bool := 0xD800 ≤ n && n < 0xDC00

def isLowHalf (n : Nat) : Bool := 0xDC00 ≤ n && n < 0xE000

/-- The characters of some code points: a high half and a low half are one character, a half alone is none. -/
def characters? : List Nat → Option (List Char)
  | [] => some []
  | high :: low :: rest =>
    if isHighHalf high && isLowHalf low then
      (characters? rest).map (Char.ofNat (0x10000 + (high - 0xD800) * 0x400 + (low - 0xDC00)) :: ·)
    else if isHighHalf high || isLowHalf high then none
    else (characters? (low :: rest)).map (Char.ofNat high :: ·)
  | [n] => if isHighHalf n || isLowHalf n then none else some [Char.ofNat n]

def text? (points : List Nat) : Option String := (characters? points).map String.ofList

/-- What a character after a backslash stands for, `u` apart. -/
def escaped? : Char → Option Nat
  | '"' => some 0x22
  | '\\' => some 0x5C
  | '/' => some 0x2F
  | 'b' => some 0x08
  | 'f' => some 0x0C
  | 'n' => some 0x0A
  | 'r' => some 0x0D
  | 't' => some 0x09
  | _ => none

def hexDigit? (c : Char) : Option Nat :=
  if c.isDigit then some (c.toNat - '0'.toNat)
  else if 'a' ≤ c && c ≤ 'f' then some (c.toNat - 'a'.toNat + 10)
  else if 'A' ≤ c && c ≤ 'F' then some (c.toNat - 'A'.toNat + 10)
  else none

/-! ## The lexer -/

/-- What the lexer is in the middle of; collected characters are held in reverse. -/
inductive Reading
  | between
  | word (sofar : List Char)
  | text (sofar : List Nat)
  | escape (sofar : List Nat)
  | hex (sofar : List Nat) (digits value : Nat)

def isBlank (c : Char) : Bool := c = ' ' || c = '\t' || c = '\n' || c = '\r'

def isWordPart (c : Char) : Bool := c.isAlphanum || c = '-' || c = '+' || c = '.'

def punctuation? : Char → Option Token
  | '[' => some .openArray
  | ']' => some .closeArray
  | '{' => some .openObject
  | '}' => some .closeObject
  | ',' => some .comma
  | ':' => some .colon
  | _ => none

/-- One character between tokens. -/
def begin? (c : Char) : Option (Reading × List Token) :=
  if isBlank c then some (.between, [])
  else if c = '"' then some (.text [], [])
  else if isWordPart c then some (.word [c], [])
  else (punctuation? c).map fun t => (.between, [t])

/-- One character, and the tokens that it completes. -/
def step (reading : Reading) (c : Char) : Option (Reading × List Token) :=
  match reading with
  | .between => begin? c
  | .word sofar =>
    if isWordPart c then some (.word (c :: sofar), [])
    else do
      let value ← word? sofar.reverse
      let (next, ts) ← begin? c
      some (next, .atom value :: ts)
  | .text sofar =>
    if c = '"' then some (.between, [.atom (.string (text? sofar.reverse))])
    else if c = '\\' then some (.escape sofar, [])
    else if c.toNat < 0x20 then none
    else some (.text (c.toNat :: sofar), [])
  | .escape sofar =>
    if c = 'u' then some (.hex sofar 0 0, [])
    else (escaped? c).map fun n => (.text (n :: sofar), [])
  | .hex sofar digits value =>
    (hexDigit? c).map fun d =>
      if digits = 3 then (.text ((16 * value + d) :: sofar), [])
      else (.hex sofar (digits + 1) (16 * value + d), [])

/-- The tokens of what is left at the end. -/
def finish? : Reading → Option (List Token)
  | .between => some []
  | .word sofar => (word? sofar.reverse).map fun value => [.atom value]
  | _ => none

/-- The tokens of the rest of a document, after those in `done`, which are in reverse. -/
def scan (reading : Reading) (done : List Token) : List Char → Option (List Token)
  | [] => (finish? reading).map (done.reverseAux ·)
  | c :: cs =>
    match step reading c with
    | none => none
    | some (next, ts) => scan next (ts.reverseAux done) cs

def tokens? (document : String) : Option (List Token) := scan .between [] document.toList

end Json
end MapFeatures
