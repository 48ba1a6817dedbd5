import MapFeatures.Number.Binary64
/-!
# Reading — numbers that people write into tags

A number is digits with at most one point among or beside them, an optional sign, and an optional exponent; `inf`,
`infinity` and `nan` in any case count as numbers too.  Blanks around it do not matter.
-/
namespace MapFeatures
namespace Number

/-- The characters that count as blank. -/
def isBlank (c : Char) : Bool :=
  let n := c.toNat
  (0x9 ≤ n && n ≤ 0xD) || n = 0x20 || n = 0x85 || n = 0xA0 || n = 0x1680 || (0x2000 ≤ n && n ≤ 0x200A) ||
    n = 0x2028 || n = 0x2029 || n = 0x202F || n = 0x205F || n = 0x3000

def trim (cs : List Char) : List Char := ((cs.dropWhile isBlank).reverse.dropWhile isBlank).reverse

def value (digits : List Char) : Nat := digits.foldl (fun n c => 10 * n + (c.toNat - '0'.toNat)) 0

/-- The sign in front, if there is one, and the rest. -/
def sign : List Char → Bool × List Char
  | '-' :: cs => (true, cs)
  | '+' :: cs => (false, cs)
  | cs => (false, cs)

/-- The exponent at the end, which is zero if there is none. -/
def exponent? : List Char → Option Int
  | [] => some 0
  | c :: cs =>
    let (negative, digits) := sign cs
    if (c = 'e' || c = 'E') && !digits.isEmpty && digits.all Char.isDigit then
      some (if negative then -(value digits : Int) else value digits)
    else none

/-- A decimal without its sign. -/
def decimal? (negative : Bool) (cs : List Char) : Option Float := do
  let whole := cs.takeWhile Char.isDigit
  let rest := cs.dropWhile Char.isDigit
  let (places, rest) :=
    match rest with
    | '.' :: cs => (cs.takeWhile Char.isDigit, cs.dropWhile Char.isDigit)
    | cs => ([], cs)
  if whole.isEmpty && places.isEmpty then none
  else
    let exponent ← exponent? rest
    some (Binary64.ofDecimal negative (value (whole ++ places)) (exponent - places.length))

/-- A name of what is no finite number. -/
def special? (negative : Bool) (cs : List Char) : Option Float :=
  let name := String.ofList (cs.map Char.toLower)
  if name = "inf" || name = "infinity" then some (Binary64.ofSignBits negative Binary64.infinityBits)
  else if name = "nan" then some (0 / 0)
  else none

/-- The nearest float to the number that a text writes. -/
def read? (text : String) : Option Float :=
  let (negative, cs) := sign (trim text.toList)
  (decimal? negative cs).or (special? negative cs)

end Number
end MapFeatures
