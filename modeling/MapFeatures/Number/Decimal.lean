import MapFeatures.Number.Binary64
/-!
# Decimal — floats as decimal text

Three formats.  `fixed` writes a given number of places, `scientific` a given number of significant digits with an
exponent; both round the exact value, a tie to the even digit.  `shortest` writes the fewest digits that read back as
the same float, never with an exponent.
-/
namespace MapFeatures
namespace Decimal

/-- The digits of `n`, filled up with zeros in front to at least `width`. -/
def padded (width n : Nat) : String :=
  let digits := Nat.toDigits 10 n
  String.ofList (List.replicate (width - digits.length) '0' ++ digits)

/-- The text of `n / 10 ^ places` with all its places. -/
def withPlaces (n places : Nat) : String :=
  if places = 0 then padded 1 n
  else padded 1 (n / Nat.pow 10 places) ++ "." ++ padded places (n % Nat.pow 10 places)

def signed (negative : Bool) (text : String) : String := if negative then "-" ++ text else text

/-- The text of a float that is no finite number. -/
def nonFinite (v : Float) : String :=
  if v.isNaN then "nan" else signed (Binary64.isNegative v) "inf"

/-- The value with `places` decimal places; what rounds to zero has no sign. -/
def fixed (places : Nat) (v : Float) : String :=
  match Binary64.magnitude? v with
  | none => nonFinite v
  | some m =>
    let n := Rounding.halfEven (m * Nat.pow 10 places) (Nat.pow 2 Binary64.unitBits)
    signed (Binary64.isNegative v && n != 0) (withPlaces n places)

/-- **The place of the point**: the `e` with `10 ^ (e - 1) ≤ m < 10 ^ e` for a positive `m` in units. -/
def pointPlace (m : Nat) : Int :=
  (Binary64.digitCount (m * Nat.pow 10 330 / Nat.pow 2 Binary64.unitBits) : Int) - 330

/-- `m` units over `10 ^ place`, as a fraction of whole numbers. -/
def overPowerOfTen (m : Nat) (place : Int) : Nat × Nat :=
  if 0 ≤ place then (m, Nat.pow 2 Binary64.unitBits * Nat.pow 10 place.toNat)
  else (m * Nat.pow 10 (-place).toNat, Nat.pow 2 Binary64.unitBits)

/-- The value with `digits` significant digits, one of them before the point, and an exponent; zero is plain `0`. -/
def scientific (digits : Nat) (v : Float) : String :=
  match Binary64.magnitude? v with
  | none => nonFinite v
  | some 0 => "0"
  | some m =>
    let place := pointPlace m
    let (num, den) := overPowerOfTen m (place - digits)
    let rounded := Rounding.halfEven num den
    let (n, place) := if rounded = Nat.pow 10 digits then (rounded / 10, place + 1) else (rounded, place)
    signed (Binary64.isNegative v) (withPlaces n (digits - 1) ++ "e" ++ toString (place - 1))

/-- The decimals that read back as `m` units lie between two bounds, given in quarters of a unit; the bounds belong to
them if the significand is even. -/
structure Interval where
  low : Nat
  high : Nat
  closed : Bool

/-- Half a step to either side; below a power of two the steps are half as wide. -/
def Interval.around (m : Nat) : Interval :=
  let dropped := m.log2 - Binary64.fractionBits
  let step := Nat.pow 2 dropped
  let below := if dropped ≠ 0 && m = Nat.pow 2 (dropped + Binary64.fractionBits) then step else 2 * step
  ⟨4 * m - below, 4 * m + 2 * step, m / step % 2 = 0⟩

/-- Whether `c * 10 ^ place` lies in the interval. -/
def Interval.holds (i : Interval) (c : Nat) (place : Int) : Bool :=
  let (value, scale) :=
    if 0 ≤ place then (c * Nat.pow 10 place.toNat * Nat.pow 2 (Binary64.unitBits + 2), 1)
    else (c * Nat.pow 2 (Binary64.unitBits + 2), Nat.pow 10 (-place).toNat)
  if i.closed then i.low * scale ≤ value && value ≤ i.high * scale
  else i.low * scale < value && value < i.high * scale

/-- The multiple of `10 ^ place` nearest to `m` units among its two neighbours that lie in the interval; the upper one
on a tie. -/
def nearestOnGrid? (i : Interval) (m : Nat) (place : Int) : Option Nat :=
  let (num, den) := overPowerOfTen m place
  let below := num / den
  let upperNearer := den ≤ 2 * (num % den)
  match i.holds below place, i.holds (below + 1) place with
  | true, true => some (if upperNearer then below + 1 else below)
  | true, false => some below
  | false, true => some (below + 1)
  | false, false => none

/-- The shortest decimal `digits * 10 ^ place` for a positive `m` in units: the first of the grids with one digit, two
digits and so on that has a point in the interval.  Seventeen digits always suffice. -/
def shortestDigits (m : Nat) : Nat × Int :=
  let interval := Interval.around m
  let place := pointPlace m
  let grids := (List.range 17).map fun (n : Nat) => place - (n + 1 : Nat)
  (grids.findSome? fun p => (nearestOnGrid? interval m p).map fun c => (c, p)).getD (0, 0)

/-- `digits * 10 ^ place` without an exponent and without zeros at the end of the places. -/
def positional (digits : Nat) (place : Int) : String :=
  if 0 ≤ place then padded 1 (digits * Nat.pow 10 place.toNat)
  else
    let places := (-place).toNat
    let whole := padded 1 (digits / Nat.pow 10 places)
    let rest := (padded places (digits % Nat.pow 10 places)).toList.reverse.dropWhile (· == '0')
    if rest.isEmpty then whole else whole ++ "." ++ String.ofList rest.reverse

/-- The fewest digits that read back as the same float, nearest to it among those, without an exponent. -/
def shortest (v : Float) : String :=
  match Binary64.magnitude? v with
  | none => if v.isNaN then "NaN" else nonFinite v
  | some 0 => signed (Binary64.isNegative v) "0"
  | some m =>
    let (digits, place) := shortestDigits m
    signed (Binary64.isNegative v) (positional digits place)

end Decimal
end MapFeatures
