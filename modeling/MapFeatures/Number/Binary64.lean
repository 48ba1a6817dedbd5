import MapFeatures.Number.Rounding
/-!
# Binary64 — the exact value of a float

Every finite float is a whole number of units of `2 ^ -1074`, the smallest positive float.  Predicates on coordinates
and decimal texts are decided on that whole number (`units?`), so they are exact.  The way back is correct rounding:
`ofRatio` and `ofDecimal` give the nearest float, a tie going to the even one.
-/
namespace MapFeatures
namespace Binary64

/-- The unit is `2 ^ -unitBits`. -/
def unitBits : Nat := 1074

/-- Bits of a significand behind its leading one. -/
def fractionBits : Nat := 52

/-- The bits of positive infinity, the end of the finite floats. -/
def infinityBits : Nat := 2047 * Nat.pow 2 fractionBits

def signBit : Nat := Nat.pow 2 63

def isNegative (v : Float) : Bool := signBit ≤ v.toBits.toNat

def magnitudeBits (v : Float) : Nat := v.toBits.toNat % signBit

/-- The place of a float in the order of all floats: the negative ones come first, the larger the earlier, and `-0` is
the last of them. -/
def totalRank (v : Float) : Int := if isNegative v then -(magnitudeBits v : Int) - 1 else magnitudeBits v

/-- The size of a finite float in units; `none` for the infinities and for NaN. -/
def magnitude? (v : Float) : Option Nat :=
  let bits := magnitudeBits v
  let exponent := bits / Nat.pow 2 fractionBits
  let fraction := bits % Nat.pow 2 fractionBits
  if infinityBits ≤ bits then none
  else if exponent = 0 then some fraction
  else some ((Nat.pow 2 fractionBits + fraction) * Nat.pow 2 (exponent - 1))

/-- The value of a finite float in units. -/
def units? (v : Float) : Option Int :=
  (magnitude? v).map fun m => if isNegative v then -(m : Int) else m

/-- The value of a finite float in units; the infinities and NaN have none, and zero stands for it. -/
def units (v : Float) : Int := (units? v).getD 0

def isFinite (v : Float) : Bool := (magnitude? v).isSome

/-- The float with this sign and these bits. -/
def ofSignBits (negative : Bool) (bits : Nat) : Float :=
  Float.ofBits (UInt64.ofNat (if negative then signBit + bits else bits))

/-- **The nearest float** to `num / den`: the quotient in units is cut to 53 bits, and the bits of the rounded
significand, carry included, are those of the float. -/
def ofRatio (negative : Bool) (num den : Nat) : Float :=
  let scaled := num * Nat.pow 2 unitBits
  let dropped := (scaled / den).log2 - fractionBits
  let bits := dropped * Nat.pow 2 fractionBits + Rounding.halfEven scaled (den * Nat.pow 2 dropped)
  ofSignBits negative (min bits infinityBits)

/-- Number of decimal digits, none for zero. -/
def digitCount (n : Nat) : Nat := if n = 0 then 0 else (Nat.toDigits 10 n).length

/-- The nearest float to `significand * 10 ^ exponent`.  A decimal that starts above the 310th digit before the point
is infinite, one that starts below the 330th behind it is zero. -/
def ofDecimal (negative : Bool) (significand : Nat) (exponent : Int) : Float :=
  let leading := digitCount significand + exponent
  if significand = 0 || leading < -330 then ofSignBits negative 0
  else if 310 < leading then ofSignBits negative infinityBits
  else if 0 ≤ exponent then ofRatio negative (significand * Nat.pow 10 exponent.toNat) 1
  else ofRatio negative significand (Nat.pow 10 (-exponent).toNat)

/-- The nearest whole number, a half going away from zero; `none` for what is no finite number. -/
def round? (v : Float) : Option Int :=
  (units? v).map fun u => Rounding.halfAway u (Nat.pow 2 unitBits)

end Binary64
end MapFeatures
