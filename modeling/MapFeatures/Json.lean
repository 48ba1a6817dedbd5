import MapFeatures.Number.Binary64
/-!
# Json — the values of JSON documents

Objects keep their members as written, repeated keys included.  Numbers keep what they were written as, so whole numbers
and the sign of zero are still told apart.
-/
namespace MapFeatures

/-- A decimal as written: `digits * 10 ^ exponent` with a sign; `whole` if it has neither a point nor an exponent. -/
structure Numeral where
  negative : Bool
  digits : Nat
  exponent : Int
  whole : Bool
deriving DecidableEq, Repr, Inhabited

namespace Numeral

def toFloat (n : Numeral) : Float := Binary64.ofDecimal n.negative n.digits n.exponent

/-- The value of a whole number; a negative zero is none. -/
def toInt? (n : Numeral) : Option Int :=
  if !n.whole then none
  else if n.negative then if n.digits = 0 then none else some (-(n.digits : Int))
  else some n.digits

def toNat? (n : Numeral) : Option Nat := if n.whole && !n.negative then some n.digits else none

end Numeral

/-- A JSON value.  A string that escapes half of a surrogate pair is well formed, but it is no text: `none`. -/
inductive Json
  | null
  | bool (value : Bool)
  | number (value : Numeral)
  | string (value : Option String)
  | array (items : List Json)
  | object (members : List (Option String × Json))
deriving Inhabited

end MapFeatures
