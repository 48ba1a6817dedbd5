/-!
# Rounding — quotients of whole numbers rounded to a whole number

Two rules for the half: to the even neighbour (`halfEven`, how decimals are written and floats are read) and away from
zero (`halfAway`, how degrees become fixed point).
-/
namespace MapFeatures
namespace Rounding

/-- The whole number nearest to `num / den`; a half goes to the even neighbour. -/
def halfEven (num den : Nat) : Nat :=
  let q := num / den
  let twice := 2 * (num % den)
  if twice < den then q
  else if den < twice then q + 1
  else q + q % 2

/-- The whole number nearest to `num / den`; a half goes up. -/
def halfUp (num den : Nat) : Nat := (2 * num + den) / (2 * den)

/-- The whole number nearest to `num / den`; a half goes away from zero. -/
def halfAway : Int → Nat → Int
  | .ofNat n, den => halfUp n den
  | .negSucc n, den => -(halfUp (n + 1) den : Int)

end Rounding
end MapFeatures
