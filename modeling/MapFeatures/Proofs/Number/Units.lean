import Mathlib.Order.Monotone.Basic
import MapFeatures.Shape
/-!
# Units — a finite float is told by its value

The value of a float grows with its bits (`unitsOf_strictMono`): in one step the fraction grows by one, or it starts
again under the next exponent.  So finite floats of one value are equal, unless one of them is the negative zero
(`units_inj`).
-/
namespace MapFeatures
namespace Binary64

/-! ## Bits -/

theorem eq_of_toBits_eq {v w : Float} (h : v.toBits = w.toBits) : v = w := by
  obtain ⟨⟨bits, valid⟩⟩ := v
  obtain ⟨⟨bits', valid'⟩⟩ := w
  cases (h : bits = bits')
  rfl

/-- The value in units that the bits without the sign tell. -/
def unitsOf (bits : Nat) : Nat :=
  if bits / 4503599627370496 = 0 then bits % 4503599627370496
  else (4503599627370496 + bits % 4503599627370496) * Nat.pow 2 (bits / 4503599627370496 - 1)

theorem unitsOf_lt_succ (bits : Nat) : unitsOf bits < unitsOf (bits + 1) := by
  unfold unitsOf
  by_cases hfraction : bits % 4503599627370496 + 1 < 4503599627370496
  · have hexponent : (bits + 1) / 4503599627370496 = bits / 4503599627370496 := by omega
    have hnext : (bits + 1) % 4503599627370496 = bits % 4503599627370496 + 1 := by omega
    rw [hexponent, hnext]
    split
    · exact Nat.lt_succ_self _
    · exact Nat.mul_lt_mul_of_pos_right (Nat.lt_succ_self _) (Nat.two_pow_pos _)
  · -- the fraction is full: it starts again, and a step of the next exponent is twice as long
    have hexponent : (bits + 1) / 4503599627370496 = bits / 4503599627370496 + 1 := by omega
    have hnext : (bits + 1) % 4503599627370496 = 0 := by omega
    rw [hexponent, hnext, if_neg (Nat.succ_ne_zero _), Nat.add_sub_cancel]
    split
    · next hzero =>
      rw [hzero]
      exact Nat.mod_lt bits (by decide)
    · next hpos =>
      obtain ⟨e, he⟩ := Nat.exists_eq_succ_of_ne_zero hpos
      have hdouble : Nat.pow 2 (e + 1) = 2 * Nat.pow 2 e := Nat.pow_succ'
      rw [he, Nat.succ_sub_one, Nat.succ_eq_add_one, hdouble, Nat.add_zero, ← Nat.mul_assoc]
      have hlt := Nat.mod_lt bits (by decide : 4503599627370496 > 0)
      exact Nat.mul_lt_mul_of_pos_right (by omega) (Nat.two_pow_pos e)

/-- **The value grows with the bits.** -/
theorem unitsOf_strictMono : StrictMono unitsOf := strictMono_nat_of_lt_succ unitsOf_lt_succ

/-! ## Values -/

theorem magnitude?_eq_some {v : Float} {m : Nat} (h : magnitude? v = some m) : m = unitsOf (magnitudeBits v) := by
  have hpow : Nat.pow 2 fractionBits = 4503599627370496 := by decide
  unfold magnitude? at h
  unfold unitsOf
  dsimp only at h
  rw [hpow] at h
  split at h
  · cases h
  · split at h
    · next hzero => rw [if_pos hzero, Option.some.inj h]
    · next hpos => rw [if_neg hpos, Option.some.inj h]

theorem units_eq {v : Float} (h : isFinite v = true) :
    units v = if isNegative v then -(unitsOf (magnitudeBits v) : Int) else unitsOf (magnitudeBits v) := by
  obtain ⟨m, hm⟩ := Option.isSome_iff_exists.1 h
  rw [units, units?, hm, ← magnitude?_eq_some hm]
  rfl

theorem toNat_toBits (v : Float) :
    v.toBits.toNat = if isNegative v then 9223372036854775808 + magnitudeBits v else magnitudeBits v := by
  have hsign : signBit = 9223372036854775808 := by decide
  have hlt := v.toBits.toNat_lt
  simp only [isNegative, magnitudeBits, hsign, decide_eq_true_eq]
  split
  · omega
  · omega

theorem eq_negative_zero {v : Float} (hsign : isNegative v = true) (hzero : unitsOf (magnitudeBits v) = 0) :
    v = -0.0 := by
  have hbits : magnitudeBits v = 0 := unitsOf_strictMono.injective hzero
  refine eq_of_toBits_eq (UInt64.toNat_inj.1 ?_)
  rw [toNat_toBits, if_pos hsign, hbits]
  decide

/-- **Finite floats of one value are equal**, unless one of them is the negative zero. -/
theorem units_inj {v w : Float} (hv : isFinite v = true) (hw : isFinite w = true) (hv0 : v ≠ -0.0) (hw0 : w ≠ -0.0) :
    units v = units w ↔ v = w := by
  refine ⟨fun h => ?_, congrArg units⟩
  rw [units_eq hv, units_eq hw] at h
  have hvalue : isNegative v = isNegative w ∧ unitsOf (magnitudeBits v) = unitsOf (magnitudeBits w) := by
    cases hsign : isNegative v with
    | true =>
      cases hsign' : isNegative w with
      | true =>
        rw [hsign, hsign', if_pos rfl, if_pos rfl] at h
        exact ⟨rfl, by omega⟩
      | false =>
        rw [hsign, hsign', if_pos rfl, if_neg Bool.false_ne_true] at h
        exact absurd (eq_negative_zero hsign (by omega)) hv0
    | false =>
      cases hsign' : isNegative w with
      | true =>
        rw [hsign, hsign', if_neg Bool.false_ne_true, if_pos rfl] at h
        exact absurd (eq_negative_zero hsign' (by omega)) hw0
      | false =>
        rw [hsign, hsign', if_neg Bool.false_ne_true, if_neg Bool.false_ne_true] at h
        exact ⟨rfl, by omega⟩
  refine eq_of_toBits_eq (UInt64.toNat_inj.1 ?_)
  rw [toNat_toBits, toNat_toBits, hvalue.1, unitsOf_strictMono.injective hvalue.2]

end Binary64

namespace Coord

/-- Whether both parts are finite, and neither is the negative zero. -/
def Plain (c : Coord) : Prop := c.isFinite = true ∧ c.x ≠ -0.0 ∧ c.y ≠ -0.0

instance (c : Coord) : Decidable c.Plain := inferInstanceAs (Decidable (_ ∧ _))

/-- **Plain coordinates at one point are equal.** -/
theorem point_inj {c d : Coord} (hc : c.Plain) (hd : d.Plain) : c.point = d.point ↔ c = d := by
  obtain ⟨hfinite, hx, hy⟩ := hc
  obtain ⟨hfinite', hx', hy'⟩ := hd
  rw [isFinite, Bool.and_eq_true] at hfinite hfinite'
  obtain ⟨cx, cy⟩ := c
  obtain ⟨dx, dy⟩ := d
  rw [point, point, Plane.Point.mk.injEq, Coord.mk.injEq]
  exact and_congr (Binary64.units_inj hfinite.1 hfinite'.1 hx hx') (Binary64.units_inj hfinite.2 hfinite'.2 hy hy')

end Coord
end MapFeatures
