import Mathlib
import MapFeatures.Shape
/-!
# Finite — the coordinates of locations are finite floats

An arithmetical operation gives a finite float if the exponents that go in are small enough, since rounding raises an
exponent by at most what the significand exceeds 52 bits by (`within_roundWithAccuracy`).  Degrees come of whole numbers
of 32 bits by one division, so their exponents stay far below the largest (`isFinite_coord`).
-/
namespace MapFeatures

open Float.Model (UnpackedFloat Format totalExponent)
open Float.Model.UnpackedFloat

namespace Binary64

/-- Whether a float is zero, or finite with an exponent that packs and is at most `top`. -/
inductive Within (top : Int) : UnpackedFloat → Prop
  | zero (s : Sign) : Within top (.zero s)
  | finite (s : Sign) (m : Nat) (e : Int) (hm : 0 < m) (hlow : -1074 ≤ e) (hhigh : e ≤ top) :
    Within top (.finite s m e hm)

/-! ## Rounding -/

theorem mantissa_shiftRight (em : ExtendedMantissa) : ∀ n : Nat, (em >>> n).mantissa = em.mantissa / 2 ^ n
  | 0 => (Nat.div_one _).symm
  | n + 1 => by
    have hstep : (em >>> (n + 1)).mantissa = (em >>> n).mantissa / 2 := rfl
    rw [hstep, mantissa_shiftRight em n, Nat.div_div_eq_div_mul, Nat.pow_succ]

theorem roundedMantissa_le (em : ExtendedMantissa) : em.roundedMantissa ≤ em.mantissa + 1 := by
  obtain ⟨m, round, sticky⟩ := em
  cases round <;> cases sticky <;>
    simp only [ExtendedMantissa.roundedMantissa, ExtendedMantissa.accuracy, Accuracy.roundToNearestEven] <;> omega

theorem mantissa_ofMantissaAndAccuracy (m : Nat) (accuracy : Accuracy) :
    (ExtendedMantissa.ofMantissaAndAccuracy m accuracy).mantissa = m := by
  cases accuracy with
  | exact => rfl
  | inexact o =>
    cases o with
    | lt => rfl
    | eq => rfl
    | gt => rfl

/-- What the exponent is raised by before a significand is rounded. -/
theorem shiftToTargetExponent_eq (m : Nat) (e : Int) (accuracy : Accuracy) :
    ∃ shift : Nat, (shift : Int) = max (max (m.log2 + 1 + e - 53) (-1074) - e) 0 ∧
      (shiftToTargetExponent Format.binary64 m e accuracy).2 = e + shift ∧
      (shiftToTargetExponent Format.binary64 m e accuracy).1.mantissa = m / 2 ^ shift := by
  refine ⟨(Format.binary64.targetExponent (totalExponent m e) - e).toNat, ?_, rfl, ?_⟩
  · have htarget : Format.binary64.targetExponent (totalExponent m e) = max (m.log2 + 1 + e - 53) (-1074) := rfl
    rw [htarget, Int.ofNat_toNat]
  · rw [shiftToTargetExponent, shiftToExponent, mantissa_shiftRight, mantissa_ofMantissaAndAccuracy]

theorem log2_le_of_lt {m k : Nat} (h : m < 2 ^ (k + 1)) : m.log2 ≤ k := by
  by_cases hm : m = 0
  · rw [hm]
    exact Nat.zero_le k
  · exact Nat.le_of_lt_succ ((Nat.log2_lt hm).2 h)

/-- **Rounding raises an exponent by at most what the significand exceeds 52 bits by.** -/
theorem within_roundWithAccuracy {top : Int} {s : Sign} {m k : Nat} {e : Int} {accuracy : Accuracy} (hm : m < 2 ^ k)
    (hlow : -1074 ≤ top) (he : e ≤ top) (htotal : k + e - 52 ≤ top) :
    Within top (roundWithAccuracy Format.binary64 s m e accuracy) := by
  obtain ⟨shift, hshift, hexponent, hmantissa⟩ := shiftToTargetExponent_eq m e accuracy
  rw [roundWithAccuracy]
  generalize shiftToTargetExponent Format.binary64 m e accuracy = first at hexponent hmantissa
  obtain ⟨em, e₁⟩ := first
  dsimp only at hexponent hmantissa ⊢
  -- the significand has lost `shift` bits, and rounding adds at most one
  have hrounded : em.roundedMantissa.log2 ≤ k - shift := by
    have hpow : 0 < 2 ^ shift := Nat.two_pow_pos shift
    have hdrop : m / 2 ^ shift < 2 ^ (k - shift) := by
      rw [Nat.div_lt_iff_lt_mul hpow, ← Nat.pow_add]
      exact Nat.lt_of_lt_of_le hm (Nat.pow_le_pow_right (by decide) (by omega))
    have hle := roundedMantissa_le em
    rw [hmantissa] at hle
    refine log2_le_of_lt (Nat.lt_of_le_of_lt hle ?_)
    rw [Nat.pow_succ]
    omega
  have hlog : m.log2 ≤ k := log2_le_of_lt (Nat.lt_of_lt_of_le hm (Nat.pow_le_pow_right (by decide) (Nat.le_succ k)))
  obtain ⟨shift₂, hshift₂, hexponent₂, -⟩ := shiftToTargetExponent_eq em.roundedMantissa e₁ .exact
  generalize shiftToTargetExponent Format.binary64 em.roundedMantissa e₁ .exact = second at hexponent₂
  obtain ⟨em₂, e₂⟩ := second
  dsimp only at hexponent₂ ⊢
  split
  · exact .zero s
  · exact .finite s em₂.mantissa e₂ _ (by omega) (by omega)

/-! ## Packing -/

theorem toNat_append_one (m : BitVec 52) : (1#1 ++ m).toNat = 4503599627370496 + m.toNat := by
  rw [BitVec.toNat_append, ← Nat.shiftLeft_add_eq_or_of_lt m.isLt]
  rfl

/-- The exponent as it is packed. -/
def packedExponent (b : BitVec 64) : Nat := (@unpackExponent Format.binary64 b).toNat

/-- **What is unpacked**: only the largest exponent stands for no finite float, and a significand fits in 53 bits. -/
theorem unpack_spec (b : BitVec 64) :
    (packedExponent b = 2047 ∧ ∀ top, ¬ Within top (UnpackedFloat.unpack Format.binary64 b)) ∨
      packedExponent b < 2047 ∧
        ((∃ s, UnpackedFloat.unpack Format.binary64 b = .zero s) ∨
          ∃ s m e hm, UnpackedFloat.unpack Format.binary64 b = .finite s m e hm ∧ m < 2 ^ 53 ∧ -1074 ≤ e ∧
            (e = -1074 ∨ e = packedExponent b - 1075)) := by
  have hbias : (Format.binary64.exponentBias : Int) + (52 : Nat) = 1075 := by decide
  have hall : (-1#11 : BitVec 11).toNat = 2047 := by decide
  have hmantissa : (@unpackMantissa Format.binary64 b).toNat < 2 ^ 52 := BitVec.isLt _
  have hexponent : packedExponent b < 2048 := BitVec.isLt _
  unfold UnpackedFloat.unpack packedExponent at *
  dsimp only at *
  split
  · next hlargest =>
    refine Or.inl ⟨by rw [hlargest, hall], fun top h => ?_⟩
    split at h
    · cases h
    · cases h
  · next hfinite =>
    refine Or.inr ⟨?_, ?_⟩
    · have hne : (@unpackExponent Format.binary64 b).toNat ≠ 2047 := fun h =>
        hfinite (BitVec.eq_of_toNat_eq (h.trans hall.symm))
      omega
    · split
      · next hzero =>
        split
        · exact Or.inl ⟨_, rfl⟩
        · next hne =>
          have hpos : 0 < (@unpackMantissa Format.binary64 b).toNat :=
            Nat.pos_of_ne_zero fun h => hne (BitVec.eq_of_toNat_eq h)
          refine Or.inr ⟨_, _, _, hpos, rfl, Nat.lt_trans hmantissa (by decide), ?_, Or.inl ?_⟩
          · rw [hzero, hbias]
            decide
          · rw [hzero, hbias]
            decide
      · next hnormal =>
        have hpos : (@unpackExponent Format.binary64 b).toNat ≠ 0 := fun h => hnormal (BitVec.eq_of_toNat_eq h)
        have hsum := toNat_append_one (@unpackMantissa Format.binary64 b)
        have hleading : 0 < (1#1 ++ @unpackMantissa Format.binary64 b).toNat := by
          rw [hsum]
          omega
        refine Or.inr ⟨_, _, _, hleading, rfl, ?_, ?_, ?_⟩
        · rw [hsum]
          omega
        · rw [hbias]
          omega
        · rw [hbias]
          exact Or.inr rfl

theorem within_unpack {top : Int} {b : BitVec 64} (hlow : -1074 ≤ top) (hhigh : packedExponent b ≤ top + 1075)
    (htop : top ≤ 971) : Within top (UnpackedFloat.unpack Format.binary64 b) := by
  obtain ⟨hlargest, -⟩ | ⟨-, ⟨s, hu⟩ | ⟨s, m, e, hm, hu, -, hmin, hmax⟩⟩ := unpack_spec b
  · omega
  · rw [hu]
    exact .zero s
  · rw [hu]
    exact .finite s m e hm hmin (by omega)

theorem packedExponent_packComponents (s : Sign) (exponent : BitVec 11) (mantissa : BitVec 52) :
    packedExponent (packComponents Format.binary64 s exponent mantissa) = exponent.toNat :=
  congrArg BitVec.toNat unpackExponent_packComponents

/-- **Packing keeps the bound on the exponent.** -/
theorem within_unpack_pack {top : Int} {u : UnpackedFloat} (h : Within top u) (hlow : -1074 ≤ top)
    (htop : top ≤ 971) : Within top (Float.Model.pack u).unpack := by
  have hunpack : (Float.Model.pack u).unpack =
      UnpackedFloat.unpack Format.binary64 (UnpackedFloat.pack Format.binary64 u) := rfl
  rw [hunpack]
  cases h with
  | zero s =>
    refine within_unpack hlow ?_ htop
    rw [UnpackedFloat.pack, packedZero, packedExponent_packComponents, BitVec.ofNat_eq_ofNat, BitVec.toNat_zero]
    omega
  | finite s m e hm hmin hmax =>
    have hbias : e + (Format.binary64.exponentBias : Int) + (52 : Nat) = e + 1075 := by
      have : (Format.binary64.exponentBias : Int) = 1023 := by decide
      rw [this]
      omega
    refine within_unpack hlow ?_ htop
    unfold UnpackedFloat.pack
    dsimp only
    rw [hbias, if_neg (by omega)]
    split
    · rw [packedExponent_packComponents, BitVec.toNat_ofNat]
      omega
    · rw [packedExponent_packComponents, BitVec.toNat_zero]
      omega

/-! ## Arithmetic -/

variable {top a b : Int} {v w : Float}

theorem unpack_cases (h : Within a v.toModel.unpack) :
    (∃ s, v.toModel.unpack = .zero s) ∨
      ∃ s m e hm, v.toModel.unpack = .finite s m e hm ∧ m < 2 ^ 53 ∧ e ≤ a := by
  obtain ⟨-, hnot⟩ | ⟨-, ⟨s, hu⟩ | ⟨s, m, e, hm, hu, hlt, -⟩⟩ := unpack_spec v.toBits.toBitVec
  · exact absurd h (hnot a)
  · exact Or.inl ⟨s, hu⟩
  · have hwithin : Within a (.finite s m e hm) := hu ▸ h
    cases hwithin with
    | finite _ _ _ _ hlow hhigh => exact Or.inr ⟨s, m, e, hm, hu, hlt, hhigh⟩

theorem unpack_mul : (v * w).toModel.unpack =
    (Float.Model.pack (UnpackedFloat.mul Format.binary64 v.toModel.unpack w.toModel.unpack)).unpack := rfl

theorem unpack_div : (v / w).toModel.unpack =
    (Float.Model.pack (UnpackedFloat.div Format.binary64 v.toModel.unpack w.toModel.unpack)).unpack := rfl

theorem within_mul (hv : Within a v.toModel.unpack) (hw : Within b w.toModel.unpack) (hlow : -1074 ≤ top)
    (hsum : a + b + 54 ≤ top) (htop : top ≤ 971) : Within top (v * w).toModel.unpack := by
  rw [unpack_mul]
  refine within_unpack_pack ?_ hlow htop
  obtain ⟨s, hv⟩ | ⟨s, m, e, hm, hv, hmlt, he⟩ := unpack_cases hv
  · obtain ⟨t, hw⟩ | ⟨t, n, f, hn, hw, hnlt, hf⟩ := unpack_cases hw
    · rw [hv, hw]
      exact .zero _
    · rw [hv, hw]
      exact .zero _
  · obtain ⟨t, hw⟩ | ⟨t, n, f, hn, hw, hnlt, hf⟩ := unpack_cases hw
    · rw [hv, hw]
      exact .zero _
    · rw [hv, hw]
      have hprod : m * n < 2 ^ (53 + 53) := by
        rw [Nat.pow_add]
        exact Nat.mul_lt_mul'' hmlt hnlt
      exact within_roundWithAccuracy hprod hlow (by omega) (by omega)

theorem within_div {s : Sign} {n : Nat} {f : Int} {hn : 0 < n} (hv : Within a v.toModel.unpack)
    (hw : w.toModel.unpack = .finite s n f hn) (hlow : -1074 ≤ top) (hdiff : a - f + 1 ≤ top) (htop : top ≤ 971) :
    Within top (v / w).toModel.unpack := by
  rw [unpack_div, hw]
  refine within_unpack_pack ?_ hlow htop
  obtain ⟨t, hv⟩ | ⟨t, m, e, hm, hv, hmlt, he⟩ := unpack_cases hv
  · rw [hv]
    exact .zero _
  · rw [hv, UnpackedFloat.div, divCore]
    dsimp only
    generalize htarget : min (e - f) _ = target
    have hle : target ≤ e - f := htarget ▸ Int.min_le_left _ _
    -- the quotient has as many bits as the shifted significand at most
    have hquot : m <<< (e - f - target).toNat / n < 2 ^ (53 + (e - f - target).toNat) := by
      refine Nat.lt_of_le_of_lt (Nat.div_le_self _ n) ?_
      rw [Nat.shiftLeft_eq, Nat.pow_add]
      exact Nat.mul_lt_mul_of_pos_right hmlt (Nat.two_pow_pos _)
    exact within_roundWithAccuracy hquot hlow (by omega) (by omega)

theorem within_neg (hv : Within a v.toModel.unpack) (hlow : -1074 ≤ a) (htop : a ≤ 971) :
    Within a (-v).toModel.unpack := by
  have hneg : (-v).toModel.unpack = (Float.Model.pack v.toModel.unpack.neg).unpack := rfl
  rw [hneg]
  refine within_unpack_pack ?_ hlow htop
  generalize v.toModel.unpack = u at hv
  cases hv with
  | zero s => exact .zero _
  | finite s m e hm hmin hmax => exact .finite _ m e hm hmin hmax

/-! ## Degrees -/

theorem within_round {m : Nat} (s : Sign) (hm : m < 2 ^ 53) : Within 1 (UnpackedFloat.round Format.binary64 s m 0) := by
  rw [UnpackedFloat.round, decreaseExponent]
  dsimp only
  generalize (0 - Format.binary64.targetExponent (totalExponent m 0)).toNat = shift
  have hshifted : m <<< shift < 2 ^ (53 + shift) := by
    rw [Nat.shiftLeft_eq, Nat.pow_add]
    exact Nat.mul_lt_mul_of_pos_right hm (Nat.two_pow_pos shift)
  exact within_roundWithAccuracy hshifted (by decide) (by omega) (by omega)

theorem within_toFloat {n : Nat} (hn : n < 2 ^ 53) : Within 1 n.toUInt64.toFloat.toModel.unpack := by
  have hback : n.toUInt64.toNat = n := by
    rw [Nat.toUInt64, UInt64.toNat_ofNat']
    exact Nat.mod_eq_of_lt (Nat.lt_trans hn (by decide))
  have hfloat : n.toUInt64.toFloat.toModel.unpack =
      (Float.Model.pack (UnpackedFloat.normalize Format.binary64 (n.toUInt64.toNat : Int) 0 .positive)).unpack := rfl
  rw [hfloat, hback, UnpackedFloat.normalize]
  refine within_unpack_pack ?_ (by decide) (by decide)
  split
  · next h => exact absurd (Int.compare_eq_lt.1 h) (by omega)
  · exact .zero _
  · exact within_round _ hn

/-- **Whole numbers of 53 bits are finite floats**, with small exponents. -/
theorem within_ofNat {n : Nat} (hn : n < 2 ^ 53) : Within 3 (Float.ofNat n).toModel.unpack := by
  have hone : (Float.ofBits 0x3FF0000000000000).toModel.unpack = .finite .positive (2 ^ 52) (-52) (by decide) := rfl
  have hofNat : Float.ofNat n = n.toUInt64.toFloat * Float.ofBits 0x3FF0000000000000 := by
    have hfast : n < 2 ^ 53 ∧ 0 ≤ 22 := ⟨hn, by decide⟩
    change Float.ofScientific n false 0 = _
    rw [Float.ofScientific, dif_pos hfast]
    rfl
  rw [hofNat]
  refine within_mul (within_toFloat hn) (b := -52) ?_ (by decide) (by decide) (by decide)
  rw [hone]
  exact .finite _ _ _ _ (by decide) (by decide)

theorem within_ofInt {n : Int} (hlow : -2147483648 ≤ n) (hhigh : n < 2147483648) :
    Within 3 (Float.ofInt n).toModel.unpack := by
  cases n with
  | ofNat k =>
    rw [Int.ofNat_eq_natCast] at hhigh
    exact within_ofNat (by omega)
  | negSucc k =>
    have hofNat := within_ofNat (n := k + 1) (by omega)
    exact within_neg hofNat (by decide) (by decide)

theorem isFinite_of_within (h : Within 971 v.toModel.unpack) : isFinite v = true := by
  have hexponent : packedExponent v.toBits.toBitVec < 2047 := by
    obtain ⟨-, hnot⟩ | ⟨hlt, -⟩ := unpack_spec v.toBits.toBitVec
    · exact absurd h (hnot 971)
    · exact hlt
  have hbits : magnitudeBits v < infinityBits := by
    have hfield : packedExponent v.toBits.toBitVec = v.toBits.toNat / 4503599627370496 % 2048 := by
      rw [packedExponent, unpackExponent, BitVec.toNat_cast, BitVec.extractLsb_toNat, Nat.shiftRight_eq_div_pow]
      rfl
    have hinfinity : infinityBits = 9218868437227405312 := by decide
    have hsign : signBit = 9223372036854775808 := by decide
    rw [hfield] at hexponent
    rw [magnitudeBits, hinfinity, hsign]
    omega
  rw [isFinite, magnitude?, if_neg (Nat.not_le.2 hbits)]
  split
  · rfl
  · rfl

end Binary64

theorem isFinite_perDegree (n : Int32) : Binary64.isFinite (Float.ofInt n.toInt / Location.perDegree) = true := by
  have hperDegree : Location.perDegree.toModel.unpack = .finite .positive 5368709120000000 (-29) (by decide) := rfl
  have hlow := Int32.le_toInt n
  have hhigh := Int32.toInt_lt n
  have hwhole : Binary64.Within 3 (Float.ofInt n.toInt).toModel.unpack :=
    Binary64.within_ofInt (Int.le_trans (by decide) hlow) (Int.lt_of_lt_of_le hhigh (by decide))
  exact Binary64.isFinite_of_within (Binary64.within_div hwhole hperDegree (by decide) (by decide) (by decide))

/-- **The coordinates of a location are finite.** -/
theorem isFinite_coord (l : Location) : l.coord.isFinite = true := by
  rw [Coord.isFinite, Bool.and_eq_true]
  exact ⟨isFinite_perDegree l.lon, isFinite_perDegree l.latp⟩

end MapFeatures
