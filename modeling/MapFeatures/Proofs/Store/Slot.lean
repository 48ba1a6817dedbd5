import Mathlib.Data.Set.Function
import MapFeatures.Store.Slot
/-!
# Slot — locations and the bytes of a slot, one to one

A longitude may be raised and lowered in 64 bits and cut to 32: nothing wraps around on the way (`toNat_raise`,
`toInt_lower`), so this gives the bytes and the locations of `Slot` (`encode_eq`, `decode?_eq`), and a word that is
lowered and raised again is the same word (`raise_lower`).  Four bytes are the digits of one word (`bytes32_word32`).
Hence eight bytes that give a location are the bytes of that location (`encode_of_decode?`), and they give none only if
the last four are zero (`decode?_eq_none_iff`).  With `decode?_encode`, `encode` is a bijection between the locations
whose longitude is not the smallest and the eight bytes whose last four are not all zero (`encode_bijOn`).
-/
namespace MapFeatures
namespace Slot

/-! ## The longitude in 64 bits -/

/-- The word that is written for a longitude. -/
def raise (lon : Int32) : UInt32 := (lon.toInt64 - Int32.minValue.toInt64).toUInt64.toUInt32

/-- The longitude that is read from a word. -/
def lower (word : UInt32) : Int32 := (word.toUInt64.toInt64 + Int32.minValue.toInt64).toInt32

theorem toInt_minValue : Int32.minValue.toInt64.toInt = -bias := by decide

theorem toNat_raise (lon : Int32) : (raise lon).toNat = (lon.toInt + bias).toNat := by
  have hlow := Int32.le_toInt lon
  have hhigh := Int32.toInt_lt lon
  have hwide : (lon.toInt64 - Int32.minValue.toInt64).toInt = lon.toInt + bias := by
    rw [Int64.toInt_sub, Int32.toInt_toInt64, toInt_minValue, Int.sub_neg]
    exact Int.bmod_eq_of_le (by unfold bias; omega) (by unfold bias; omega)
  have hpos : 0 ≤ lon.toInt64 - Int32.minValue.toInt64 := by
    rw [Int64.le_iff_toInt_le, hwide, Int64.toInt_zero]
    unfold bias
    omega
  -- the sum is below `2 ^ 32`, so the cast takes no bit of it
  rw [raise, UInt64.toNat_toUInt32, Int64.toNat_toUInt64_of_le hpos, Int64.toNatClampNeg, hwide]
  unfold bias
  omega

theorem toInt_lower (word : UInt32) : (lower word).toInt = word.toNat - bias := by
  have hlt := word.toNat_lt
  have hword : word.toUInt64.toInt64.toInt = word.toNat := by
    rw [← UInt64.ofNat_toNat (x := word.toUInt64), UInt64.toInt64_ofNat', UInt32.toNat_toUInt64]
    exact Int64.toInt_ofNat_of_lt (by omega)
  have hwide : (word.toUInt64.toInt64 + Int32.minValue.toInt64).toInt = word.toNat - bias := by
    rw [Int64.toInt_add, hword, toInt_minValue, ← Int.sub_eq_add_neg]
    exact Int.bmod_eq_of_le (by unfold bias; omega) (by unfold bias; omega)
  -- the difference lies within the longitudes, so the cast keeps it
  rw [lower, Int64.toInt_toInt32, hwide]
  exact Int.bmod_eq_of_le (by unfold bias; omega) (by unfold bias; omega)

theorem raise_lower (word : UInt32) : raise (lower word) = word := by
  rw [← UInt32.toNat_inj, toNat_raise, toInt_lower, Int.sub_add_cancel, Int.toNat_natCast]

/-! ## Four bytes -/

theorem word32_bytes32 {n : Nat} (h : n < 4294967296) :
    word32 (UInt8.ofNat (n / 16777216)) (UInt8.ofNat (n / 65536)) (UInt8.ofNat (n / 256)) (UInt8.ofNat n) = n := by
  simp only [word32, UInt8.toNat_ofNat']
  omega

theorem toNat_ofNat_word32 (a b c d : UInt8) : (UInt32.ofNat (word32 a b c d)).toNat = word32 a b c d := by
  have ha := a.toNat_lt
  have hb := b.toNat_lt
  have hc := c.toNat_lt
  have hd := d.toNat_lt
  exact UInt32.toNat_ofNat_of_lt' (by unfold word32 UInt32.size; omega)

theorem bytes32_word32 (a b c d : UInt8) : bytes32 (word32 a b c d) = [a, b, c, d] := by
  have ha := a.toNat_lt
  have hb := b.toNat_lt
  have hc := c.toNat_lt
  have hd := d.toNat_lt
  simp only [bytes32, word32, List.cons.injEq, and_true, ← UInt8.toNat_inj, UInt8.toNat_ofNat']
  omega

theorem word32_eq_zero_iff (a b c d : UInt8) : word32 a b c d = 0 ↔ a = 0 ∧ b = 0 ∧ c = 0 ∧ d = 0 := by
  simp only [word32, ← UInt8.toNat_inj, UInt8.toNat_zero]
  omega

/-! ## Eight bytes -/

theorem raised_eq_zero_iff (lon : Int32) : (lon.toInt + bias).toNat = 0 ↔ lon = Int32.minValue := by
  have hlow := Int32.le_toInt lon
  rw [← Int32.toInt_inj]
  have hmin : Int32.minValue.toInt = -2147483648 := by decide
  unfold bias
  omega

/-- **A location comes back from its slot**, except at the longitude whose bytes are zero. -/
theorem decode?_encode (l : Location) :
    decode? (encode l) = if l.lon = Int32.minValue then none else some l := by
  have hlow := Int32.le_toInt l.lon
  have hhigh := Int32.toInt_lt l.lon
  have hlatp : l.latp.toUInt32.toNat < 4294967296 := l.latp.toUInt32.toNat_lt
  have hlon : (l.lon.toInt + bias).toNat < 4294967296 := by unfold bias; omega
  have hback : ((l.lon.toInt + bias).toNat : Int) - bias = l.lon.toInt := by unfold bias; omega
  simp only [encode, bytes32, List.cons_append, List.nil_append, decode?, word32_bytes32 hlatp, word32_bytes32 hlon,
    raised_eq_zero_iff, hback]
  split
  · rfl
  · rw [UInt32.ofNat_toNat, Int32.ofInt_toInt]
    rfl

theorem encode_eq (l : Location) : encode l = bytes32 l.latp.toUInt32.toNat ++ bytes32 (raise l.lon).toNat := by
  rw [encode, toNat_raise]

example : encode ⟨-2, 1⟩ = [255, 255, 255, 254, 128, 0, 0, 1] := by decide

theorem decode?_eq (a b c d e f g h : UInt8) :
    decode? [a, b, c, d, e, f, g, h] =
      if word32 e f g h = 0 then none
      else some ⟨(UInt32.ofNat (word32 a b c d)).toInt32, lower (UInt32.ofNat (word32 e f g h))⟩ := by
  have hlower : lower (UInt32.ofNat (word32 e f g h)) = Int32.ofInt (word32 e f g h - bias) := by
    rw [← Int32.ofInt_toInt (lower _), toInt_lower, toNat_ofNat_word32]
  rw [decode?, hlower]

theorem exists_of_length {bytes : List UInt8} (hsize : bytes.length = size) :
    ∃ a b c d e f g h, bytes = [a, b, c, d, e, f, g, h] := by
  match bytes, hsize with
  | [a, b, c, d, e, f, g, h], _ => exact ⟨a, b, c, d, e, f, g, h, rfl⟩

theorem decode?_eq_none_iff {bytes : List UInt8} (hsize : bytes.length = size) :
    decode? bytes = none ↔ bytes.drop 4 = [0, 0, 0, 0] := by
  obtain ⟨a, b, c, d, e, f, g, h, rfl⟩ := exists_of_length hsize
  simp [decode?_eq, word32_eq_zero_iff]

/-- **A location is written with the bytes that it was read from.** -/
theorem encode_of_decode? {bytes : List UInt8} {l : Location} (hsize : bytes.length = size)
    (hread : decode? bytes = some l) : encode l = bytes := by
  obtain ⟨a, b, c, d, e, f, g, h, rfl⟩ := exists_of_length hsize
  rw [decode?_eq] at hread
  by_cases hzero : word32 e f g h = 0
  · simp [hzero] at hread
  · rw [if_neg hzero, Option.some_inj] at hread
    subst hread
    rw [encode_eq, raise_lower, UInt32.toUInt32_toInt32, toNat_ofNat_word32, toNat_ofNat_word32, bytes32_word32,
      bytes32_word32]
    rfl

theorem drop_encode_eq_zeros_iff (l : Location) : (encode l).drop 4 = [0, 0, 0, 0] ↔ l.lon = Int32.minValue := by
  rw [← decode?_eq_none_iff (length_encode l), decode?_encode]
  simp

/-- **Locations and filled slots, one to one.**  A location comes back from its bytes unless its longitude is the
smallest.  Eight bytes give no location exactly if the last four are zero, and otherwise they give one whose bytes they
are. -/
theorem encode_bijOn :
    (∀ l : Location, l.lon ≠ Int32.minValue → decode? (encode l) = some l) ∧
      (∀ bytes : List UInt8, bytes.length = size →
        (decode? bytes = none ↔ bytes.drop 4 = [0, 0, 0, 0]) ∧
          (bytes.drop 4 ≠ [0, 0, 0, 0] → ∃ l, decode? bytes = some l ∧ encode l = bytes)) ∧
      Set.BijOn encode {l | l.lon ≠ Int32.minValue}
        {bytes | bytes.length = size ∧ bytes.drop 4 ≠ [0, 0, 0, 0]} := by
  have hback : ∀ l : Location, l.lon ≠ Int32.minValue → decode? (encode l) = some l := by
    intro l hlon
    rw [decode?_encode, if_neg hlon]
  have hforth : ∀ bytes : List UInt8, bytes.length = size → bytes.drop 4 ≠ [0, 0, 0, 0] →
      ∃ l, decode? bytes = some l ∧ encode l = bytes := by
    intro bytes hsize hfilled
    obtain ⟨l, hread⟩ := Option.ne_none_iff_exists'.1 (mt (decode?_eq_none_iff hsize).1 hfilled)
    exact ⟨l, hread, encode_of_decode? hsize hread⟩
  refine ⟨hback, fun bytes hsize => ⟨decode?_eq_none_iff hsize, hforth bytes hsize⟩, ?_, ?_, ?_⟩
  · -- what is written is filled
    intro l hlon
    exact ⟨length_encode l, mt (drop_encode_eq_zeros_iff l).1 hlon⟩
  · -- locations with the same bytes are read back as one
    intro l hlon l' hlon' hsame
    rw [← Option.some_inj, ← hback l hlon, hsame, hback l' hlon']
  · -- what fills a slot are the bytes of the location that is read there
    rintro bytes ⟨hsize, hfilled⟩
    obtain ⟨l, -, rfl⟩ := hforth bytes hsize hfilled
    exact ⟨l, mt (drop_encode_eq_zeros_iff l).2 hfilled, rfl⟩

/-- The smallest longitude that is kept, and the bytes of the greatest one. -/
theorem encode_bijOn_ends :
    (-2147483647 : Int32) ≠ Int32.minValue ∧ decode? (encode ⟨-1, -2147483647⟩) = some ⟨-1, -2147483647⟩ ∧
      ∃ l, decode? [255, 255, 255, 255, 255, 255, 255, 255] = some l ∧
        encode l = [255, 255, 255, 255, 255, 255, 255, 255] := by
  obtain ⟨hback, hforth, -⟩ := encode_bijOn
  have hlon : (-2147483647 : Int32) ≠ Int32.minValue := by decide
  exact ⟨hlon, hback ⟨-1, -2147483647⟩ hlon, (hforth _ rfl).2 (by decide)⟩

end Slot
end MapFeatures
