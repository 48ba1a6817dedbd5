import MapFeatures.Location
/-!
# Slot — a location in eight bytes

The projected latitude comes first, in two's complement, then the longitude raised by `2 ^ 31`, both with their highest
byte first.  Zeros in the place of the longitude are no location, at the price of the smallest longitude of all, which
no place on earth has.
-/
namespace MapFeatures
namespace Slot

def size : Nat := 8

/-- What longitudes are raised by. -/
def bias : Int := 2147483648

/-- The four bytes of a number below `2 ^ 32`, the highest first. -/
def bytes32 (n : Nat) : List UInt8 :=
  [UInt8.ofNat (n / 16777216), UInt8.ofNat (n / 65536), UInt8.ofNat (n / 256), UInt8.ofNat n]

def word32 (a b c d : UInt8) : Nat := a.toNat * 16777216 + b.toNat * 65536 + c.toNat * 256 + d.toNat

/-- The bytes of a location. -/
def encode (l : Location) : List UInt8 :=
  bytes32 l.latp.toUInt32.toNat ++ bytes32 (l.lon.toInt + bias).toNat

theorem length_encode (l : Location) : (encode l).length = size := rfl

/-- The location in eight bytes; none if no longitude is written there. -/
def decode? : List UInt8 → Option Location
  | [a, b, c, d, e, f, g, h] =>
    let raised := word32 e f g h
    if raised = 0 then none
    else some ⟨(UInt32.ofNat (word32 a b c d)).toInt32, Int32.ofInt (raised - bias)⟩
  | _ => none

end Slot
end MapFeatures
