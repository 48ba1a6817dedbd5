/-!
# Bits — bytes read bit by bit, the lowest bit of each byte first
-/
namespace MapFeatures.Deflate

/-- Bytes, and how many of their bits are read. -/
structure Bits where
  bytes : ByteArray
  read : Nat

namespace Bits

def ofBytes (bytes : ByteArray) : Bits := ⟨bytes, 0⟩

def size (b : Bits) : Nat := 8 * b.bytes.size

/-- The next bit. -/
def next? (b : Bits) : Option (Bool × Bits) :=
  if h : b.read / 8 < b.bytes.size then
    some (b.bytes[b.read / 8] >>> UInt8.ofNat (b.read % 8) &&& 1 != 0, ⟨b.bytes, b.read + 1⟩)
  else none

/-- The number that the next `count` bits are, the lowest first. -/
def number? : Nat → Bits → Option (Nat × Bits)
  | 0, b => some (0, b)
  | count + 1, b => do
    let (bit, b) ← b.next?
    let (higher, b) ← number? count b
    some (2 * higher + bit.toNat, b)

/-- The bits from the next byte on. -/
def align (b : Bits) : Bits := { b with read := (b.read + 7) / 8 * 8 }

/-- The next `count` bytes, which begin where a byte begins. -/
def bytes? (count : Nat) (b : Bits) : Option (ByteArray × Bits) :=
  let start := b.read / 8
  if start + count ≤ b.bytes.size then
    some (b.bytes.extract start (start + count), { b with read := b.read + 8 * count })
  else none

end Bits
end MapFeatures.Deflate
