import MapFeatures.Deflate.Code
/-!
# Inflate — compressed data as it was before

The data are in blocks, stored as they are or coded.  A symbol of a coded block is a byte, the end of the block, or the
length of a piece that is repeated from some distance before.
-/
namespace MapFeatures.Deflate

/-- The two codes of a block. -/
structure Codes where
  /-- Bytes, the end, and lengths. -/
  literals : Code
  distances : Code

/-- For symbols that stand for numbers: where their numbers begin, and how many more bits tell which one it is. -/
abbrev Ranges := List (Nat × Nat)

def lengths : Ranges := [
  (3, 0), (4, 0), (5, 0), (6, 0), (7, 0), (8, 0), (9, 0), (10, 0), (11, 1), (13, 1), (15, 1), (17, 1), (19, 2), (23, 2),
  (27, 2), (31, 2), (35, 3), (43, 3), (51, 3), (59, 3), (67, 4), (83, 4), (99, 4), (115, 4), (131, 5), (163, 5),
  (195, 5), (227, 5), (258, 0)]

def distances : Ranges := [
  (1, 0), (2, 0), (3, 0), (4, 0), (5, 1), (7, 1), (9, 2), (13, 2), (17, 3), (25, 3), (33, 4), (49, 4), (65, 5), (97, 5),
  (129, 6), (193, 6), (257, 7), (385, 7), (513, 8), (769, 8), (1025, 9), (1537, 9), (2049, 10), (3073, 10), (4097, 11),
  (6145, 11), (8193, 12), (12289, 12), (16385, 13), (24577, 13)]

/-- The number that a symbol of the ranges and some more bits are. -/
def Ranges.number? (r : Ranges) (symbol : Nat) (b : Bits) : Option (Nat × Bits) := do
  let (first, bits) ← r[symbol]?
  let (more, b) ← b.number? bits
  some (first + more, b)

/-- The codes of blocks that do not bring their own. -/
def fixedCodes? : Option Codes := do
  let literals ← Code.ofLengths?
    (List.replicate 144 8 ++ List.replicate 112 9 ++ List.replicate 24 7 ++ List.replicate 8 8)
  let distances ← Code.ofLengths? (List.replicate 30 5)
  some ⟨literals, distances⟩

/-- In which order a block gives the lengths of the words for lengths. -/
def metaOrder : List Nat := [16, 17, 18, 0, 8, 7, 9, 6, 10, 5, 11, 4, 12, 3, 13, 2, 14, 1, 15]

/-- Some numbers of three bits. -/
def threeBits? : Nat → Bits → Option (List Nat × Bits)
  | 0, b => some ([], b)
  | count + 1, b => do
    let (n, b) ← b.number? 3
    let (ns, b) ← threeBits? count b
    some (n :: ns, b)

/-- Lengths until there are `count`, the last first.  A symbol gives at least one, so `count` is fuel enough. -/
def wordLengths? (code : Code) (count : Nat) : Nat → List Nat → Bits → Option (List Nat × Bits)
  | 0, found, b => if found.length = count then some (found, b) else none
  | fuel + 1, found, b =>
    if count ≤ found.length then if found.length = count then some (found, b) else none
    else do
      let (s, b) ← code.next? b
      match s with
      | 16 =>
        let last ← found.head?
        let (more, b) ← b.number? 2
        wordLengths? code count fuel (List.replicate (3 + more) last ++ found) b
      | 17 =>
        let (more, b) ← b.number? 3
        wordLengths? code count fuel (List.replicate (3 + more) 0 ++ found) b
      | 18 =>
        let (more, b) ← b.number? 7
        wordLengths? code count fuel (List.replicate (11 + more) 0 ++ found) b
      | length => wordLengths? code count fuel (length :: found) b

/-- The codes that a block brings. -/
def ownCodes? (b : Bits) : Option (Codes × Bits) := do
  let (literalCount, b) ← b.number? 5
  let (distanceCount, b) ← b.number? 5
  let (metaCount, b) ← b.number? 4
  let (given, b) ← threeBits? (metaCount + 4) b
  let order := metaOrder.zip given
  let code ← Code.ofLengths? ((List.range 19).map fun s => (order.lookup s).getD 0)
  let count := literalCount + 257 + (distanceCount + 1)
  let (found, b) ← wordLengths? code count count [] b
  let found := found.reverse
  let literals ← Code.ofLengths? (found.take (literalCount + 257))
  let distances ← Code.ofLengths? (found.drop (literalCount + 257))
  some (⟨literals, distances⟩, b)

/-- Repeats `count` bytes from a distance before the end. -/
def repeatBytes (distance : Nat) : Nat → ByteArray → ByteArray
  | 0, out => out
  | count + 1, out => repeatBytes distance count (out.push (out[out.size - distance]?.getD 0))

/-- The symbols of a coded block up to its end.  Each takes at least one bit, so the bits are fuel enough. -/
def codedBlock? (codes : Codes) : Nat → ByteArray → Bits → Option (ByteArray × Bits)
  | 0, _, _ => none
  | fuel + 1, out, b => do
    let (s, b) ← codes.literals.next? b
    if s < 256 then codedBlock? codes fuel (out.push (UInt8.ofNat s)) b
    else if s = 256 then some (out, b)
    else
      let (length, b) ← lengths.number? (s - 257) b
      let (d, b) ← codes.distances.next? b
      let (distance, b) ← distances.number? d b
      if distance ≤ out.size then codedBlock? codes fuel (repeatBytes distance length out) b else none

/-- A block that is stored as it is, under its length and the complement of that. -/
def storedBlock? (out : ByteArray) (b : Bits) : Option (ByteArray × Bits) := do
  let (length, b) ← b.align.number? 16
  let (complement, b) ← b.number? 16
  if length + complement = 65535 then
    let (bytes, b) ← b.bytes? length
    some (out ++ bytes, b)
  else none

/-- One block. -/
def block? (kind : Nat) (out : ByteArray) (b : Bits) : Option (ByteArray × Bits) :=
  match kind with
  | 0 => storedBlock? out b
  | 1 => do codedBlock? (← fixedCodes?) b.size out b
  | 2 => do
    let (codes, b) ← ownCodes? b
    codedBlock? codes b.size out b
  | _ => none

/-- The blocks up to the last.  Each takes at least one bit, so the bits are fuel enough. -/
def blocks? : Nat → ByteArray → Bits → Option (ByteArray × Bits)
  | 0, _, _ => none
  | fuel + 1, out, b => do
    let (isLast, b) ← b.next?
    let (kind, b) ← b.number? 2
    let (out, b) ← block? kind out b
    if isLast then some (out, b) else blocks? fuel out b

/-- The checksum of bytes: their sum and the sum of all such sums, in steps of 65521. -/
def checksum (bytes : ByteArray) : Nat :=
  let (sum, sums) := bytes.foldl (fun (s : UInt32 × UInt32) byte =>
    let sum := (s.1 + byte.toUInt32) % 65521
    (sum, (s.2 + sum) % 65521)) (1, 0)
  65536 * sums.toNat + sum.toNat

/-- **The data in a compressed stream**: two bytes that tell the method, the blocks, and a checksum. -/
def inflate? (bytes : ByteArray) : Option ByteArray := do
  let (method, b) ← (Bits.ofBytes bytes).number? 8
  let (flags, b) ← b.number? 8
  if method % 16 ≠ 8 ∨ (256 * method + flags) % 31 ≠ 0 ∨ flags / 32 % 2 = 1 then none
  else
    let (out, b) ← blocks? b.size .empty b
    let (check, _) ← b.align.bytes? 4
    if check.foldl (fun n byte => 256 * n + byte.toNat) 0 = checksum out then some out else none

end MapFeatures.Deflate
