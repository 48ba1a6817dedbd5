import MapFeatures.Deflate.Inflate
import MapFeatures.Extract.Block
/-!
# Reader — extracts from files

A file is a sequence of blobs.  Each comes after a header that tells what it is and how long it is, which in turn comes
after its own length.  Blobs that are not blocks of elements are passed over.
-/
namespace MapFeatures.Extract

open Wire

/-- Headers are shorter than this. -/
def headerLimit : Nat := 64 * 1024

/-- Blobs are shorter than this. -/
def blobLimit : Nat := 32 * 1024 * 1024

/-- The bytes from a place on, as many as there should be. -/
def slice? (b : ByteArray) (place size : Nat) : Option ByteArray :=
  if place + size ≤ b.size then some (b.extract place (place + size)) else none

/-- What a blob holds, as it is or compressed. -/
def content? (blob : ByteArray) : Option ByteArray := do
  let m : Message ← fields? blob
  match (m.bytes 1).getLast?, (m.bytes 3).getLast? with
  | some raw, _ => some raw
  | none, some compressed => Deflate.inflate? compressed
  | none, none => none

/-- The elements of the blob at a place, and the place after it; fewer than four bytes are the end. -/
def blob? (b : ByteArray) (place : Nat) : Option (Option (Extract × Nat)) := do
  match slice? b place 4 with
  | none => some none
  | some length =>
    let size := length.foldl (fun n byte => 256 * n + byte.toNat) 0
    if headerLimit ≤ size then none
    let header : Message ← fields? (← slice? b (place + 4) size)
    let kind ← (header.bytes 1).getLast?.bind String.fromUTF8?
    let blobSize ← header.word? 3
    if blobLimit ≤ blobSize.toNat then none
    let start := place + 4 + size
    let content ← content? (← slice? b start blobSize.toNat)
    let extract ← if kind = "OSMData" then ofBlock? content else some []
    some (some (extract, start + blobSize.toNat))

/-- The elements of all blobs from a place on.  Each blob takes some bytes, so the bytes are fuel enough. -/
def blobs? (b : ByteArray) : Nat → Nat → List Extract → Option (List Extract)
  | 0, _, found => some found.reverse
  | fuel + 1, place, found => do
    match ← blob? b place with
    | none => some found.reverse
    | some (extract, place) => blobs? b fuel place (extract :: found)

/-- **The elements of a file**, if it has the right form. -/
def ofBytes? (b : ByteArray) : Option Extract := (blobs? b b.size 0 []).map List.flatten

end MapFeatures.Extract
