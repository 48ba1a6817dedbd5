import Std.Data.HashMap
/-!
# SparseFile — a file of fixed length whose bytes are zero until they are written

Only bytes that the file has can be read or written: both take it that they are inside.
-/
namespace MapFeatures

structure SparseFile where
  /-- In bytes. -/
  length : UInt64
  written : Std.HashMap Nat UInt8

namespace SparseFile

def ofLength (length : UInt64) : SparseFile := ⟨length, ∅⟩

/-- Whether the file has `count` bytes from `offset` on. -/
def Has (f : SparseFile) (offset count : Nat) : Prop := offset + count ≤ f.length.toNat

def byteAt (f : SparseFile) (offset : Nat) : UInt8 := f.written.getD offset 0

def read (f : SparseFile) (offset count : Nat) (_inside : f.Has offset count) : List UInt8 :=
  (List.range' offset count).map f.byteAt

/-- What is written once `bytes` are, from `offset` on. -/
def overwrite (written : Std.HashMap Nat UInt8) : Nat → List UInt8 → Std.HashMap Nat UInt8
  | _, [] => written
  | offset, b :: rest => overwrite (written.insert offset b) (offset + 1) rest

/-- The file with `bytes` written from `offset` on. -/
def write (f : SparseFile) (offset : Nat) (bytes : List UInt8) (_inside : f.Has offset bytes.length) : SparseFile :=
  { f with written := overwrite f.written offset bytes }

theorem length_write (f : SparseFile) (offset : Nat) (bytes : List UInt8) (h : f.Has offset bytes.length) :
    (f.write offset bytes h).length = f.length := rfl

end SparseFile
end MapFeatures
