import MapFeatures.Ids
import Std.Data.HashMap
/-!
# UsedWays — the set of ways that relations have as members

One bit for each id below `2 ^ 31`, in words of 64.  The words reach as far as the largest id so far and a little
further; a word that is not written is zero.  `reserve` sets room aside once, which changes no answer.
-/
namespace MapFeatures

structure UsedWays where
  /-- The words that have a bit, by their number. -/
  words : Std.HashMap Nat UInt64
  /-- How many words there are. -/
  length : Nat
  /-- How many words there is room for. -/
  room : Nat
  reserved : Bool

namespace UsedWays

def empty : UsedWays := ⟨∅, 0, 0, false⟩

/-- Ids from here on are not kept. -/
def idSpace : Nat := 2147483648

/-- Words that are added beyond the one needed. -/
def margin : Nat := 4

/-- How many ids to expect: one for eight nodes if ids are dense, else all there can be. -/
def expectedIds (nodes : Nat) (compact : Bool) : Nat := if compact then nodes / 8 else idSpace

/-- Room set aside for the ways to expect; only the first call counts. -/
def reserve (s : UsedWays) (nodes : Nat) (compact : Bool) : UsedWays :=
  if s.reserved then s
  else { s with room := max s.room ((expectedIds nodes compact + 63) / 64), reserved := true }

/-- The bit of an id in its word. -/
def mask (id : Nat) : UInt64 := 1 <<< UInt64.ofNat (id % 64)

/-- The words grown so that there is one with the number `word`. -/
def grow (s : UsedWays) (word : Nat) : UsedWays :=
  if word < s.length then s
  else
    let length := word + 1 + margin
    { s with length, room := max s.room length }

/-- The set with an id; one that is negative or too large is left out. -/
def mark (s : UsedWays) (id : WayId) : UsedWays :=
  if id < 0 || idSpace ≤ id.toNat then s
  else
    let word := id.toNat / 64
    let grown := s.grow word
    { grown with words := grown.words.insert word (grown.words.getD word 0 ||| mask id.toNat) }

/-- Whether an id is in the set. -/
def contains (s : UsedWays) (id : WayId) : Bool :=
  if id < 0 then false
  else
    let word := id.toNat / 64
    word < s.length && s.words.getD word 0 &&& mask id.toNat != 0

def bitCount (word : UInt64) : Nat := (List.range 64).countP fun i => word &&& mask i != 0

def count (s : UsedWays) : Nat := s.words.fold (fun n _ word => n + bitCount word) 0

def heapBytes (s : UsedWays) : Nat := 8 * s.room

end UsedWays
end MapFeatures
