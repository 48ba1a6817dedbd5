import MapFeatures.Store.CompactNodes
import MapFeatures.Proofs.Store.Slot
/-!
# CompactNodes — what is read from a slot after a write

A write changes the bytes of a file at its own places (`SparseFile.byteAt_write`).  As a file has room for all slots, no
offset wraps around (`offset?_eq_some_iff`), so the slots of two ids have no byte in common (`slots_apart`).  Hence a
write shows at its own id only (`at?_put`), if its longitude is not the one that stands for nothing.
-/
namespace MapFeatures

/-! ## The file -/

namespace SparseFile

theorem getD_overwrite : ∀ (bytes : List UInt8) (written : Std.HashMap Nat UInt8) (offset place : Nat),
    (overwrite written offset bytes).getD place 0 =
      if offset ≤ place then (bytes[place - offset]?).getD (written.getD place 0) else written.getD place 0
  | [], _, _, _ => by simp [overwrite]
  | b :: bytes, written, offset, place => by
    rw [overwrite, getD_overwrite bytes, Std.HashMap.getD_insert]
    rcases Nat.lt_trichotomy place offset with h | rfl | h
    · simp [Nat.not_le.2 h, Nat.not_le.2 (Nat.lt_succ_of_lt h), Nat.ne_of_gt h]
    · simp
    · have hplace : place - offset = place - (offset + 1) + 1 := by omega
      simp [Nat.le_of_lt h, Nat.succ_le_of_lt h, Nat.ne_of_lt h, hplace]

/-- The bytes at all places once some are written from `offset` on. -/
def patch (old : Nat → UInt8) (offset : Nat) (bytes : List UInt8) (place : Nat) : UInt8 :=
  if offset ≤ place then (bytes[place - offset]?).getD (old place) else old place

theorem patch_of_not_mem {old : Nat → UInt8} {offset place : Nat} {bytes : List UInt8}
    (h : ¬ (offset ≤ place ∧ place < offset + bytes.length)) : patch old offset bytes place = old place := by
  unfold patch
  split
  · next hle =>
    have hend : bytes.length ≤ place - offset := by omega
    rw [List.getElem?_eq_none hend, Option.getD_none]
  · rfl

variable {f : SparseFile} {offset : Nat} {bytes : List UInt8} (h : f.Has offset bytes.length)

/-- **What is in a file after a write.** -/
theorem byteAt_write : (f.write offset bytes h).byteAt = patch f.byteAt offset bytes :=
  funext (getD_overwrite bytes f.written offset)

theorem read_write {count : Nat} (hcount : bytes.length = count) (hread : (f.write offset bytes h).Has offset count) :
    (f.write offset bytes h).read offset count hread = bytes := by
  subst hcount
  refine List.ext_getElem (by simp [read]) fun i _ hi => ?_
  simp [read, byteAt_write, patch, hi]

theorem read_write_of_disjoint {start count : Nat} (hread : (f.write offset bytes h).Has start count)
    (hread' : f.Has start count) (hdisjoint : start + count ≤ offset ∨ offset + bytes.length ≤ start) :
    (f.write offset bytes h).read start count hread = f.read start count hread' := by
  refine List.map_congr_left fun place hplace => ?_
  obtain ⟨i, hi, rfl⟩ := List.mem_range'.1 hplace
  rw [byteAt_write]
  exact patch_of_not_mem (by omega)

end SparseFile

/-! ## The slots -/

namespace CompactNodes

/-- Whether a file is made for an id. -/
def InRange (s : CompactNodes) (id : Int) : Prop := 0 ≤ id ∧ id < s.capacity.toNat

/-- Whether a node can be written: its id has a slot, and its longitude is not the one that stands for nothing. -/
def Takes (s : CompactNodes) (node : NodeId × Location) : Prop := s.InRange node.1 ∧ node.2.lon ≠ Int32.minValue

variable {s : CompactNodes} {node : NodeId × Location}

theorem fits_iff (s : CompactNodes) (id : Int) : s.fits id = true ↔ s.InRange id := by
  unfold fits
  constructor
  · intro h
    obtain ⟨offset, hoffset⟩ := Option.isSome_iff_exists.1 h
    exact (slotOffset?_eq_some_iff.1 hoffset).1
  · intro h
    have hslot : s.offset? id = some (UInt64.ofNat (Slot.size * id.toNat)) :=
      slotOffset?_eq_some_iff.2 ⟨h, UInt64.toNat_ofNat'⟩
    rw [hslot]
    rfl

theorem inRange_of_offset? {id : Int} {offset : UInt64} (h : s.offset? id = some offset) : s.InRange id :=
  (slotOffset?_eq_some_iff.1 h).1

/-- **The slots of two ids have no byte in common.** -/
theorem slots_apart {a b : Int} {i j : UInt64} (ha : s.offset? a = some i) (hb : s.offset? b = some j) (hne : a ≠ b) :
    i.toNat + Slot.size ≤ j.toNat ∨ j.toNat + Slot.size ≤ i.toNat := by
  obtain ⟨hrange, hi⟩ := toNat_slotOffset? s.room ha
  obtain ⟨hrange', hj⟩ := toNat_slotOffset? s.room hb
  unfold Slot.size at *
  omega

/-! ## One write -/

theorem at?_of_offset? {id : NodeId} {offset : UInt64} (h : s.offset? id = some offset) :
    s.at? id = Slot.decode? (s.file.read offset.toNat Slot.size (s.has_slot h)) := by
  unfold at?
  split
  · next hnone =>
    rw [hnone] at h
    cases h
  · next hsome =>
    cases hsome.symm.trans h
    rfl

theorem at?_eq_none {id : NodeId} (h : s.offset? id = none) : s.at? id = none := by
  unfold at?
  split
  · rfl
  · next hsome =>
    rw [hsome] at h
    cases h

theorem put_of_offset? {offset : UInt64} (h : s.offset? node.1 = some offset) :
    s.put node =
      { s with
        file := s.file.write offset.toNat (Slot.encode node.2) (s.has_encode h node.2)
        count := if (s.at? node.1).isNone then s.count + 1 else s.count
        room := s.room.write _ _ _ } := by
  unfold put
  split
  · next hnone =>
    rw [hnone] at h
    cases h
  · next hsome =>
    cases hsome.symm.trans h
    rfl

theorem put_eq_self (h : s.offset? node.1 = none) : s.put node = s := by
  unfold put
  split
  · rfl
  · next hsome =>
    rw [hsome] at h
    cases h

theorem file_put {offset : UInt64} (h : s.offset? node.1 = some offset) :
    (s.put node).file = s.file.write offset.toNat (Slot.encode node.2) (s.has_encode h node.2) := by
  rw [put_of_offset? h]

theorem length_file_put (s : CompactNodes) (node : NodeId × Location) :
    (s.put node).file.length = s.file.length := by
  cases h : s.offset? node.1 with
  | none => rw [put_eq_self h]
  | some offset => rw [file_put h, SparseFile.length_write]

theorem byteAt_file_put {offset : UInt64} (h : s.offset? node.1 = some offset) :
    (s.put node).file.byteAt = SparseFile.patch s.file.byteAt offset.toNat (Slot.encode node.2) := by
  rw [file_put h, SparseFile.byteAt_write]

theorem capacity_put (s : CompactNodes) (node : NodeId × Location) : (s.put node).capacity = s.capacity := by
  unfold put
  split
  · rfl
  · rfl

theorem offset?_put (s : CompactNodes) (node : NodeId × Location) (id : NodeId) :
    (s.put node).offset? id = s.offset? id := by
  rw [offset?, capacity_put, offset?]

theorem inRange_put (s : CompactNodes) (node : NodeId × Location) (id : NodeId) :
    (s.put node).InRange id ↔ s.InRange id := by
  rw [InRange, capacity_put, InRange]

theorem takes_put (s : CompactNodes) (node n : NodeId × Location) : (s.put node).Takes n ↔ s.Takes n := by
  rw [Takes, inRange_put, Takes]

theorem exists_offset? {id : Int} (h : s.InRange id) : ∃ offset, s.offset? id = some offset :=
  Option.isSome_iff_exists.1 ((s.fits_iff id).2 h)

theorem count_put (h : s.InRange node.1) :
    (s.put node).count = if (s.at? node.1).isNone then s.count + 1 else s.count := by
  obtain ⟨offset, hoffset⟩ := exists_offset? h
  rw [put_of_offset? hoffset]

theorem at?_put_self (h : s.Takes node) : (s.put node).at? node.1 = some node.2 := by
  obtain ⟨offset, hoffset⟩ := exists_offset? h.1
  have hread : ∀ hslot, (s.put node).file.read offset.toNat Slot.size hslot = Slot.encode node.2 := by
    rw [file_put hoffset]
    exact SparseFile.read_write (s.has_encode hoffset node.2) (Slot.length_encode node.2)
  rw [at?_of_offset? ((offset?_put s node node.1).trans hoffset), hread, Slot.decode?_encode, if_neg h.2]

theorem at?_put_of_ne {id : NodeId} (hne : node.1 ≠ id) : (s.put node).at? id = s.at? id := by
  cases hnode : s.offset? node.1 with
  | none => rw [put_eq_self hnode]
  | some i =>
    cases hid : s.offset? id with
    | none => rw [at?_eq_none ((offset?_put s node id).trans hid), at?_eq_none hid]
    | some j =>
      have hread : ∀ hslot, (s.put node).file.read j.toNat Slot.size hslot =
          s.file.read j.toNat Slot.size (s.has_slot hid) := by
        rw [file_put hnode]
        exact fun _ => SparseFile.read_write_of_disjoint (s.has_encode hnode node.2) _ _ (slots_apart hnode hid hne).symm
      rw [at?_of_offset? ((offset?_put s node id).trans hid), hread, at?_of_offset? hid]

/-- **A write shows at its own id only.** -/
theorem at?_put (h : s.Takes node) (id : NodeId) :
    (s.put node).at? id = if node.1 = id then some node.2 else s.at? id := by
  split
  · next heq => exact heq ▸ at?_put_self h
  · next hne => exact at?_put_of_ne hne

/-- A file for sixteen ids, without nodes. -/
def sixteen : CompactNodes := ⟨16, .ofLength 128, 0, by decide⟩

example : create 16 = .ok sixteen := rfl

end CompactNodes
end MapFeatures
