import MapFeatures.Store.Error
import MapFeatures.Store.Slot
import MapFeatures.Store.SparseFile
/-!
# CompactNodes — node locations in a flat file, indexed by node id

The file has one slot for each id below the capacity.  Lengths and offsets are 64-bit numbers.  A product that has no room
in them stops the program, as it is built for its tests (`Overflow.stops`), so every store has a file that is long enough
(`CompactNodes.room`).  Built for release, the program would keep the low bits (`Overflow.wraps`).

A batch is checked before the first of its nodes is written, so a batch that is refused changes nothing.
-/
namespace MapFeatures

/-- What becomes of a product that has no room in 64 bits. -/
inductive Overflow
  /-- It stops the program. -/
  | stops
  /-- Its low bits are kept. -/
  | wraps
deriving DecidableEq, Repr

def Overflow.product (o : Overflow) (a b : UInt64) : Except StoreError UInt64 :=
  match o with
  | stops => if a.toNat * b.toNat < UInt64.size then .ok (a * b) else .error (.stopped .product)
  | wraps => .ok (a * b)

/-- Whether a file has the bytes of `capacity` slots. -/
def HasRoom (capacity : UInt64) (file : SparseFile) : Prop := Slot.size * capacity.toNat ≤ file.length.toNat

theorem HasRoom.write {capacity : UInt64} {file : SparseFile} (h : HasRoom capacity file) (offset : Nat)
    (bytes : List UInt8) (hbytes : file.Has offset bytes.length) : HasRoom capacity (file.write offset bytes hbytes) := by
  rwa [HasRoom, SparseFile.length_write]

instance (capacity : UInt64) (file : SparseFile) : Decidable (HasRoom capacity file) := Nat.decLe _ _

structure CompactNodes where
  capacity : UInt64
  file : SparseFile
  /-- How many slots hold a location. -/
  count : Nat
  room : HasRoom capacity file

namespace CompactNodes

/-- The longest file there can be. -/
def maxLength : UInt64 := 9223372036854775807

def slotSize : UInt64 := 8

/-! ## Files -/

/-- A file of zeros with `capacity` slots; there is none that is empty or longer than `maxLength`. -/
def freshFile (o : Overflow) (capacity : UInt64) : Except StoreError SparseFile :=
  match o.product capacity slotSize with
  | .error e => .error e
  | .ok length =>
    if length = 0 || maxLength < length then .error .storageUnavailable else .ok (SparseFile.ofLength length)

/-- Where the slot of an id below the capacity starts; other ids have none. -/
def slotOffset? (capacity : UInt64) (id : NodeId) : Option UInt64 :=
  if id < 0 || capacity.toNat ≤ id.toNat then none else some (UInt64.ofNat id.toNat * slotSize)

theorem hasRoom_of_freshFile {capacity : UInt64} {file : SparseFile} (h : freshFile .stops capacity = .ok file) :
    HasRoom capacity file := by
  unfold freshFile Overflow.product at h
  by_cases hexact : capacity.toNat * slotSize.toNat < UInt64.size
  · rw [if_pos hexact] at h
    dsimp only at h
    split at h
    · cases h
    · cases h
      rw [HasRoom, SparseFile.ofLength, UInt64.toNat_mul, Nat.mod_eq_of_lt hexact, Nat.mul_comm]
      exact Nat.le_refl _
  · rw [if_neg hexact] at h
    cases h

theorem slotOffset?_eq_some_iff {capacity : UInt64} {id : Int} {offset : UInt64} :
    slotOffset? capacity id = some offset ↔
      (0 ≤ id ∧ id < capacity.toNat) ∧ offset.toNat = Slot.size * id.toNat % 18446744073709551616 := by
  have hsize : slotSize.toNat = 8 := rfl
  have hlt := capacity.toNat_lt
  have hout : (decide (id < 0) || decide (capacity.toNat ≤ id.toNat)) = true ↔ ¬ (0 ≤ id ∧ id < capacity.toNat) := by
    rw [Bool.or_eq_true, decide_eq_true_eq, decide_eq_true_eq]
    omega
  unfold slotOffset?
  split
  · next h => exact iff_of_false nofun fun hid => hout.1 h hid.1
  · next h =>
    have hid : 0 ≤ id ∧ id < capacity.toNat := Decidable.not_not.1 fun hnot => h (hout.2 hnot)
    rw [Option.some_inj, ← UInt64.toNat_inj, UInt64.toNat_mul, UInt64.toNat_ofNat', hsize, Slot.size,
      and_iff_right hid]
    omega

/-- **In a file that has room, no offset wraps around.** -/
theorem toNat_slotOffset? {capacity : UInt64} {file : SparseFile} (hroom : HasRoom capacity file) {id : Int}
    {offset : UInt64} (h : slotOffset? capacity id = some offset) :
    (0 ≤ id ∧ id < capacity.toNat) ∧ offset.toNat = Slot.size * id.toNat := by
  obtain ⟨hid, hoffset⟩ := slotOffset?_eq_some_iff.1 h
  have hlength := file.length.toNat_lt
  unfold HasRoom Slot.size at *
  omega

/-! ## Stores -/

/-- A store for some ids, without nodes. -/
def fresh (capacity : UInt64) : Except StoreError CompactNodes :=
  match h : freshFile .stops capacity with
  | .error e => .error e
  | .ok file => .ok ⟨capacity, file, 0, hasRoom_of_freshFile h⟩

/-- How many ids a store is made for: as many as are asked for, but at least one. -/
def capacityFor (requested : UInt64) : UInt64 := if requested = 0 then 1 else requested

def create (requested : UInt64) : Except StoreError CompactNodes := fresh (capacityFor requested)

/-- Where the slot of a node starts; none for ids that do not fit. -/
def offset? (s : CompactNodes) (id : NodeId) : Option UInt64 := slotOffset? s.capacity id

theorem has_slot (s : CompactNodes) {id : NodeId} {offset : UInt64} (h : s.offset? id = some offset) :
    s.file.Has offset.toNat Slot.size := by
  obtain ⟨hid, hoffset⟩ := toNat_slotOffset? s.room h
  have hroom := s.room
  unfold HasRoom SparseFile.Has Slot.size at *
  omega

theorem has_encode (s : CompactNodes) {id : NodeId} {offset : UInt64} (h : s.offset? id = some offset) (l : Location) :
    s.file.Has offset.toNat (Slot.encode l).length := by
  rw [Slot.length_encode]
  exact s.has_slot h

def fits (s : CompactNodes) (id : NodeId) : Bool := (s.offset? id).isSome

/-- The location of a node. -/
def at? (s : CompactNodes) (id : NodeId) : Option Location :=
  match h : s.offset? id with
  | none => none
  | some offset => Slot.decode? (s.file.read offset.toNat Slot.size (s.has_slot h))

/-- One node written into its slot. -/
def put (s : CompactNodes) (node : NodeId × Location) : CompactNodes :=
  match h : s.offset? node.1 with
  | none => s
  | some offset =>
    { s with
      file := s.file.write offset.toNat (Slot.encode node.2) (s.has_encode h node.2)
      count := if (s.at? node.1).isNone then s.count + 1 else s.count
      room := s.room.write _ _ _ }

/-- A batch of nodes; none is written if an id does not fit, and the first such id is reported.  A longitude that stands
for nothing stops the program. -/
def insert (s : CompactNodes) (batch : List (NodeId × Location)) : Except StoreError CompactNodes :=
  match batch.find? fun node => !s.fits node.1 with
  | some node => .error (.compactRangeExceeded node.1 s.capacity)
  | none =>
    if batch.any fun node => node.2.lon = Int32.minValue then .error (.stopped .longitude)
    else .ok (batch.foldl put s)

/-- The store with a fresh file. -/
def clear (s : CompactNodes) : Except StoreError CompactNodes := fresh s.capacity

end CompactNodes
end MapFeatures
