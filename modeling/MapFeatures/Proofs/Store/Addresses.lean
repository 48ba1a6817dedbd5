import Mathlib.Tactic.ByContra
import MapFeatures.Proofs.Store.Interchange
/-!
# Addresses — whether the slots of a flat file lie in it

A file is made with eight bytes for each id, and where products wrap around, its length is what is left of that in 64 bits
(`Sized`).  Up to `2 ^ 61` ids neither the length nor an offset wraps around.  A file that could be made for more is too
short: `beyondFile` is an id whose slot starts behind its end, and the first id shares its slot with another.  So the
bound is exact for room, for slots inside and for slots apart (`slots_in_file_iff`).  Where the product stops the program,
it stops exactly from that bound on (`create_eq_stopped_iff`), and what is made has room.
-/
namespace MapFeatures

namespace CompactNodes

variable {capacity : UInt64} {file : SparseFile}

/-! ## What is asked of a file -/

/-- Whether the slot of every id that is taken lies inside the file. -/
def SlotsInside (capacity : UInt64) (file : SparseFile) : Prop :=
  ∀ (id : Int) (offset : UInt64), slotOffset? capacity id = some offset → file.Has offset.toNat Slot.size

/-- Whether the slots of any two ids that are taken have no byte in common. -/
def SlotsApart (capacity : UInt64) : Prop :=
  ∀ (a b : Int) (i j : UInt64), a ≠ b → slotOffset? capacity a = some i → slotOffset? capacity b = some j →
    i.toNat + Slot.size ≤ j.toNat ∨ j.toNat + Slot.size ≤ i.toNat

/-! ## Where products wrap around -/

/-- Whether a file has the length that it is made with: not zero, and what is left of eight bytes for each id in
64 bits. -/
structure Sized (capacity : UInt64) (file : SparseFile) : Prop where
  length : file.length.toNat = Slot.size * capacity.toNat % 18446744073709551616
  pos : 0 < file.length.toNat

theorem sized_of_wraps (h : freshFile .wraps capacity = .ok file) : Sized capacity file := by
  unfold freshFile Overflow.product at h
  dsimp only at h
  split at h
  · cases h
  · next hlong =>
    cases h
    rw [Bool.or_eq_true, decide_eq_true_eq, not_or] at hlong
    refine ⟨?_, Nat.pos_of_ne_zero fun hzero => hlong.1 (UInt64.toNat_inj.1 hzero)⟩
    rw [SparseFile.ofLength, UInt64.toNat_mul, Nat.mul_comm]
    rfl

theorem Sized.hasRoom_iff (h : Sized capacity file) : HasRoom capacity file ↔ capacity.toNat < 2305843009213693952 := by
  have hlength := h.length
  have hpos := h.pos
  unfold HasRoom Slot.size at *
  omega

/-- The first id whose slot starts behind the end of the file. -/
def beyondFile (file : SparseFile) : Int := (file.length.toNat / Slot.size : Nat)

theorem Sized.slotsInside_iff (h : Sized capacity file) :
    SlotsInside capacity file ↔ capacity.toNat < 2305843009213693952 := by
  have hlength := h.length
  have hpos := h.pos
  have hcapacity := capacity.toNat_lt
  constructor
  · intro hinside
    by_contra hlarge
    have hoffset : slotOffset? capacity (beyondFile file) = some file.length := by
      rw [slotOffset?_eq_some_iff]
      unfold beyondFile Slot.size at *
      omega
    have hslot := hinside (beyondFile file) file.length hoffset
    unfold SparseFile.Has Slot.size at hslot
    omega
  · intro hsmall id offset hoffset
    obtain ⟨hrange, hplace⟩ := slotOffset?_eq_some_iff.1 hoffset
    unfold SparseFile.Has Slot.size at *
    omega

theorem Sized.slotsApart_iff (h : Sized capacity file) : SlotsApart capacity ↔ capacity.toNat < 2305843009213693952 := by
  have hpos := h.pos
  have hlength := h.length
  constructor
  · intro hapart
    by_contra hlarge
    have hfirst : slotOffset? capacity 0 = some 0 := by
      rw [slotOffset?_eq_some_iff, UInt64.toNat_zero]
      unfold Slot.size at *
      omega
    have hbehind : slotOffset? capacity 2305843009213693952 = some 0 := by
      rw [slotOffset?_eq_some_iff, UInt64.toNat_zero]
      unfold Slot.size at *
      omega
    have hslots := hapart 0 2305843009213693952 0 0 (by decide) hfirst hbehind
    unfold Slot.size at hslots
    omega
  · intro hsmall a b i j hne ha hb
    obtain ⟨hrange, hi⟩ := slotOffset?_eq_some_iff.1 ha
    obtain ⟨hrange', hj⟩ := slotOffset?_eq_some_iff.1 hb
    unfold Slot.size at *
    omega

/-! ## Where they stop the program -/

theorem capacityFor_pos (requested : UInt64) : 0 < (capacityFor requested).toNat := by
  unfold capacityFor
  split
  · decide
  · next h => exact Nat.pos_of_ne_zero fun hzero => h (UInt64.toNat_inj.1 hzero)

theorem fresh_eq_error {e : StoreError} (h : freshFile .stops capacity = .error e) : fresh capacity = .error e := by
  unfold fresh
  split
  · next h' => exact congrArg Except.error (Except.error.inj (h'.symm.trans h))
  · next h' =>
    rw [h] at h'
    cases h'

theorem exists_fresh (h : freshFile .stops capacity = .ok file) : ∃ s, fresh capacity = .ok s := by
  unfold fresh
  split
  · next h' =>
    rw [h] at h'
    cases h'
  · exact ⟨_, rfl⟩

/-- **Which stores can be made**: up to `2 ^ 60` ids all, then none as the file would be too long, and from `2 ^ 61` on the
program stops. -/
theorem create_cases (requested : UInt64) :
    (capacityFor requested).toNat < 1152921504606846976 ∧ (∃ s, create requested = .ok s) ∨
      (1152921504606846976 ≤ (capacityFor requested).toNat ∧ (capacityFor requested).toNat < 2305843009213693952 ∧
        create requested = .error .storageUnavailable) ∨
      2305843009213693952 ≤ (capacityFor requested).toNat ∧ create requested = .error (.stopped .product) := by
  have hpos := capacityFor_pos requested
  unfold create
  generalize capacityFor requested = capacity at *
  have hsize : slotSize.toNat = 8 := rfl
  by_cases hexact : capacity.toNat < 2305843009213693952
  · have hproduct : Overflow.product .stops capacity slotSize = .ok (capacity * slotSize) :=
      if_pos (by rw [hsize, UInt64.size]; omega)
    have hlong : (decide (capacity * slotSize = 0) || decide (maxLength < capacity * slotSize)) = true ↔
        1152921504606846976 ≤ capacity.toNat := by
      have hmax : maxLength.toNat = 9223372036854775807 := rfl
      rw [Bool.or_eq_true, decide_eq_true_eq, decide_eq_true_eq, ← UInt64.toNat_inj, UInt64.lt_iff_toNat_lt,
        UInt64.toNat_mul, hsize, hmax, UInt64.toNat_zero]
      omega
    by_cases hshort : capacity.toNat < 1152921504606846976
    · have hfile : freshFile .stops capacity = .ok (SparseFile.ofLength (capacity * slotSize)) := by
        rw [freshFile, hproduct]
        exact if_neg fun h => absurd (hlong.1 h) (Nat.not_le.2 hshort)
      exact Or.inl ⟨hshort, exists_fresh hfile⟩
    · have hfile : freshFile .stops capacity = .error .storageUnavailable := by
        rw [freshFile, hproduct]
        exact if_pos (hlong.2 (Nat.not_lt.1 hshort))
      exact Or.inr (Or.inl ⟨Nat.not_lt.1 hshort, hexact, fresh_eq_error hfile⟩)
  · have hproduct : Overflow.product .stops capacity slotSize = .error (.stopped .product) :=
      if_neg (by rw [hsize, UInt64.size]; omega)
    have hfile : freshFile .stops capacity = .error (.stopped .product) := by rw [freshFile, hproduct]
    exact Or.inr (Or.inr ⟨Nat.not_lt.1 hexact, fresh_eq_error hfile⟩)

theorem create_eq_stopped_iff {requested : UInt64} :
    create requested = .error (.stopped .product) ↔ 2305843009213693952 ≤ (capacityFor requested).toNat := by
  rcases create_cases requested with ⟨hsmall, s, hok⟩ | ⟨-, hsmall, herror⟩ | ⟨hlarge, herror⟩
  · rw [hok]
    exact iff_of_false nofun (by omega)
  · rw [herror]
    exact iff_of_false nofun (by omega)
  · rw [herror]
    exact iff_of_true rfl hlarge

/-- **Slots lie in the file, each apart from the others, exactly up to `2 ^ 61` ids.**  If products wrap around, a file
that could be made for more has neither room for all ids, nor are all slots inside, nor are they apart.  If they stop the
program, it stops from this bound on, and every store that is made has room, with all slots inside and apart. -/
theorem slots_in_file_iff {requested : UInt64} (hfile : freshFile .wraps (capacityFor requested) = .ok file) :
    ((HasRoom (capacityFor requested) file ↔ (capacityFor requested).toNat < 2305843009213693952) ∧
      (SlotsInside (capacityFor requested) file ↔ (capacityFor requested).toNat < 2305843009213693952) ∧
      (SlotsApart (capacityFor requested) ↔ (capacityFor requested).toNat < 2305843009213693952)) ∧
    (create requested = .error (.stopped .product) ↔ 2305843009213693952 ≤ (capacityFor requested).toNat) ∧
    ∀ s : CompactNodes, HasRoom s.capacity s.file ∧ SlotsInside s.capacity s.file ∧ SlotsApart s.capacity := by
  have hsized := sized_of_wraps hfile
  exact ⟨⟨hsized.hasRoom_iff, hsized.slotsInside_iff, hsized.slotsApart_iff⟩, create_eq_stopped_iff,
    fun s => ⟨s.room, fun _ _ h => s.has_slot h, fun _ _ _ _ hne ha hb => slots_apart ha hb hne⟩⟩

/-- A file for a thousand ids. -/
theorem slots_in_file_iff_thousand :
    freshFile .wraps (capacityFor 1000) = .ok (SparseFile.ofLength 8000) ∧
      HasRoom 1000 (SparseFile.ofLength 8000) ∧ SlotsInside 1000 (SparseFile.ofLength 8000) ∧ SlotsApart 1000 := by
  have hfile : freshFile .wraps (capacityFor 1000) = .ok (SparseFile.ofLength 8000) := rfl
  obtain ⟨⟨hroom, hinside, hapart⟩, -⟩ := slots_in_file_iff hfile
  exact ⟨hfile, hroom.2 (by decide), hinside.2 (by decide), hapart.2 (by decide)⟩

/-- **Where products wrap around, a file of eight bytes is made for more than `2 ^ 61` ids**: the slot of the second one
starts behind its end.  Otherwise the program stops, where it could have said that there is no such file. -/
theorem not_slots_in_file :
    freshFile .wraps (capacityFor 2305843009213693953) = .ok (SparseFile.ofLength 8) ∧
      slotOffset? 2305843009213693953 1 = some 8 ∧
      ¬ HasRoom 2305843009213693953 (SparseFile.ofLength 8) ∧
      ¬ SlotsInside 2305843009213693953 (SparseFile.ofLength 8) ∧ ¬ SlotsApart 2305843009213693953 ∧
      create 2305843009213693953 = .error (.stopped .product) := by
  have hfile : freshFile .wraps 2305843009213693953 = .ok (SparseFile.ofLength 8) := rfl
  have hsized := sized_of_wraps hfile
  have hlarge : ¬ (2305843009213693953 : UInt64).toNat < 2305843009213693952 := by decide
  exact ⟨hfile, rfl, mt hsized.hasRoom_iff.1 hlarge, mt hsized.slotsInside_iff.1 hlarge,
    mt hsized.slotsApart_iff.1 hlarge, rfl⟩

end CompactNodes
end MapFeatures
