import Mathlib.Data.Finset.Card
import Mathlib.Data.List.Induction
import MapFeatures.Store.UsedWays
/-!
# UsedWays — the words hold a set

`mark` adds one id and leaves all others as they are (`contains_mark`), so after some marks the set has the ids below
`idSpace` that were marked (`contains_foldl_mark`), and counts each of them once (`count_foldl_mark`).  Words beyond the
length are zero (`Bounded`), so growing does not bring up any id.
-/
namespace MapFeatures
namespace UsedWays

/-- No word beyond the length has a bit. -/
def Bounded (s : UsedWays) : Prop := ∀ word, s.length ≤ word → s.words.getD word 0 = 0

/-- Whether the bit of a number is set. -/
def bit (s : UsedWays) (n : Nat) : Bool := (s.words.getD (n / 64) 0).toBitVec.getLsbD (n % 64)

/-! ## One word -/

theorem toBitVec_mask (n : Nat) : (mask n).toBitVec = BitVec.twoPow 64 (n % 64) := by
  have hlt : n % 64 < 64 := Nat.mod_lt n (by decide)
  have hmod : n % 64 % 18446744073709551616 % 64 = n % 64 := by omega
  rw [mask, UInt64.toBitVec_shiftLeft, UInt64.toBitVec_ofNat', BitVec.twoPow_eq]
  apply BitVec.eq_of_toNat_eq
  simp [BitVec.toNat_shiftLeft, hmod]

theorem and_mask_ne_zero_iff (x : UInt64) (n : Nat) : (x &&& mask n != 0) = x.toBitVec.getLsbD (n % 64) := by
  have hzero : x &&& mask n = 0 ↔ x.toBitVec.getLsbD (n % 64) = false := by
    rw [← UInt64.toBitVec_inj, UInt64.toBitVec_and, toBitVec_mask, BitVec.and_twoPow]
    cases x.toBitVec.getLsbD (n % 64) with
    | false => simp
    | true =>
      have hlt : n % 64 < 64 := Nat.mod_lt n (by decide)
      have hne : BitVec.twoPow 64 (n % 64) ≠ 0#64 := fun h => by
        have := congrArg (·.getLsbD (n % 64)) h
        simp [hlt] at this
      simpa using hne
  cases hbit : x.toBitVec.getLsbD (n % 64) with
  | false => simpa using hzero.2 hbit
  | true =>
    have : ¬ x &&& mask n = 0 := fun h => by rw [hzero.1 h] at hbit; cases hbit
    simpa using this

theorem getLsbD_or_mask (x : UInt64) (m n : Nat) :
    (x ||| mask m).toBitVec.getLsbD (n % 64) = (x.toBitVec.getLsbD (n % 64) || decide (m % 64 = n % 64)) := by
  have hlt : m % 64 < 64 := Nat.mod_lt m (by decide)
  rw [UInt64.toBitVec_or, toBitVec_mask, BitVec.getLsbD_or, BitVec.getLsbD_twoPow, decide_eq_true hlt, Bool.true_and]

/-! ## All words -/

theorem bounded_empty : Bounded empty := fun word _ => by simp [empty]

theorem Bounded.reserve {s : UsedWays} (h : s.Bounded) (nodes : Nat) (compact : Bool) :
    (s.reserve nodes compact).Bounded := by
  unfold UsedWays.reserve
  split
  · exact h
  · exact h

theorem contains_reserve (s : UsedWays) (nodes : Nat) (compact : Bool) (w : WayId) :
    (s.reserve nodes compact).contains w = s.contains w := by
  unfold reserve
  split
  · rfl
  · rfl

theorem contains_iff {s : UsedWays} (h : s.Bounded) (w : WayId) :
    s.contains w = true ↔ 0 ≤ w ∧ s.bit w.toNat = true := by
  unfold contains bit
  by_cases hneg : w < 0
  · rw [if_pos hneg]
    exact iff_of_false Bool.false_ne_true fun hb => absurd hneg (Int.not_lt.2 hb.1)
  · rw [if_neg hneg, Bool.and_eq_true, and_mask_ne_zero_iff, decide_eq_true_eq]
    refine ⟨fun hb => ⟨Int.not_lt.1 hneg, hb.2⟩, fun hb => ⟨?_, hb.2⟩⟩
    -- a word with a bit is not beyond the length
    refine Nat.lt_of_not_le fun hle => ?_
    have hzero := hb.2
    rw [h _ hle] at hzero
    simp at hzero

/-! ## Marks -/

/-- Whether the bit of an id is kept. -/
def InSpace (id : Int) : Prop := 0 ≤ id ∧ id < 2147483648

theorem mark_of_inSpace (s : UsedWays) {id : Int} (h : InSpace id) :
    s.mark id = { s.grow (id.toNat / 64) with
      words := s.words.insert (id.toNat / 64) (s.words.getD (id.toNat / 64) 0 ||| mask id.toNat) } := by
  obtain ⟨h0, h1⟩ := h
  have hneg : ¬ id < 0 := by omega
  have hlarge : ¬ idSpace ≤ id.toNat := by unfold idSpace; omega
  have hwords : (s.grow (id.toNat / 64)).words = s.words := by
    unfold grow
    split
    · rfl
    · rfl
  unfold mark
  rw [if_neg (by simp [hneg, hlarge])]
  dsimp only
  rw [hwords]

theorem mark_of_not_inSpace (s : UsedWays) {id : Int} (h : ¬ InSpace id) : s.mark id = s := by
  have hleft : id < 0 ∨ idSpace ≤ id.toNat := by unfold InSpace at h; unfold idSpace; omega
  unfold mark
  rw [if_pos (by simpa using hleft)]

theorem getD_words_mark (s : UsedWays) {id : Int} (h : InSpace id) (word : Nat) :
    (s.mark id).words.getD word 0 =
      if id.toNat / 64 = word then s.words.getD word 0 ||| mask id.toNat else s.words.getD word 0 := by
  rw [mark_of_inSpace s h, Std.HashMap.getD_insert]
  by_cases hword : id.toNat / 64 = word
  · rw [if_pos hword, if_pos (by simpa using hword), hword]
  · rw [if_neg hword, if_neg (by simpa using hword)]

theorem lt_length_mark (s : UsedWays) {id : Int} (h : InSpace id) :
    id.toNat / 64 < (s.mark id).length ∧ s.length ≤ (s.mark id).length := by
  rw [mark_of_inSpace s h]
  unfold grow
  split
  · next hlt => exact ⟨hlt, Nat.le_refl _⟩
  · next hlt =>
    have hle : s.length ≤ id.toNat / 64 := Nat.not_lt.1 hlt
    dsimp only
    omega

theorem Bounded.mark {s : UsedWays} (h : s.Bounded) (id : WayId) : (s.mark id).Bounded := by
  by_cases hid : InSpace id
  · intro word hle
    obtain ⟨hword, hlength⟩ := lt_length_mark s hid
    have hne : id.toNat / 64 ≠ word := by omega
    rw [getD_words_mark s hid, if_neg hne]
    exact h word (Nat.le_trans hlength hle)
  · rw [mark_of_not_inSpace s hid]
    exact h

/-- **A mark adds one id**, if it is in the range that is kept, and nothing else. -/
theorem contains_mark {s : UsedWays} (h : s.Bounded) (id w : Int) :
    (s.mark id).contains w = true ↔ s.contains w = true ∨ w = id ∧ InSpace w := by
  by_cases hid : InSpace id
  · rw [contains_iff (h.mark id), contains_iff h, bit, bit, getD_words_mark s hid]
    obtain ⟨h0, h1⟩ := hid
    by_cases hword : id.toNat / 64 = w.toNat / 64
    · rw [if_pos hword, getLsbD_or_mask, Bool.or_eq_true, decide_eq_true_eq]
      constructor
      · rintro ⟨hw, hb | hm⟩
        · exact Or.inl ⟨hw, hb⟩
        · have hid : w = id := by
            have hw : (0 : Int) ≤ w := hw
            omega
          exact Or.inr ⟨hid, hid ▸ h0, hid ▸ h1⟩
      · rintro (⟨hw, hb⟩ | ⟨rfl, hw⟩)
        · exact ⟨hw, Or.inl hb⟩
        · exact ⟨hw.1, Or.inr rfl⟩
    · rw [if_neg hword]
      exact ⟨Or.inl, fun hw => hw.resolve_right fun hid => hword (by rw [hid.1])⟩
  · rw [mark_of_not_inSpace s hid]
    exact ⟨Or.inl, fun hw => hw.resolve_right fun hw => hid (hw.1 ▸ hw.2)⟩

/-- **After some marks** the set has those of the ids that are in the range that is kept, and what it had. -/
theorem contains_foldl_mark : ∀ (ids : List WayId) {s : UsedWays}, s.Bounded → ∀ w : WayId,
    (ids.foldl mark s).contains w = true ↔ s.contains w = true ∨ w ∈ ids ∧ InSpace w
  | [], _, _, _ => by simp
  | id :: ids, s, h, w => by
    rw [List.foldl_cons, contains_foldl_mark ids (h.mark id), contains_mark h, List.mem_cons]
    constructor
    · rintro ((hs | hid) | hids)
      · exact Or.inl hs
      · exact Or.inr ⟨Or.inl hid.1, hid.2⟩
      · exact Or.inr ⟨Or.inr hids.1, hids.2⟩
    · rintro (hs | ⟨hid | hids, hspace⟩)
      · exact Or.inl (Or.inl hs)
      · exact Or.inl (Or.inr ⟨hid, hspace⟩)
      · exact Or.inr ⟨hids, hspace⟩

theorem contains_empty (w : WayId) : empty.contains w = false := by
  unfold contains
  split
  · rfl
  · rfl

/-! ## Counting -/

theorem bitCount_eq (x : UInt64) : bitCount x = (List.range 64).countP fun i => x.toBitVec.getLsbD i := by
  refine List.countP_congr fun i hi => ?_
  rw [and_mask_ne_zero_iff, Nat.mod_eq_of_lt (List.mem_range.1 hi)]

theorem countP_or_eq {p : Nat → Bool} {n : Nat} (hn : p n = false) : ∀ l : List Nat,
    (l.countP fun i => p i || decide (n = i)) = l.countP p + l.count n
  | [] => rfl
  | i :: l => by
    rw [List.countP_cons, List.countP_cons, List.count_cons, countP_or_eq hn l]
    by_cases hi : n = i
    · simp [← hi, hn, Nat.add_assoc]
    · simp [hi, Ne.symm hi, Nat.add_right_comm]

theorem bitCount_or_mask (x : UInt64) (n : Nat) :
    bitCount (x ||| mask n) = bitCount x + if x.toBitVec.getLsbD (n % 64) then 0 else 1 := by
  have hplace : n % 64 < 64 := Nat.mod_lt n (by decide)
  have hbits : bitCount (x ||| mask n) =
      (List.range 64).countP fun i => x.toBitVec.getLsbD i || decide (n % 64 = i) := by
    rw [bitCount_eq]
    refine List.countP_congr fun i hi => ?_
    have hor := getLsbD_or_mask x n i
    rw [Nat.mod_eq_of_lt (List.mem_range.1 hi)] at hor
    rw [hor]
  rw [hbits, bitCount_eq]
  cases hbit : x.toBitVec.getLsbD (n % 64) with
  | true =>
    refine List.countP_congr fun i _ => ?_
    by_cases hi : n % 64 = i
    · simp [← hi, hbit]
    · simp [hi]
  | false =>
    have hone : (List.range 64).count (n % 64) = 1 :=
      List.count_eq_one_of_mem List.nodup_range (List.mem_range.2 hplace)
    rw [countP_or_eq hbit, hone]
    rfl

/-- How many bits some words have. -/
def total (words : Std.HashMap Nat UInt64) : Nat := words.toList.foldl (fun n e => n + bitCount e.2) 0

theorem count_eq (s : UsedWays) : s.count = total s.words := by
  unfold count total
  rw [Std.HashMap.fold_eq_foldl_toList]

theorem count_empty : empty.count = 0 := by
  rw [count_eq, total, empty, Std.HashMap.toList_empty]
  rfl

theorem count_reserve (s : UsedWays) (nodes : Nat) (compact : Bool) : (s.reserve nodes compact).count = s.count := by
  unfold reserve
  split
  · rfl
  · rfl

theorem total_insert (words : Std.HashMap Nat UInt64) (word : Nat) (bits : UInt64) :
    total (words.insert word bits) + bitCount (words.getD word 0) = total words + bitCount bits := by
  have hsum : ∀ words, total words = (words.toList.map fun e => bitCount e.2).sum := fun words => by
    rw [total, List.sum_eq_foldl, List.foldl_map]
  have hsplit : ∀ new, total (words.insert word new) =
      bitCount new + ((words.toList.filter fun e => ¬word == e.1).map fun e => bitCount e.2).sum := by
    intro new
    have hperm := Std.HashMap.toList_insert_perm (m := words) (k := word) (v := new)
    rw [hsum, (hperm.map _).sum_nat]
    rfl
  -- the word that was there, written again, changes nothing
  have hsame : total words = total (words.insert word (words.getD word 0)) := by
    by_cases hmem : word ∈ words
    · have hequiv : words.Equiv (words.insert word (words.getD word 0)) := by
        refine Std.HashMap.Equiv.of_forall_getElem?_eq fun key => ?_
        rw [Std.HashMap.getElem?_insert]
        split
        · next h =>
          rw [← eq_of_beq h, Std.HashMap.getD_eq_getD_getElem?, Std.HashMap.getElem?_eq_some_getElem hmem]
          rfl
        · rfl
      rw [hsum, hsum]
      exact (hequiv.toList_perm.map _).sum_nat
    · have hother : ∀ e ∈ words.toList, (decide ¬word == e.1) = true := by
        intro e he
        have hkey : words[e.1]? = some e.2 := Std.HashMap.mem_toList_iff_getElem?_eq_some.1 he
        refine decide_eq_true fun h => hmem ?_
        rw [eq_of_beq h]
        exact Std.HashMap.mem_iff_isSome_getElem?.2 (by rw [hkey]; rfl)
      rw [hsplit, hsum, Std.HashMap.getD_eq_fallback hmem, List.filter_eq_self.2 hother]
      exact (Nat.zero_add _).symm
  rw [hsame, hsplit, hsplit]
  omega

instance (id : Int) : Decidable (InSpace id) := inferInstanceAs (Decidable (0 ≤ id ∧ id < 2147483648))

/-- **A mark counts** if the id is in the range that is kept and is not in the set yet. -/
theorem count_mark {s : UsedWays} (h : s.Bounded) (id : WayId) :
    (s.mark id).count = s.count + if InSpace id ∧ s.contains id = false then 1 else 0 := by
  by_cases hid : InSpace id
  · have hbit : s.contains id = s.bit id.toNat := by
      rw [Bool.eq_iff_iff, contains_iff h]
      exact ⟨And.right, fun hb => ⟨hid.1, hb⟩⟩
    have htotal := total_insert s.words (id.toNat / 64) (s.words.getD (id.toNat / 64) 0 ||| mask id.toNat)
    rw [bitCount_or_mask, ← bit, ← hbit] at htotal
    have hmark : (s.mark id).count =
        total (s.words.insert (id.toNat / 64) (s.words.getD (id.toNat / 64) 0 ||| mask id.toNat)) := by
      rw [count_eq, mark_of_inSpace s hid]
    rw [hmark, count_eq]
    cases hin : s.contains id with
    | true =>
      rw [hin, if_pos rfl] at htotal
      rw [if_neg fun hnew => Bool.false_ne_true hnew.2.symm]
      omega
    | false =>
      rw [hin, if_neg Bool.false_ne_true] at htotal
      rw [if_pos ⟨hid, rfl⟩]
      omega
  · rw [mark_of_not_inSpace s hid, if_neg fun hnew => hid hnew.1]
    rfl

theorem Bounded.foldl_mark : ∀ (ids : List WayId) {s : UsedWays}, s.Bounded → (ids.foldl UsedWays.mark s).Bounded
  | [], _, h => h
  | id :: ids, _, h => Bounded.foldl_mark ids (h.mark id)

/-- **Marks of a set without ids** count each id in the range that is kept once. -/
theorem count_foldl_mark {s : UsedWays} (h : s.Bounded) (hnone : ∀ w, s.contains w = false) (ids : List WayId) :
    (ids.foldl mark s).count = s.count + (ids.toFinset.filter InSpace).card := by
  induction ids using List.reverseRecOn with
  | nil => rfl
  | append_singleton ids id ih =>
    have hin : (ids.foldl mark s).contains id = true ↔ id ∈ ids.toFinset.filter InSpace := by
      rw [contains_foldl_mark ids h, hnone, Finset.mem_filter, List.mem_toFinset]
      simp
    have hids : (ids ++ [id]).toFinset = insert id ids.toFinset := by
      ext w
      simp
    rw [List.foldl_append, List.foldl_cons, List.foldl_nil, count_mark (h.foldl_mark ids), ih, hids,
      Finset.filter_insert]
    by_cases hid : InSpace id
    · rw [if_pos hid]
      by_cases hold : id ∈ ids.toFinset.filter InSpace
      · rw [Finset.insert_eq_of_mem hold, if_neg fun hnew => Bool.false_ne_true (hnew.2.symm.trans (hin.2 hold)),
          Nat.add_zero]
      · rw [Finset.card_insert_of_notMem hold, if_pos ⟨hid, Bool.eq_false_iff.2 (mt hin.1 hold)⟩, Nat.add_assoc]
    · rw [if_neg hid, if_neg fun hnew => hid hnew.1]
      rfl

end UsedWays
end MapFeatures
