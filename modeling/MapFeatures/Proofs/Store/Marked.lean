import Mathlib.Data.Int.Interval
import Mathlib.Data.Set.Card
import MapFeatures.Proofs.Store.Reuse
import MapFeatures.Proofs.Store.UsedWays
/-!
# Marked — the set of used ways has what was marked since it was last cleared

`MarkedSinceClear` says of a list of calls that an id was marked with no `clear` behind it.  Every call keeps a set
`Proper`: its ids are in the range that is kept, its words are where the array has room, and its count is that of its
ids.  So after any calls it has the marked ids of that range (`answers_as_set`).
-/
namespace MapFeatures
namespace UsedWays

/-! ## Calls -/

/-- Whether an id is marked by one of some calls, with none behind it that clears the set. -/
def MarkedSinceClear (calls : List UsedWaysCall) (w : WayId) : Prop :=
  ∃ pre post, calls = pre ++ .mark w :: post ∧ .clear ∉ post

theorem markedSinceClear_append (first later : List UsedWaysCall) (w : WayId) :
    MarkedSinceClear (first ++ later) w ↔
      MarkedSinceClear later w ∨ MarkedSinceClear first w ∧ .clear ∉ later := by
  constructor
  · rintro ⟨pre, post, hsplit, hclear⟩
    rcases List.append_eq_append_iff.1 hsplit with ⟨middle, rfl, hlater⟩ | ⟨middle, rfl, hmiddle⟩
    · exact Or.inl ⟨middle, post, hlater, hclear⟩
    · cases middle with
      | nil => exact Or.inl ⟨[], post, by simpa using hmiddle.symm, hclear⟩
      | cons c middle =>
        simp only [List.cons_append, List.cons.injEq] at hmiddle
        obtain ⟨rfl, rfl⟩ := hmiddle
        rw [List.mem_append, not_or] at hclear
        exact Or.inr ⟨⟨pre, middle, rfl, hclear.1⟩, hclear.2⟩
  · rintro (⟨pre, post, rfl, hclear⟩ | ⟨⟨pre, post, rfl, hclear⟩, hlater⟩)
    · exact ⟨first ++ pre, post, by simp, hclear⟩
    · exact ⟨pre, post ++ later, by simp, by simp [hclear, hlater]⟩

theorem markedSinceClear_singleton (c : UsedWaysCall) (w : WayId) : MarkedSinceClear [c] w ↔ c = .mark w := by
  constructor
  · rintro ⟨pre, post, hsplit, -⟩
    cases pre with
    | nil => simp_all
    | cons d pre => simp at hsplit
  · rintro rfl
    exact ⟨[], [], rfl, by simp⟩

theorem markedSinceClear_mark (first later : List UsedWaysCall) (id w : WayId) (h : w ≠ id) :
    MarkedSinceClear (first ++ .mark id :: later) w ↔ MarkedSinceClear (first ++ later) w := by
  have hmark : MarkedSinceClear (.mark id :: later) w ↔ MarkedSinceClear later w := by
    rw [← List.singleton_append, markedSinceClear_append, markedSinceClear_singleton]
    simp [Ne.symm h]
  rw [markedSinceClear_append, markedSinceClear_append, hmark]
  simp

/-! ## Room -/

/-- Whether two sets differ at most in the room they have. -/
structure SameWords (s t : UsedWays) : Prop where
  words : s.words = t.words
  length : s.length = t.length

theorem sameWords_reserve (s : UsedWays) (nodes : Nat) (compact : Bool) : SameWords (s.reserve nodes compact) s := by
  unfold reserve
  split
  · exact ⟨rfl, rfl⟩
  · exact ⟨rfl, rfl⟩

theorem SameWords.mark {s t : UsedWays} (h : SameWords s t) (id : WayId) : SameWords (s.mark id) (t.mark id) := by
  by_cases hid : InSpace id
  · rw [mark_of_inSpace s hid, mark_of_inSpace t hid]
    refine ⟨by rw [h.words], ?_⟩
    unfold grow
    rw [h.length]
    split
    · exact h.length
    · rfl
  · rwa [mark_of_not_inSpace s hid, mark_of_not_inSpace t hid]

theorem SameWords.contains_eq {s t : UsedWays} (h : SameWords s t) (w : WayId) : s.contains w = t.contains w := by
  rw [contains, contains, h.words, h.length]

theorem SameWords.count_eq {s t : UsedWays} (h : SameWords s t) : s.count = t.count := by rw [count, count, h.words]

/-- **Sets that differ in their room reply alike**, and go on to. -/
theorem reply_sameWords {s t : UsedWays} (h : SameWords s t) (c : UsedWaysCall) :
    (s.reply c).1 = (t.reply c).1 ∧ SameWords (s.reply c).2 (t.reply c).2 := by
  cases c with
  | reserve nodes compact =>
    have hs := sameWords_reserve s nodes compact
    have ht := sameWords_reserve t nodes compact
    exact ⟨rfl, hs.words.trans (h.words.trans ht.words.symm), hs.length.trans (h.length.trans ht.length.symm)⟩
  | mark way => exact ⟨rfl, h.mark way⟩
  | clear => exact ⟨rfl, rfl, rfl⟩
  | contains way => exact ⟨congrArg UsedWaysReply.contains (h.contains_eq way), h⟩
  | count => exact ⟨congrArg UsedWaysReply.count h.count_eq, h⟩

/-! ## What every call keeps -/

/-- Whether a set is as its calls leave it. -/
structure Proper (s : UsedWays) : Prop where
  bounded : s.Bounded
  inSpace : ∀ w, s.contains w = true → InSpace w
  /-- No word is written where the array has none. -/
  written : ∀ word ∈ s.words, word < s.length
  count : s.count = {w | s.contains w = true}.ncard

theorem proper_empty : empty.Proper where
  bounded := bounded_empty
  inSpace w h := by rw [contains_empty] at h; cases h
  written word h := by simp [empty] at h
  count := by simp [count_empty, contains_empty]

theorem finite_inSpace : {w : Int | InSpace w}.Finite := Set.finite_Ico 0 2147483648

theorem Proper.finite {s : UsedWays} (h : s.Proper) : {w | s.contains w = true}.Finite :=
  finite_inSpace.subset h.inSpace

theorem Proper.of_sameWords {s t : UsedWays} (h : s.Proper) (hw : SameWords t s) : t.Proper where
  bounded word hle := by
    rw [hw.words]
    exact h.bounded word (hw.length ▸ hle)
  inSpace w hin := h.inSpace w (hw.contains_eq w ▸ hin)
  written := by
    rw [hw.words, hw.length]
    exact h.written
  count := by simp only [hw.count_eq, hw.contains_eq, h.count]

theorem lt_length_grow (s : UsedWays) (word : Nat) : word < (s.grow word).length := by
  unfold grow
  split
  · next h => exact h
  · dsimp only
    omega

theorem Proper.written_mark {s : UsedWays} (h : s.Proper) (id : WayId) :
    ∀ word ∈ (s.mark id).words, word < (s.mark id).length := by
  by_cases hid : InSpace id
  · obtain ⟨hword, hlength⟩ := lt_length_mark s hid
    intro word hmem
    rw [mark_of_inSpace s hid, Std.HashMap.mem_insert] at hmem
    rcases hmem with hmem | hmem
    · rwa [← eq_of_beq hmem]
    · exact Nat.lt_of_lt_of_le (h.written word hmem) hlength
  · rw [mark_of_not_inSpace s hid]
    exact h.written

theorem Proper.mark {s : UsedWays} (h : s.Proper) (id : WayId) : (s.mark id).Proper where
  bounded := h.bounded.mark id
  inSpace w hw := ((contains_mark h.bounded id w).1 hw).elim (h.inSpace w) And.right
  written := h.written_mark id
  count := by
    have hids : {w | (s.mark id).contains w = true} =
        if InSpace id then insert id {w | s.contains w = true} else {w | s.contains w = true} := by
      ext w
      by_cases hid : InSpace id
      · rw [if_pos hid, Set.mem_ofPred_eq, contains_mark h.bounded, Set.mem_insert_iff, or_comm]
        exact or_congr_left ⟨And.left, fun hw => ⟨hw, hw ▸ hid⟩⟩
      · rw [if_neg hid, mark_of_not_inSpace s hid]
    rw [count_mark h.bounded, hids, h.count]
    by_cases hid : InSpace id
    · cases hold : s.contains id with
      | true => simp [hid, Set.insert_eq_of_mem (show id ∈ {w | s.contains w = true} from hold)]
      | false =>
        have hnew : id ∉ {w | s.contains w = true} := by simp [hold]
        simp [hid, Set.ncard_insert_of_notMem hnew h.finite]
    · simp [hid]

theorem Proper.reply {s : UsedWays} (h : s.Proper) (c : UsedWaysCall) : (s.reply c).2.Proper := by
  cases c with
  | reserve nodes compact => exact h.of_sameWords (sameWords_reserve s nodes compact)
  | mark way => exact h.mark way
  | clear => exact proper_empty
  | contains way => exact h
  | count => exact h

/-- **What a call makes of the ids of a set**: a mark adds its own, clearing leaves none, all else leaves them. -/
theorem contains_reply {s : UsedWays} (h : s.Proper) (c : UsedWaysCall) (w : WayId) :
    (s.reply c).2.contains w = true ↔ c = .mark w ∧ InSpace w ∨ s.contains w = true ∧ c ≠ .clear := by
  cases c with
  | reserve nodes compact => simp [UsedWays.reply, contains_reserve]
  | mark way =>
    have hsame : UsedWaysCall.mark way = .mark w ↔ w = way := by rw [UsedWaysCall.mark.injEq, eq_comm]
    rw [UsedWays.reply, contains_mark h.bounded, hsame, or_comm]
    simp
  | clear => simp [UsedWays.reply, contains_empty]
  | contains way => simp [UsedWays.reply]
  | count => simp [UsedWays.reply]

theorem proper_stateAfter (calls : List UsedWaysCall) : (stateAfter UsedWays.reply empty calls).Proper :=
  List.foldlRecOn calls _ proper_empty fun _ h c _ => h.reply c

theorem contains_stateAfter (calls : List UsedWaysCall) (w : WayId) :
    (stateAfter UsedWays.reply empty calls).contains w = true ↔ InSpace w ∧ MarkedSinceClear calls w := by
  -- from the back, since the last call decides what those before it count for
  induction calls using List.reverseRecOn with
  | nil =>
    have hnone : ¬ MarkedSinceClear [] w := by rintro ⟨pre, post, hsplit, -⟩; simp at hsplit
    simp [stateAfter, contains_empty, hnone]
  | append_singleton calls c ih =>
    have hreply := contains_reply (proper_stateAfter calls) c w
    rw [stateAfter_append, markedSinceClear_append, markedSinceClear_singleton]
    refine hreply.trans ?_
    rw [ih, List.mem_singleton, ne_comm (a := c)]
    tauto

/-! ## The set -/

/-- **The used ways are a set**: after any calls it has the ids of the range that is kept that were marked since it was
cleared, and counts them.  The word that a mark writes is there by then, and no word was written where the array has
none.  To set room aside changes no reply from then on, and to mark an id changes nothing for others. -/
theorem answers_as_set (calls : List UsedWaysCall) :
    let s := stateAfter reply empty calls
    (∀ w, s.contains w = true ↔ InSpace w ∧ MarkedSinceClear calls w) ∧
      s.count = {w | InSpace w ∧ MarkedSinceClear calls w}.ncard ∧
      (∀ word, word < (s.grow word).length) ∧ (∀ word ∈ s.words, word < s.length) ∧
      (∀ nodes compact later, answers reply (s.reserve nodes compact) later = answers reply s later) ∧
      ∀ id w later, w = id ∨
        (stateAfter reply (s.mark id) later).contains w = (stateAfter reply s later).contains w := by
  intro s
  have hproper : s.Proper := proper_stateAfter calls
  refine ⟨contains_stateAfter calls, ?_, s.lt_length_grow, hproper.written, fun nodes compact later => ?_,
    fun id w later => ?_⟩
  · rw [hproper.count]
    simp only [s, contains_stateAfter]
  · exact answers_eq (fun s t c (h : SameWords s t) (_ : True) => reply_sameWords h c) later
      (sameWords_reserve s nodes compact) fun _ _ => trivial
  · refine or_iff_not_imp_left.2 fun hne => ?_
    have hmarked : stateAfter reply (s.mark id) later = stateAfter reply empty (calls ++ .mark id :: later) :=
      (stateAfter_append reply empty calls (.mark id :: later)).symm
    have hother : stateAfter reply s later = stateAfter reply empty (calls ++ later) :=
      (stateAfter_append reply empty calls later).symm
    rw [hmarked, hother, Bool.eq_iff_iff, contains_stateAfter, contains_stateAfter,
      markedSinceClear_mark calls later id w hne]

end UsedWays
end MapFeatures
