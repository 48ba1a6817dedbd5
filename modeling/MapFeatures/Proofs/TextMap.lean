import MapFeatures.TextMap
/-!
# TextMap — what is found in a map after changes

One entry more (`get?_insert`), or the entries of another map, each put together with what was there (`get?_foldl`); a
merge is the case in which the new value counts (`get?_merge`).  What is found in a map determines it (`ext_get?`).
-/
namespace MapFeatures
namespace TextMap

variable {β : Type}

theorem lookup_cons_eq (e : String × β) (l : List (String × β)) (key : String) :
    (e :: l).lookup key = if e.1 = key then some e.2 else l.lookup key := by
  rw [List.lookup_cons]
  by_cases h : e.1 = key
  · simp [h]
  · rw [if_neg h, beq_eq_false_iff_ne.2 (Ne.symm h)]

theorem lookup_eq_none_of_lt {key : String} {l : List (String × β)} (h : ∀ e ∈ l, key < e.1) : l.lookup key = none := by
  induction l with
  | nil => rfl
  | cons e rest ih =>
    rw [lookup_cons_eq, if_neg, ih fun d hd => h d (List.mem_cons_of_mem e hd)]
    rintro rfl
    exact String.lt_irrefl e.1 (h e List.mem_cons_self)

theorem lookup_insertEntry (key : String) (value : β) (l : List (String × β)) (other : String) :
    (insertEntry key value l).lookup other = if key = other then some value else l.lookup other := by
  induction l with
  | nil => rw [insertEntry, lookup_cons_eq]
  | cons e rest ih =>
    unfold insertEntry
    split
    · rw [lookup_cons_eq]
    · split
      · next heq =>
        rw [lookup_cons_eq, lookup_cons_eq]
        by_cases h : key = other <;> simp [h, ← heq]
      · next hne =>
        rw [lookup_cons_eq, lookup_cons_eq, ih]
        by_cases h : e.1 = other
        · simp [h, h ▸ hne]
        · simp [h]

@[simp] theorem get?_empty (key : String) : (∅ : TextMap β).get? key = none := rfl

@[simp] theorem get?_insert (m : TextMap β) (key : String) (value : β) (other : String) :
    (m.insert key value).get? other = if key = other then some value else m.get? other :=
  lookup_insertEntry key value m.entries other

/-- **Entries that are put together with what is there**: each key is met once, so each finds what was there at first. -/
theorem get?_foldl (join : Option β → β → β) {l : List (String × β)} (hl : l.Pairwise fun a b => a.1 < b.1)
    (m : TextMap β) (key : String) :
    (l.foldl (fun m e => m.insert e.1 (join (m.get? e.1) e.2)) m).get? key =
      ((l.lookup key).map (join (m.get? key))).or (m.get? key) := by
  induction l generalizing m with
  | nil => rfl
  | cons e rest ih =>
    obtain ⟨hfirst, hrest⟩ := List.pairwise_cons.1 hl
    rw [List.foldl_cons, ih hrest, lookup_cons_eq, get?_insert]
    by_cases h : e.1 = key
    · -- no later entry has this key
      subst h
      simp [lookup_eq_none_of_lt hfirst]
    · simp [h]

theorem get?_merge (m other : TextMap β) (key : String) :
    (m.merge other).get? key = (other.get? key).or (m.get? key) := by
  have hall := get?_foldl (fun _ value => value) other.increasing m key
  rwa [Option.map_id'] at hall

theorem mem_keys_iff {m : TextMap β} {key : String} : key ∈ m.keys ↔ ∃ value, m.get? key = some value := by
  unfold keys get?
  induction m.entries with
  | nil => simp
  | cons e rest ih =>
    rw [List.map_cons, List.mem_cons, lookup_cons_eq, ih]
    by_cases h : e.1 = key
    · simp [h]
    · simp [h, Ne.symm h]

/-! ## Equality -/

theorem eq_of_lookup : ∀ {l l' : List (String × β)}, l.Pairwise (fun a b => a.1 < b.1) →
    l'.Pairwise (fun a b => a.1 < b.1) → (∀ key, l.lookup key = l'.lookup key) → l = l'
  | [], [], _, _, _ => rfl
  | [], e :: _, _, _, h => by
    have hfirst := h e.1
    rw [lookup_cons_eq, if_pos rfl] at hfirst
    cases hfirst
  | e :: _, [], _, _, h => by
    have hfirst := h e.1
    rw [lookup_cons_eq, if_pos rfl] at hfirst
    cases hfirst
  | e :: l, e' :: l', hall, hall', h => by
    obtain ⟨hfirst, hl⟩ := List.pairwise_cons.1 hall
    obtain ⟨hfirst', hl'⟩ := List.pairwise_cons.1 hall'
    -- a key that comes before the first one is not there
    have hsmall : ∀ {d : String × β} {k : List (String × β)} {key : String}, (∀ x ∈ k, d.1 < x.1) → key < d.1 →
        (d :: k).lookup key = none := by
      intro d k key hk hkey
      refine lookup_eq_none_of_lt fun x hx => ?_
      rcases List.mem_cons.1 hx with rfl | hx
      · exact hkey
      · exact String.lt_trans hkey (hk x hx)
    have hkey : e.1 = e'.1 := by
      refine String.le_antisymm (String.not_lt.1 fun hlt => ?_) (String.not_lt.1 fun hlt => ?_)
      · have hnone := (h e'.1).symm.trans (hsmall hfirst hlt)
        rw [lookup_cons_eq, if_pos rfl] at hnone
        cases hnone
      · have hnone := (h e.1).trans (hsmall hfirst' hlt)
        rw [lookup_cons_eq, if_pos rfl] at hnone
        cases hnone
    have hvalue := h e.1
    rw [lookup_cons_eq, lookup_cons_eq, if_pos rfl, if_pos hkey.symm] at hvalue
    have hhead : e = e' := Prod.ext hkey (Option.some.inj hvalue)
    subst hhead
    refine congrArg (e :: ·) (eq_of_lookup hl hl' fun key => ?_)
    by_cases hsame : e.1 = key
    · rw [← hsame, lookup_eq_none_of_lt hfirst, lookup_eq_none_of_lt hfirst']
    · have hrest := h key
      rwa [lookup_cons_eq, lookup_cons_eq, if_neg hsame, if_neg hsame] at hrest

/-- **Maps in which the same is found are equal.** -/
theorem ext_get? {m m' : TextMap β} (h : ∀ key, m.get? key = m'.get? key) : m = m' := by
  obtain ⟨entries, hentries⟩ := m
  obtain ⟨entries', hentries'⟩ := m'
  have heq : entries = entries' := eq_of_lookup hentries hentries' h
  subst heq
  rfl

theorem merge_insert (m other : TextMap β) (key : String) (value : β) :
    m.merge (other.insert key value) = (m.merge other).insert key value := by
  refine ext_get? fun key' => ?_
  rw [get?_merge, get?_insert, get?_insert, get?_merge]
  by_cases h : key = key'
  · rw [if_pos h, if_pos h, Option.some_or]
  · rw [if_neg h, if_neg h]

end TextMap
end MapFeatures
