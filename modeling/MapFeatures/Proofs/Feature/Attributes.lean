import Mathlib.Data.List.Induction
import MapFeatures.Feature.Attribute
/-!
# Attributes — what is left of attributes that are set one after the other

Of each key the one that was set last (`get?_foldl_set`), and the keys in the order in which they were first set
(`keys_foldl_set`).
-/
namespace MapFeatures
namespace Attributes

theorem get?_set (a : Attribute) (attributes : Attributes) (key : String) :
    get? (set a attributes) key = if a.key = key then some a else get? attributes key := by
  unfold get?
  induction attributes with
  | nil => by_cases h : a.key = key <;> simp [set, h]
  | cons b rest ih =>
    by_cases hb : b.key = a.key
    · by_cases h : a.key = key <;> simp [set, hb, h]
    · by_cases hk : b.key = key
      · subst hk
        simp [set, hb, Ne.symm hb]
      · simp [set, hb, hk, ih]

theorem keys_set (a : Attribute) (attributes : Attributes) : (set a attributes).map Attribute.key =
    if a.key ∈ attributes.map Attribute.key then attributes.map Attribute.key
    else attributes.map Attribute.key ++ [a.key] := by
  induction attributes with
  | nil => rfl
  | cons b rest ih =>
    by_cases hb : b.key = a.key
    · simp [set, hb]
    · by_cases hmem : a.key ∈ rest.map Attribute.key
      · rw [if_pos hmem] at ih
        simp [set, hb, ih, hmem]
      · rw [if_neg hmem] at ih
        simp [set, hb, ih, hmem, Ne.symm hb]

/-- **The last one of a key counts.** -/
theorem get?_foldl_set (new : List Attribute) (attributes : Attributes) (key : String) :
    get? (new.foldl (fun as a => set a as) attributes) key =
      ((new.filter (·.key = key)).getLast?).or (get? attributes key) := by
  induction new using List.reverseRecOn with
  | nil => rfl
  | append_singleton new a ih =>
    rw [List.foldl_append, List.foldl_cons, List.foldl_nil, get?_set, List.filter_append]
    by_cases h : a.key = key
    · simp [h]
    · simp [h, ih]

/-- **The keys stand in the order in which they were first set.** -/
theorem keys_foldl_set (new : List Attribute) :
    (new.foldl (fun as a => set a as) ([] : Attributes)).map Attribute.key = (new.map Attribute.key).eraseDups := by
  induction new using List.reverseRecOn with
  | nil => rfl
  | append_singleton new a ih =>
    rw [List.foldl_append, List.foldl_cons, List.foldl_nil, keys_set, ih, List.map_append, List.eraseDups_append]
    by_cases h : a.key ∈ new.map Attribute.key
    · have hnone : (List.map Attribute.key [a]).removeAll (new.map Attribute.key) = [] := by
        simpa [List.removeAll] using h
      rw [if_pos (List.mem_eraseDups.2 h), hnone, List.eraseDups_nil, List.append_nil]
    · have hone : (List.map Attribute.key [a]).removeAll (new.map Attribute.key) = [a.key] := by
        simpa [List.removeAll] using h
      rw [if_neg (mt List.mem_eraseDups.1 h), hone]
      rfl

theorem nodup_keys_foldl_set (new : List Attribute) :
    ((new.foldl (fun as a => set a as) ([] : Attributes)).map Attribute.key).Nodup := by
  induction new using List.reverseRecOn with
  | nil => exact List.nodup_nil
  | append_singleton new a ih =>
    rw [List.foldl_append, List.foldl_cons, List.foldl_nil, keys_set]
    split
    · exact ih
    · next hnew =>
      refine List.nodup_append.2 ⟨ih, by simp, ?_⟩
      rintro key hkey _ hlast rfl
      exact hnew (List.mem_singleton.1 hlast ▸ hkey)

end Attributes
end MapFeatures
