import Mathlib.Data.List.Induction
import MapFeatures.Feature.Basic
import MapFeatures.Feature.Metadata
import MapFeatures.Proofs.TextMap
/-!
# Metadata — which features some metadata describes

It has the type of the last attribute of each key in each layer, and no layer without attributes (`Describes`).  Metadata
that describes some features describes one more once its attributes are recorded (`Describes.concat`), and metadata of
later features can be merged into it (`Describes.append`).
-/
namespace MapFeatures

/-- The attribute of a key in the last feature of a layer that has one. -/
def lastWith? (fs : List Feature) (layer key : String) : Option Attribute :=
  (fs.filterMap fun f => if f.layer = layer then f.attributes.get? key else none).getLast?

theorem lastWith?_append (fs gs : List Feature) (layer key : String) :
    lastWith? (fs ++ gs) layer key = (lastWith? gs layer key).or (lastWith? fs layer key) := by
  rw [lastWith?, List.filterMap_append, List.getLast?_append]
  rfl

theorem lastWith?_singleton (f : Feature) (layer key : String) :
    lastWith? [f] layer key = if f.layer = layer then f.attributes.get? key else none := by
  unfold lastWith?
  by_cases h : f.layer = layer
  · cases hget : f.attributes.get? key <;> simp [h, hget]
  · simp [h]

theorem lastWith?_eq_none_iff {fs : List Feature} {layer key : String} :
    lastWith? fs layer key = none ↔ ∀ f ∈ fs, f.layer = layer → ∀ a ∈ f.attributes, a.key ≠ key := by
  simp [lastWith?, Attributes.get?]

namespace LayerMetadata

theorem typeOf?_record (m : LayerMetadata) (layer key : String) (type : AttributeType) (layer' key' : String) :
    (m.record layer key type).typeOf? layer' key' =
      if layer = layer' ∧ key = key' then some type else m.typeOf? layer' key' := by
  unfold typeOf? record keysOf
  rw [TextMap.get?_insert]
  by_cases h : layer = layer'
  · subst h
    cases hkeys : TextMap.get? m layer <;> simp
  · simp [h]

theorem get?_merge (m other : LayerMetadata) (layer : String) :
    TextMap.get? (m.merge other) layer =
      ((TextMap.get? other layer).map (m.keysOf layer).merge).or (TextMap.get? m layer) :=
  TextMap.get?_foldl (fun old (keys : TextMap AttributeType) => (old.getD ∅).merge keys) other.increasing m layer

theorem typeOf?_merge (m other : LayerMetadata) (layer key : String) :
    (m.merge other).typeOf? layer key = (other.typeOf? layer key).or (m.typeOf? layer key) := by
  unfold typeOf?
  rw [get?_merge, keysOf]
  cases TextMap.get? other layer with
  | none => simp
  | some keys => cases TextMap.get? m layer <;> simp [TextMap.get?_merge]

/-- **Merging and recording can be done in any order**, as long as what is recorded comes last. -/
theorem merge_record (m other : LayerMetadata) (layer key : String) (type : AttributeType) :
    m.merge (other.record layer key type) = (m.merge other).record layer key type := by
  refine TextMap.ext_get? fun layer' => ?_
  have hkeys : keysOf (m.merge other) layer = (m.keysOf layer).merge (other.keysOf layer) := by
    unfold keysOf
    rw [get?_merge]
    cases TextMap.get? other layer with
    | none => rfl
    | some keys => rfl
  rw [get?_merge, record, record, hkeys, TextMap.get?_insert, TextMap.get?_insert, get?_merge]
  by_cases h : layer = layer'
  · rw [if_pos h, if_pos h, ← h, Option.map_some, Option.some_or, TextMap.merge_insert]
  · rw [if_neg h, if_neg h]

theorem typeOf?_foldl_record (m : LayerMetadata) (layer : String) (new : List Attribute) (layer' key : String) :
    (new.foldl (fun m a => m.record layer a.key a.value.type) m).typeOf? layer' key =
      (if layer = layer' then ((new.filter (·.key = key)).getLast?).map (·.value.type) else none).or
        (m.typeOf? layer' key) := by
  induction new using List.reverseRecOn with
  | nil => simp
  | append_singleton new a ih =>
    rw [List.foldl_append, List.foldl_cons, List.foldl_nil, typeOf?_record, ih, List.filter_append]
    by_cases hlayer : layer = layer'
    · by_cases hkey : a.key = key
      · simp [hlayer, hkey]
      · simp [hlayer, hkey]
    · simp [hlayer]

/-- Whether each layer that is listed has a key. -/
def NoneEmpty (m : LayerMetadata) : Prop :=
  ∀ layer, (TextMap.get? m layer).isSome = true → ∃ key, (m.typeOf? layer key).isSome = true

theorem NoneEmpty.record {m : LayerMetadata} (h : m.NoneEmpty) (layer key : String) (type : AttributeType) :
    (m.record layer key type).NoneEmpty := by
  intro layer' hlisted
  by_cases hlayer : layer = layer'
  · exact ⟨key, by simp [typeOf?_record, hlayer]⟩
  · have hbefore : (TextMap.get? m layer').isSome = true := by simpa [LayerMetadata.record, hlayer] using hlisted
    obtain ⟨key', hkey'⟩ := h layer' hbefore
    exact ⟨key', by simp [typeOf?_record, hlayer, hkey']⟩

theorem NoneEmpty.foldl_record {m : LayerMetadata} (h : m.NoneEmpty) (layer : String) (new : List Attribute) :
    (new.foldl (fun m a => m.record layer a.key a.value.type) m).NoneEmpty := by
  induction new generalizing m with
  | nil => exact h
  | cons a new ih => exact ih (h.record layer a.key a.value.type)

theorem NoneEmpty.merge {m other : LayerMetadata} (h : m.NoneEmpty) (hother : other.NoneEmpty) :
    (m.merge other).NoneEmpty := by
  intro layer hlisted
  simp only [typeOf?_merge, Option.isSome_or, Bool.or_eq_true]
  cases hkeys : TextMap.get? other layer with
  | some keys =>
    obtain ⟨key, hkey⟩ := hother layer (by rw [hkeys]; rfl)
    exact ⟨key, Or.inl hkey⟩
  | none =>
    rw [get?_merge, hkeys] at hlisted
    obtain ⟨key, hkey⟩ := h layer hlisted
    exact ⟨key, Or.inr hkey⟩

/-- **Whether metadata describes features**: it has the type of the last attribute of each key in each layer, and no layer
without attributes. -/
structure Describes (m : LayerMetadata) (fs : List Feature) : Prop where
  typeOf? : ∀ layer key, m.typeOf? layer key = (lastWith? fs layer key).map (·.value.type)
  noneEmpty : m.NoneEmpty

theorem describes_empty : Describes ∅ [] where
  typeOf? _ _ := rfl
  noneEmpty _ h := by cases h

theorem Describes.concat {m : LayerMetadata} {fs : List Feature} (h : m.Describes fs) {f : Feature}
    {new : List Attribute} (hf : ∀ key, f.attributes.get? key = (new.filter (·.key = key)).getLast?) :
    Describes (new.foldl (fun m a => m.record f.layer a.key a.value.type) m) (fs ++ [f]) where
  typeOf? layer key := by
    rw [typeOf?_foldl_record, h.typeOf?, lastWith?_append, lastWith?_singleton, hf, Option.map_or]
    split
    · rfl
    · rfl
  noneEmpty := h.noneEmpty.foldl_record f.layer new

theorem Describes.append {m other : LayerMetadata} {fs gs : List Feature} (h : m.Describes fs)
    (hother : other.Describes gs) : (m.merge other).Describes (fs ++ gs) where
  typeOf? layer key := by
    rw [typeOf?_merge, h.typeOf?, hother.typeOf?, lastWith?_append, Option.map_or]
  noneEmpty := h.noneEmpty.merge hother.noneEmpty

theorem Describes.mem_keys_iff {m : LayerMetadata} {fs : List Feature} (h : m.Describes fs) {layer : String} :
    layer ∈ TextMap.keys m ↔ ∃ f ∈ fs, f.layer = layer ∧ f.attributes ≠ [] := by
  rw [TextMap.mem_keys_iff]
  constructor
  · rintro ⟨keys, hkeys⟩
    obtain ⟨key, htype⟩ := h.noneEmpty layer (by rw [hkeys]; rfl)
    by_contra hnone
    have hlast : lastWith? fs layer key = none :=
      lastWith?_eq_none_iff.2 fun f hf hlayer a ha => absurd ⟨f, hf, hlayer, List.ne_nil_of_mem ha⟩ hnone
    rw [h.typeOf?, hlast] at htype
    cases htype
  · rintro ⟨f, hf, hlayer, hne⟩
    obtain ⟨a, ha⟩ := List.exists_mem_of_ne_nil _ hne
    have hlast : lastWith? fs layer a.key ≠ none := fun hnone => lastWith?_eq_none_iff.1 hnone f hf hlayer a ha rfl
    have htype := h.typeOf? layer a.key
    cases hkeys : TextMap.get? m layer with
    | some keys => exact ⟨keys, rfl⟩
    | none =>
      rw [LayerMetadata.typeOf?, hkeys] at htype
      exact absurd (Option.map_eq_none_iff.1 htype.symm) hlast

end LayerMetadata
end MapFeatures
