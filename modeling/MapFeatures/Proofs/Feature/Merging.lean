import Mathlib.Data.List.Perm.Basic
import MapFeatures.Proofs.Feature.Metadata
/-!
# Merging — metadata that is merged is what would be recorded in one place

Records can be made in several collections that are merged in the end.  Whatever is merged into what, the outcome is that
of all records one after the other (`Gathered.metadata_eq`).  Their order matters only for a key of a layer that has two
types, since any other two records can be made in either order (`record_comm`).
-/
namespace MapFeatures

namespace TextMap

variable {β : Type}

theorem merge_assoc (m n o : TextMap β) : (m.merge n).merge o = m.merge (n.merge o) := by
  apply ext_get?
  intro key
  simp only [get?_merge, Option.or_assoc]

@[simp] theorem merge_empty (m : TextMap β) : m.merge ∅ = m := rfl

@[simp] theorem empty_merge (m : TextMap β) : merge ∅ m = m := by
  apply ext_get?
  intro key
  simp [get?_merge]

@[simp] theorem merge_self (m : TextMap β) : m.merge m = m := by
  apply ext_get?
  intro key
  simp [get?_merge]

theorem insert_comm (m : TextMap β) {key key' : String} {value value' : β} (h : key = key' → value = value') :
    (m.insert key value).insert key' value' = (m.insert key' value').insert key value := by
  apply ext_get?
  intro other
  by_cases hkey : key = other <;> by_cases hkey' : key' = other <;> simp [hkey, hkey']
  exact (h (hkey.trans hkey'.symm)).symm

theorem insert_insert (m : TextMap β) (key : String) (value value' : β) :
    (m.insert key value).insert key value' = m.insert key value' := by
  apply ext_get?
  intro other
  by_cases hkey : key = other <;> simp [hkey]

theorem insert_eq_self {m : TextMap β} {key : String} {value : β} (h : m.get? key = some value) :
    m.insert key value = m := by
  apply ext_get?
  intro other
  by_cases hkey : key = other
  · simp [← hkey, h]
  · simp [hkey]

end TextMap

/-- The type of an attribute of a layer, as it is recorded. -/
structure TypeRecord where
  layer : String
  key : String
  type : AttributeType
deriving DecidableEq

namespace LayerMetadata

variable {m n o : LayerMetadata} {rs : List TypeRecord}

/-! ## Merging -/

theorem keysOf_merge (m n : LayerMetadata) (layer : String) :
    keysOf (m.merge n) layer = (m.keysOf layer).merge (n.keysOf layer) := by
  rw [keysOf, get?_merge, keysOf, keysOf]
  cases TextMap.get? n layer with
  | none => simp
  | some keys => simp

theorem isSome_get?_merge (m n : LayerMetadata) (layer : String) :
    (TextMap.get? (m.merge n) layer).isSome = ((TextMap.get? n layer).isSome || (TextMap.get? m layer).isSome) := by
  rw [get?_merge]
  cases TextMap.get? n layer <;> simp

/-- Metadata is told by the layers that are listed and by their keys. -/
theorem ext_keysOf (hlisted : ∀ layer, (TextMap.get? m layer).isSome = (TextMap.get? n layer).isSome)
    (hkeys : ∀ layer, m.keysOf layer = n.keysOf layer) : m = n := by
  apply TextMap.ext_get?
  intro layer
  have hl := hlisted layer
  have hk := hkeys layer
  unfold keysOf at hk
  cases hm : TextMap.get? m layer <;> cases hn : TextMap.get? n layer <;> simp_all

theorem merge_assoc (m n o : LayerMetadata) : merge (m.merge n) o = m.merge (merge n o) := by
  apply ext_keysOf
  · intro layer
    simp only [isSome_get?_merge, Bool.or_assoc]
  · intro layer
    simp only [keysOf_merge, TextMap.merge_assoc]

theorem merge_empty (m : LayerMetadata) : m.merge ∅ = m := rfl

theorem empty_merge (m : LayerMetadata) : merge ∅ m = m := by
  apply ext_keysOf
  · intro layer
    simp [isSome_get?_merge]
  · intro layer
    rw [keysOf_merge]
    exact TextMap.empty_merge _

theorem merge_self (m : LayerMetadata) : m.merge m = m := by
  apply ext_keysOf
  · intro layer
    simp [isSome_get?_merge]
  · intro layer
    rw [keysOf_merge, TextMap.merge_self]

/-! ## Records -/

/-- The metadata once one more type is recorded. -/
def put (m : LayerMetadata) (r : TypeRecord) : LayerMetadata := m.record r.layer r.key r.type

/-- The metadata of some records, made one after the other. -/
def ofRecords (rs : List TypeRecord) : LayerMetadata := rs.foldl put ∅

/-- The type in the last record of a key in a layer. -/
def lastType? (rs : List TypeRecord) (layer key : String) : Option AttributeType :=
  ((rs.filter fun r => r.layer = layer ∧ r.key = key).getLast?).map TypeRecord.type

/-- Whether no key has two types in one layer. -/
def OneTyped (rs : List TypeRecord) : Prop :=
  ∀ r ∈ rs, ∀ s ∈ rs, r.layer = s.layer → r.key = s.key → r.type = s.type

instance (rs : List TypeRecord) : Decidable (OneTyped rs) := inferInstanceAs (Decidable (∀ r ∈ rs, _))

theorem ofRecords_concat (rs : List TypeRecord) (r : TypeRecord) : ofRecords (rs ++ [r]) = (ofRecords rs).put r :=
  List.foldl_append

theorem merge_put (m n : LayerMetadata) (r : TypeRecord) : m.merge (n.put r) = put (m.merge n) r :=
  merge_record m n r.layer r.key r.type

/-- **Merging is recording what the other one has recorded.** -/
theorem merge_ofRecords (a b : List TypeRecord) : (ofRecords a).merge (ofRecords b) = ofRecords (a ++ b) := by
  induction b using List.reverseRecOn with
  | nil => rw [List.append_nil]; rfl
  | append_singleton b r ih => rw [ofRecords_concat, merge_put, ih, ← List.append_assoc, ofRecords_concat]

theorem typeOf?_ofRecords (rs : List TypeRecord) (layer key : String) :
    (ofRecords rs).typeOf? layer key = lastType? rs layer key := by
  induction rs using List.reverseRecOn with
  | nil => rfl
  | append_singleton rs r ih =>
    rw [ofRecords_concat, put, typeOf?_record, ih, lastType?, lastType?, List.filter_append]
    by_cases h : r.layer = layer ∧ r.key = key <;> simp [h]

/-- A pair that is known with its type is not recorded again. -/
theorem record_of_known {layer key : String} {type : AttributeType} (h : m.typeOf? layer key = some type) :
    m.record layer key type = m := by
  unfold typeOf? at h
  obtain ⟨keys, hkeys, htype⟩ := Option.bind_eq_some_iff.1 h
  rw [record, keysOf, hkeys, Option.getD_some, TextMap.insert_eq_self htype]
  exact TextMap.insert_eq_self hkeys

/-- **Two records can be made in either order**, unless they give one key two types. -/
theorem put_comm (m : LayerMetadata) {r s : TypeRecord} (h : r.layer = s.layer → r.key = s.key → r.type = s.type) :
    (m.put r).put s = (m.put s).put r := by
  unfold put record keysOf
  by_cases hlayer : r.layer = s.layer
  · rw [hlayer]
    simp only [TextMap.get?_insert, if_true, Option.getD_some, TextMap.insert_insert]
    rw [TextMap.insert_comm _ (h hlayer)]
  · simp only [TextMap.get?_insert, if_neg hlayer, if_neg (Ne.symm hlayer)]
    rw [TextMap.insert_comm _ fun he => absurd he hlayer]

theorem ofRecords_perm {rs' : List TypeRecord} (hone : OneTyped rs) (h : rs.Perm rs') :
    ofRecords rs = ofRecords rs' := by
  apply h.foldl_eq'
  intro r hr s hs m
  exact m.put_comm (hone r hr s hs)

/-- A record can be the last one. -/
theorem lastType?_erase_concat {r : TypeRecord} (rs : List TypeRecord) :
    lastType? (rs.erase r ++ [r]) r.layer r.key = some r.type := by
  rw [lastType?, List.filter_append]
  simp

theorem oneTyped_of_perm (h : ∀ rs' : List TypeRecord, rs'.Perm rs → ofRecords rs' = ofRecords rs) : OneTyped rs := by
  have hlast : ∀ r ∈ rs, (ofRecords rs).typeOf? r.layer r.key = some r.type := by
    intro r hr
    have hperm : (rs.erase r ++ [r]).Perm rs := (List.perm_append_singleton r _).trans (List.perm_cons_erase hr).symm
    rw [← h _ hperm, typeOf?_ofRecords, lastType?_erase_concat]
  intro r hr s hs hlayer hkey
  have hr' := hlast r hr
  rw [hlayer, hkey, hlast s hs] at hr'
  exact (Option.some.inj hr').symm

end LayerMetadata

/-! ## Several collections -/

/-- How metadata may come about: records are made one by one, and other metadata is merged in. -/
inductive Gathered
  | nothing
  | recorded (g : Gathered) (r : TypeRecord)
  | merged (g other : Gathered)

namespace Gathered

open LayerMetadata

def metadata : Gathered → LayerMetadata
  | nothing => ∅
  | recorded g r => g.metadata.record r.layer r.key r.type
  | merged g other => g.metadata.merge other.metadata

/-- All records, those of metadata that is merged in after those before. -/
def records : Gathered → List TypeRecord
  | nothing => []
  | recorded g r => g.records ++ [r]
  | merged g other => g.records ++ other.records

/-- **Whatever is merged into what, it is what all records make in one place.** -/
theorem metadata_eq : ∀ g : Gathered, g.metadata = ofRecords g.records
  | nothing => rfl
  | recorded g r => by rw [metadata, records, metadata_eq g, ofRecords_concat]; rfl
  | merged g other => by rw [metadata, records, metadata_eq g, metadata_eq other, merge_ofRecords]

/-- Records that are made one after the other. -/
def ofList (rs : List TypeRecord) : Gathered := rs.foldl recorded nothing

theorem records_ofList (rs : List TypeRecord) : (ofList rs).records = rs := by
  induction rs using List.reverseRecOn with
  | nil => rfl
  | append_singleton rs r ih =>
    have hconcat : ofList (rs ++ [r]) = (ofList rs).recorded r := List.foldl_append
    rw [hconcat, records, ih]

/-- **Metadata that is merged is what would have been recorded in one place.**  Merging is associative and idempotent, with
empty metadata as its identity; the type that was recorded last for a key of a layer counts, and recording it again changes
nothing.  However the records are ordered, split over collections and merged, the outcome is the same exactly if no key of
a layer has two types. -/
theorem gathered_as_recorded :
    (∀ a b : List TypeRecord, (ofRecords a).merge (ofRecords b) = ofRecords (a ++ b)) ∧
      (∀ m n o : LayerMetadata, LayerMetadata.merge (m.merge n) o = m.merge (LayerMetadata.merge n o)) ∧
      (∀ m : LayerMetadata, m.merge ∅ = m ∧ LayerMetadata.merge ∅ m = m ∧ m.merge m = m) ∧
      (∀ rs layer key, (ofRecords rs).typeOf? layer key = lastType? rs layer key) ∧
      (∀ (m : LayerMetadata) layer key type, m.typeOf? layer key = some type → m.record layer key type = m) ∧
      (∀ g : Gathered, g.metadata = ofRecords g.records) ∧
      ∀ rs, OneTyped rs ↔ ∀ g : Gathered, g.records.Perm rs → g.metadata = ofRecords rs := by
  refine ⟨merge_ofRecords, merge_assoc, fun m => ⟨merge_empty m, empty_merge m, merge_self m⟩, typeOf?_ofRecords,
    fun _ _ _ _ => record_of_known, metadata_eq, fun rs => ⟨?_, ?_⟩⟩
  · intro hone g hperm
    rw [metadata_eq, ofRecords_perm hone hperm.symm]
  · intro hgathered
    apply oneTyped_of_perm
    intro rs' hperm
    have hlist := hgathered (ofList rs') (by rwa [records_ofList])
    rwa [metadata_eq, records_ofList] at hlist

/-- The later type counts. -/
example : (merged (ofList [⟨"poi", "rank", .number⟩]) (ofList [⟨"poi", "rank", .string⟩])).metadata.typeOf? "poi" "rank" =
    some .string := by decide

end Gathered
end MapFeatures
