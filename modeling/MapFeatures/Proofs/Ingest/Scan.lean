import Mathlib.Data.Set.Card
import MapFeatures.Classify.Rules
import MapFeatures.Proofs.Ingest.Passes
import MapFeatures.Proofs.Store.Objects
import MapFeatures.Proofs.Store.RelationIndex
import MapFeatures.Proofs.Store.UsedWays
import MapFeatures.Proofs.Store.WayLists
/-!
# Scan — what the first pass leaves in the store

The ways in the set are the members of the relations that the classifier asks for (`contains_scan`), and the recorded way
lists are those of these relations, in some order (`wayLists_scan`).  Nodes and ways stay as they are.  In a store without
relations the index, the set and the way lists say the same of them (`scan_consistent`).
-/
namespace MapFeatures

variable {σ : Type}

/-- The ways of a relation. -/
def RelationRecord.members (r : RelationRecord) : List WayId := r.ways.outer ++ r.ways.inner

namespace ObjectStore

/-- Whether nothing is noted of any relation. -/
structure NoRelations (s : ObjectStore) : Prop where
  index : s.index = .empty
  usedWays : s.usedWays = .empty
  wayLists : s.wayLists.toList = []

theorem noRelations_create {config : StoreConfig} {s : ObjectStore} (h : create config = .ok s) : s.NoRelations := by
  obtain ⟨nodes, rfl, -⟩ := create_eq_ok h
  exact ⟨rfl, rfl, rfl⟩

end ObjectStore

namespace Ingest

/-- The relations that are recorded. -/
def accepted (c : Classifier σ) (rs : List RelationRecord) : List RelationRecord :=
  rs.filter fun r => c.scansRelation r.tags

/-- The ways of the relations that are recorded. -/
def memberWays (c : Classifier σ) (rs : List RelationRecord) : List WayId :=
  (accepted c rs).flatMap RelationRecord.members

/-- The index with a relation. -/
def indexed (index : RelationIndex) (r : RelationRecord) : RelationIndex :=
  (r.members.foldl (fun i way => i.recordContainment r.ways.relation way) index).storeTags r.ways.relation r.tags

theorem foldl_recordRelation : ∀ (rs : List RelationRecord) (store : ObjectStore), rs.foldl recordRelation store =
    { store with
      index := rs.foldl indexed store.index
      usedWays := (rs.flatMap RelationRecord.members).foldl UsedWays.mark store.usedWays }
  | [], _ => rfl
  | r :: rs, store => by
    rw [List.foldl_cons, foldl_recordRelation rs, List.flatMap_cons, List.foldl_append]
    rfl

theorem store_scan (i : Ingest σ) (rs : List RelationRecord) (estimate : Nat) :
    (i.scan rs estimate).2.env.store =
      { i.env.store with
        index := (accepted i.classifier rs).foldl indexed i.env.store.index
        usedWays := (memberWays i.classifier rs).foldl UsedWays.mark (i.env.store.reserveUsedWays estimate).usedWays
        wayLists := (i.env.store.wayLists.append ((accepted i.classifier rs).map (·.ways))).sort } := by
  unfold scan
  dsimp only
  rw [← accepted, foldl_recordRelation]
  rfl

theorem scan_at (i : Ingest σ) (rs : List RelationRecord) (estimate : Nat) :
    (i.scan rs estimate).2.At i.classifier (i.scan rs estimate).2.env := ⟨rfl, rfl, rfl⟩

/-- **The set of used ways** has the members whose bit is kept, beside what it had. -/
theorem contains_scan {i : Ingest σ} (h : i.env.store.usedWays.Bounded) (rs : List RelationRecord) (estimate : Nat)
    (w : WayId) : (i.scan rs estimate).2.env.store.usedWays.contains w = true ↔
      i.env.store.usedWays.contains w = true ∨ w ∈ memberWays i.classifier rs ∧ UsedWays.InSpace w := by
  have hbounded : (i.env.store.reserveUsedWays estimate).usedWays.Bounded := UsedWays.Bounded.reserve h _ _
  rw [store_scan, UsedWays.contains_foldl_mark _ hbounded, ObjectStore.reserveUsedWays, UsedWays.contains_reserve]

/-- **The recorded way lists** are those of the accepted relations, beside what there was. -/
theorem wayLists_scan (i : Ingest σ) (rs : List RelationRecord) (estimate : Nat) :
    (i.scan rs estimate).2.env.store.wayLists.toList.Perm
      (i.env.store.wayLists.toList ++ (accepted i.classifier rs).map (·.ways)) := by
  rw [store_scan, ← WayListStore.toList_append]
  exact WayListStore.toList_sort_perm _

/-! ## The index -/

theorem relationsFor_foldl_indexed (w : WayId) : ∀ (rs : List RelationRecord) (index : RelationIndex),
    (rs.foldl indexed index).relationsFor w =
      index.relationsFor w ++ rs.flatMap fun r => List.replicate (r.members.count w) r.ways.relation
  | [], _ => (List.append_nil _).symm
  | r :: rs, index => by
    have hindexed : (indexed index r).relationsFor w =
        index.relationsFor w ++ List.replicate (r.members.count w) r.ways.relation :=
      RelationIndex.relationsFor_foldl r.ways.relation w r.members index
    rw [List.foldl_cons, relationsFor_foldl_indexed w rs, hindexed, List.flatMap_cons, List.append_assoc]

theorem listed_foldl_indexed : ∀ (rs : List RelationRecord) {index : RelationIndex}, index.Listed →
    (rs.foldl indexed index).Listed
  | [], _, h => h
  | r :: rs, _, h => listed_foldl_indexed rs (h.foldl r.ways.relation r.members)

theorem tagsOf_foldl_indexed : ∀ (rs : List RelationRecord) (index : RelationIndex),
    (rs.foldl indexed index).tagsOf =
      (rs.map fun r => (r.ways.relation, r.tags)).foldl (fun m e => m.insert e.1 e.2) index.tagsOf
  | [], _ => rfl
  | r :: rs, index => by
    have hindexed : (indexed index r).tagsOf = index.tagsOf.insert r.ways.relation r.tags :=
      congrArg (·.insert r.ways.relation r.tags) (RelationIndex.tagsOf_foldl r.ways.relation r.members index)
    rw [List.foldl_cons, tagsOf_foldl_indexed rs, hindexed]
    rfl

/-- **The tags of a relation** are those of the last one with its id. -/
theorem tagsFor?_foldl_indexed (rs : List RelationRecord) (relation : RelationId) :
    (rs.foldl indexed .empty).tagsFor? relation =
      ((rs.filter (·.ways.relation = relation)).getLast?).map (·.tags) := by
  have hempty : RelationIndex.empty.tagsOf[relation]? = none := Std.HashMap.getElem?_empty
  rw [RelationIndex.tagsFor?, tagsOf_foldl_indexed, getElem?_foldl_insert, hempty, Option.or_none, lastFor?,
    List.filter_map, List.getLast?_map, Option.map_map]
  rfl

/-! ## A store without relations -/

section

variable {i : Ingest σ} (hnew : i.env.store.NoRelations) (rs : List RelationRecord) (estimate : Nat)

include hnew

theorem index_scan : (i.scan rs estimate).2.env.store.index = (accepted i.classifier rs).foldl indexed .empty := by
  rw [store_scan, hnew.index]

theorem relationsFor_scan (w : WayId) : (i.scan rs estimate).2.env.store.index.relationsFor w =
    (accepted i.classifier rs).flatMap fun r => List.replicate (r.members.count w) r.ways.relation := by
  rw [index_scan hnew, relationsFor_foldl_indexed, RelationIndex.relationsFor_empty, List.nil_append]

theorem containsWay_scan (w : WayId) :
    (i.scan rs estimate).2.env.store.index.containsWay w = true ↔ w ∈ memberWays i.classifier rs := by
  have hlisted : (i.scan rs estimate).2.env.store.index.Listed := by
    rw [index_scan hnew]
    exact listed_foldl_indexed _ RelationIndex.listed_empty
  rw [hlisted w, relationsFor_scan hnew, memberWays, List.mem_flatMap, Ne, List.flatMap_eq_nil_iff]
  simp only [List.replicate_eq_nil_iff, List.count_eq_zero, not_forall, not_not, exists_prop]

theorem used_scan (w : WayId) : (i.scan rs estimate).2.env.store.usedWays.contains w = true ↔
    w ∈ memberWays i.classifier rs ∧ UsedWays.InSpace w := by
  have hbounded : i.env.store.usedWays.Bounded := hnew.usedWays ▸ UsedWays.bounded_empty
  rw [contains_scan hbounded, hnew.usedWays, UsedWays.contains_empty]
  simp only [Bool.false_eq_true, false_or]

/-- **The set counts each of its ways once.** -/
theorem count_scan : (i.scan rs estimate).2.env.store.usedWays.count =
    {w : WayId | (i.scan rs estimate).2.env.store.usedWays.contains w = true}.ncard := by
  have hset : {w : WayId | (i.scan rs estimate).2.env.store.usedWays.contains w = true} =
      ((memberWays i.classifier rs).toFinset.filter UsedWays.InSpace : Finset WayId) := by
    ext w
    simp [used_scan hnew]
  have hreserved : (i.env.store.reserveUsedWays estimate).usedWays.Bounded := by
    rw [ObjectStore.reserveUsedWays, hnew.usedWays]
    exact UsedWays.bounded_empty.reserve _ _
  have hnone : ∀ w, (i.env.store.reserveUsedWays estimate).usedWays.contains w = false := by
    intro w
    rw [ObjectStore.reserveUsedWays, UsedWays.contains_reserve, hnew.usedWays]
    exact UsedWays.contains_empty w
  have hzero : (i.env.store.reserveUsedWays estimate).usedWays.count = 0 := by
    rw [ObjectStore.reserveUsedWays, UsedWays.count_reserve, hnew.usedWays, UsedWays.count_empty]
  rw [hset, Set.ncard_coe_finset, store_scan, UsedWays.count_foldl_mark hreserved hnone, hzero, Nat.zero_add]

/-- **The way lists** are sorted, and in each id in the order of the input. -/
theorem sorted_scan (relation : RelationId) :
    WayListStore.Ordered (i.scan rs estimate).2.env.store.wayLists.toList ∧
      (i.scan rs estimate).2.env.store.wayLists.toList.filter (·.relation = relation) =
        ((accepted i.classifier rs).map (·.ways)).filter (·.relation = relation) ∧
      (i.scan rs estimate).2.env.store.wayLists.find? relation =
        ((accepted i.classifier rs).map (·.ways)).find? (·.relation = relation) := by
  have hnone : i.env.store.wayLists.Sound := fun _ => by
    rw [hnew.wayLists]
    exact List.Pairwise.nil
  obtain ⟨hordered, -, hfilter⟩ := (hnone.append ((accepted i.classifier rs).map (·.ways))).sort
  have hstable := hfilter relation
  rw [WayListStore.toList_append, hnew.wayLists, List.nil_append] at hstable
  have hsorted : WayListStore.Sound (i.env.store.wayLists.append ((accepted i.classifier rs).map (·.ways))).sort :=
    fun _ => hordered
  rw [store_scan]
  refine ⟨hordered, hstable, ?_⟩
  rw [hsorted.find?_eq, ← List.head?_filter, ← List.head?_filter, hstable]

end

/-- **What the first pass notes is consistent.**  From a store without relations, with the recorded ones in their order:

* the index has of each way its relations, each as often as the way is a member, and the ways that have any;
* the set has those of these ways whose bit is kept, and counts each of them once;
* the tags of a relation are those of the last one with its id;
* the way lists are in the order of their ids and in each id in that of the input, and the first of an id is found. -/
theorem scan_consistent (i : Ingest σ) (hnew : i.env.store.NoRelations) (rs : List RelationRecord) (estimate : Nat) :
    let recorded := rs.filter fun r => i.classifier.scansRelation r.tags
    let s := (i.scan rs estimate).2.env.store
    (∀ w, s.index.relationsFor w =
        recorded.flatMap fun r => List.replicate ((r.ways.outer ++ r.ways.inner).count w) r.ways.relation) ∧
      (∀ w, s.index.containsWay w = true ↔ s.index.relationsFor w ≠ []) ∧
      (∀ w, s.usedWays.contains w = true ↔ (0 ≤ w ∧ w < 2 ^ 31) ∧ s.index.containsWay w = true) ∧
      s.usedWays.count = {w : WayId | s.usedWays.contains w = true}.ncard ∧
      (∀ relation, s.index.tagsFor? relation =
        ((recorded.filter (·.ways.relation = relation)).getLast?).map (·.tags)) ∧
      s.wayLists.toList.Perm (recorded.map (·.ways)) ∧
      s.wayLists.toList.Pairwise (fun a b => a.relation ≤ b.relation) ∧
      (∀ relation, s.wayLists.toList.filter (·.relation = relation) =
        (recorded.map (·.ways)).filter (·.relation = relation)) ∧
      (∀ relation, s.wayLists.find? relation = (recorded.map (·.ways)).find? (·.relation = relation)) ∧
      (i.scan rs estimate).1 = ⟨rs.length, recorded.length, 0, 0⟩ := by
  intro recorded s
  have hindex : s.index = recorded.foldl indexed .empty := index_scan hnew rs estimate
  have hlists : s.wayLists.toList.Perm (i.env.store.wayLists.toList ++ recorded.map (·.ways)) :=
    wayLists_scan i rs estimate
  rw [hnew.wayLists] at hlists
  refine ⟨relationsFor_scan hnew rs estimate, ?_, fun w => ?_, count_scan hnew rs estimate, ?_, hlists,
    (sorted_scan hnew rs estimate 0).1, fun r => (sorted_scan hnew rs estimate r).2.1,
    fun r => (sorted_scan hnew rs estimate r).2.2, rfl⟩
  · rw [hindex]
    exact listed_foldl_indexed recorded RelationIndex.listed_empty
  · rw [used_scan hnew, containsWay_scan hnew]
    exact And.comm
  · rw [hindex]
    exact tagsFor?_foldl_indexed recorded

/-! ## Relations that share ways and ids -/

/-- Three relations that are recorded, two of them with one id, and one that is not. -/
def shared : List RelationRecord :=
  let area := TextMap.ofList [("type", "multipolygon")]
  [⟨⟨9, [5, 5], [7]⟩, area⟩, ⟨⟨4, [5], [-6]⟩, TextMap.ofList [("type", "boundary")]⟩,
    ⟨⟨2, [8], []⟩, TextMap.ofList [("type", "route")]⟩, ⟨⟨9, [2147483648], []⟩, area.insert "name" "twice"⟩]

/-- No rules, and a hash map. -/
def hashedStore : ObjectStore := .withNodes .default .empty

theorem scan_consistent_shared :
    ObjectStore.create .default = .ok hashedStore ∧
      let s := ((ofStore hashedStore .empty (⟨.default, [], []⟩ : Config).classifier).scan shared 100).2.env.store
      s.index.relationsFor 5 = [9, 9, 4] ∧ s.index.containsWay 8 = false ∧ s.usedWays.contains 7 = true ∧
        s.usedWays.contains 2147483648 = false ∧ (s.index.tagsFor? 9).bind (·.get? "name") = some "twice" ∧
        s.wayLists.find? 9 = some ⟨9, [5, 5], [7]⟩ := by
  have hcreate : ObjectStore.create .default = .ok hashedStore := rfl
  refine ⟨hcreate, ?_⟩
  intro s
  obtain ⟨hrelations, hlisted, hused, -, htags, -, -, -, hfind, -⟩ := scan_consistent
    (ofStore hashedStore .empty (⟨.default, [], []⟩ : Config).classifier) (ObjectStore.noRelations_create hcreate)
    shared 100
  refine ⟨?_, ?_, ?_, ?_, ?_, ?_⟩
  · rw [hrelations]
    decide +kernel
  · rw [Bool.eq_false_iff, Ne, hlisted, hrelations]
    decide +kernel
  · rw [hused, hlisted, hrelations]
    decide +kernel
  · rw [Bool.eq_false_iff, Ne, hused]
    decide
  · rw [htags]
    decide +kernel
  · rw [hfind]
    decide +kernel

end Ingest
end MapFeatures
