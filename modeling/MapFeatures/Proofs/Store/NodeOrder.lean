import MapFeatures.Proofs.Store.LastWrite
/-!
# NodeOrder — what is stored under different ids can be stored in any order

Batches of nodes are stored one node after the other, as long as the store takes all of them (`NodeStore.insert_eq`).  In a
flat file as in a hash map two nodes of different ids can change places (`CompactNodes.put_comm`), so any order leaves the
same (`NodeStore.sameContents_foldl_put`).
-/
namespace MapFeatures

/-! ## Flat files -/

/-- **Writes to places that are apart** can change places. -/
theorem SparseFile.patch_comm (old : Nat → UInt8) {a b : Nat} {as bs : List UInt8}
    (h : a + as.length ≤ b ∨ b + bs.length ≤ a) : patch (patch old a as) b bs = patch (patch old b bs) a as := by
  funext place
  by_cases ha : a ≤ place ∧ place < a + as.length
  · have hb : ∀ old, patch old b bs place = old place := fun _ => patch_of_not_mem (by omega)
    rw [hb, patch, patch, hb]
  · have ha' : ∀ old, patch old a as place = old place := fun _ => patch_of_not_mem ha
    rw [ha', patch, ha', patch]

namespace CompactNodes

/-- Whether two flat files are of the same size and have the same bytes. -/
structure SameBytes (s t : CompactNodes) : Prop where
  capacity : s.capacity = t.capacity
  count : s.count = t.count
  length : s.file.length = t.file.length
  bytes : s.file.byteAt = t.file.byteAt

variable {s t : CompactNodes}

theorem SameBytes.offset?_eq (h : SameBytes s t) (id : NodeId) : s.offset? id = t.offset? id := by
  rw [offset?, offset?, h.capacity]

theorem SameBytes.at?_eq (h : SameBytes s t) : s.at? = t.at? := by
  funext id
  cases hid : s.offset? id with
  | none => rw [at?_eq_none hid, at?_eq_none ((h.offset?_eq id).symm.trans hid)]
  | some offset =>
    rw [at?_of_offset? hid, at?_of_offset? ((h.offset?_eq id).symm.trans hid), SparseFile.read, SparseFile.read, h.bytes]

theorem SameBytes.put (h : SameBytes s t) (node : NodeId × Location) : SameBytes (s.put node) (t.put node) := by
  cases hoffset : s.offset? node.1 with
  | none => rwa [put_eq_self hoffset, put_eq_self ((h.offset?_eq node.1).symm.trans hoffset)]
  | some offset =>
    have hoffset' : t.offset? node.1 = some offset := (h.offset?_eq node.1).symm.trans hoffset
    refine ⟨?_, ?_, ?_, ?_⟩
    · rw [capacity_put, capacity_put, h.capacity]
    · rw [count_put (inRange_of_offset? hoffset), count_put (inRange_of_offset? hoffset'), h.at?_eq, h.count]
    · rw [length_file_put, length_file_put, h.length]
    · rw [byteAt_file_put hoffset, byteAt_file_put hoffset', h.bytes]

/-- **Nodes of different ids** can be written in either order. -/
theorem put_comm (s : CompactNodes) {a b : NodeId × Location} (h : a.1 ≠ b.1) :
    SameBytes ((s.put a).put b) ((s.put b).put a) := by
  cases ha : s.offset? a.1 with
  | none =>
    rw [put_eq_self ha, put_eq_self ((offset?_put s b a.1).trans ha)]
    exact ⟨rfl, rfl, rfl, rfl⟩
  | some i =>
    cases hb : s.offset? b.1 with
    | none =>
      rw [put_eq_self hb, put_eq_self ((offset?_put s a b.1).trans hb)]
      exact ⟨rfl, rfl, rfl, rfl⟩
    | some j =>
      have ha' : (s.put b).offset? a.1 = some i := (offset?_put s b a.1).trans ha
      have hb' : (s.put a).offset? b.1 = some j := (offset?_put s a b.1).trans hb
      refine ⟨?_, ?_, ?_, ?_⟩
      · simp only [capacity_put]
      · -- neither shows at the other's id, so both are counted as if alone
        rw [count_put (inRange_of_offset? hb'), count_put (inRange_of_offset? ha'), count_put (inRange_of_offset? ha),
          count_put (inRange_of_offset? hb), at?_put_of_ne h, at?_put_of_ne h.symm]
        split
        · split
          · rfl
          · rfl
        · split
          · rfl
          · rfl
      · simp only [length_file_put]
      · rw [byteAt_file_put hb', byteAt_file_put ha', byteAt_file_put ha, byteAt_file_put hb]
        exact SparseFile.patch_comm s.file.byteAt (slots_apart ha hb h)

theorem SameBytes.refl (s : CompactNodes) : SameBytes s s := ⟨rfl, rfl, rfl, rfl⟩

theorem SameBytes.trans {u : CompactNodes} (h : SameBytes s t) (h' : SameBytes t u) : SameBytes s u :=
  ⟨h.capacity.trans h'.capacity, h.count.trans h'.count, h.length.trans h'.length, h.bytes.trans h'.bytes⟩

theorem SameBytes.foldl_put (h : SameBytes s t) (batch : List (NodeId × Location)) :
    SameBytes (batch.foldl CompactNodes.put s) (batch.foldl CompactNodes.put t) := by
  induction batch generalizing s t with
  | nil => exact h
  | cons node batch ih => exact ih (h.put node)

/-- **Nodes of distinct ids** can be written in any order. -/
theorem sameBytes_foldl_put {batch batch' : List (NodeId × Location)} (h : batch.Perm batch')
    (hapart : batch.Pairwise fun a b => a.1 ≠ b.1) (s : CompactNodes) :
    SameBytes (batch.foldl put s) (batch'.foldl put s) := by
  induction h generalizing s with
  | nil => exact .refl s
  | cons node _ ih => exact ih (List.pairwise_cons.1 hapart).2 (s.put node)
  | swap a b batch => exact (s.put_comm ((List.pairwise_cons.1 hapart).1 a List.mem_cons_self)).foldl_put batch
  | trans h₁ _ ih₁ ih₂ =>
    have hmiddle := (h₁.pairwise_iff Ne.symm).1 hapart
    exact (ih₁ hapart s).trans (ih₂ hmiddle s)

end CompactNodes

/-! ## Hash maps -/

theorem lastFor?_perm {α : Type} {batch batch' : List (Int × α)} (h : batch.Perm batch')
    (hkeys : (batch.map (·.1)).Nodup) (key : Int) : lastFor? batch key = lastFor? batch' key := by
  have hfilter := h.filter (·.1 = key)
  have hdistinct := (List.pairwise_map.1 hkeys).filter (·.1 = key)
  -- at most one entry has the key
  have heq : batch.filter (·.1 = key) = batch'.filter (·.1 = key) := by
    match hbatch : batch.filter (·.1 = key) with
    | [] =>
      rw [hbatch] at hfilter
      exact hbatch.trans (List.nil_perm.1 hfilter).symm
    | [e] =>
      rw [hbatch] at hfilter
      exact hbatch.trans (List.perm_singleton.1 hfilter.symm).symm
    | e :: d :: _ =>
      rw [hbatch] at hdistinct
      have hmem : ∀ x ∈ [e, d], x.1 = key := by
        intro x hx
        have hin : x ∈ batch.filter (·.1 = key) := hbatch ▸ List.mem_append_left _ hx
        exact of_decide_eq_true (List.mem_filter.1 hin).2
      have hsame : e.1 = d.1 := (hmem e (by simp)).trans (hmem d (by simp)).symm
      exact absurd hsame ((List.pairwise_cons.1 hdistinct).1 d List.mem_cons_self)
  rw [lastFor?, lastFor?, heq]

/-- **Entries of distinct keys** can be inserted in any order. -/
theorem equiv_foldl_insert {α : Type} {batch batch' : List (Int × α)} (h : batch.Perm batch')
    (hkeys : (batch.map (·.1)).Nodup) (m : Std.HashMap Int α) :
    (batch.foldl (fun m e => m.insert e.1 e.2) m).Equiv (batch'.foldl (fun m e => m.insert e.1 e.2) m) := by
  refine Std.HashMap.Equiv.of_forall_getElem?_eq fun key => ?_
  rw [getElem?_foldl_insert, getElem?_foldl_insert, lastFor?_perm h hkeys]

/-! ## Node stores -/

namespace NodeStore

/-- One node stored, if the store has a place for it. -/
def put : NodeStore → NodeId × Location → NodeStore
  | hashed locations, node => .hashed (locations.insert node.1 node.2)
  | compact nodes, node => .compact (nodes.put node)

/-- Whether a store takes a node: a flat file takes those that have a slot and a longitude. -/
def Takes : NodeStore → NodeId × Location → Prop
  | hashed _, _ => True
  | compact nodes, node => nodes.Takes node

/-- Whether two stores are of the same kind and size and have the same contents. -/
inductive SameContents : NodeStore → NodeStore → Prop
  | hashed {locations locations' : Std.HashMap NodeId Location} (h : locations.Equiv locations') :
      SameContents (.hashed locations) (.hashed locations')
  | compact {nodes nodes' : CompactNodes} (h : nodes.SameBytes nodes') : SameContents (.compact nodes) (.compact nodes')

theorem foldl_put_hashed (batch : List (NodeId × Location)) (locations : Std.HashMap NodeId Location) :
    batch.foldl put (.hashed locations) = .hashed (batch.foldl (fun m node => m.insert node.1 node.2) locations) := by
  induction batch generalizing locations with
  | nil => rfl
  | cons node batch ih => exact ih (locations.insert node.1 node.2)

theorem foldl_put_compact (batch : List (NodeId × Location)) (nodes : CompactNodes) :
    batch.foldl put (.compact nodes) = .compact (batch.foldl CompactNodes.put nodes) := by
  induction batch generalizing nodes with
  | nil => rfl
  | cons node batch ih => exact ih (nodes.put node)

/-- **A batch of nodes that the store takes** is stored one node after the other. -/
theorem insert_eq {s : NodeStore} {batch : List (NodeId × Location)} (h : ∀ node ∈ batch, s.Takes node) :
    s.insert batch = .ok (batch.foldl put s) := by
  cases s with
  | hashed locations =>
    rw [foldl_put_hashed]
    rfl
  | compact nodes =>
    rw [foldl_put_compact, insert, CompactNodes.insert_eq_of_takes h]
    rfl

theorem takes_of_insert {s s' : NodeStore} {batch : List (NodeId × Location)} (h : s.insert batch = .ok s') :
    ∀ node ∈ batch, s.Takes node := by
  cases s with
  | hashed locations => exact fun _ _ => trivial
  | compact nodes =>
    obtain ⟨nodes', hnodes, -⟩ := map_eq_ok h
    exact (CompactNodes.insert_eq_ok hnodes).1

theorem takes_put (s : NodeStore) (node n : NodeId × Location) : (s.put node).Takes n ↔ s.Takes n := by
  cases s with
  | hashed locations => exact Iff.rfl
  | compact nodes => exact CompactNodes.takes_put nodes node n

theorem takes_foldl_put : ∀ (batch : List (NodeId × Location)) (s : NodeStore) (n : NodeId × Location),
    (batch.foldl put s).Takes n ↔ s.Takes n
  | [], _, _ => Iff.rfl
  | node :: batch, s, n => (takes_foldl_put batch (s.put node) n).trans (takes_put s node n)

theorem SameContents.at?_eq {s t : NodeStore} (h : SameContents s t) : s.at? = t.at? := by
  cases h with
  | hashed h =>
    funext id
    exact h.getElem?_eq
  | compact h => exact h.at?_eq

/-- **Nodes of distinct ids can be stored in any order.** -/
theorem sameContents_foldl_put {batch batch' : List (NodeId × Location)} (h : batch.Perm batch')
    (hkeys : (batch.map (·.1)).Nodup) (s : NodeStore) : SameContents (batch.foldl put s) (batch'.foldl put s) := by
  cases s with
  | hashed locations =>
    rw [foldl_put_hashed, foldl_put_hashed]
    exact .hashed (equiv_foldl_insert h hkeys locations)
  | compact nodes =>
    rw [foldl_put_compact, foldl_put_compact]
    exact .compact (CompactNodes.sameBytes_foldl_put h (List.pairwise_map.1 hkeys) nodes)

end NodeStore
end MapFeatures
