import MapFeatures.Proofs.Outcome
import MapFeatures.Proofs.Store.CompactNodes
import MapFeatures.Record
import MapFeatures.Store.Nodes
import MapFeatures.Store.Ways
/-!
# LastWrite — what a store has after some batches

Of a way the nodes that came last (`nodesFor?_insert`), whatever is left out of other ways.  Of a node the location that
came last (`NodeStore.at?_insert`), in a flat file as in a hash map; a flat file takes a batch if it takes each of its
nodes (`CompactNodes.insert_eq_of_takes`).
-/
namespace MapFeatures

/-- The value that comes last for a key. -/
def lastFor? {α : Type} (batch : List (Int × α)) (key : Int) : Option α :=
  ((batch.filter (·.1 = key)).getLast?).map (·.2)

theorem lastFor?_cons {α : Type} (e : Int × α) (batch : List (Int × α)) (key : Int) :
    lastFor? (e :: batch) key = (lastFor? batch key).or (if e.1 = key then some e.2 else none) := by
  unfold lastFor?
  by_cases he : e.1 = key
  · rw [List.filter_cons_of_pos (by simpa using he), List.getLast?_cons, if_pos he]
    cases (batch.filter (·.1 = key)).getLast? with
    | none => rfl
    | some last => rfl
  · rw [List.filter_cons_of_neg (by simpa using he), if_neg he, Option.or_none]

theorem lastFor?_append {α : Type} (first second : List (Int × α)) (key : Int) :
    lastFor? (first ++ second) key = (lastFor? second key).or (lastFor? first key) := by
  rw [lastFor?, List.filter_append, List.getLast?_append, Option.map_or, lastFor?, lastFor?]

/-- **Of a fold of insertions the last counts.** -/
theorem getElem?_foldl_insert {α : Type} : ∀ (batch : List (Int × α)) (m : Std.HashMap Int α) (key : Int),
    (batch.foldl (fun m e => m.insert e.1 e.2) m)[key]? = (lastFor? batch key).or m[key]?
  | [], _, _ => rfl
  | e :: batch, m, key => by
    rw [List.foldl_cons, getElem?_foldl_insert batch, lastFor?_cons, Std.HashMap.getElem?_insert]
    cases lastFor? batch key with
    | some last => rfl
    | none =>
      by_cases he : e.1 = key
      · simp [he]
      · simp [he]

theorem lastFor?_filter {α : Type} (batch : List (Int × α)) (kept : Int → Bool) (key : Int) :
    lastFor? (batch.filter fun e => kept e.1) key = if kept key then lastFor? batch key else none := by
  unfold lastFor?
  rw [List.filter_filter]
  by_cases hkey : kept key = true
  · rw [if_pos hkey]
    congr 2
    refine List.filter_congr fun e _ => ?_
    by_cases he : e.1 = key
    · simp [he, hkey]
    · simp [he]
  · rw [if_neg hkey, List.filter_eq_nil_iff.2]
    · rfl
    · intro e _ h
      simp only [Bool.and_eq_true, decide_eq_true_eq] at h
      exact hkey (h.1 ▸ h.2)

theorem isSome_lastFor? {α : Type} {batch : List (Int × α)} {e : Int × α} (h : e ∈ batch) :
    (lastFor? batch e.1).isSome = true := by
  have hmem : e ∈ batch.filter (·.1 = e.1) := List.mem_filter.2 ⟨h, by simp⟩
  rw [lastFor?, Option.isSome_map, List.getLast?_isSome]
  exact List.ne_nil_of_mem hmem

theorem mem_of_lastFor? {α : Type} {batch : List (Int × α)} {key : Int} {value : α}
    (h : lastFor? batch key = some value) : (key, value) ∈ batch := by
  obtain ⟨e, he, rfl⟩ := Option.map_eq_some_iff.1 h
  obtain ⟨hmem, hkey⟩ := List.mem_filter.1 (List.mem_of_getLast? he)
  rw [← of_decide_eq_true hkey]
  exact hmem

namespace WayStore

theorem nodesFor?_insert (s : WayStore) (batch : List (WayId × List NodeId)) (w : WayId) :
    (s.insert batch).nodesFor? w = (lastFor? batch w).or (s.nodesFor? w) :=
  getElem?_foldl_insert batch s.nodes w

theorem nodesFor?_insert_empty (batch : List (WayId × List NodeId)) (w : WayId) :
    (empty.insert batch).nodesFor? w = lastFor? batch w := by
  have hempty : empty.nodesFor? w = none := by simp [empty, nodesFor?]
  rw [nodesFor?_insert, hempty, Option.or_none]

theorem insert_insert (s : WayStore) (first second : List (WayId × List NodeId)) :
    (s.insert first).insert second = s.insert (first ++ second) := by
  simp only [insert, List.foldl_append]

end WayStore

/-! ## Nodes -/

namespace CompactNodes

theorem capacity_foldl_put : ∀ (batch : List (NodeId × Location)) (s : CompactNodes),
    (batch.foldl put s).capacity = s.capacity
  | [], _ => rfl
  | node :: batch, s => by rw [List.foldl_cons, capacity_foldl_put batch, capacity_put]

/-- **Of the nodes of a batch the last counts.** -/
theorem at?_foldl_put : ∀ {batch : List (NodeId × Location)} {s : CompactNodes}, (∀ node ∈ batch, s.Takes node) →
    ∀ id, (batch.foldl put s).at? id = (lastFor? batch id).or (s.at? id)
  | [], _, _, _ => rfl
  | node :: batch, s, h, id => by
    have hrest : ∀ n ∈ batch, (s.put node).Takes n :=
      fun n hn => (takes_put s node n).2 (h n (List.mem_cons_of_mem node hn))
    rw [List.foldl_cons, at?_foldl_put hrest, at?_put (h node List.mem_cons_self), lastFor?_cons, Option.or_assoc]
    by_cases hid : node.1 = id
    · simp [hid]
    · simp [hid]

/-! ### Which batches are taken -/

variable {s : CompactNodes} {batch : List (NodeId × Location)}

theorem find?_fits_eq_none_iff : (batch.find? fun node => !s.fits node.1) = none ↔ ∀ node ∈ batch, s.InRange node.1 := by
  rw [List.find?_eq_none]
  exact forall₂_congr fun node _ => by rw [Bool.not_eq_true', Bool.not_eq_false, fits_iff]

theorem insert_eq_of_takes (h : ∀ node ∈ batch, s.Takes node) : s.insert batch = .ok (batch.foldl put s) := by
  have hlon : ¬ (batch.any fun node => node.2.lon = Int32.minValue) = true := by
    simpa using fun id l hnode => (h (id, l) hnode).2
  rw [insert, find?_fits_eq_none_iff.2 fun node hnode => (h node hnode).1]
  exact if_neg hlon

/-- **A batch that is refused** has an id without a slot, or else a longitude that stops the program. -/
theorem insert_eq_error {e : StoreError} (h : s.insert batch = .error e) :
    (∃ node ∈ batch, ¬ s.InRange node.1 ∧ e = .compactRangeExceeded node.1 s.capacity) ∨
      (∀ node ∈ batch, s.InRange node.1) ∧ (∃ node ∈ batch, node.2.lon = Int32.minValue) ∧ e = .stopped .longitude := by
  unfold insert at h
  split at h
  · next node hnode =>
    cases h
    have hout := List.find?_some hnode
    rw [Bool.not_eq_true', ← Bool.not_eq_true, fits_iff] at hout
    exact Or.inl ⟨node, List.mem_of_find?_eq_some hnode, hout, rfl⟩
  · next hnone =>
    split at h
    · next hlon =>
      cases h
      obtain ⟨node, hnode, hmin⟩ := List.any_eq_true.1 hlon
      exact Or.inr ⟨find?_fits_eq_none_iff.1 hnone, ⟨node, hnode, of_decide_eq_true hmin⟩, rfl⟩
    · cases h

theorem insert_eq_ok {t : CompactNodes} (h : s.insert batch = .ok t) :
    (∀ node ∈ batch, s.Takes node) ∧ t = batch.foldl put s := by
  unfold insert at h
  split at h
  · cases h
  · next hnone =>
    split at h
    · cases h
    · next hlon =>
      cases h
      have hrange := find?_fits_eq_none_iff.1 hnone
      refine ⟨fun node hnode => ⟨hrange node hnode, fun hmin => hlon ?_⟩, rfl⟩
      exact List.any_eq_true.2 ⟨node, hnode, decide_eq_true hmin⟩

end CompactNodes

namespace NodeStore

theorem capacity?_insert {s s' : NodeStore} {batch : List (NodeId × Location)} (h : s.insert batch = .ok s') :
    s'.capacity? = s.capacity? := by
  cases s with
  | hashed locations => cases h; rfl
  | compact nodes =>
    obtain ⟨nodes', hnodes, rfl⟩ := map_eq_ok h
    rw [(CompactNodes.insert_eq_ok hnodes).2]
    exact congrArg some (CompactNodes.capacity_foldl_put batch nodes)

theorem capacity?_foldlM : ∀ {batches : List (List (NodeId × Location))} {s s' : NodeStore},
    batches.foldlM insert s = .ok s' → s'.capacity? = s.capacity?
  | [], s, s', h => by
    cases h
    rfl
  | batch :: batches, s, s', h => by
    rw [List.foldlM_cons] at h
    obtain ⟨middle, hfirst, hrest⟩ := bind_eq_ok h
    exact (capacity?_foldlM hrest).trans (capacity?_insert hfirst)

/-- **Of a batch the last node of an id is found**, and of other ids what was found before. -/
theorem at?_insert {s s' : NodeStore} {batch : List (NodeId × Location)} (h : s.insert batch = .ok s') (id : NodeId) :
    s'.at? id = (lastFor? batch id).or (s.at? id) := by
  cases s with
  | hashed locations =>
    cases h
    exact getElem?_foldl_insert batch locations id
  | compact nodes =>
    obtain ⟨nodes', hnodes, rfl⟩ := map_eq_ok h
    obtain ⟨htakes, rfl⟩ := CompactNodes.insert_eq_ok hnodes
    exact CompactNodes.at?_foldl_put htakes id

/-- **Of some batches the last node of an id is found**, as of all their nodes in one. -/
theorem at?_foldlM : ∀ {batches : List (List (NodeId × Location))} {s s' : NodeStore},
    batches.foldlM insert s = .ok s' → ∀ id, s'.at? id = (lastFor? batches.flatten id).or (s.at? id)
  | [], s, s', h, id => by
    cases h
    rfl
  | batch :: batches, s, s', h, id => by
    rw [List.foldlM_cons] at h
    obtain ⟨middle, hfirst, hrest⟩ := bind_eq_ok h
    rw [at?_foldlM hrest, at?_insert hfirst, List.flatten_cons, lastFor?_append, Option.or_assoc]

end NodeStore
end MapFeatures
