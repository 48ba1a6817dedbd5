import MapFeatures.Proofs.Classify.Runs
import MapFeatures.Proofs.ReferenceLayers
import MapFeatures.Proofs.TextMap
/-!
# Queries — whether a layer has a hit, and the labels of its hits

A search for one hit stops at the first that a tree gives, in whatever order it is searched; the search for all hits puts
them in order.  Both see the same candidates (`candidates_search`), so there is one exactly if there are any
(`isSome_matchingOnce?`).  Both are asked for the same shape of the element, which may be absent or fail to be built
(`gives_query`).
-/
namespace MapFeatures

theorem TextMap.mem_keys_ofList {β : Type} {pairs : List (String × β)} {key : String} :
    key ∈ (ofList pairs).keys ↔ ∃ p ∈ pairs, p.1 = key := by
  rw [mem_keys_iff]
  induction pairs using List.reverseRecOn with
  | nil => simp [ofList]
  | append_singleton pairs p ih =>
    have hconcat : ofList (pairs ++ [p]) = (ofList pairs).insert p.1 p.2 := List.foldl_append
    rw [hconcat]
    by_cases h : p.1 = key <;> simp [h, ih, or_and_right, exists_or]

theorem TextMap.pairwise_keys {β : Type} (m : TextMap β) : m.keys.Pairwise (· < ·) :=
  List.pairwise_map.2 m.increasing

/-! ## One hit and all hits -/

namespace ReferenceLayers

variable {r : ReferenceLayers} {layer : String} {probe : Probe} {test : ReferenceShape → Bool}

/-- The layers, searched in another order. -/
def searchedAs (r : ReferenceLayers) (search : TreeSearch) : ReferenceLayers := { r with search }

theorem candidates_search (r : ReferenceLayers) (search : TreeSearch) (layer : String) (probe : Probe) :
    ((r.searchedAs search).candidates layer probe).Perm (r.candidates layer probe) :=
  ((r.searchedAs search).candidates_perm layer probe).trans (r.candidates_perm layer probe).symm

theorem mem_matching_iff {s : ReferenceShape} :
    s ∈ r.matching layer probe test ↔ s ∈ r.candidates layer probe ∧ test s = true := by
  rw [matching, List.mem_mergeSort, List.mem_filter]

/-- **A hit that is found at once is one of all**, and there is one unless there are none. -/
theorem matchingOnce?_search (search : TreeSearch) :
    (∀ s, (r.searchedAs search).matchingOnce? layer probe test = some s → s ∈ r.matching layer probe test) ∧
      ((r.searchedAs search).matchingOnce? layer probe test = none ↔ r.matching layer probe test = []) := by
  have hperm := r.candidates_search search layer probe
  unfold matchingOnce?
  constructor
  · intro s hs
    exact mem_matching_iff.2 ⟨hperm.mem_iff.1 (List.mem_of_find?_eq_some hs), List.find?_some hs⟩
  · rw [List.find?_eq_none, List.eq_nil_iff_forall_not_mem]
    simp only [mem_matching_iff, hperm.mem_iff, not_and]

theorem isSome_matchingOnce? :
    (r.matchingOnce? layer probe test).isSome = !(r.matching layer probe test).isEmpty := by
  have hnone : r.matchingOnce? layer probe test = none ↔ r.matching layer probe test = [] :=
    (matchingOnce?_search r.search).2
  rw [Bool.eq_iff_iff, Option.isSome_iff_ne_none, Bool.not_eq_true', List.isEmpty_eq_false_iff]
  exact not_congr hnone

theorem candidates_of_not_hasLayer (h : r.hasLayer layer = false) (probe : Probe) : r.candidates layer probe = [] := by
  have hnone : r.layers[layer]? = none := Std.HashMap.getElem?_eq_none_of_contains_eq_false h
  rw [candidates, hnone]

theorem matching_of_not_hasLayer (h : r.hasLayer layer = false) : r.matching layer probe test = [] := by
  simp [matching, candidates_of_not_hasLayer h]

end ReferenceLayers

/-! ## Labels -/

namespace Context

theorem mem_labels_iff {shapes : List ReferenceShape} {label : String} :
    label ∈ labels shapes ↔ ∃ s ∈ shapes, s.label = label := by
  simp [labels, TextMap.mem_keys_ofList]

@[simp] theorem isEmpty_labels (shapes : List ReferenceShape) : (labels shapes).isEmpty = shapes.isEmpty := by
  rw [Bool.eq_iff_iff, List.isEmpty_iff, List.isEmpty_iff, List.eq_nil_iff_forall_not_mem,
    List.eq_nil_iff_forall_not_mem]
  simp only [mem_labels_iff]
  constructor
  · intro h s hs
    exact h s.label ⟨s, hs, rfl⟩
  · rintro h label ⟨s, hs, -⟩
    exact h s hs

end Context

/-! ## The shape of an element that is compared -/

/-- What an element is compared with polygons as, if it has a usable shape. -/
def Element.probed (env : Surroundings) (e : Element) : Except ProcessingError (Option Probe) :=
  match e.source with
  | .node at_ => .ok (some (.point at_.coord))
  | .way _ =>
    if e.isClosed then (e.polygonShape env).map fun shape => shape.get?.map .polygon
    else (e.lineShape env).map fun shape => shape.get?.map .line
  | .relation _ => (e.multiPolygonShape env).map fun shape => shape.get?.map .multiPolygon

namespace Building

variable {α : Type} {env : Surroundings} {e : Element}

theorem gives_probe : Gives env e (probe env) (e.probed env) := by
  apply Gives.get_bind
  intro l hl
  rw [hl, Element.probed]
  dsimp only
  cases e.source with
  | node at_ => exact Gives.pure _
  | way nodes =>
    dsimp only
    split
    · exact gives_polygon.bind_pure fun shape => shape.get?.map Probe.polygon
    · exact gives_line.bind_pure fun shape => shape.get?.map Probe.line
  | relation ways => exact gives_multiPolygon.bind_pure fun shape => shape.get?.map Probe.multiPolygon

/-- **A question about the layers** is answered for the shape that is compared, if there is one. -/
theorem gives_query (absent : α) (ask : Probe → α) :
    Gives env e (Context.query env absent ask) ((e.probed env).map fun probe => (probe.map ask).getD absent) :=
  gives_probe.bind_pure fun probe => (probe.map ask).getD absent

end Building

namespace Context

variable {env : Surroundings} {e : Element}

theorem answer_query {α : Type} (used : Context) (before : List Call) (absent : α) (ask : Probe → α) :
    (((used.begin e).after env before).work absent (query env absent ask)).1 =
      (e.probed env).map fun probe => (probe.map ask).getD absent :=
  (work_of_gives ((holds_begin used).after before) (Building.gives_query absent ask) absent).1

/-- If one hit is there exactly if there are any, the truth value is whether there are labels, and errors are the same. -/
theorem map_found (r : Except ProcessingError (Option Probe)) {once : Probe → Option ReferenceShape}
    {all : Probe → List ReferenceShape} (h : ∀ p, (once p).isSome = !(all p).isEmpty) :
    (r.map fun probe => (probe.map fun p => (once p).isSome).getD false) =
      (r.map fun probe => (probe.map fun p => labels (all p)).getD []).map fun found => !found.isEmpty := by
  cases r with
  | error err => rfl
  | ok probe =>
    cases probe with
    | none => rfl
    | some probe => simp [Except.map, h]

/-- **Whether there is a hit and the labels of all hits agree**, for any element, whatever was asked before each: there is
one exactly if the set of labels is not empty, and if the shape of the element cannot be built both fail alike.  The
labels are those of the shapes that the layers find for what the element is compared as; there are none if it has no
usable shape or the layer is not there.  In whatever order trees are searched, the hit that is found at once is one of all
hits, and there is one if there are any. -/
theorem queries_agree (env : Surroundings) (e : Element) (used used' : Context) (before before' : List Call)
    (layer : String) :
    let c := (used.begin e).after env before
    let d := (used'.begin e).after env before'
    (c.answer env (.intersects layer)).1 =
        (d.answer env (.intersectingLabels layer)).1.map (fun found => !found.isEmpty) ∧
      (c.answer env (.coveredBy layer)).1 =
        (d.answer env (.coveringLabels layer)).1.map (fun found => !found.isEmpty) ∧
      (match e.probed env with
      | .error err =>
        (d.answer env (.intersectingLabels layer)).1 = .error err ∧ (d.answer env (.coveringLabels layer)).1 = .error err
      | .ok none => (d.answer env (.intersectingLabels layer)).1 = .ok [] ∧ (d.answer env (.coveringLabels layer)).1 = .ok []
      | .ok (some probe) => ∃ meeting covering : List String,
        (d.answer env (.intersectingLabels layer)).1 = .ok meeting ∧ meeting.Pairwise (· < ·) ∧
          (∀ label, label ∈ meeting ↔ ∃ s ∈ env.layers.intersecting layer probe, s.label = label) ∧
        (d.answer env (.coveringLabels layer)).1 = .ok covering ∧ covering.Pairwise (· < ·) ∧
          (∀ label, label ∈ covering ↔ ∃ s ∈ env.layers.covering layer probe, s.label = label) ∧
        (env.layers.hasLayer layer = false → meeting = [] ∧ covering = [])) ∧
      ∀ search probe,
        (∀ s, (env.layers.searchedAs search).intersectingOnce? layer probe = some s →
          s ∈ env.layers.intersecting layer probe) ∧
        ((env.layers.searchedAs search).intersectingOnce? layer probe = none ↔
          env.layers.intersecting layer probe = []) ∧
        (∀ s, (env.layers.searchedAs search).coveringOnce? layer probe = some s →
          s ∈ env.layers.covering layer probe) ∧
        ((env.layers.searchedAs search).coveringOnce? layer probe = none ↔ env.layers.covering layer probe = []) := by
  intro c d
  have hmeets : (c.answer env (.intersects layer)).1 = _ := answer_query used before _ _
  have hmeeting : (d.answer env (.intersectingLabels layer)).1 = _ := answer_query used' before' _ _
  have hcovered : (c.answer env (.coveredBy layer)).1 = _ := answer_query used before _ _
  have hcovering : (d.answer env (.coveringLabels layer)).1 = _ := answer_query used' before' _ _
  refine ⟨?_, ?_, ?_, fun search probe => ?_⟩
  · rw [hmeets, hmeeting]
    exact map_found _ fun _ => ReferenceLayers.isSome_matchingOnce?
  · rw [hcovered, hcovering]
    exact map_found _ fun _ => ReferenceLayers.isSome_matchingOnce?
  · rw [hmeeting, hcovering]
    cases e.probed env with
    | error err => exact ⟨rfl, rfl⟩
    | ok probe =>
      cases probe with
      | none => exact ⟨rfl, rfl⟩
      | some probe =>
        refine ⟨_, _, rfl, TextMap.pairwise_keys _, fun _ => mem_labels_iff, rfl, TextMap.pairwise_keys _,
          fun _ => mem_labels_iff, fun hlayer => ?_⟩
        have hnone : env.layers.intersecting layer probe = [] := ReferenceLayers.matching_of_not_hasLayer hlayer
        have hnone' : env.layers.covering layer probe = [] := ReferenceLayers.matching_of_not_hasLayer hlayer
        exact ⟨congrArg labels hnone, congrArg labels hnone'⟩
  · obtain ⟨hmeet, hmeet'⟩ := ReferenceLayers.matchingOnce?_search search
    obtain ⟨hcover, hcover'⟩ := ReferenceLayers.matchingOnce?_search search
    exact ⟨hmeet, hmeet', hcover, hcover'⟩

end Context
end MapFeatures
