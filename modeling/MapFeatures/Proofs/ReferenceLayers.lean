import Mathlib.Data.List.Induction
import MapFeatures.ReferenceLayers
import MapFeatures.Proofs.SortByKey
/-!
# ReferenceLayers — a layer answers as the list of its polygons does

Whether polygons are loaded at once or added one by one, those of a layer are numbered from zero on in the order they
came (`Lists.perform`).  So the numbers bring back that order from whatever order a tree is searched in, and a query
gives what a look through the list of the layer would give (`Lists.matching_eq`).
-/
namespace MapFeatures

namespace ShapeTree

theorem shapesThen_eq : ∀ (t : ShapeTree) (others : List ReferenceShape), t.shapesThen others = t.shapes ++ others
  | empty, _ => rfl
  | loaded shapes, others => by rw [ShapeTree.shapes, shapesThen, shapesThen, List.append_nil]
  | inserted tree shape, others => by
    rw [ShapeTree.shapes, shapesThen, shapesThen, shapesThen_eq tree, shapesThen_eq tree [shape], List.append_assoc,
      List.singleton_append]

@[simp] theorem shapes_loaded (shapes : List ReferenceShape) : (loaded shapes).shapes = shapes := List.append_nil shapes

@[simp] theorem shapes_inserted (t : ShapeTree) (shape : ReferenceShape) :
    (inserted t shape).shapes = t.shapes ++ [shape] := shapesThen_eq t [shape]

end ShapeTree

/-- The label and the polygon of a shape. -/
def ReferenceShape.named (s : ReferenceShape) : String × Polygon := (s.label, s.polygon)

/-- Whether the boxes around a shape and a polygon meet. -/
def Probe.near (p : Polygon) (probe : Probe) : Bool :=
  match p.region.box?, probe.box? with
  | some box, some other => box.meets other
  | _, _ => false

/-- What layers may be told. -/
inductive LayerCall
  | add (layer label : String) (polygon : Polygon)
  | load (layer : String) (polygons : List (String × Polygon))

namespace LayerCall

/-- The layer that a call is about. -/
def layer : LayerCall → String
  | add layer _ _ => layer
  | load layer _ => layer

/-- The labelled polygons of the layer of a call after it, given those before it. -/
def change : LayerCall → List (String × Polygon) → List (String × Polygon)
  | add _ label polygon, polygons => polygons ++ [(label, polygon)]
  | load _ polygons, _ => polygons

/-- The labelled polygons of a layer after some calls, empty ones included: those of its last load and those added
since. -/
def listed (calls : List LayerCall) (layer : String) : List (String × Polygon) :=
  calls.foldl (fun polygons c => if c.layer = layer then c.change polygons else polygons) []

/-- The calls about one layer. -/
def about (layer : String) (calls : List LayerCall) : List LayerCall := calls.filter fun c => c.layer = layer

/-- Some polygons, each added by a call of its own. -/
def adding (layer : String) (polygons : List (String × Polygon)) : List LayerCall :=
  polygons.map fun p => .add layer p.1 p.2

/-- The labelled polygons of a layer that are not empty. -/
def present (calls : List LayerCall) (layer : String) : List (String × Polygon) :=
  (listed calls layer).filter fun p => !p.2.shell.isEmpty

theorem listed_concat (calls : List LayerCall) (c : LayerCall) (layer : String) :
    listed (calls ++ [c]) layer = if c.layer = layer then c.change (listed calls layer) else listed calls layer :=
  List.foldl_append ..

/-- **Other layers' calls** do not change the list of a layer. -/
theorem listed_about (calls : List LayerCall) (layer : String) :
    listed (about layer calls) layer = listed calls layer := by
  rw [listed, about, List.foldl_filter, listed]
  congr 1
  funext polygons c
  by_cases h : c.layer = layer <;> simp [h]

theorem listed_of_no_call {calls : List LayerCall} {layer : String} (h : ∀ c ∈ calls, c.layer ≠ layer) :
    listed calls layer = [] := by
  have hnone : about layer calls = [] := List.filter_eq_nil_iff.2 fun c hc => by simpa using h c hc
  rw [← listed_about, hnone]
  rfl

theorem listed_append_adding (calls : List LayerCall) (layer : String) (polygons : List (String × Polygon)) :
    listed (calls ++ adding layer polygons) layer = listed calls layer ++ polygons := by
  induction polygons using List.reverseRecOn with
  | nil => simp [adding]
  | append_singleton polygons p ih =>
    have hsnoc : adding layer (polygons ++ [p]) = adding layer polygons ++ [.add layer p.1 p.2] := List.map_append ..
    rw [hsnoc, ← List.append_assoc, listed_concat, ih, if_pos (by rfl), ← List.append_assoc]
    rfl

end LayerCall

namespace ReferenceLayers

def perform (r : ReferenceLayers) : LayerCall → ReferenceLayers
  | .add layer label polygon => r.add layer label polygon
  | .load layer polygons => r.load layer polygons

/-- The layers after some calls, to begin with none. -/
def after (search : TreeSearch) (calls : List LayerCall) : ReferenceLayers := calls.foldl perform (searchedBy search)

/-! ## Numbers -/

/-- The shapes of some labelled polygons. -/
def shapesOf (polygons : List (String × Polygon)) : List ReferenceShape :=
  numbered (polygons.filterMap fun p => shape? p.1 p.2 0)

theorem numbered_concat (shapes : List ReferenceShape) (shape : ReferenceShape) :
    numbered (shapes ++ [shape]) = numbered shapes ++ [{ shape with order := shapes.length }] := by
  rw [numbered, numbered, List.zipIdx_append, List.map_append]
  simp

theorem length_numbered (shapes : List ReferenceShape) : (numbered shapes).length = shapes.length := by
  rw [numbered, List.length_map, List.length_zipIdx]

/-- **Numbers grow** from each shape to the next. -/
theorem pairwise_numbered (shapes : List ReferenceShape) : (numbered shapes).Pairwise fun a b => a.order < b.order := by
  have hplaces : (shapes.zipIdx.map Prod.snd).Pairwise (· < ·) := by
    rw [List.zipIdx_map_snd]
    exact List.pairwise_lt_range'
  exact List.pairwise_map.2 (List.pairwise_map.1 hplaces)

/-- **A polygon more** becomes a shape with the number of those before it, or none if it is empty. -/
theorem shapesOf_concat (polygons : List (String × Polygon)) (label : String) (polygon : Polygon) :
    shapesOf (polygons ++ [(label, polygon)]) =
      shapesOf polygons ++ (shape? label polygon (shapesOf polygons).length).toList := by
  rw [shapesOf, shapesOf, List.filterMap_append, length_numbered]
  cases hbox : polygon.region.box? with
  | none => simp [shape?, hbox]
  | some box => simp [shape?, hbox, numbered_concat]

/-! ## The lists of the layers -/

/-- Whether the trees hold what the calls say, in its order. -/
structure Lists (r : ReferenceLayers) (calls : List LayerCall) : Prop where
  shapes : ∀ layer, (r.tree layer).shapes = shapesOf (LayerCall.listed calls layer)
  hasLayer : ∀ layer, r.hasLayer layer = true ↔ ∃ c ∈ calls, c.layer = layer

/-- A call about a layer replaces its tree. -/
theorem perform_eq (r : ReferenceLayers) (c : LayerCall) :
    ∃ t : ShapeTree, r.perform c = { r with layers := r.layers.insert c.layer t } ∧
      ∀ polygons, (r.tree c.layer).shapes = shapesOf polygons → t.shapes = shapesOf (c.change polygons) := by
  cases c with
  | add layer label polygon =>
    refine ⟨_, rfl, fun polygons h => ?_⟩
    rw [LayerCall.layer] at h
    rw [LayerCall.change, shapesOf_concat, ← h, ShapeTree.size]
    cases shape? label polygon (r.tree layer).shapes.length with
    | none => exact (List.append_nil _).symm
    | some shape => exact ShapeTree.shapes_inserted ..
  | load layer polygons => exact ⟨_, rfl, fun _ _ => ShapeTree.shapes_loaded _⟩

/-- **A call** keeps the trees as the lists say. -/
theorem Lists.perform {r : ReferenceLayers} {calls : List LayerCall} (h : r.Lists calls) (c : LayerCall) :
    (r.perform c).Lists (calls ++ [c]) := by
  obtain ⟨t, heq, ht⟩ := r.perform_eq c
  rw [heq]
  constructor
  · intro layer
    rw [LayerCall.listed_concat, tree, Std.HashMap.getD_insert]
    by_cases hlayer : c.layer = layer
    · subst hlayer
      rw [if_pos rfl, if_pos (by exact beq_self_eq_true _)]
      exact ht _ (h.shapes c.layer)
    · rw [if_neg hlayer, if_neg (by simpa using hlayer)]
      exact h.shapes layer
  · intro layer
    rw [ReferenceLayers.hasLayer, Std.HashMap.contains_insert, Bool.or_eq_true, beq_iff_eq, ← ReferenceLayers.hasLayer,
      h.hasLayer layer]
    simp only [List.mem_append, List.mem_singleton, or_and_right, exists_or, exists_eq_left]
    exact or_comm

/-- **All calls** lead to trees as the lists say. -/
theorem lists_after (search : TreeSearch) (calls : List LayerCall) : (after search calls).Lists calls := by
  induction calls using List.reverseRecOn with
  | nil =>
    constructor
    · exact fun _ => congrArg ShapeTree.shapes Std.HashMap.getD_empty
    · intro layer
      simp [after, searchedBy, ReferenceLayers.hasLayer]
  | append_singleton calls c ih =>
    rw [after, List.foldl_append]
    exact ih.perform c

/-! ## Queries -/

theorem candidates_perm (r : ReferenceLayers) (layer : String) (probe : Probe) :
    (r.candidates layer probe).Perm ((r.tree layer).shapes.filter fun s => probe.box?.any s.box.meets) := by
  rw [candidates, tree, Std.HashMap.getD_eq_getD_getElem?]
  cases r.layers[layer]? with
  | none => exact .refl []
  | some t =>
    cases probe.box? with
    | none => simp
    | some box => exact r.search.meeting_perm t box

/-- **A query** finds the shapes of the layer in its order, those with a box that meets the probe's and that pass. -/
theorem Lists.matching_eq {r : ReferenceLayers} {calls : List LayerCall} (h : r.Lists calls) (layer : String)
    (probe : Probe) (test : ReferenceShape → Bool) :
    r.matching layer probe test =
      (shapesOf (LayerCall.listed calls layer)).filter fun s => probe.box?.any s.box.meets && test s := by
  have hperm := (r.candidates_perm layer probe).filter test
  rw [h.shapes, List.filter_filter] at hperm
  simp only [Bool.and_comm (test _)] at hperm
  exact SortByKey.mergeSort_eq_of_perm ReferenceShape.order hperm ((pairwise_numbered _).filter _)

/-! ## Labelled polygons -/

theorem polygon_box_of_mem {polygons : List (String × Polygon)} {s : ReferenceShape} (h : s ∈ shapesOf polygons) :
    s.polygon.region.box? = some s.box := by
  obtain ⟨⟨first, place⟩, hplace, rfl⟩ := List.mem_map.1 h
  obtain ⟨p, -, hp⟩ := List.mem_filterMap.1 (List.fst_mem_of_mem_zipIdx hplace)
  obtain ⟨box, hbox, rfl⟩ := Option.map_eq_some_iff.1 hp
  exact hbox

theorem map_named_shapesOf (polygons : List (String × Polygon)) :
    (shapesOf polygons).map ReferenceShape.named = polygons.filter fun p => !p.2.shell.isEmpty := by
  have hnumbered : (shapesOf polygons).map ReferenceShape.named =
      (polygons.filterMap fun p => shape? p.1 p.2 0).map ReferenceShape.named := by
    rw [shapesOf, numbered, List.map_map]
    conv => rhs; rw [← List.zipIdx_map_fst 0 (polygons.filterMap fun p => shape? p.1 p.2 0), List.map_map]
    rfl
  rw [hnumbered, List.map_filterMap, ← List.filterMap_eq_filter]
  congr 1
  funext ⟨label, polygon⟩
  obtain ⟨shell, holes⟩ := polygon
  cases shell <;> rfl

/-- **A query**, in labels and polygons. -/
theorem Lists.map_named_matching {r : ReferenceLayers} {calls : List LayerCall} (h : r.Lists calls) (layer : String)
    (probe : Probe) (test : Polygon → Bool) :
    (r.matching layer probe fun s => test s.polygon).map ReferenceShape.named =
      (LayerCall.present calls layer).filter fun p => probe.near p.2 && test p.2 := by
  rw [h.matching_eq, LayerCall.present, ← map_named_shapesOf, List.filter_map]
  congr 1
  refine List.filter_congr fun s hs => ?_
  rw [Function.comp_apply, ReferenceShape.named, Probe.near, polygon_box_of_mem hs]
  cases probe.box? <;> rfl

/-- Whether the answers for a layer are those that the list of its labelled polygons gives. -/
structure AnswersAs (r : ReferenceLayers) (layer : String) (polygons : List (String × Polygon)) : Prop where
  shapeCount : r.shapeCount layer = polygons.length
  intersecting : ∀ probe : Probe, (r.intersecting layer probe).map ReferenceShape.named =
    polygons.filter fun p => probe.near p.2 && probe.meets p.2
  covering : ∀ probe : Probe, (r.covering layer probe).map ReferenceShape.named =
    polygons.filter fun p => probe.near p.2 && probe.coveredBy p.2

/-- Whether two sets of layers answer the same for one of them. -/
structure AgreeOn (layer : String) (r t : ReferenceLayers) : Prop where
  shapeCount : r.shapeCount layer = t.shapeCount layer
  intersecting : ∀ probe, r.intersecting layer probe = t.intersecting layer probe
  covering : ∀ probe, r.covering layer probe = t.covering layer probe

theorem Lists.answersAs {r : ReferenceLayers} {calls : List LayerCall} (h : r.Lists calls) (layer : String) :
    r.AnswersAs layer (LayerCall.present calls layer) where
  shapeCount := by
    rw [ReferenceLayers.shapeCount, ShapeTree.size, h.shapes, LayerCall.present, ← map_named_shapesOf, List.length_map]
  intersecting probe := h.map_named_matching layer probe fun p => probe.meets p
  covering probe := h.map_named_matching layer probe fun p => probe.coveredBy p

/-- **Layers with the same list** answer the same, however they were built. -/
theorem Lists.agreeOn {r t : ReferenceLayers} {calls calls' : List LayerCall} (hr : r.Lists calls) (ht : t.Lists calls')
    {layer : String} (h : LayerCall.listed calls layer = LayerCall.listed calls' layer) : AgreeOn layer r t where
  shapeCount := by
    rw [ReferenceLayers.shapeCount, ReferenceLayers.shapeCount, ShapeTree.size, ShapeTree.size, hr.shapes, ht.shapes, h]
  intersecting probe := by
    rw [ReferenceLayers.intersecting, ReferenceLayers.intersecting, hr.matching_eq, ht.matching_eq, h]
  covering probe := by
    rw [ReferenceLayers.covering, ReferenceLayers.covering, hr.matching_eq, ht.matching_eq, h]

/-- **Layers answer as lists.**  After any calls, a layer answers as the list of the polygons that were loaded into it
last and added to it since, without the empty ones: a query gives those with a box that meets the shape's and that pass
the exact test, each once and in that order, however trees are searched.  Only the calls about the layer count, and the
layer is there if there was one.  To load a list and to add it one by one to a layer that is not there gives the same
answers. -/
theorem answers_as_list (search : TreeSearch) (calls : List LayerCall) (layer : String) :
    (after search calls).AnswersAs layer (LayerCall.present calls layer) ∧
    ((after search calls).hasLayer layer = true ↔ ∃ c ∈ calls, c.layer = layer) ∧
    AgreeOn layer (after search calls) (after search (LayerCall.about layer calls)) ∧
    ∀ fresh polygons, (after search fresh).hasLayer layer = false →
      let loaded := after search (calls ++ [.load layer polygons])
      let added := after search (fresh ++ LayerCall.adding layer polygons)
      AgreeOn layer loaded added ∧ (polygons ≠ [] → loaded.hasLayer layer = true ∧ added.hasLayer layer = true) := by
  have hlists := lists_after search
  refine ⟨(hlists calls).answersAs layer, (hlists calls).hasLayer layer,
    (hlists calls).agreeOn (hlists _) (LayerCall.listed_about calls layer).symm, fun fresh polygons hfresh => ⟨?_, ?_⟩⟩
  · have hnone := LayerCall.listed_of_no_call fun c hc hlayer =>
      Bool.eq_false_iff.1 hfresh (((hlists fresh).hasLayer layer).2 ⟨c, hc, hlayer⟩)
    refine (hlists _).agreeOn (hlists _) ?_
    rw [LayerCall.listed_concat, if_pos (by rfl), LayerCall.listed_append_adding, hnone]
    rfl
  · intro hne
    obtain ⟨p, rest, rfl⟩ := List.exists_cons_of_ne_nil hne
    refine ⟨((hlists _).hasLayer layer).2 ⟨.load layer (p :: rest), ?_, rfl⟩,
      ((hlists _).hasLayer layer).2 ⟨.add layer p.1 p.2, ?_, rfl⟩⟩
    · simp
    · simp [LayerCall.adding]

/-! ## Layers that are searched from the newest shape on -/

def newestFirst : TreeSearch :=
  ⟨fun tree box => (tree.shapes.filter fun s => s.box.meets box).reverse, fun _ _ => List.reverse_perm _⟩

def oldTown : String × Polygon := ("old town", ⟨[⟨0, 0⟩, ⟨4, 0⟩, ⟨0, 3⟩, ⟨0, 0⟩], []⟩)

def newTown : String × Polygon := ("new town", ⟨[⟨1, 0⟩, ⟨5, 0⟩, ⟨1, 3⟩, ⟨1, 0⟩], []⟩)

def townPolygons : List (String × Polygon) := [oldTown, ("none", ⟨[], []⟩), newTown]

def lakeCalls : List LayerCall := [.add "lakes" "lake" ⟨[⟨2, 2⟩, ⟨3, 2⟩, ⟨2, 3⟩, ⟨2, 2⟩], []⟩]

/-- Both towns are at one point, and the old one was there first. -/
theorem answers_as_list_towns :
    let added := after newestFirst (lakeCalls ++ LayerCall.adding "towns" townPolygons)
    (after newestFirst lakeCalls).hasLayer "towns" = false ∧
    AgreeOn "towns" (after newestFirst (lakeCalls ++ [.load "towns" townPolygons])) added ∧
    added.hasLayer "towns" = true ∧ added.shapeCount "towns" = 2 ∧
    (added.intersecting "towns" (.point ⟨1, 1⟩)).map ReferenceShape.named = [oldTown, newTown] := by
  intro added
  obtain ⟨-, hlayers, -, hfresh⟩ := answers_as_list newestFirst lakeCalls "towns"
  have hnone : (after newestFirst lakeCalls).hasLayer "towns" = false :=
    Bool.eq_false_iff.2 fun h => by simpa [lakeCalls, LayerCall.layer] using hlayers.1 h
  obtain ⟨hagree, hthere⟩ := hfresh lakeCalls townPolygons hnone
  obtain ⟨hanswers, -⟩ := answers_as_list newestFirst (lakeCalls ++ LayerCall.adding "towns" townPolygons) "towns"
  refine ⟨hnone, hagree, (hthere (by simp [townPolygons])).2, hanswers.shapeCount, ?_⟩
  exact (hanswers.intersecting (.point ⟨1, 1⟩)).trans (by decide +kernel)

end ReferenceLayers
end MapFeatures
