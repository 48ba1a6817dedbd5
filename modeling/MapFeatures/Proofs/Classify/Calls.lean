import Mathlib.Data.List.Induction
import MapFeatures.Proofs.Classify.Kept
/-!
# Calls — what a call answers and what it does, after any others

A call answers what it would answer as the first one for the element (`Holds.answer_eq`), since the shapes that are kept
are the right ones, and the same in any surroundings that agree (`Holds.answer_alike`).  It makes the features that it
would make then, at most one and only if it says so (`Holds.draws_cases`), and changes at most the feature made last; an
attribute that it sets is recorded for the layer of that feature (`Holds.steps_answer`).
-/
namespace MapFeatures

/-- Whether a call is answered by the index of the store. -/
def Call.asksIndex : Call → Bool
  | relationIds => true
  | findInRelation _ _ => true
  | _ => false

/-! ## Features that are drawn -/

/-- The feature of an element in a layer, without attributes. -/
def Element.featureIn (e : Element) (layer : String) (geometry : Geometry) : Feature :=
  ⟨layer, geometry, [], 0, e.kind, e.featureId⟩

/-- The shape to draw, if there is one. -/
def drawn : Except ProcessingError (Option Geometry) → List Geometry
  | .ok geometry => geometry.toList
  | .error _ => []

namespace Context

open Building

variable {α : Type} {env : Surroundings} {e : Element} {c d : Context}

/-- Work changes nothing of a context but its element and what there is to tell. -/
theorem work_frame (c : Context) (idle : α) (w : Building α) :
    (c.work idle w).2.stage = c.stage ∧ (c.work idle w).2.metadata = c.metadata ∧
      (c.work idle w).2.features = c.features := by
  obtain ⟨phase, features, metadata, notices⟩ := c
  cases phase with
  | idle => exact ⟨rfl, rfl, rfl⟩
  | loaded l => exact ⟨rfl, rfl, rfl⟩
  | classified l => exact ⟨rfl, rfl, rfl⟩

theorem emit_of_holds (h : c.Holds env e) (layer : String) (geometry : Option Geometry) :
    (c.emit layer geometry).1 = geometry.isSome ∧
      (c.emit layer geometry).2.features = c.features ++ geometry.toList.map (e.featureIn layer) := by
  unfold emit
  rw [h.element?_eq]
  cases geometry with
  | none => exact ⟨rfl, (List.append_nil _).symm⟩
  | some geometry => exact ⟨rfl, rfl⟩

theorem assignWith_of_gives {build : Building (Option Geometry)} {r : Except ProcessingError (Option Geometry)}
    (h : c.Holds env e) (hr : Gives env e build r) (layer : String) :
    (c.assignWith layer build).1 = r.map Option.isSome ∧
      (c.assignWith layer build).2.features = c.features ++ (drawn r).map (e.featureIn layer) := by
  obtain ⟨hanswer, hholds, hfeatures⟩ := work_of_gives h hr none
  unfold assignWith
  generalize c.work none build = after at hanswer hholds hfeatures
  obtain ⟨result, c'⟩ := after
  dsimp only at hanswer hholds hfeatures
  subst hanswer
  rw [← hfeatures]
  cases result with
  | error err => exact ⟨rfl, (List.append_nil _).symm⟩
  | ok geometry =>
    obtain ⟨hmade, hadded⟩ := emit_of_holds hholds layer geometry
    exact ⟨congrArg Except.ok hmade, hadded⟩

theorem emit_frame (c : Context) (layer : String) (geometry : Option Geometry) :
    (c.emit layer geometry).2.stage = c.stage ∧ (c.emit layer geometry).2.metadata = c.metadata := by
  unfold emit
  split
  · exact ⟨rfl, rfl⟩
  · exact ⟨rfl, rfl⟩

theorem assignWith_frame (c : Context) (layer : String) (build : Building (Option Geometry)) :
    (c.assignWith layer build).2.stage = c.stage ∧ (c.assignWith layer build).2.metadata = c.metadata := by
  obtain ⟨hstage, hmetadata, -⟩ := c.work_frame none build
  unfold assignWith
  rw [← hstage, ← hmetadata]
  generalize c.work none build = after
  match after with
  | (.error err, c') => exact ⟨rfl, rfl⟩
  | (.ok geometry, c') => exact c'.emit_frame layer geometry

/-! ## Answers -/

section

variable {env' : Surroundings} {d : Context}

theorem Holds.work_eq {w w' : Building α} (hc : c.Holds env e) (hd : d.Holds env' e) (hw : Alike env env' e w w')
    (idle : α) : (c.work idle w).1 = (d.work idle w').1 := by
  obtain ⟨r, hr, hr'⟩ := hw
  rw [(work_of_gives hc hr idle).1, (work_of_gives hd hr' idle).1]

theorem Holds.query_eq (hc : c.Holds env e) (hd : d.Holds env' e) (h : Agrees env env' e) (absent : α)
    (ask : ReferenceLayers → Probe → α) :
    (c.work absent (query env absent (ask env.layers))).1 = (d.work absent (query env' absent (ask env'.layers))).1 := by
  rw [h.layers]
  exact hc.work_eq hd ((alike_probe h).bind_pure _) absent

theorem Holds.assignWith_eq {build build' : Building (Option Geometry)} (hc : c.Holds env e) (hd : d.Holds env' e)
    (hbuild : Alike env env' e build build') (layer : String) :
    (c.assignWith layer build).1 = (d.assignWith layer build').1 := by
  obtain ⟨r, hr, hr'⟩ := hbuild
  rw [(assignWith_of_gives hc hr layer).1, (assignWith_of_gives hd hr' layer).1]

/-- **Two contexts with right shapes of an element answer alike** where their surroundings agree; the relations of ways
and the tags of relations are asked of the index. -/
theorem Holds.answer_alike (hc : c.Holds env e) (hd : d.Holds env' e) (h : Agrees env env' e) (hstage : c.stage = d.stage)
    (call : Call) (hindex : call.asksIndex = true → env.store.index = env'.store.index) :
    (c.answer env call).1 = (d.answer env' call).1 := by
  have helement : c.element? = d.element? := hc.element?_eq.trans hd.element?_eq.symm
  cases call with
  | stage => exact hstage
  | kind => exact congrArg (Option.map Element.kind) helement
  | id => exact congrArg (fun found => (Option.map Element.id found).getD 0) helement
  | tags => exact congrArg (Option.map Element.tags) helement
  | has key => exact congrArg (fun found => (Option.map (fun e => e.tags.contains key) found).getD false) helement
  | find key => exact congrArg (fun found => (Option.map (fun e => e.tag key) found).getD "") helement
  | relationIds =>
    change c.relationIds env = d.relationIds env'
    rw [relationIds, relationIds, helement, hindex rfl]
  | findInRelation relation key => exact congrArg (·.tagValue relation key) (hindex rfl)
  | isClosedRing => exact congrArg (fun found => (Option.map Element.isClosed found).getD false) helement
  | area => exact hc.work_eq hd (alike_area h) 0
  | length => exact hc.work_eq hd (alike_length h) 0
  | overlapArea layer => exact hc.query_eq hd h 0 fun layers p => layers.overlap layer p
  | intersects layer => exact hc.query_eq hd h false fun layers p => (layers.intersectingOnce? layer p).isSome
  | coveredBy layer => exact hc.query_eq hd h false fun layers p => (layers.coveringOnce? layer p).isSome
  | intersectingLabels layer => exact hc.query_eq hd h [] fun layers p => labels (layers.intersecting layer p)
  | coveringLabels layer => exact hc.query_eq hd h [] fun layers p => labels (layers.covering layer p)
  | assign layer area => exact hc.assignWith_eq hd (alike_geometry h area) layer
  | assignCentroid layer => exact hc.assignWith_eq hd ((alike_centroid h).bind_pure _) layer
  | setAttribute a => rfl
  | setMinZoom minZoom => rfl

end

/-- **In the same surroundings they always do.** -/
theorem Holds.answer_eq (hc : c.Holds env e) (hd : d.Holds env e) (hstage : c.stage = d.stage) (call : Call) :
    (c.answer env call).1 = (d.answer env call).1 :=
  hc.answer_alike hd (.refl env e) hstage call fun _ => rfl

end Context

/-! ## Effects -/

namespace Call

def attribute? : Call → Option Attribute
  | setAttribute a => some a
  | _ => none

def minZoom? : Call → Option UInt8
  | setMinZoom minZoom => some minZoom
  | _ => none

/-- What a call does to the feature made last. -/
def change : Call → Feature → Feature
  | setAttribute a => fun f => { f with attributes := Attributes.set a f.attributes }
  | setMinZoom minZoom => fun f => { f with minZoom }
  | _ => fun f => f

/-- The features that a call makes of an element as the first call of a new context. -/
def draws (env : Surroundings) (e : Element) (call : Call) : List Feature :=
  ((Context.empty.begin e).answer env call).2.features

theorem draws_eq {env env' : Surroundings} {e : Element} (h : Building.Agrees env env' e) (call : Call) :
    call.draws env e = call.draws env' e := by
  have hassign : ∀ {build build'} (layer : String), Building.Alike env env' e build build' →
      ((Context.empty.begin e).assignWith layer build).2.features =
        ((Context.empty.begin e).assignWith layer build').2.features := by
    rintro build build' layer ⟨r, hr, hr'⟩
    rw [(Context.assignWith_of_gives (Context.holds_begin .empty) hr layer).2,
      (Context.assignWith_of_gives (Context.holds_begin .empty) hr' layer).2]
  cases call with
  | assign layer area => exact hassign layer (Building.alike_geometry h area)
  | assignCentroid layer => exact hassign layer ((Building.alike_centroid h).bind_pure _)
  | _ => exact (rfl : _ = ([] : List Feature)).trans rfl

end Call

/-- The metadata once an attribute is set, given the feature made last. -/
def LayerMetadata.recorded (m : LayerMetadata) : Option Feature → Option Attribute → LayerMetadata
  | some f, some a => m.record f.layer a.key a.value.type
  | _, _ => m

@[simp] theorem LayerMetadata.recorded_none (m : LayerMetadata) (last : Option Feature) : m.recorded last none = m := by
  cases last with
  | none => rfl
  | some f => rfl

/-- A call and its answer. -/
structure Asked where
  call : Call
  answer : call.Answer

/-- The layer of the feature that a call made, if the answer says that it made one. -/
def Asked.layer? : Asked → Option String
  | ⟨.assign layer _, .ok true⟩ => some layer
  | ⟨.assignCentroid layer, .ok true⟩ => some layer
  | _ => none

namespace Context

variable {env : Surroundings} {e : Element} {c : Context}

@[simp] theorem changeLast_id : ∀ fs : List Feature, changeLast id fs = fs
  | [] => rfl
  | [_] => rfl
  | f :: g :: rest => congrArg (f :: ·) (changeLast_id (g :: rest))

@[simp] theorem changeLast_concat (change : Feature → Feature) (f : Feature) :
    ∀ fs : List Feature, changeLast change (fs ++ [f]) = fs ++ [change f]
  | [] => rfl
  | [_] => rfl
  | g :: g' :: rest => congrArg (g :: ·) (changeLast_concat change f (g' :: rest))

theorem changeLast_changeLast (first second : Feature → Feature) (fs : List Feature) :
    changeLast second (changeLast first fs) = changeLast (second ∘ first) fs := by
  induction fs using List.reverseRecOn with
  | nil => rfl
  | append_singleton fs f _ => simp

theorem getLast?_changeLast (change : Feature → Feature) (fs : List Feature) :
    (changeLast change fs).getLast? = fs.getLast?.map change := by
  induction fs using List.reverseRecOn with
  | nil => rfl
  | append_singleton fs f _ => simp

/-- Whether a context comes of another by a change of the feature made last and by more features, and an attribute that
is set is recorded for that feature. -/
structure Steps (c c' : Context) (change : Feature → Feature) (made : List Feature) (attribute? : Option Attribute) :
    Prop where
  stage : c'.stage = c.stage
  features : c'.features = changeLast change c.features ++ made
  metadata : c'.metadata = c.metadata.recorded c.features.getLast? attribute?

open Building

theorem Steps.quiet {c c' : Context} (hstage : c'.stage = c.stage) (hmetadata : c'.metadata = c.metadata)
    {made : List Feature} (hfeatures : c'.features = c.features ++ made) : Steps c c' id made none where
  stage := hstage
  features := by rw [hfeatures, changeLast_id]
  metadata := by rw [hmetadata, LayerMetadata.recorded_none]

theorem Steps.refl (c : Context) : Steps c c id [] none := .quiet rfl rfl (List.append_nil _).symm

theorem steps_work {α : Type} (c : Context) (e : Element) (idle : α) (w : Building α) :
    Steps c (c.work idle w).2 id ((empty.begin e).work idle w).2.features none := by
  obtain ⟨hstage, hmetadata, hfeatures⟩ := c.work_frame idle w
  refine .quiet hstage hmetadata ?_
  rw [hfeatures, ((empty.begin e).work_frame idle w).2.2]
  exact (List.append_nil _).symm

theorem Holds.steps_assignWith {build : Building (Option Geometry)} (h : c.Holds env e) (hbuild : Steady env e build)
    (layer : String) :
    Steps c (c.assignWith layer build).2 id ((empty.begin e).assignWith layer build).2.features none := by
  obtain ⟨r, hr⟩ := hbuild
  obtain ⟨hstage, hmetadata⟩ := c.assignWith_frame layer build
  refine .quiet hstage hmetadata ?_
  rw [(assignWith_of_gives h hr layer).2, (assignWith_of_gives (holds_begin empty) hr layer).2]
  rfl

theorem steps_setAttribute (c : Context) (a : Attribute) :
    Steps c (c.setAttribute a) (Call.setAttribute a).change [] (some a) := by
  unfold setAttribute
  cases hlast : c.features.getLast? with
  | none =>
    have hnil := List.getLast?_eq_none_iff.1 hlast
    exact ⟨rfl, by simp [hnil, changeLast], by rw [hlast]; rfl⟩
  | some f => exact ⟨rfl, (List.append_nil _).symm, by rw [hlast]; rfl⟩

theorem steps_setMinZoom (c : Context) (minZoom : UInt8) :
    Steps c (c.setMinZoom minZoom) (Call.setMinZoom minZoom).change [] none := by
  unfold setMinZoom
  split
  · next hempty => exact ⟨rfl, by simp [List.isEmpty_iff.1 hempty, changeLast], by simp⟩
  · exact ⟨rfl, (List.append_nil _).symm, by simp⟩

/-- **A call makes what it would make as the first call**, changes the feature made last, and records the attribute that
it sets. -/
theorem Holds.steps_answer (h : c.Holds env e) (call : Call) :
    Steps c (c.answer env call).2 call.change (call.draws env e) call.attribute? := by
  cases call with
  | area => exact c.steps_work e _ _
  | length => exact c.steps_work e _ _
  | overlapArea layer => exact c.steps_work e _ _
  | intersects layer => exact c.steps_work e _ _
  | coveredBy layer => exact c.steps_work e _ _
  | intersectingLabels layer => exact c.steps_work e _ _
  | coveringLabels layer => exact c.steps_work e _ _
  | assign layer area => exact h.steps_assignWith (steady_geometry area) layer
  | assignCentroid layer => exact h.steps_assignWith (steady_centroid.bind_pure _) layer
  | setAttribute a => exact c.steps_setAttribute a
  | setMinZoom minZoom => exact c.steps_setMinZoom minZoom
  | stage => exact .refl c
  | kind => exact .refl c
  | id => exact .refl c
  | tags => exact .refl c
  | has key => exact .refl c
  | find key => exact .refl c
  | relationIds => exact .refl c
  | findInRelation relation key => exact .refl c
  | isClosedRing => exact .refl c

theorem Holds.assignWith_cases {build : Building (Option Geometry)} (h : c.Holds env e) (hbuild : Steady env e build)
    (layer : String) : ∃ r : Except ProcessingError (Option Geometry),
      (c.assignWith layer build).1 = r.map Option.isSome ∧
        ((empty.begin e).assignWith layer build).2.features = (drawn r).map (e.featureIn layer) := by
  obtain ⟨r, hr⟩ := hbuild
  exact ⟨r, (assignWith_of_gives h hr layer).1, (assignWith_of_gives (holds_begin empty) hr layer).2⟩

/-- **What a call makes, and whether it says so**: nothing, or one feature in its layer. -/
theorem Holds.draws_cases (h : c.Holds env e) (call : Call) :
    (Asked.layer? ⟨call, (c.answer env call).1⟩ = none ∧ call.draws env e = []) ∨
      ∃ layer geometry, Asked.layer? ⟨call, (c.answer env call).1⟩ = some layer ∧
        call.draws env e = [e.featureIn layer geometry] := by
  cases call with
  | assign layer area =>
    obtain ⟨r, hanswer, hmade⟩ := h.assignWith_cases (steady_geometry area) layer
    change (c.answer env (.assign layer area)).1 = _ at hanswer
    change (Call.assign layer area).draws env e = _ at hmade
    rw [hanswer, hmade]
    match r with
    | .error err => exact Or.inl ⟨rfl, rfl⟩
    | .ok none => exact Or.inl ⟨rfl, rfl⟩
    | .ok (some geometry) => exact Or.inr ⟨layer, geometry, rfl, rfl⟩
  | assignCentroid layer =>
    obtain ⟨r, hanswer, hmade⟩ := h.assignWith_cases (steady_centroid.bind_pure _) layer
    change (c.answer env (.assignCentroid layer)).1 = _ at hanswer
    change (Call.assignCentroid layer).draws env e = _ at hmade
    rw [hanswer, hmade]
    match r with
    | .error err => exact Or.inl ⟨rfl, rfl⟩
    | .ok none => exact Or.inl ⟨rfl, rfl⟩
    | .ok (some geometry) => exact Or.inr ⟨layer, geometry, rfl, rfl⟩
  | _ => exact Or.inl ⟨rfl, rfl⟩

end Context
end MapFeatures
