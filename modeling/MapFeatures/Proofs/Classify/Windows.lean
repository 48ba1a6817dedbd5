import Mathlib.Data.List.Forall2
import MapFeatures.Proofs.Classify.Runs
import MapFeatures.Proofs.Feature.Attributes
/-!
# Windows — the features of an element, read off the log of its calls

The log is cut where a call made a feature (`windows`).  Each window gives one feature: what its call draws, with the
attributes and the minimum zoom that were set before the next feature (`Holds.features_after`).  Attributes are recorded
for the layer of their window (`Holds.metadata_after`); what is asked before the first feature leaves nothing.
-/
namespace MapFeatures

/-- A feature that was made in a layer, and the calls after it until the next one. -/
structure Window where
  layer : String
  call : Call
  later : List Call

/-- The calls until the next feature. -/
def beforeNext (log : List Asked) : List Call := (log.takeWhile (·.layer?.isNone)).map Asked.call

def windows : List Asked → List Window
  | [] => []
  | a :: log =>
    match a.layer? with
    | some layer => ⟨layer, a.call, beforeNext log⟩ :: windows log
    | none => windows log

/-- The attributes that some calls set, with the layer that they are recorded for. -/
def recordsIn (layer : String) (calls : List Call) : List (String × Attribute) :=
  (calls.filterMap Call.attribute?).map (layer, ·)

def LayerMetadata.recordAll (m : LayerMetadata) (records : List (String × Attribute)) : LayerMetadata :=
  records.foldl (fun m r => m.record r.1 r.2.key r.2.value.type) m

namespace Window

def attributes (w : Window) : List Attribute := w.later.filterMap Call.attribute?

def minZooms (w : Window) : List UInt8 := w.later.filterMap Call.minZoom?

def records (w : Window) : List (String × Attribute) := recordsIn w.layer w.later

/-- Whether a feature of an element is what a window says. -/
structure Tells (env : Surroundings) (e : Element) (w : Window) (f : Feature) : Prop where
  drawn : w.call.draws env e = [{ f with attributes := [], minZoom := 0 }]
  layer : f.layer = w.layer
  kind : f.kind = e.kind
  id : f.id = e.featureId
  unique : (f.attributes.map Attribute.key).Nodup
  keys : f.attributes.map Attribute.key = (w.attributes.map Attribute.key).eraseDups
  value : ∀ key, f.attributes.get? key = (w.attributes.filter (·.key = key)).getLast?
  minZoom : f.minZoom = w.minZooms.getLast?.getD 0

end Window

/-! ## Changes -/

/-- A feature after some calls. -/
def Feature.changed (f : Feature) (calls : List Call) : Feature := calls.foldl (fun f call => call.change f) f

theorem Feature.changed_eq (f : Feature) (calls : List Call) :
    f.changed calls =
      { f with
        attributes := (calls.filterMap Call.attribute?).foldl (fun as a => Attributes.set a as) f.attributes
        minZoom := (calls.filterMap Call.minZoom?).getLast?.getD f.minZoom } := by
  induction calls generalizing f with
  | nil => rfl
  | cons call calls ih =>
    rw [changed, List.foldl_cons, ← changed, ih]
    cases call with
    | setMinZoom minZoom =>
      rw [List.filterMap_cons_none (rfl : (Call.setMinZoom minZoom).attribute? = none),
        List.filterMap_cons_some (rfl : (Call.setMinZoom minZoom).minZoom? = some minZoom), List.getLast?_cons]
      rfl
    | _ => rfl

theorem Call.layer_change (call : Call) (f : Feature) : (call.change f).layer = f.layer := by
  cases call with
  | _ => rfl

theorem Asked.of_layer? {a : Asked} {layer : String} (h : a.layer? = some layer) :
    a.call.change = id ∧ a.call.attribute? = none := by
  obtain ⟨call, answer⟩ := a
  cases call with
  | assign layer area => exact ⟨rfl, rfl⟩
  | assignCentroid layer => exact ⟨rfl, rfl⟩
  | _ => cases h

theorem beforeNext_cons_of_some {a : Asked} {layer : String} (h : a.layer? = some layer) (log : List Asked) :
    beforeNext (a :: log) = [] := by
  simp [beforeNext, h]

theorem beforeNext_cons_of_none {a : Asked} (h : a.layer? = none) (log : List Asked) :
    beforeNext (a :: log) = a.call :: beforeNext log := by
  simp [beforeNext, h]

theorem windows_cons_of_some {a : Asked} {layer : String} (h : a.layer? = some layer) (log : List Asked) :
    windows (a :: log) = ⟨layer, a.call, beforeNext log⟩ :: windows log := by
  rw [windows, h]

theorem windows_cons_of_none {a : Asked} (h : a.layer? = none) (log : List Asked) :
    windows (a :: log) = windows log := by
  rw [windows, h]

namespace Context

variable {env : Surroundings} {e : Element} {c : Context}

/-- **A feature that is drawn is, after the calls until the next one, what its window says.** -/
theorem tells_changed {call : Call} {layer : String} {geometry : Geometry}
    (hdraws : call.draws env e = [e.featureIn layer geometry]) (later : List Call) :
    Window.Tells env e ⟨layer, call, later⟩ ((e.featureIn layer geometry).changed later) := by
  rw [Feature.changed_eq]
  exact {
    drawn := hdraws
    layer := rfl
    kind := rfl
    id := rfl
    unique := Attributes.nodup_keys_foldl_set _
    keys := Attributes.keys_foldl_set _
    value := fun key => (Attributes.get?_foldl_set _ [] key).trans (Option.or_none)
    minZoom := rfl }

/-- **The features after some calls** are those before, of which the last one may be changed, and one for each window. -/
theorem Holds.features_after : ∀ (calls : List Call) {c : Context}, c.Holds env e →
    ∃ made, (c.after env calls).features =
        changeLast (·.changed (beforeNext (c.log env calls))) c.features ++ made ∧
      List.Forall₂ (Window.Tells env e) (windows (c.log env calls)) made
  | [], c, _ => by
    refine ⟨[], ?_, .nil⟩
    change c.features = changeLast id c.features ++ []
    rw [changeLast_id, List.append_nil]
  | call :: calls, c, h => by
    obtain ⟨made, hfeatures, htells⟩ := Holds.features_after calls (h.answer call)
    have hstep := (h.steps_answer call).features
    rcases h.draws_cases call with ⟨hnone, hdraws⟩ | ⟨layer, geometry, hsome, hdraws⟩
    · refine ⟨made, ?_, ?_⟩
      · rw [log, beforeNext_cons_of_none hnone, Context.after, hfeatures, hstep, hdraws, List.append_nil,
          changeLast_changeLast]
        rfl
      · rw [log, windows_cons_of_none hnone]
        exact htells
    · -- the feature made before is final, and the new one takes the calls until the next
      let new := (e.featureIn layer geometry).changed (beforeNext (log env (c.answer env call).2 calls))
      refine ⟨new :: made, ?_, ?_⟩
      · rw [log, beforeNext_cons_of_some hsome, Context.after, hfeatures, hstep, hdraws, (Asked.of_layer? hsome).1,
          changeLast_id, changeLast_concat, List.append_assoc]
        exact (congrArg (· ++ new :: made) (changeLast_id c.features)).symm
      · rw [log, windows_cons_of_some hsome]
        exact .cons (tells_changed hdraws _) htells

/-! ## Metadata -/

theorem recordAll_recordsIn_cons (m : LayerMetadata) (f : Feature) (call : Call) (calls : List Call)
    (records : List (String × Attribute)) :
    LayerMetadata.recordAll m (recordsIn f.layer (call :: calls) ++ records) =
      LayerMetadata.recordAll (LayerMetadata.recorded m (some f) call.attribute?)
        (recordsIn f.layer calls ++ records) := by
  unfold recordsIn
  cases hattribute : call.attribute? with
  | none =>
    rw [List.filterMap_cons_none hattribute]
    rfl
  | some a =>
    rw [List.filterMap_cons_some hattribute]
    rfl

/-- **The metadata after some calls** has the attributes of the feature made last before, and those of each window. -/
theorem Holds.metadata_after : ∀ (calls : List Call) {c : Context}, c.Holds env e →
    (c.after env calls).metadata = LayerMetadata.recordAll c.metadata
      ((c.features.getLast?.toList.flatMap fun f => recordsIn f.layer (beforeNext (c.log env calls))) ++
        (windows (c.log env calls)).flatMap Window.records)
  | [], c, _ => by
    cases hlast : c.features.getLast? with
    | none => rfl
    | some f => rfl
  | call :: calls, c, h => by
    have hstep := h.steps_answer call
    rw [Context.after, Holds.metadata_after calls (h.answer call), hstep.metadata, hstep.features, log]
    rcases h.draws_cases call with ⟨hnone, hdraws⟩ | ⟨layer, geometry, hsome, hdraws⟩
    · rw [hdraws, List.append_nil, getLast?_changeLast, beforeNext_cons_of_none hnone, windows_cons_of_none hnone]
      cases c.features.getLast? with
      | none => rfl
      | some f =>
        simp only [Option.map_some, Option.toList_some, List.flatMap_singleton, Call.layer_change]
        exact (recordAll_recordsIn_cons c.metadata f call _ _).symm
    · rw [hdraws, (Asked.of_layer? hsome).2, LayerMetadata.recorded_none, List.getLast?_concat, beforeNext_cons_of_some hsome,
        windows_cons_of_some hsome, List.flatMap_cons]
      have hnil : (c.features.getLast?.toList.flatMap fun f => recordsIn f.layer []) = [] := by
        simp [recordsIn]
      rw [hnil]
      simp [Element.featureIn, Window.records]

theorem Holds.prefix_after {call : Call} {layer : String} (h : c.Holds env e)
    (hmade : Asked.layer? ⟨call, (c.answer env call).1⟩ = some layer) (calls : List Call) :
    c.features <+: (c.after env (call :: calls)).features := by
  obtain ⟨made, hfeatures, -⟩ := h.features_after (call :: calls)
  rw [hfeatures, log, beforeNext_cons_of_some hmade]
  exact ⟨made, congrArg (· ++ made) (changeLast_id c.features).symm⟩

theorem Holds.features_answer_of_none {call : Call} (h : c.Holds env e)
    (hnone : Asked.layer? ⟨call, (c.answer env call).1⟩ = none) :
    (c.answer env call).2.features = changeLast call.change c.features := by
  rcases h.draws_cases call with ⟨-, hdraws⟩ | ⟨layer, geometry, hsome, -⟩
  · rw [(h.steps_answer call).features, hdraws, List.append_nil]
  · rw [hnone] at hsome
    cases hsome

/-- **A context that is new to an element** has in the end the features of the windows of the log. -/
theorem features_begin (start : Context) (e : Element) (calls : List Call) :
    List.Forall₂ (Window.Tells env e) (windows ((start.begin e).log env calls))
      ((start.begin e).after env calls).features := by
  obtain ⟨made, hfeatures, htells⟩ := (holds_begin start).features_after calls
  rw [hfeatures]
  exact htells

theorem metadata_begin (start : Context) (e : Element) (calls : List Call) :
    ((start.begin e).after env calls).metadata = LayerMetadata.recordAll start.metadata
      ((windows ((start.begin e).log env calls)).flatMap Window.records) :=
  (holds_begin start).metadata_after calls

/-- **The features of an element are those of the windows of its log**, one each and in their order, and what they say is
recorded.  A call that makes no feature changes at most the one made last, and only if it sets something; one that makes a
feature leaves those before it as they are for good. -/
theorem features_of_windows (env : Surroundings) (start : Context) (e : Element) (calls : List Call) :
    let begun := start.begin e
    let c := begun.after env calls
    let log := begun.log env calls
    List.Forall₂ (Window.Tells env e) (windows log) c.features ∧
      c.metadata = LayerMetadata.recordAll start.metadata ((windows log).flatMap Window.records) ∧
      ∀ pre call post, calls = pre ++ call :: post →
        let d := begun.after env pre
        match Asked.layer? ⟨call, (d.answer env call).1⟩ with
        | some _ => d.features <+: c.features
        | none => (d.answer env call).2.features = changeLast call.change d.features := by
  have hbegun : (start.begin e).Holds env e := holds_begin start
  refine ⟨features_begin start e calls, metadata_begin start e calls, ?_⟩
  rintro pre call post rfl
  have hd : ((start.begin e).after env pre).Holds env e := hbegun.after pre
  dsimp only
  rw [after_append]
  split
  · next hmade => exact hd.prefix_after hmade post
  · next hnone => exact hd.features_answer_of_none hnone

end Context

end MapFeatures
