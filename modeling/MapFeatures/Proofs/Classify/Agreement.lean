import MapFeatures.Proofs.Classify.Rules
import MapFeatures.Proofs.Classify.Windows
/-!
# Agreement — two runs of a script in surroundings that agree

They get the same answers and leave the same features (`Context.Twins.run`), whatever the contexts were used for before.
Surroundings agree on an element if their layers, their settings and what the element refers to are the same
(`agrees_ofNode`, `agrees_ofWay`, `agrees_ofRelation`).  Beyond that only the index can be asked, which rules never do
(`Config.only_classify`).
-/
namespace MapFeatures

/-! ## Scripts that make only some calls -/

namespace Script

variable {α β : Type} {P : Call → Prop}

/-- Whether a script makes only calls of some kind, whatever is answered. -/
def Only (P : Call → Prop) : Script α → Prop
  | done _ => True
  | ask call next => P call ∧ ∀ a, Only P (next a)

theorem only_true : ∀ s : Script α, s.Only fun _ => True
  | done _ => trivial
  | ask _ next => ⟨trivial, fun a => only_true (next a)⟩

theorem only_pure (a : α) : (pure a : Script α).Only P := trivial

theorem only_call {call : Call} (h : P call) : (Script.call call).Only P := ⟨h, fun _ => trivial⟩

theorem Only.bind {f : α → Script β} (hf : ∀ a, (f a).Only P) : ∀ {s : Script α}, s.Only P → (s >>= f).Only P
  | done a, _ => hf a
  | ask _ _, h => ⟨h.1, fun a => Only.bind hf (h.2 a)⟩

theorem only_forM {f : α → Script PUnit} (hf : ∀ a, (f a).Only P) : ∀ xs : List α, (xs.forM f).Only P
  | [] => trivial
  | x :: xs => Only.bind (fun _ => only_forM hf xs) (hf x)

end Script

section

variable {P : Call → Prop} (hcalls : ∀ {call : Call}, call.asksIndex = false → P call)

include hcalls

theorem AttributeRule.only_apply (a : AttributeRule) : a.apply.Only P := by
  refine Script.Only.bind (fun value => ?_) (Script.only_call (hcalls rfl))
  cases a.attribute? value with
  | none => trivial
  | some new => exact Script.only_call (hcalls rfl)

theorem Rule.only_apply (r : Rule) : r.apply.Only P := by
  have hemit : r.emit.Only P := by
    unfold Rule.emit
    split
    · exact Script.only_call (hcalls rfl)
    · exact Script.only_call (hcalls rfl)
  have hattributes : (do r.attributes.forM AttributeRule.apply; pure (.ok ()) :
      Script (Except ProcessingError Unit)).Only P :=
    Script.Only.bind (fun _ => Script.only_pure _) (Script.only_forM (fun a => a.only_apply hcalls) _)
  refine Script.Only.bind (fun made => ?_) hemit
  match made with
  | .error _ => trivial
  | .ok false => trivial
  | .ok true =>
    dsimp only
    cases r.minZoom with
    | none => exact hattributes
    | some minZoom => exact Script.Only.bind (fun _ => hattributes) (Script.only_call (hcalls rfl))

/-- **The rules never ask the index.** -/
theorem Config.only_classify (rules : Config) (kind : ElementKind) (memory : Unit) :
    (rules.classifier.classify kind memory).Only P := by
  refine Script.Only.bind (fun tags => ?_) (Script.only_call (hcalls rfl))
  cases rules.ruleFor? kind tags with
  | none => trivial
  | some r => exact Script.Only.bind (fun _ => Script.only_pure _) (r.only_apply hcalls)

end

/-! ## Contexts -/

namespace Context

open Building

variable {env env' : Surroundings} {e : Element} {P : Call → Prop} {c d : Context}

/-- Whether two contexts have an element with right shapes, each in its own surroundings, and differ at most in the
metadata and in what there is to tell. -/
structure Twins (env env' : Surroundings) (e : Element) (c d : Context) : Prop where
  left : c.Holds env e
  right : d.Holds env' e
  stage : c.stage = d.stage
  features : c.features = d.features

theorem twins_begin (c d : Context) : Twins env env' e (c.begin e) (d.begin e) :=
  ⟨holds_begin c, holds_begin d, rfl, rfl⟩

theorem Twins.answer (h : Twins env env' e c d) (hagrees : Agrees env env' e) (call : Call) :
    Twins env env' e (c.answer env call).2 (d.answer env' call).2 := by
  have hc := h.left.steps_answer call
  have hd := h.right.steps_answer call
  refine ⟨h.left.answer call, h.right.answer call, ?_, ?_⟩
  · rw [hc.stage, hd.stage, h.stage]
  · rw [hc.features, hd.features, h.features, call.draws_eq hagrees]

/-- **Two runs of a script get the same answers**, and leave twins. -/
theorem Twins.run {α : Type} (hagrees : Agrees env env' e)
    (hindex : ∀ call, P call → call.asksIndex = true → env.store.index = env'.store.index) :
    ∀ {s : Script α} {c d : Context}, s.Only P → Twins env env' e c d →
      (s.run env c).1 = (s.run env' d).1 ∧ Twins env env' e (s.run env c).2 (s.run env' d).2 ∧
        c.log env (s.calls env c) = d.log env' (s.calls env' d)
  | .done _, _, _, _, h => ⟨rfl, h, rfl⟩
  | .ask call next, c, d, hs, h => by
    have hanswer := h.left.answer_alike h.right hagrees h.stage call (hindex call hs.1)
    have hafter := h.answer hagrees call
    rw [Script.run_ask, Script.run_ask, Script.calls, Script.calls, log, log, ← hanswer]
    obtain ⟨hresult, htwins, hlog⟩ := Twins.run hagrees hindex (hs.2 (c.answer env call).1) hafter
    exact ⟨hresult, htwins, congrArg (_ :: ·) hlog⟩

end Context

/-! ## Elements on which surroundings agree -/

/-- Whether two surroundings have the same layers, the same settings and the same locations. -/
structure Surroundings.SameNodes (env env' : Surroundings) : Prop where
  layers : env.layers = env'.layers
  config : env.store.config = env'.store.config
  at_ : env.store.nodes.at? = env'.store.nodes.at?

section

variable {env env' : Surroundings}

theorem agrees_ofNode (h : env.layers = env'.layers) (id : NodeId) (at_ : Location) (tags : Tags) :
    Building.Agrees env env' (.ofNode id at_ tags) := ⟨h, rfl, rfl, rfl, rfl⟩

theorem agrees_ofWay (h : env.SameNodes env') (id : WayId) (nodes : List NodeId) (tags : Tags) :
    Building.Agrees env env' (.ofWay id nodes tags) where
  layers := h.layers
  polygon := by
    rw [Element.polygonShape, Element.polygonShape]
    dsimp only [Element.ofWay]
    rw [ObjectStore.polygon_congr h.config h.at_]
  multiPolygon := rfl
  lines := rfl
  line := by
    rw [Element.lineShape, Element.lineShape]
    dsimp only [Element.ofWay]
    rw [ObjectStore.line_congr h.config h.at_]

theorem agrees_ofRelation (h : env.SameNodes env') {ways : WayLists}
    (hways : ∀ w ∈ ways.outer ++ ways.inner, env.store.ways.nodesFor? w = env'.store.ways.nodesFor? w)
    (standIn : WayId) (tags : Tags) : Building.Agrees env env' (.ofRelation ways standIn tags) := by
  have harea := ObjectStore.multiPolygon_congr_at? h.config h.at_ hways
  have hlines := ObjectStore.lines_congr_at? h.config h.at_ fun w hw => hways w (List.mem_append_left ways.inner hw)
  have hshape : (Element.ofRelation ways standIn tags).multiPolygonShape env =
      (Element.ofRelation ways standIn tags).multiPolygonShape env' := by
    rw [Element.multiPolygonShape, Element.multiPolygonShape]
    dsimp only [Element.ofRelation]
    rw [harea]
  refine ⟨h.layers, rfl, hshape, ?_, ?_⟩
  · rw [Element.linesShape, Element.linesShape]
    dsimp only [Element.ofRelation]
    rw [hlines]
  · rw [Element.lineShape, Element.lineShape]
    dsimp only [Element.ofRelation] at hshape ⊢
    rw [hshape]

end
end MapFeatures
