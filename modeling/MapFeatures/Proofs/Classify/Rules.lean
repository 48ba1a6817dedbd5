import MapFeatures.Classify.Processor
import MapFeatures.Classify.Rules
import MapFeatures.Proofs.Classify.Shapes
/-!
# Rules — the rules of a configuration do not fail on an element whose references are stored

A rule asks for one shape and passes on what becomes of it; everything else it does has a result.  So the shapes that
can be built (`Building.sure_geometry`, `Building.sure_centroid`) are all there is to it (`process_rules_eq_ok`).
-/
namespace MapFeatures

namespace Script

theorem run_bind {α β : Type} (env : Surroundings) (f : α → Script β) : ∀ (s : Script α) (c : Context),
    (s >>= f).run env c = (f (s.run env c).1).run env (s.run env c).2
  | done _, _ => rfl
  | ask call next, c => run_bind env f (next (c.answer env call).1) (c.answer env call).2

theorem run_pure {α : Type} (env : Surroundings) (a : α) (c : Context) : (pure a : Script α).run env c = (a, c) := rfl

theorem run_call (env : Surroundings) (call : Call) (c : Context) : (Script.call call).run env c = c.answer env call := rfl

end Script

namespace Context

variable {env : Surroundings} {e : Element} {c : Context}

theorem element?_begin (c : Context) (e : Element) : (c.begin e).element? = some e := rfl

theorem work_eq_ok {α : Type} {w : Building α} (idle : α) (hc : c.element? = some e) (hw : Building.Sure e w) :
    ∃ a, (c.work idle w).1 = .ok a := by
  obtain ⟨l, hl, rfl⟩ := Option.map_eq_some_iff.1 hc
  obtain ⟨a, l', hrun, -⟩ := hw.eq_ok (rfl : ({ l with notices := c.notices } : Loaded).element = l.element)
  refine ⟨a, ?_⟩
  rw [work, hl]
  simp only [hrun]

theorem assignWith_eq_ok {layer : String} {build : Building (Option Geometry)} (hc : c.element? = some e)
    (hbuild : Building.Sure e build) : ∃ made, (c.assignWith layer build).1 = .ok made := by
  obtain ⟨geometry, hwork⟩ := work_eq_ok none hc hbuild
  match hrun : c.work none build with
  | (.ok geometry, c') => exact ⟨(c'.emit layer geometry).1, by rw [assignWith, hrun]⟩
  | (.error err, c') =>
    rw [hrun] at hwork
    cases hwork

end Context

variable {env : Surroundings} {e : Element} {c : Context}

theorem Rule.run_emit_eq_ok (r : Rule) (hc : c.element? = some e) (hres : e.Resolves env.store) :
    ∃ made, (r.emit.run env c).1 = .ok made := by
  unfold Rule.emit
  split
  · have hbuild := (Building.sure_centroid hres).bind fun middle => Building.Sure.pure (middle.map Geometry.point)
    exact Context.assignWith_eq_ok hc hbuild
  · exact Context.assignWith_eq_ok hc (Building.sure_geometry hres r.area)

theorem Rule.run_apply_eq_ok (r : Rule) (hc : c.element? = some e) (hres : e.Resolves env.store) :
    (r.apply.run env c).1 = .ok () := by
  obtain ⟨made, hmade⟩ := r.run_emit_eq_ok hc hres
  rw [Rule.apply, Script.run_bind, hmade]
  cases made with
  | false => rfl
  | true =>
    dsimp only
    cases r.minZoom with
    | none =>
      rw [Script.run_bind, Script.run_pure]
    | some minZoom =>
      rw [Script.run_bind, Script.run_bind, Script.run_pure]

/-- The script for an element is that of the first rule that holds of it. -/
theorem Config.run_classify (rules : Config) (env : Surroundings) (c : Context) (e : Element) :
    (rules.classifier.classify e.kind ()).run env (c.begin e) =
      match rules.ruleFor? e.kind (some e.tags) with
      | none => ((.ok (), ()), c.begin e)
      | some r => (((r.apply.run env (c.begin e)).1, ()), (r.apply.run env (c.begin e)).2) := by
  have htags : (c.begin e).answer env .tags = (some e.tags, c.begin e) := rfl
  simp only [Config.classifier]
  rw [Script.run_bind, Script.run_call, htags]
  cases rules.ruleFor? e.kind (some e.tags) with
  | none => rfl
  | some r =>
    rw [Script.run_bind]
    rfl

/-- **The rules have a result for every element whose references are stored.** -/
theorem process_rules_eq_ok {rules : Config} {p : FeatureProcessor Unit} (hp : p.classifier = rules.classifier)
    (hres : e.Resolves env.store) : ∃ features, (p.process env e).1 = .ok features := by
  have hscript : ((p.classifier.classify e.kind p.memory).run env (p.context.begin e)).1.1 = .ok () := by
    rw [hp, rules.run_classify]
    split
    · rfl
    · next r _ => exact r.run_apply_eq_ok (Context.element?_begin p.context e) hres
  unfold FeatureProcessor.process
  match hrun : (p.classifier.classify e.kind p.memory).run env (p.context.begin e) with
  | ((.ok (), memory), context) => exact ⟨context.markClassified.reset.1, by simp only [hrun]⟩
  | ((.error err, memory), context) =>
    rw [hrun] at hscript
    cases hscript

end MapFeatures
