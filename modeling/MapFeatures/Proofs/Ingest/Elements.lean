import MapFeatures.Proofs.Classify.Agreement
import MapFeatures.Proofs.Classify.Relations
import MapFeatures.Proofs.Ingest.Handed
/-!
# Elements — what a classifier makes of an element

Whatever a processor has classified before, only its classifier, what that has in mind and what can be seen of the element
count (`FeatureProcessor.treats_alike`).  So the features of an element and what is recorded for it are functions of the
classifier (`Classifier.features`, `Classifier.records`), and for rules the same in all surroundings that agree
(`Config.treats_alike`).
-/
namespace MapFeatures

variable {σ : Type}

theorem Window.kind_and_id_of_mem {env : Surroundings} {e : Element} : ∀ {ws : List Window} {made : List Feature},
    List.Forall₂ (Window.Tells env e) ws made → ∀ {f : Feature}, f ∈ made → f.kind = e.kind ∧ f.id = e.featureId
  | _, _, .cons htells hrest, _, hf =>
    (List.mem_cons.1 hf).elim (fun h => h ▸ ⟨htells.kind, htells.id⟩) fun h => kind_and_id_of_mem hrest h

/-! ## Classifiers -/

namespace Classifier

variable (c : Classifier σ) (memory : σ) (env : Surroundings) (e : Element)

/-- A processor that has not classified anything. -/
def processor : FeatureProcessor σ := ⟨c, memory, .empty, 0⟩

/-- Whether the script for an element succeeds, and what the classifier has in mind then. -/
def outcome : Except ProcessingError Unit × σ := (c.processor memory).outcome env e

/-- The features of an element, if its script succeeds. -/
def features : List Feature := (c.processor memory).gives env e

/-- The attributes that are recorded for an element, with the layers of their features. -/
def records : List (String × Attribute) :=
  (windows ((Context.empty.begin e).log env ((c.processor memory).calls env e))).flatMap Window.records

theorem kind_and_id_of_mem_features {f : Feature} (hf : f ∈ c.features memory env e) :
    f.kind = e.kind ∧ f.id = e.featureId := by
  cases houtcome : ((c.processor memory).outcome env e).1 with
  | error err =>
    rw [features, FeatureProcessor.gives_of_error houtcome] at hf
    cases hf
  | ok done =>
    rw [features, FeatureProcessor.gives_of_ok houtcome] at hf
    exact Window.kind_and_id_of_mem (Context.features_begin .empty e ((c.processor memory).calls env e)) hf

end Classifier

/-! ## Processors -/

namespace FeatureProcessor

variable {env env' : Surroundings} {e : Element} {P : Call → Prop} {p q : FeatureProcessor σ}

/-- **Processors with the same classifier that has the same in mind treat an element alike**, in surroundings that agree on
all that is asked. -/
theorem treats_alike (hclassifier : p.classifier = q.classifier) (hmemory : p.memory = q.memory)
    (hagrees : Building.Agrees env env' e)
    (hindex : ∀ call, P call → call.asksIndex = true → env.store.index = env'.store.index) (honly : (p.script e).Only P) :
    p.outcome env e = q.outcome env' e ∧ p.gives env e = q.gives env' e ∧
      (p.context.begin e).log env (p.calls env e) = (q.context.begin e).log env' (q.calls env' e) := by
  have hscript : p.script e = q.script e := by
    rw [script, script, hclassifier, hmemory]
  obtain ⟨hresult, htwins, hlog⟩ :=
    Context.Twins.run hagrees hindex honly (Context.twins_begin p.context q.context)
  have hfeatures := htwins.features
  rw [hscript] at hresult
  rw [Script.run_eq_after, Script.run_eq_after, hscript] at hfeatures
  have houtcome : p.outcome env e = q.outcome env' e := by
    rw [outcome, hscript, hresult, ← outcome]
  rw [hscript] at hlog
  refine ⟨houtcome, ?_, ?_⟩
  · cases hdone : (q.outcome env' e).1 with
    | error err => rw [gives_of_error hdone, gives_of_error (houtcome ▸ hdone)]
    | ok done =>
      rw [gives_of_ok hdone, gives_of_ok (houtcome ▸ hdone), called, called, calls, calls, hscript]
      exact hfeatures
  · rw [calls, calls, hscript]
    exact hlog

theorem treats_as_new (env : Surroundings) (p : FeatureProcessor σ) (e : Element) :
    p.outcome env e = p.classifier.outcome p.memory env e ∧ p.gives env e = p.classifier.features p.memory env e ∧
      (p.context.begin e).log env (p.calls env e) =
        (Context.empty.begin e).log env ((p.classifier.processor p.memory).calls env e) :=
  treats_alike (q := p.classifier.processor p.memory) rfl rfl (.refl env e) (fun _ _ _ => rfl) (Script.only_true _)

/-- **What an element leaves in a processor.** -/
theorem process_as_new (env : Surroundings) (p : FeatureProcessor σ) (e : Element) :
    (p.process env e).2.classifier = p.classifier ∧
      (p.process env e).2.memory = (p.classifier.outcome p.memory env e).2 ∧
      (p.process env e).2.context.metadata =
        LayerMetadata.recordAll p.context.metadata (p.classifier.records p.memory env e) ∧
      (p.process env e).2.hasOutput = !(p.classifier.features p.memory env e).isEmpty := by
  obtain ⟨houtcome, hgives, hlog⟩ := treats_as_new env p e
  refine ⟨by rw [process_eq], by rw [process_eq, houtcome], ?_, ?_⟩
  · rw [process_eq, Classifier.records, ← hlog]
    exact Context.metadata_begin p.context e (p.calls env e)
  · rw [Bool.eq_iff_iff, hasOutput_process, hgives]
    simp

end FeatureProcessor

/-! ## Rules -/

/-- **Rules treat an element alike in surroundings that agree on it.** -/
theorem Config.treats_alike (rules : Config) {env env' : Surroundings} {e : Element}
    (hagrees : Building.Agrees env env' e) :
    rules.classifier.outcome () env e = rules.classifier.outcome () env' e ∧
      rules.classifier.features () env e = rules.classifier.features () env' e ∧
      rules.classifier.records () env e = rules.classifier.records () env' e := by
  have honly := rules.only_classify (P := fun call => call.asksIndex = false) id e.kind ()
  obtain ⟨houtcome, hgives, hlog⟩ := FeatureProcessor.treats_alike (p := rules.classifier.processor ())
    (q := rules.classifier.processor ()) rfl rfl hagrees
    (fun call hno hasks => by rw [hno] at hasks; cases hasks) honly
  refine ⟨houtcome, hgives, ?_⟩
  rw [Classifier.records, Classifier.records]
  exact congrArg (fun log => (windows log).flatMap Window.records) hlog

/-- The rules have a result for a node. -/
theorem Config.outcome_ofNode (rules : Config) (env : Surroundings) (id : NodeId) (at_ : Location) (tags : Tags) :
    (rules.classifier.outcome () env (.ofNode id at_ tags)).1 = .ok () := by
  have hres : (Element.ofNode id at_ tags).Resolves env.store := trivial
  have hrules : (rules.classifier.processor ()).classifier = rules.classifier := rfl
  obtain ⟨features, hok⟩ := process_rules_eq_ok hrules hres
  rw [Classifier.outcome, ← FeatureProcessor.result_process, hok]
  rfl

/-- A rule that sets nothing only draws. -/
theorem Rule.run_apply_of_draws {r : Rule} {env : Surroundings} {e : Element} {c : Context} {shape : Option Geometry}
    (hcentroid : r.centroid = false) (hminZoom : r.minZoom = none) (hattributes : r.attributes = [])
    (hdraws : c.Draws env e r.layer r.area (.ok shape)) :
    r.apply.run env c = (.ok (), (c.answer env (.assign r.layer r.area)).2) := by
  have hemit : r.emit.run env c = c.answer env (.assign r.layer r.area) := by
    rw [Rule.emit, hcentroid]
    rfl
  rw [Rule.apply, Script.run_bind, hemit, hdraws.answer]
  cases shape with
  | none => rfl
  | some shape =>
    dsimp only [Except.map, Option.isSome]
    rw [hminZoom, hattributes]
    rfl

/-- **A rule that sets nothing leaves the shape that it draws**, and does not fail. -/
theorem Config.features_of_rule {rules : Config} {env : Surroundings} {e : Element} {r : Rule}
    (hrule : rules.ruleFor? e.kind (some e.tags) = some r) (hcentroid : r.centroid = false) (hminZoom : r.minZoom = none)
    (hattributes : r.attributes = []) {shape : Option Geometry}
    (hdraws : (Context.empty.begin e).Draws env e r.layer r.area (.ok shape)) :
    (rules.classifier.outcome () env e).1 = .ok () ∧
      rules.classifier.features () env e = shape.toList.map (e.featureIn r.layer) := by
  have hrun : ((rules.classifier.processor ()).script e).run env (Context.empty.begin e) =
      ((.ok (), ()), ((Context.empty.begin e).answer env (.assign r.layer r.area)).2) := by
    have hscript := rules.run_classify env Context.empty e
    rw [hrule] at hscript
    dsimp only at hscript
    rwa [Rule.run_apply_of_draws hcentroid hminZoom hattributes hdraws] at hscript
  have hok : (rules.classifier.outcome () env e).1 = .ok () := congrArg (fun ran => ran.1.1) hrun
  have hcalled : (rules.classifier.processor ()).called env e =
      (((rules.classifier.processor ()).script e).run env (Context.empty.begin e)).2 :=
    (Script.run_eq_after env _ _).symm
  refine ⟨hok, ?_⟩
  rw [Classifier.features, FeatureProcessor.gives_of_ok hok, hcalled, hrun]
  exact hdraws.features

end MapFeatures
