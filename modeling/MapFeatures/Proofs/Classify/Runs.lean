import MapFeatures.Classify.Processor
import MapFeatures.Proofs.Classify.Calls
/-!
# Runs — any calls for an element, one after the other

A run leaves right shapes (`Holds.after`), so each call of it answers as the first call of a new context would
(`answers_as_new`).  A script is a run of calls that it chooses by their answers (`Script.run_eq_after`), and what is
processed is what the calls of the classifier leave (`FeatureProcessor.process_eq`).
-/
namespace MapFeatures

namespace Context

/-- The context after some calls. -/
def after (env : Surroundings) : Context → List Call → Context
  | c, [] => c
  | c, call :: calls => after env (c.answer env call).2 calls

/-- The calls with their answers. -/
def log (env : Surroundings) : Context → List Call → List Asked
  | _, [] => []
  | c, call :: calls => ⟨call, (c.answer env call).1⟩ :: log env (c.answer env call).2 calls

variable {env : Surroundings} {e : Element}

theorem after_append (c : Context) : ∀ first second : List Call,
    c.after env (first ++ second) = (c.after env first).after env second
  | [], _ => rfl
  | call :: first, second => after_append (c.answer env call).2 first second

/-- **Right shapes are kept through a run.** -/
theorem Holds.after : ∀ (calls : List Call) {c : Context}, c.Holds env e → (c.after env calls).Holds env e
  | [], _, h => h
  | call :: calls, _, h => Holds.after calls (h.answer call)

theorem Holds.stage_after : ∀ (calls : List Call) {c : Context}, c.Holds env e → (c.after env calls).stage = c.stage
  | [], _, _ => rfl
  | call :: calls, _, h => (Holds.stage_after calls (h.answer call)).trans (h.steps_answer call).stage

/-- **Earlier calls do not show.**  Whatever a context was used for before, and whatever was asked of the element since it
was loaded, each call answers as the first call of a new context does, and each that draws draws the same. -/
theorem answers_as_new (env : Surroundings) (used : Context) (e : Element) (before : List Call) :
    let c := (used.begin e).after env before
    let new := empty.begin e
    (∀ call : Call, (c.answer env call).1 = (new.answer env call).1) ∧
      (∀ layer area, (c.answer env (.assign layer area)).2.features =
        c.features ++ (new.answer env (.assign layer area)).2.features) ∧
      ∀ layer, (c.answer env (.assignCentroid layer)).2.features =
        c.features ++ (new.answer env (.assignCentroid layer)).2.features := by
  have hc : ((used.begin e).after env before).Holds env e := (holds_begin used).after before
  have hstage : ((used.begin e).after env before).stage = (empty.begin e).stage := (holds_begin used).stage_after before
  have hdrawn : ∀ {call : Call}, call.change = id → (((used.begin e).after env before).answer env call).2.features =
      ((used.begin e).after env before).features ++ call.draws env e := by
    intro call hchange
    rw [(hc.steps_answer call).features, hchange, changeLast_id]
  exact ⟨hc.answer_eq (holds_begin empty) hstage, fun layer area => hdrawn rfl, fun layer => hdrawn rfl⟩

end Context

/-! ## Scripts -/

namespace Script

theorem run_ask {α : Type} (env : Surroundings) (call : Call) (next : call.Answer → Script α) (c : Context) :
    (ask call next).run env c = (next (c.answer env call).1).run env (c.answer env call).2 := rfl

/-- The calls that a script makes. -/
def calls {α : Type} (env : Surroundings) : Script α → Context → List Call
  | done _, _ => []
  | ask call next, c => call :: calls env (next (c.answer env call).1) (c.answer env call).2

/-- **A script leaves what its calls leave.** -/
theorem run_eq_after {α : Type} (env : Surroundings) : ∀ (s : Script α) (c : Context),
    (s.run env c).2 = c.after env (s.calls env c)
  | done _, _ => rfl
  | ask call next, c => run_eq_after env (next (c.answer env call).1) (c.answer env call).2

end Script

/-! ## Elements -/

namespace Context

theorem reset_markClassified (c : Context) :
    c.markClassified.reset = (c.features, { c with phase := .idle, features := [] }) := by
  obtain ⟨phase, features, metadata, notices⟩ := c
  cases phase with
  | idle => rfl
  | loaded l => rfl
  | classified l => rfl

end Context

namespace FeatureProcessor

variable {σ : Type}

/-- The script for an element. -/
def script (p : FeatureProcessor σ) (e : Element) : Script (Except ProcessingError Unit × σ) :=
  p.classifier.classify e.kind p.memory

/-- The calls that are made for an element. -/
def calls (env : Surroundings) (p : FeatureProcessor σ) (e : Element) : List Call :=
  (p.script e).calls env (p.context.begin e)

/-- The context after these calls. -/
def called (env : Surroundings) (p : FeatureProcessor σ) (e : Element) : Context :=
  (p.context.begin e).after env (p.calls env e)

/-- Whether the script for an element succeeds, and what the classifier has in mind then. -/
def outcome (env : Surroundings) (p : FeatureProcessor σ) (e : Element) : Except ProcessingError Unit × σ :=
  ((p.script e).run env (p.context.begin e)).1

/-- **An element, unpacked**: its features are those that the calls leave, if the script succeeds. -/
theorem process_eq (env : Surroundings) (p : FeatureProcessor σ) (e : Element) :
    p.process env e =
      ((p.outcome env e).1.map fun _ => (p.called env e).features,
        { p with
          memory := (p.outcome env e).2
          context := { p.called env e with phase := .idle, features := [] }
          lastCount := if (p.outcome env e).1.isOk then (p.called env e).features.length else 0 }) := by
  have hrun : (p.classifier.classify e.kind p.memory).run env (p.context.begin e) =
      (p.outcome env e, p.called env e) :=
    Prod.ext rfl (Script.run_eq_after env (p.script e) (p.context.begin e))
  rw [process, hrun]
  simp only [Context.reset_markClassified]
  generalize p.outcome env e = outcome
  match outcome with
  | (.error err, memory) => rfl
  | (.ok (), memory) => rfl

end FeatureProcessor
end MapFeatures
