import MapFeatures.Ingest.Passes
import MapFeatures.Proofs.Classify.Windows
import MapFeatures.Proofs.Outcome
/-!
# Handed — elements that one processor classifies, one after the other

An element gives all its features or, if its script fails, none (`run_hand`), and leaves nothing for the next one
(`rests_hand`).  So what is handed out in the end are the features of the elements whose scripts succeed
(`features_handAll`).
-/
namespace MapFeatures

/-- A node, a way or a recorded relation, to be classified whatever its tags are. -/
inductive Handed
  | node (n : NodeRecord)
  | way (w : WayRecord)
  | relation (ways : WayLists) (tags : Tags)

namespace Handed

/-- The element, under the next way id if it is a relation. -/
def element (store : ObjectStore) : Handed → Element
  | node n => .ofNode n.id n.at_ n.tags
  | way w => .ofWay w.id w.nodes w.tags
  | relation ways tags => .ofRelation ways store.drawRelationWay.1 tags

/-- The surroundings in which the element is classified; a relation has drawn its id. -/
def surroundings (env : Surroundings) : Handed → Surroundings
  | node _ => env
  | way _ => env
  | relation _ _ => { env with store := env.store.drawRelationWay.2 }

end Handed

/-! ## One element -/

namespace FeatureProcessor

variable {σ : Type}

/-- Whether a processor is between two elements. -/
structure Rests (p : FeatureProcessor σ) : Prop where
  stage : p.context.stage = .idle
  features : p.context.features = []

/-- The features of an element, if its script succeeds. -/
def gives (env : Surroundings) (p : FeatureProcessor σ) (e : Element) : List Feature :=
  match (p.process env e).1 with
  | .ok features => features
  | .error _ => []

variable {env : Surroundings} {p : FeatureProcessor σ} {e : Element}

theorem rests_ofClassifier (c : Classifier σ) : (ofClassifier c).Rests := ⟨rfl, rfl⟩

theorem rests_process : (p.process env e).2.Rests := by
  rw [process_eq]
  exact ⟨rfl, rfl⟩

theorem result_process : (p.process env e).1.map (fun _ => ()) = (p.outcome env e).1 := by
  rw [process_eq]
  cases (p.outcome env e).1 with
  | error err => rfl
  | ok done => rfl

theorem gives_of_ok (h : (p.outcome env e).1 = .ok ()) : p.gives env e = (p.called env e).features := by
  simp [gives, process_eq, h, Except.map]

theorem gives_of_error {err : ProcessingError} (h : (p.outcome env e).1 = .error err) : p.gives env e = [] := by
  simp [gives, process_eq, h, Except.map]

theorem hasOutput_process : (p.process env e).2.hasOutput = true ↔ p.gives env e ≠ [] := by
  cases h : (p.outcome env e).1 with
  | error err => simp [gives_of_error h, process_eq, hasOutput, h, Except.isOk, Except.toBool]
  | ok done => simp [gives_of_ok h, process_eq, hasOutput, h, Except.isOk, Except.toBool, List.length_pos_iff]

end FeatureProcessor

namespace Work

variable {σ : Type}

/-- Classifies an element, whatever its tags are. -/
def hand : Handed → Work σ Unit
  | .node n => classify (.ofNode n.id n.at_ n.tags)
  | .way w => classify (.ofWay w.id w.nodes w.tags)
  | .relation ways tags => do
    let (standIn, store) := (← get).ingest.env.store.drawRelationWay
    keepStore store
    classify (.ofRelation ways standIn tags)

-- the block pass hands on what it classifies

theorem node_eq (n : NodeRecord) : (node n : Work σ Unit) =
    get >>= fun u => if u.processor.isSignificant n.tags then hand (.node n) else pure () := rfl

theorem way_eq (w : WayRecord) : (way w : Work σ Unit) = if w.tags.isEmpty then pure () else hand (.way w) := rfl

theorem run_get (u : Underway σ) : (get : Work σ (Underway σ)).run.run u = (.ok u, u) := rfl

theorem run_classify (e : Element) (u : Underway σ) :
    ((classify e).run.run u).1 = (u.processor.outcome u.ingest.env e).1 ∧
      ((classify e).run.run u).2.processor = (u.processor.process u.ingest.env e).2 ∧
      ((classify e).run.run u).2.ingest =
        { u.ingest with features := u.ingest.features ++ u.processor.gives u.ingest.env e } := by
  rw [← FeatureProcessor.result_process, FeatureProcessor.gives, classify, run_bind_of_eq_ok (run_get u)]
  cases u.processor.process u.ingest.env e with
  | mk result processor =>
    cases result with
    | error err => exact ⟨rfl, rfl, by simp; rfl⟩
    | ok features => exact ⟨rfl, rfl, rfl⟩

/-- **An element that is handed on**: its features are added if its script succeeds, and nothing if it fails. -/
theorem run_hand (h : Handed) (u : Underway σ) :
    let env := h.surroundings u.ingest.env
    let e := h.element u.ingest.env.store
    ((hand h).run.run u).1 = (u.processor.outcome env e).1 ∧
      ((hand h).run.run u).2.processor = (u.processor.process env e).2 ∧
      ((hand h).run.run u).2.ingest =
        { u.ingest with env, features := u.ingest.features ++ u.processor.gives env e } := by
  cases h with
  | node n => exact run_classify _ u
  | way w => exact run_classify _ u
  | relation ways tags =>
    let drawn : Underway σ :=
      { u with ingest := { u.ingest with env := (Handed.relation ways tags).surroundings u.ingest.env } }
    have hkeep : (keepStore u.ingest.env.store.drawRelationWay.2 : Work σ Unit).run.run u = (.ok (), drawn) := rfl
    have hrun : (hand (.relation ways tags)).run.run u =
        (classify ((Handed.relation ways tags).element u.ingest.env.store)).run.run drawn := by
      rw [hand, run_bind_of_eq_ok (run_get u)]
      exact run_bind_of_eq_ok hkeep _
    rw [hrun]
    exact run_classify _ drawn

theorem rests_hand (h : Handed) (u : Underway σ) : ((hand h).run.run u).2.processor.Rests := by
  rw [(run_hand h u).2.1]
  exact FeatureProcessor.rests_process

/-! ## One element after the other -/

/-- The work after some elements, of which any may fail. -/
def handAll : List Handed → Underway σ → Underway σ
  | [], u => u
  | h :: hs, u => handAll hs ((hand h).run.run u).2

/-- What some elements give, one after the other. -/
def handedOut : List Handed → Underway σ → List Feature
  | [], _ => []
  | h :: hs, u =>
    u.processor.gives (h.surroundings u.ingest.env) (h.element u.ingest.env.store) ++
      handedOut hs ((hand h).run.run u).2

theorem rests_handAll : ∀ (hs : List Handed) {u : Underway σ}, u.processor.Rests → (handAll hs u).processor.Rests
  | [], _, hu => hu
  | h :: hs, u, _ => rests_handAll hs (rests_hand h u)

theorem features_handAll : ∀ (hs : List Handed) (u : Underway σ),
    (handAll hs u).ingest.features.toList = u.ingest.features.toList ++ handedOut hs u
  | [], _ => (List.append_nil _).symm
  | h :: hs, u => by
    rw [handAll, features_handAll hs, (run_hand h u).2.2, handedOut, Array.toList_appendList, List.append_assoc]

/-- **Of an element all features are handed out, or none.**  Between any two elements the processor has none in hand.  If
the script for the next one succeeds, what is added is what its calls made, with its kind and its id; if it fails, nothing
is added, then or later. -/
theorem hand_all_or_nothing (i : Ingest σ) (c : Classifier σ) (before : List Handed) (h : Handed) :
    let start : Underway σ := ⟨i, .ofClassifier c, .zero⟩
    let u := handAll before start
    let env := h.surroundings u.ingest.env
    let e := h.element u.ingest.env.store
    let log := (u.processor.context.begin e).log env (u.processor.calls env e)
    let result := ((hand h).run.run u).1
    let after := ((hand h).run.run u).2
    u.processor.Rests ∧ u.ingest.features.toList = i.features.toList ++ handedOut before start ∧
      after.processor.Rests ∧ after.ingest.env = env ∧ result = (u.processor.outcome env e).1 ∧
      match result with
      | .ok () => ∃ added, after.ingest.features.toList = u.ingest.features.toList ++ added ∧
          List.Forall₂ (Window.Tells env e) (windows log) added ∧ (after.processor.hasOutput = true ↔ added ≠ [])
      | .error _ => after.ingest.features = u.ingest.features ∧ after.processor.hasOutput = false := by
  intro start u env e log result after
  obtain ⟨hresult, hprocessor, hingest⟩ := run_hand h u
  have hfeatures : after.ingest.features.toList = u.ingest.features.toList ++ u.processor.gives env e := by
    rw [hingest, Array.toList_appendList]
  have houtput : after.processor.hasOutput = true ↔ u.processor.gives env e ≠ [] := by
    rw [hprocessor]
    exact FeatureProcessor.hasOutput_process
  refine ⟨rests_handAll before (FeatureProcessor.rests_ofClassifier c), features_handAll before start, rests_hand h u,
    by rw [hingest], hresult, ?_⟩
  change result = (u.processor.outcome env e).1 at hresult
  -- what the processor gives is all or nothing, as the script ends
  match result with
  | .error err =>
    rw [FeatureProcessor.gives_of_error hresult.symm, List.append_nil, Array.toList_inj] at hfeatures
    rw [FeatureProcessor.gives_of_error hresult.symm] at houtput
    exact ⟨hfeatures, by simpa using houtput⟩
  | .ok () =>
    refine ⟨u.processor.gives env e, hfeatures, ?_, houtput⟩
    rw [FeatureProcessor.gives_of_ok hresult.symm]
    exact Context.features_begin u.processor.context e (u.processor.calls env e)

end Work

/-- A pass that succeeds leaves what its work leaves. -/
theorem Ingest.run_eq_ok {σ : Type} {i after : Ingest σ} {pass : Pass} {work : Work σ Unit} {counters : Counters}
    (h : i.run pass work = (.ok counters, after)) :
    ∃ u, work.run.run ⟨i, .ofClassifier i.classifier, .zero⟩ = (.ok (), u) ∧ counters = u.counters ∧
      after = u.ingest := by
  unfold run at h
  split at h
  · rcases hrun : work.run.run ⟨i, .ofClassifier i.classifier, .zero⟩ with ⟨err | ⟨⟨⟩⟩, u⟩
    · rw [hrun] at h
      cases h
    · rw [hrun] at h
      cases h
      exact ⟨u, rfl, rfl, rfl⟩
  · cases h

end MapFeatures
