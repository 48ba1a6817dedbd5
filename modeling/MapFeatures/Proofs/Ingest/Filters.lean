import MapFeatures.Proofs.Classify.Rules
import MapFeatures.Proofs.Ingest.Handed
/-!
# Filters — what the passes leave out would give nothing

The passes hand on the nodes with a significant key, the ways with a tag and the relations that the scan accepts
(`Handed.isWanted`).  An element that some rule holds of is always wanted (`isWanted_of_holds`).  So there is no rule for
one that is not, and its script ends after a look at its tags (`process_of_ruleFor?_eq_none`).
-/
namespace MapFeatures

namespace Config

theorem mem_dropRepeats {key : String} : ∀ {keys : List String}, key ∈ dropRepeats keys ↔ key ∈ keys
  | [] => Iff.rfl
  | [_] => Iff.rfl
  | a :: b :: rest => by
    unfold dropRepeats
    split
    · next h =>
      subst h
      rw [mem_dropRepeats, List.mem_cons (l := a :: rest)]
      exact ⟨Or.inr, fun hkey => hkey.elim (fun he => he ▸ List.mem_cons_self) id⟩
    · rw [List.mem_cons, mem_dropRepeats, ← List.mem_cons]

/-- Unless other keys are set, the keys of nodes are those of the rules for nodes. -/
theorem mem_nodeKeys_iff {c : Config} (hkeys : c.significantNodeKeys = []) {key : String} :
    key ∈ c.nodeKeys ↔ ∃ r ∈ c.rules, r.appliesTo .node = true ∧ r.key = key := by
  rw [nodeKeys, hkeys, if_pos List.isEmpty_nil, mem_dropRepeats, List.mem_mergeSort, List.mem_map]
  simp only [List.mem_filter, and_assoc, Rule.appliesTo]

theorem ruleFor?_eq_none_iff {c : Config} {kind : ElementKind} {tags : Tags} :
    c.ruleFor? kind (some tags) = none ↔ ∀ r ∈ c.rules, r.appliesTo kind = true → ¬ r.holds tags = true := by
  simp only [ruleFor?, List.find?_eq_none, Bool.and_eq_true, not_and, Option.any_some]

end Config

theorem Rule.contains_of_holds {r : Rule} {tags : Tags} (h : r.holds tags = true) : tags.contains r.key = true := by
  unfold Rule.holds at h
  unfold TextMap.contains
  split at h
  · cases h
  · next value hvalue => rw [hvalue, Option.isSome_some]

theorem TextMap.isEmpty_eq_false_of_contains {β : Type} {m : TextMap β} {key : String} (h : m.contains key = true) :
    m.isEmpty = false := by
  refine Bool.eq_false_iff.2 fun hempty => ?_
  rw [contains, get?, List.isEmpty_iff.1 hempty] at h
  cases h

/-- Whether the passes hand an element on to the classifier. -/
def Handed.isWanted {σ : Type} (p : FeatureProcessor σ) : Handed → Bool
  | node n => p.isSignificant n.tags
  | way w => !w.tags.isEmpty
  | relation _ tags => p.classifier.scansRelation tags

variable {c : Config} {p : FeatureProcessor Unit}

/-- **An element that a rule holds of is wanted**, whatever rules there are beside it. -/
theorem isWanted_of_holds (hkeys : c.significantNodeKeys = []) (hp : p.classifier = c.classifier) {store : ObjectStore}
    {h : Handed} {r : Rule} (hr : r ∈ c.rules) (hkind : r.appliesTo (h.element store).kind = true)
    (hholds : r.holds (h.element store).tags = true) : h.isWanted p = true := by
  cases h with
  | node n =>
    have hkey : r.key ∈ p.classifier.significantKeys := by
      rw [hp]
      exact (Config.mem_nodeKeys_iff hkeys).2 ⟨r, hr, hkind, rfl⟩
    exact List.any_eq_true.2 ⟨r.key, hkey, Rule.contains_of_holds hholds⟩
  | way w =>
    have htag := TextMap.isEmpty_eq_false_of_contains (Rule.contains_of_holds hholds)
    exact congrArg Bool.not htag
  | relation ways tags =>
    have hany : (c.rules.any fun r => r.appliesTo .relation && r.holds tags) = true :=
      List.any_eq_true.2 ⟨r, hr, Bool.and_eq_true_iff.2 ⟨hkind, hholds⟩⟩
    rw [Handed.isWanted, hp]
    exact Bool.or_eq_true_iff.2 (Or.inr hany)

/-- **An element without a rule** is classified without an error, and leaves everything but its own traces. -/
theorem process_of_ruleFor?_eq_none (hp : p.classifier = c.classifier) {e : Element}
    (hrule : c.ruleFor? e.kind (some e.tags) = none) (env : Surroundings) :
    p.process env e =
      (.ok [], { p with context := { p.context with phase := .idle, features := [], notices := [] }, lastCount := 0 }) := by
  have hscript : (p.classifier.classify e.kind p.memory).run env (p.context.begin e) =
      ((.ok (), ()), p.context.begin e) := by
    have htags : (p.context.begin e).element?.map Element.tags = some e.tags := rfl
    rw [hp]
    simp only [Config.classifier]
    rw [Script.run_bind, Script.run_call]
    simp only [Context.answer, htags, hrule]
    rfl
  rw [FeatureProcessor.process, hscript]
  rfl

/-- **The passes leave out nothing that the rules make a feature of**: an element that is not wanted is classified
without an error, and neither a feature nor metadata come of it; and whatever a rule holds of is wanted. -/
theorem unwanted_gives_nothing (hkeys : c.significantNodeKeys = []) (hp : p.classifier = c.classifier)
    (env : Surroundings) (h : Handed) :
    (h.isWanted p = false →
      ∃ q, p.process (h.surroundings env) (h.element env.store) = (.ok [], q) ∧ q.hasOutput = false ∧
        q.context.metadata = p.context.metadata) ∧
    (∀ r ∈ c.rules, r.appliesTo (h.element env.store).kind = true → r.holds (h.element env.store).tags = true →
      h.isWanted p = true) := by
  have hwanted : ∀ r ∈ c.rules, r.appliesTo (h.element env.store).kind = true →
      r.holds (h.element env.store).tags = true → h.isWanted p = true :=
    fun r hr hkind hholds => isWanted_of_holds hkeys hp hr hkind hholds
  refine ⟨fun hunwanted => ⟨_, process_of_ruleFor?_eq_none hp ?_ _, rfl, rfl⟩, hwanted⟩
  refine Config.ruleFor?_eq_none_iff.2 fun r hr hkind hholds => ?_
  rw [hwanted r hr hkind hholds] at hunwanted
  cases hunwanted

/-- Water as areas, and pubs. -/
def waterAndPubs : Config where
  store := .default
  significantNodeKeys := []
  rules := [
    ⟨"natural", some "water", [.way, .relation], "water", true, false, none, []⟩,
    ⟨"amenity", some "pub", ElementKind.all, "poi", false, false, none, [⟨"name", none, none, .string⟩]⟩]

/-- A gate is not wanted, and a pub is. -/
theorem unwanted_gives_nothing_gate :
    let p := FeatureProcessor.ofClassifier waterAndPubs.classifier
    let gate : Handed := .node ⟨7, ⟨0, 0⟩, TextMap.ofList [("barrier", "gate")]⟩
    let pub : Handed := .node ⟨8, ⟨0, 0⟩, TextMap.ofList [("amenity", "pub"), ("name", "The Bull")]⟩
    let env : Surroundings := ⟨.withNodes .default .empty, .empty⟩
    (∃ q, p.process env (gate.element env.store) = (.ok [], q) ∧ q.hasOutput = false ∧
      q.context.metadata = p.context.metadata) ∧ pub.isWanted p = true := by
  intro p gate pub env
  have hkeys : p.classifier.significantKeys = ["amenity"] := by
    simp [p, FeatureProcessor.ofClassifier, Config.classifier, Config.nodeKeys, waterAndPubs, Config.dropRepeats,
      ElementKind.all]
  have hgate : gate.isWanted p = false := by
    rw [Handed.isWanted, FeatureProcessor.isSignificant, hkeys]
    decide
  exact ⟨(unwanted_gives_nothing rfl rfl env gate).1 hgate,
    (unwanted_gives_nothing rfl rfl env pub).2 _ (List.mem_cons_of_mem _ List.mem_cons_self) (by decide) (by decide)⟩

end MapFeatures
