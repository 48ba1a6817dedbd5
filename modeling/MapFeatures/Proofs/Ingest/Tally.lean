import Mathlib.Algebra.GroupWithZero.Nat
import MapFeatures.Proofs.Ingest.RulePass
/-!
# Tally — the counters of a pass tell what its elements have delivered

What an element delivers is what the features grow by during its own step (`Work.delivers`); a pass that succeeds gives one
such list per element, in the order of the steps (`Ingest.blockDeliveries`, `Ingest.relationDeliveries`).  Each part of
a pass adds to the counters exactly what it adds to these lists (`Work.Tallies`), whatever the processor has seen before.
-/
namespace MapFeatures

variable {σ α ρ : Type}

/-! ## Deliveries -/

namespace Work

/-- The state that work leaves, also if it fails. -/
def after (w : Work σ Unit) (u : Underway σ) : Underway σ := (w.run.run u).2

/-- The features that come in while work is done. -/
def delivers (w : Work σ Unit) (u : Underway σ) : List Feature :=
  (w.after u).ingest.features.toList.drop u.ingest.features.size

/-- What the steps of a loop have delivered, if `own` tells it of a step and the state before it. -/
def trace (f : α → Work σ Unit) (own : α → Underway σ → List (ρ × List Feature)) :
    List α → Underway σ → List (ρ × List Feature)
  | [], _ => []
  | x :: xs, u => own x u ++ trace f own xs ((f x).after u)

-- the first half of a block, before any element is classified

def storeNodes (block : List NodeRecord) : Work σ Unit := do
  count (.ofGiven block.length block.length)
  match (← get).ingest.env.store.insertNodes (block.map fun n => (n.id, n.at_)) with
  | .error cause => throw (.storage cause)
  | .ok store => keepStore store

def storeWays (block : List WayRecord) : Work σ Unit := do
  let store := (← get).ingest.env.store
  let marked := block.filter fun w => store.usedWays.contains w.id
  count (.ofGiven block.length marked.length)
  keepStore (store.insertWays (marked.map fun w => (w.id, w.nodes)))

theorem nodes_eq (block : List NodeRecord) :
    (nodes block : Work σ Unit) = storeNodes block >>= fun _ => block.forM node >>= fun _ => collectMetadata := by
  simp only [nodes, storeNodes, bind_assoc]
  congr
  funext _
  congr
  funext u
  cases u.ingest.env.store.insertNodes (block.map fun n => (n.id, n.at_)) with
  | error cause => rfl
  | ok store => rfl

theorem ways_eq (block : List WayRecord) :
    (ways block : Work σ Unit) = storeWays block >>= fun _ => block.forM way >>= fun _ => collectMetadata := by
  simp only [ways, storeWays, bind_assoc]

/-- What each node of a block delivers. -/
def nodeTrace (block : List NodeRecord) (u : Underway σ) : List (Record × List Feature) :=
  trace node (fun n u => [(.node n, (node n).delivers u)]) block ((storeNodes block).after u)

/-- What each way of a block delivers. -/
def wayTrace (block : List WayRecord) (u : Underway σ) : List (Record × List Feature) :=
  trace way (fun w u => [(.way w, (way w).delivers u)]) block ((storeWays block).after u)

/-- What each node and then each way of some blocks delivers. -/
def blockTrace (bs : List Block) (u : Underway σ) : List (Record × List Feature) :=
  let nodeBlocks := (bs.map Block.nodes).filter (!·.isEmpty)
  trace nodes nodeTrace nodeBlocks u ++
    trace ways wayTrace ((bs.map Block.ways).filter (!·.isEmpty)) (renewProcessor.after ((nodeBlocks.forM nodes).after u))

/-- What each recorded relation delivers. -/
def relationTrace (recorded : List WayLists) (u : Underway σ) : List (WayLists × List Feature) :=
  trace relation (fun ways u => [(ways, (relation ways).delivers u)]) recorded
    ((count (.ofGiven recorded.length 0)).after u)

theorem map_fst_trace {f : α → Work σ Unit} {own : α → Underway σ → List (ρ × List Feature)} (names : α → List ρ)
    (h : ∀ x u, (own x u).map Prod.fst = names x) : ∀ (xs : List α) (u : Underway σ),
    (trace f own xs u).map Prod.fst = xs.flatMap names
  | [], _ => rfl
  | x :: xs, u => by
    rw [trace, List.map_append, h, map_fst_trace names h xs, List.flatMap_cons]

theorem map_fst_trace_elements {f : α → Work σ Unit} (name : α → ρ) (own : α → Underway σ → List Feature) (xs : List α)
    (u : Underway σ) : (trace f (fun x u => [(name x, own x u)]) xs u).map Prod.fst = xs.map name := by
  rw [map_fst_trace (fun x => [name x]) fun _ _ => rfl, List.map_eq_flatMap]

theorem map_fst_nodeTrace (block : List NodeRecord) (u : Underway σ) :
    (nodeTrace block u).map Prod.fst = block.map .node := map_fst_trace_elements _ _ block _

theorem map_fst_wayTrace (block : List WayRecord) (u : Underway σ) :
    (wayTrace block u).map Prod.fst = block.map .way := map_fst_trace_elements _ _ block _

theorem map_fst_relationTrace (recorded : List WayLists) (u : Underway σ) :
    (relationTrace recorded u).map Prod.fst = recorded := (map_fst_trace_elements _ _ recorded _).trans (List.map_id _)

theorem map_fst_blockTrace (bs : List Block) (u : Underway σ) :
    (blockTrace bs u).map Prod.fst = (bs.flatMap Block.nodes).map .node ++ (bs.flatMap Block.ways).map .way := by
  rw [blockTrace, List.map_append, map_fst_trace _ map_fst_nodeTrace, map_fst_trace _ map_fst_wayTrace, List.flatMap_def,
    List.flatMap_def, ← List.map_flatten, ← List.map_flatten, List.flatten_filter_not_isEmpty,
    List.flatten_filter_not_isEmpty, ← List.flatMap_def, ← List.flatMap_def]

/-! ## What a part of a pass adds -/

/-- A pass under way with a classifier and some marked ways. -/
structure Watched (c : Classifier σ) (used : UsedWays) (u : Underway σ) : Prop where
  ingest : u.ingest.classifier = c
  processor : u.processor.classifier = c
  usedWays : u.ingest.env.store.usedWays = used

/-- What some elements add: how many are given and stored, which are classified, and what each of them delivers. -/
structure Adds (classified : ρ → Bool) (u u' : Underway σ) (given stored : Nat) (made : List (ρ × List Feature)) :
    Prop where
  features : u'.ingest.features.toList = u.ingest.features.toList ++ made.flatMap Prod.snd
  counters : u'.counters =
    u.counters + ⟨given, stored, made.countP fun d => classified d.1, made.countP fun d => !d.2.isEmpty⟩
  silent : ∀ d ∈ made, classified d.1 = false → d.2 = []

section

variable {classified : ρ → Bool} {u u' u'' : Underway σ} {given stored given' stored' : Nat}
  {made made' : List (ρ × List Feature)}

theorem Adds.trans (h : Adds classified u u' given stored made) (h' : Adds classified u' u'' given' stored' made') :
    Adds classified u u'' (given + given') (stored + stored') (made ++ made') where
  features := by rw [h'.features, h.features, List.flatMap_append, List.append_assoc]
  counters := by
    rw [h'.counters, h.counters, Counters.add_assoc, Counters.add_def ⟨given, _, _, _⟩, List.countP_append,
      List.countP_append]
  silent d hd := (List.mem_append.1 hd).elim (h.silent d) (h'.silent d)

theorem adds_nothing (hfeatures : u'.ingest.features = u.ingest.features)
    (hcounters : u'.counters = u.counters + .ofGiven given stored) :
    Adds classified u u' given stored ([] : List (ρ × List Feature)) where
  features := by rw [hfeatures, List.flatMap_nil, List.append_nil]
  counters := hcounters
  silent d hd := absurd hd List.not_mem_nil

end

variable (classified : ρ → Bool) (c : Classifier σ) (used : UsedWays)

/-- Whether work that succeeds adds just what it should. -/
def Tallies (w : Work σ Unit) (given stored : Nat) (made : Underway σ → List (ρ × List Feature)) : Prop :=
  ∀ u u', Watched c used u → w.run.run u = (.ok (), u') →
    Watched c used u' ∧ Adds classified u u' given stored (made u)

variable {classified c used} {w : Work σ Unit} {f : Unit → Work σ Unit} {given stored given' stored' : Nat}
  {made made' : Underway σ → List (ρ × List Feature)}

theorem Tallies.bind (hw : Tallies classified c used w given stored made)
    (hf : Tallies classified c used (f ()) given' stored' made') :
    Tallies classified c used (w >>= f) (given + given') (stored + stored') fun u => made u ++ made' (w.after u) := by
  intro u u'' hu hrun
  obtain ⟨⟨⟩, u', hfirst, hrest⟩ := run_bind_eq_ok hrun
  obtain ⟨hu', hadds⟩ := hw u u' hu hfirst
  obtain ⟨hu'', hadds'⟩ := hf u' u'' hu' hrest
  have hafter : w.after u = u' := congrArg Prod.snd hfirst
  dsimp only
  rw [hafter]
  exact ⟨hu'', hadds.trans hadds'⟩

theorem tallies_pure : Tallies classified c used (pure () : Work σ Unit) 0 0 fun _ => [] := by
  intro u u' hu hrun
  cases hrun
  exact ⟨hu, adds_nothing rfl rfl⟩

theorem tallies_renewProcessor : Tallies classified c used renewProcessor 0 0 fun _ => [] := by
  intro u u' hu hrun
  cases hrun
  exact ⟨⟨hu.ingest, hu.ingest, hu.usedWays⟩, adds_nothing rfl rfl⟩

theorem tallies_collectMetadata : Tallies classified c used collectMetadata 0 0 fun _ => [] := by
  intro u u' hu hrun
  cases hrun
  exact ⟨⟨hu.ingest, hu.processor, hu.usedWays⟩, adds_nothing rfl rfl⟩

/-- **A loop adds what its steps add**, one after the other. -/
theorem tallies_forM {f : α → Work σ Unit} {given stored : α → Nat} {own : α → Underway σ → List (ρ × List Feature)}
    (h : ∀ x, Tallies classified c used (f x) (given x) (stored x) (own x)) : ∀ xs : List α,
    Tallies classified c used (xs.forM f) (xs.map given).sum (xs.map stored).sum (trace f own xs)
  | [] => tallies_pure
  | x :: xs => by
    rw [List.map_cons, List.map_cons, List.sum_cons, List.sum_cons]
    exact (h x).bind (tallies_forM h xs)

/-- **A block adds what its elements add**, once some are stored. -/
theorem tallies_block {store : Work σ Unit} {f : α → Work σ Unit} {own : α → Underway σ → List (ρ × List Feature)}
    (hstore : Tallies classified c used store given stored fun _ => [])
    (h : ∀ x, Tallies classified c used (f x) 0 0 (own x)) (xs : List α) :
    Tallies classified c used (store >>= fun _ => xs.forM f >>= fun _ => collectMetadata) given stored
      fun u => trace f own xs (store.after u) := by
  have hloop := hstore.bind (f := fun _ => _) ((tallies_forM h xs).bind (f := fun _ => _) tallies_collectMetadata)
  simpa using hloop

/-! ## Elements -/

theorem counters_classify {e : Element} {u u' : Underway σ} (hrun : (classify e).run.run u = (.ok (), u')) :
    u'.counters = u.counters + .ofClassified u'.processor.hasOutput := by
  rw [classify, run_bind_of_eq_ok (run_get u)] at hrun
  revert hrun
  rcases u.processor.process u.ingest.env e with ⟨err | features, processor⟩
  · intro hrun
    cases hrun
  · intro hrun
    cases hrun
    rfl

/-- **An element that is classified** counts as one that gives a feature just if it does. -/
theorem adds_classify {e : Element} {x : ρ} {u u' : Underway σ} (hx : classified x = true) (hu : Watched c used u)
    (hrun : (classify e).run.run u = (.ok (), u')) :
    Watched c used u' ∧ Adds classified u u' 0 0 [(x, u.processor.gives u.ingest.env e)] := by
  obtain ⟨-, hprocessor, hingest⟩ := run_classify e u
  rw [hrun] at hprocessor hingest
  have hcounters := counters_classify hrun
  have hkept := u.processor.classifier_process u.ingest.env e
  rw [← hprocessor] at hkept
  have houtput : u'.processor.hasOutput = !(u.processor.gives u.ingest.env e).isEmpty := by
    rw [Bool.eq_iff_iff, hprocessor, FeatureProcessor.hasOutput_process]
    simp
  refine ⟨⟨?_, hkept.trans hu.processor, ?_⟩, ?_, ?_, ?_⟩
  · rw [hingest]
    exact hu.ingest
  · rw [hingest]
    exact hu.usedWays
  · rw [hingest]
    simp
  · rw [hcounters, houtput]
    simp [Counters.ofClassified, hx, List.countP_cons]
  · intro d hd hno
    rw [List.mem_singleton.1 hd, hx] at hno
    cases hno

/-- What one element adds is what comes in during its step. -/
theorem tallies_of_exists {x : ρ} (h : ∀ u u', Watched c used u → w.run.run u = (.ok (), u') →
      Watched c used u' ∧ ∃ made, Adds classified u u' 0 0 [(x, made)]) :
    Tallies classified c used w 0 0 fun u => [(x, w.delivers u)] := by
  intro u u' hu hrun
  obtain ⟨hu', made, hadds⟩ := h u u' hu hrun
  have hdelivers : w.delivers u = made := by
    rw [delivers, after, hrun]
    dsimp only
    rw [hadds.features, List.flatMap_singleton, ← Array.length_toList, List.drop_left]
  dsimp only
  rw [hdelivers]
  exact ⟨hu', hadds⟩

theorem adds_skipped {x : ρ} {u : Underway σ} (hx : classified x = false) : Adds classified u u 0 0 [(x, [])] where
  features := by simp
  counters := by simp [hx, Counters.add_def]
  silent d hd _ := by rw [List.mem_singleton.1 hd]

end Work

/-- Whether a node or a way is classified. -/
def Classifier.handles (c : Classifier σ) : Record → Bool
  | .node n => c.significantKeys.any n.tags.contains
  | .way w => !w.tags.isEmpty

namespace Work

variable {c : Classifier σ} {used : UsedWays}

theorem tallies_node (n : NodeRecord) :
    Tallies c.handles c used (node n) 0 0 fun u => [(.node n, (node n).delivers u)] := by
  refine tallies_of_exists fun u u' hu hrun => ?_
  rw [node_eq, run_bind_of_eq_ok (run_get u), FeatureProcessor.isSignificant, hu.processor] at hrun
  split at hrun
  · next hsignificant =>
    have hhandled : c.handles (.node n) = true := hsignificant
    obtain ⟨hu', hadds⟩ := adds_classify hhandled hu hrun
    exact ⟨hu', _, hadds⟩
  · next hplain =>
    cases hrun
    exact ⟨hu, [], adds_skipped (Bool.eq_false_iff.2 hplain)⟩

theorem tallies_way (w : WayRecord) :
    Tallies c.handles c used (way w) 0 0 fun u => [(.way w, (way w).delivers u)] := by
  refine tallies_of_exists fun u u' hu hrun => ?_
  rw [way_eq] at hrun
  split at hrun
  · next hplain =>
    cases hrun
    exact ⟨hu, [], adds_skipped (by rw [Classifier.handles, hplain]; rfl)⟩
  · next htagged =>
    have hhandled : c.handles (.way w) = true := by rw [Classifier.handles, Bool.eq_false_iff.2 htagged]; rfl
    obtain ⟨hu', hadds⟩ := adds_classify hhandled hu hrun
    exact ⟨hu', _, hadds⟩

theorem tallies_relation (ways : WayLists) :
    Tallies (fun _ => true) c used (relation ways) 0 0 fun u => [(ways, (relation ways).delivers u)] := by
  refine tallies_of_exists fun u u' hu hrun => ?_
  rw [relation, run_bind_of_eq_ok (run_get u)] at hrun
  obtain ⟨⟨⟩, drawn, hkeep, hrun⟩ := run_bind_eq_ok hrun
  obtain ⟨⟨⟩, made, hclassify, hcollect⟩ := run_bind_eq_ok hrun
  have hdrawn : Watched c used drawn ∧ Adds (fun _ => true) u drawn 0 0 ([] : List (WayLists × List Feature)) := by
    cases hkeep
    exact ⟨⟨hu.ingest, hu.processor, hu.usedWays⟩, adds_nothing rfl rfl⟩
  have hadded : Watched c used made ∧ Adds (fun _ => true) drawn made 0 0 [(ways, _)] :=
    adds_classify rfl hdrawn.1 hclassify
  obtain ⟨hu', hcollected⟩ := tallies_collectMetadata made u' hadded.1 hcollect
  exact ⟨hu', _, (hdrawn.2.trans hadded.2).trans hcollected⟩

/-! ## Blocks -/

theorem tallies_storeNodes {classified : Record → Bool} (block : List NodeRecord) :
    Tallies classified c used (storeNodes block) block.length block.length fun _ => [] := by
  intro u u' hu hrun
  rw [storeNodes] at hrun
  obtain ⟨⟨⟩, counted, hcount, hrun⟩ := run_bind_eq_ok hrun
  cases hcount
  rw [run_bind_of_eq_ok (run_get _)] at hrun
  split at hrun
  · cases hrun
  · next store hstored =>
    obtain ⟨nodes, -, rfl⟩ := map_eq_ok hstored
    cases hrun
    exact ⟨⟨hu.ingest, hu.processor, hu.usedWays⟩, adds_nothing rfl rfl⟩

theorem tallies_storeWays {classified : Record → Bool} (block : List WayRecord) :
    Tallies classified c used (storeWays block) block.length (block.countP fun w => used.contains w.id) fun _ => [] := by
  intro u u' hu hrun
  rw [storeWays, run_bind_of_eq_ok (run_get u)] at hrun
  dsimp only at hrun
  rw [hu.usedWays, ← List.countP_eq_length_filter] at hrun
  cases hrun
  exact ⟨⟨hu.ingest, hu.processor, hu.usedWays⟩, adds_nothing rfl rfl⟩

theorem tallies_nodes (block : List NodeRecord) :
    Tallies c.handles c used (nodes block) block.length block.length (nodeTrace block) := by
  rw [nodes_eq]
  exact tallies_block (tallies_storeNodes block) tallies_node block

theorem tallies_ways (block : List WayRecord) :
    Tallies c.handles c used (ways block) block.length (block.countP fun w => used.contains w.id) (wayTrace block) := by
  rw [ways_eq]
  exact tallies_block (tallies_storeWays block) tallies_way block

theorem sum_lengths (blocks : List (List α)) : ((blocks.filter (!·.isEmpty)).map List.length).sum = blocks.flatten.length := by
  rw [← List.length_flatten, List.flatten_filter_not_isEmpty]

/-- **Some blocks**: every node is given and stored, every way is given and the marked ones are stored. -/
theorem tallies_blocks (bs : List Block) :
    let ns := bs.flatMap Block.nodes
    let ws := bs.flatMap Block.ways
    Tallies c.handles c used (blocks bs) (ns.length + ws.length)
      (ns.length + ws.countP fun w => used.contains w.id) (blockTrace bs) := by
  intro ns ws
  have hstored : (((bs.map Block.ways).filter (!·.isEmpty)).map fun block => block.countP fun w => used.contains w.id).sum =
      ws.countP fun w => used.contains w.id := by
    rw [← List.countP_flatten, List.flatten_filter_not_isEmpty, ← List.flatMap_def]
  have hnodes : Tallies c.handles c used _ _ _ _ := tallies_forM tallies_nodes ((bs.map Block.nodes).filter (!·.isEmpty))
  have hways : Tallies c.handles c used _ _ _ _ := tallies_forM tallies_ways ((bs.map Block.ways).filter (!·.isEmpty))
  have hloops := hnodes.bind (f := fun _ => _) (tallies_renewProcessor.bind (f := fun _ => _) hways)
  rw [sum_lengths, sum_lengths, hstored, ← List.flatMap_def, ← List.flatMap_def, Nat.zero_add, Nat.zero_add] at hloops
  exact hloops

/-- **The recorded relations** are all given and none is stored. -/
theorem adds_relations {u u' : Underway σ} (hu : Watched c used u) (hrun : relations.run.run u = (.ok (), u')) :
    Adds (fun _ => true) u u' u.ingest.env.store.wayLists.toList.length 0
      (relationTrace u.ingest.env.store.wayLists.toList u) := by
  let recorded := u.ingest.env.store.wayLists.toList
  rw [relations, run_bind_of_eq_ok (run_get u)] at hrun
  have hcount : Tallies (fun _ : WayLists => true) c used (count (.ofGiven recorded.length 0)) recorded.length 0
      fun _ => [] := by
    intro v v' hv hcounted
    cases hcounted
    exact ⟨⟨hv.ingest, hv.processor, hv.usedWays⟩, adds_nothing rfl rfl⟩
  have hloop := hcount.bind (f := fun _ => _) (tallies_forM tallies_relation recorded)
  simpa [relationTrace, recorded] using (hloop u u' hu hrun).2

end Work

/-! ## Passes -/

/-- Whether counters tell what a pass has delivered for its elements. -/
structure Counters.Tells (k : Counters) (classified : ρ → Bool) (i after : Ingest σ) (made : List (ρ × List Feature)) :
    Prop where
  features : after.features.toList = i.features.toList ++ made.flatMap Prod.snd
  silent : ∀ d ∈ made, classified d.1 = false → d.2 = []
  withOutput : k.withOutput = made.countP fun d => !d.2.isEmpty
  le_classified : k.withOutput ≤ k.classified
  le_elements : k.classified ≤ k.elements
  le_features : i.features.size + k.withOutput ≤ after.features.size
  grows_iff : i.features.size < after.features.size ↔ 0 < k.withOutput

theorem countP_le_length_flatMap (made : List (ρ × List Feature)) :
    (made.countP fun d => !d.2.isEmpty) ≤ (made.flatMap Prod.snd).length := by
  induction made with
  | nil => exact Nat.le_refl 0
  | cons d made ih =>
    have hone : (if (!d.2.isEmpty) = true then 1 else 0) ≤ d.2.length := by
      cases d.2 with
      | nil => simp
      | cons f fs => simp
    rw [List.countP_cons, List.flatMap_cons, List.length_append]
    omega

theorem countP_pos_iff_flatMap (made : List (ρ × List Feature)) :
    0 < (made.countP fun d => !d.2.isEmpty) ↔ 0 < (made.flatMap Prod.snd).length := by
  rw [List.countP_pos_iff, List.length_pos_iff_exists_mem]
  constructor
  · rintro ⟨d, hd, hmade⟩
    obtain ⟨f, hf⟩ := List.exists_mem_of_ne_nil d.2 (by simpa using hmade)
    exact ⟨f, List.mem_flatMap.2 ⟨d, hd, hf⟩⟩
  · rintro ⟨f, hf⟩
    obtain ⟨d, hd, hf⟩ := List.mem_flatMap.1 hf
    exact ⟨d, hd, by simpa using List.ne_nil_of_mem hf⟩

namespace Ingest

variable (i : Ingest σ)

/-- What each node and each way of some blocks delivers, if the second pass is run for them. -/
def blockDeliveries (bs : List Block) : List (Record × List Feature) :=
  Work.blockTrace bs ⟨i, .ofClassifier i.classifier, .zero⟩

/-- What each recorded relation delivers, if the third pass is run. -/
def relationDeliveries : List (WayLists × List Feature) :=
  Work.relationTrace i.env.store.wayLists.toList ⟨i, .ofClassifier i.classifier, .zero⟩

variable {i}

/-- **What a pass that succeeds counts**, if its work adds just what it should. -/
theorem tells_of_adds {classified : ρ → Bool} {pass : Pass} {work : Work σ Unit} {given stored : Nat}
    {delivered : List (ρ × List Feature)} {k : Counters} {after : Ingest σ}
    (hwork : ∀ u, work.run.run ⟨i, .ofClassifier i.classifier, .zero⟩ = (.ok (), u) →
      Work.Adds classified ⟨i, .ofClassifier i.classifier, .zero⟩ u given stored delivered)
    (hgiven : delivered.length = given) (hrun : i.run pass work = (.ok k, after)) :
    k.elements = given ∧ k.stored = stored ∧ k.classified = (delivered.map Prod.fst).countP classified ∧
      k.Tells classified i after delivered := by
  obtain ⟨u, hends, rfl, rfl⟩ := run_eq_ok hrun
  have hadds := hwork u hends
  have hcounters := hadds.counters
  rw [Counters.zero_add] at hcounters
  have hsize : u.ingest.features.size = i.features.size + (delivered.flatMap Prod.snd).length := by
    rw [← Array.length_toList, hadds.features, List.length_append, Array.length_toList]
  have hclassified : u.counters.classified = (delivered.map Prod.fst).countP classified := by
    rw [hcounters, List.countP_map]
    rfl
  have houtput : u.counters.withOutput = delivered.countP fun d => !d.2.isEmpty := by rw [hcounters]
  refine ⟨by rw [hcounters], by rw [hcounters], hclassified, hadds.features, hadds.silent, houtput, ?_, ?_, ?_, ?_⟩
  · -- only what is classified delivers
    rw [houtput, hclassified, List.countP_map]
    refine List.countP_mono_left fun d hd hmade => ?_
    by_contra hno
    rw [hadds.silent d hd (Bool.eq_false_iff.2 hno)] at hmade
    cases hmade
  · rw [hcounters, ← hgiven]
    exact List.countP_le_length
  · rw [hsize, houtput]
    exact Nat.add_le_add_left (countP_le_length_flatMap delivered) _
  · rw [hsize, houtput, countP_pos_iff_flatMap]
    omega

/-- **The counters of a pass are exact.**  If the second pass succeeds, each node and each way of its blocks was given, all
nodes and the marked ways were stored, the nodes with a significant tag and the ways with a tag were classified, and those
that delivered a feature have output.  If the third pass succeeds, each recorded relation was given and classified, and
those that delivered a feature have output. -/
theorem counters_exact (i : Ingest σ) :
    (∀ bs k after, i.blocks bs = (.ok k, after) →
      let ns := bs.flatMap Block.nodes
      let ws := bs.flatMap Block.ways
      (i.blockDeliveries bs).map Prod.fst = ns.map .node ++ ws.map .way ∧
        k.elements = ns.length + ws.length ∧
        k.stored = ns.length + ws.countP (fun w => i.env.store.usedWays.contains w.id) ∧
        k.classified = ns.countP (fun n => i.classifier.significantKeys.any n.tags.contains) +
          ws.countP (fun w => !w.tags.isEmpty) ∧
        k.Tells i.classifier.handles i after (i.blockDeliveries bs)) ∧
    ∀ k after, i.relations = (.ok k, after) →
      i.relationDeliveries.map Prod.fst = i.env.store.wayLists.toList ∧
        k.elements = i.env.store.wayLists.toList.length ∧ k.stored = 0 ∧
        k.classified = i.env.store.wayLists.toList.length ∧
        k.Tells (fun _ => true) i after i.relationDeliveries := by
  refine ⟨fun bs k after hrun => ?_, fun k after hrun => ?_⟩
  · intro ns ws
    have hnames : (i.blockDeliveries bs).map Prod.fst = ns.map .node ++ ws.map .way := Work.map_fst_blockTrace bs _
    have hlength : (i.blockDeliveries bs).length = ns.length + ws.length := by
      rw [← List.length_map Prod.fst, hnames, List.length_append, List.length_map, List.length_map]
    obtain ⟨helements, hstored, hclassified, htells⟩ :=
      tells_of_adds (fun u hends => (Work.tallies_blocks bs _ u ⟨rfl, rfl, rfl⟩ hends).2) hlength hrun
    rw [← blockDeliveries, hnames, List.countP_append, List.countP_map, List.countP_map] at hclassified
    exact ⟨hnames, helements, hstored, hclassified, htells⟩
  · have hnames : i.relationDeliveries.map Prod.fst = i.env.store.wayLists.toList := Work.map_fst_relationTrace _ _
    have hlength : i.relationDeliveries.length = i.env.store.wayLists.toList.length := by
      rw [← List.length_map Prod.fst, hnames]
    obtain ⟨helements, hstored, hclassified, htells⟩ :=
      tells_of_adds (fun u hends => Work.adds_relations ⟨rfl, rfl, rfl⟩ hends) hlength hrun
    rw [← relationDeliveries, hnames, List.countP_true] at hclassified
    exact ⟨hnames, helements, hstored, hclassified, htells⟩

/-! ## Two nodes, two ways and a relation -/

/-- An ingest past its scan, with a recorded relation and a marked way, that draws towns. -/
def crossed : Ingest Unit :=
  let store : ObjectStore := .withNodes .default .empty
  let store := { store with wayLists := ⟨#[⟨7, [5], []⟩], true, 1⟩, usedWays := UsedWays.empty.mark 5 }
  { ofStore store .empty townRules.classifier with scanned := true }

/-- Blocks with nodes and ways mixed, of which one each has a tag. -/
def crossing : List Block :=
  [[.way ⟨5, [1, 2], TextMap.ofList [("highway", "primary")]⟩, .node ⟨1, ⟨0, 0⟩, TextMap.ofList [("place", "town")]⟩],
    [.node ⟨2, ⟨0, 10⟩, ∅⟩, .way ⟨6, [2], ∅⟩]]

theorem counters_exact_crossing :
    (∃ after, crossed.blocks crossing = (.ok ⟨4, 3, 2, 1⟩, after) ∧
      Counters.Tells ⟨4, 3, 2, 1⟩ crossed.classifier.handles crossed after (crossed.blockDeliveries crossing)) ∧
    ∃ after, crossed.relations = (.ok ⟨1, 0, 1, 0⟩, after) ∧
      Counters.Tells ⟨1, 0, 1, 0⟩ (fun _ => true) crossed after crossed.relationDeliveries := by
  have hsplit : ∀ (ran : Except ProcessingError Counters × Ingest Unit) (k : Counters), ran.1.toOption = some k →
      ∃ after, ran = (.ok k, after) := by
    rintro ⟨err | k, i⟩ k' hk
    · cases hk
    · cases hk
      exact ⟨i, rfl⟩
  obtain ⟨after, hblocks⟩ := hsplit (crossed.blocks crossing) ⟨4, 3, 2, 1⟩ (by decide +kernel)
  obtain ⟨after', hrelations⟩ := hsplit crossed.relations ⟨1, 0, 1, 0⟩ (by decide +kernel)
  obtain ⟨-, -, -, -, hfirst⟩ := (counters_exact crossed).1 crossing _ after hblocks
  obtain ⟨-, -, -, -, hsecond⟩ := (counters_exact crossed).2 _ after' hrelations
  exact ⟨⟨after, hblocks, hfirst⟩, after', hrelations, hsecond⟩

end Ingest
end MapFeatures
