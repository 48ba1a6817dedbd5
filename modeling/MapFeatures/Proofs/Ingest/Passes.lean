import MapFeatures.Ingest.Passes
import MapFeatures.Proofs.Store.LastWrite
/-!
# Passes — what each part of a pass does to the store

A part keeps the classifier and changes the surroundings only as it says (`On`): nodes go into the node store block by
block, marked ways into the way store, and a relation draws an id.  A part fails only where the store refuses some nodes
(`CoversRefusals`) or the classifier fails on an element (`Fails`), so `E` stands for any set of errors that has these.
-/
namespace MapFeatures

variable {σ : Type}

/-- What nodes are stored as. -/
def Block.locations (block : List NodeRecord) : List (NodeId × Location) := block.map fun n => (n.id, n.at_)

/-- What ways are stored as. -/
def Block.nodeLists (block : List WayRecord) : List (WayId × List NodeId) := block.map fun w => (w.id, w.nodes)

namespace Surroundings

/-- The surroundings with other nodes and ways. -/
def holding (env : Surroundings) (nodes : NodeStore) (ways : WayStore) : Surroundings :=
  { env with store := { env.store with nodes, ways } }

/-- The surroundings with another id for the next relation. -/
def numbering (env : Surroundings) (next : WayId) : Surroundings :=
  { env with store := { env.store with nextRelationWay := next } }

end Surroundings

/-- Whether some processor of the classifier fails on an element. -/
def Fails (c : Classifier σ) (env : Surroundings) (e : Element) (err : ProcessingError) : Prop :=
  ∃ p : FeatureProcessor σ, p.classifier = c ∧ (p.process env e).1 = .error err

/-- Whether `E` has the errors with which node stores of this kind and capacity refuse a batch. -/
def CoversRefusals (E : ProcessingError → Prop) (capacity? : Option UInt64) (batch : List (NodeId × Location)) : Prop :=
  ∀ nodes : NodeStore, nodes.capacity? = capacity? → ∀ cause, nodes.insert batch = .error cause → E (.storage cause)

/-- An ingest past its scan. -/
structure Ingest.At (c : Classifier σ) (env : Surroundings) (i : Ingest σ) : Prop where
  classifier : i.classifier = c
  scanned : i.scanned = true
  env : i.env = env

theorem FeatureProcessor.classifier_process (env : Surroundings) (p : FeatureProcessor σ) (e : Element) :
    (p.process env e).2.classifier = p.classifier := by
  unfold process
  dsimp only
  split
  · rfl
  · rfl

namespace Work

variable {c : Classifier σ} {env : Surroundings} {E : ProcessingError → Prop}

/-- A pass under way past the scan. -/
structure On (c : Classifier σ) (env : Surroundings) (u : Underway σ) : Prop where
  ingest : u.ingest.At c env
  processor : u.processor.classifier = c

/-! ## Single parts -/

theorem ends_count (counters : Counters) :
    Ends (On c env) (count counters) (fun _ => On c env) fun err _ => E err :=
  Ends.modify _ fun _ h => ⟨h.ingest, h.processor⟩

theorem ends_renewProcessor : Ends (On c env) renewProcessor (fun _ => On c env) fun err _ => E err :=
  Ends.modify _ fun _ h => ⟨h.ingest, h.ingest.classifier⟩

theorem ends_collectMetadata : Ends (On c env) collectMetadata (fun _ => On c env) fun err _ => E err :=
  Ends.modify _ fun _ h => ⟨⟨h.ingest.classifier, h.ingest.scanned, h.ingest.env⟩, h.processor⟩

theorem ends_keepStore (store : ObjectStore) :
    Ends (On c env) (keepStore store) (fun _ => On c { env with store }) fun err _ => E err := by
  refine Ends.modify _ fun u h => ⟨⟨h.ingest.classifier, h.ingest.scanned, ?_⟩, h.processor⟩
  rw [h.ingest.env]

theorem ends_classify {e : Element} (hfail : ∀ err, Fails c env e err → E err) :
    Ends (On c env) (classify e) (fun _ => On c env) fun err _ => E err := by
  refine Ends.get_bind fun u hu => ?_
  have hkept := u.processor.classifier_process u.ingest.env e
  cases hrun : u.processor.process u.ingest.env e with
  | mk result processor =>
  rw [hrun] at hkept
  have hset : On c env { u with processor } := ⟨hu.ingest, hkept.trans hu.processor⟩
  refine (Ends.set _ hset (Q := fun _ => On c env)).bind fun _ => ?_
  cases result with
  | error err =>
    refine Ends.throw err fun _ _ => hfail err ⟨u.processor, hu.processor, ?_⟩
    rw [← hu.ingest.env, hrun]
  | ok features =>
    refine (Ends.modify _ fun v hv => ?_).bind fun _ => ends_count _
    exact ⟨⟨hv.ingest.classifier, hv.ingest.scanned, hv.ingest.env⟩, hv.processor⟩

theorem ends_node {n : NodeRecord} (hfail : ∀ err, Fails c env (.ofNode n.id n.at_ n.tags) err → E err) :
    Ends (On c env) (node n) (fun _ => On c env) fun err _ => E err := by
  refine Ends.get_bind fun u hu => ?_
  split
  · exact ends_classify hfail
  · exact Ends.pure _ fun _ h => h

theorem ends_way {w : WayRecord} (hfail : ∀ err, Fails c env (.ofWay w.id w.nodes w.tags) err → E err) :
    Ends (On c env) (way w) (fun _ => On c env) fun err _ => E err := by
  unfold way
  split
  · exact Ends.pure _ fun _ h => h
  · exact ends_classify hfail

/-! ## Blocks -/

section Blocks

variable {nodes : NodeStore} {ways : WayStore}

/-- **A block of nodes** goes into the node store. -/
theorem ends_nodes {block : List NodeRecord} (hstorage : CoversRefusals E nodes.capacity? (Block.locations block))
    (hfail : ∀ env, ∀ n ∈ block, ∀ err, Fails c env (.ofNode n.id n.at_ n.tags) err → E err) :
    Ends (On c (env.holding nodes ways)) (Work.nodes block)
      (fun _ u => ∃ nodes', nodes.insert (Block.locations block) = .ok nodes' ∧ On c (env.holding nodes' ways) u)
      fun err _ => E err := by
  refine (ends_count _).bind fun _ => Ends.get_bind fun u hu => ?_
  rw [hu.ingest.env]
  cases hinsert : nodes.insert (Block.locations block) with
  | error cause =>
    have hrefused : (env.holding nodes ways).store.insertNodes (block.map fun n => (n.id, n.at_)) = .error cause :=
      congrArg _ hinsert
    rw [hrefused]
    exact Ends.throw _ fun _ _ => hstorage nodes rfl cause hinsert
  | ok nodes' =>
    have hstored : (env.holding nodes ways).store.insertNodes (block.map fun n => (n.id, n.at_)) =
        .ok (env.holding nodes' ways).store := congrArg _ hinsert
    rw [hstored]
    have hloop : Ends (On c (env.holding nodes' ways)) (block.forM node) (fun _ => On c (env.holding nodes' ways))
        fun err _ => E err :=
      Ends.forM fun n hn => ends_node (hfail _ n hn)
    refine (ends_keepStore (env.holding nodes' ways).store).bind fun _ => hloop.bind fun _ => ?_
    exact ends_collectMetadata.imp fun _ _ h => ⟨nodes', rfl, h⟩

/-- The ways of a block that are stored. -/
def marked (used : UsedWays) (block : List WayRecord) : List WayRecord := block.filter fun w => used.contains w.id

/-- **A block of ways**: those that are marked go into the way store. -/
theorem ends_ways {block : List WayRecord}
    (hfail : ∀ ways, ∀ w ∈ block, ∀ err, Fails c (env.holding nodes ways) (.ofWay w.id w.nodes w.tags) err → E err) :
    Ends (On c (env.holding nodes ways)) (Work.ways block)
      (fun _ => On c (env.holding nodes (ways.insert (Block.nodeLists (marked env.store.usedWays block)))))
      fun err _ => E err := by
  refine Ends.get_bind fun u hu => ?_
  rw [hu.ingest.env]
  let stored := ways.insert (Block.nodeLists (marked env.store.usedWays block))
  have hloop : Ends (On c (env.holding nodes stored)) (block.forM way) (fun _ => On c (env.holding nodes stored))
      fun err _ => E err :=
    Ends.forM fun w hw => ends_way (hfail stored w hw)
  refine (ends_count _).bind fun _ => (ends_keepStore (env.holding nodes stored).store).bind fun _ => ?_
  exact hloop.bind fun _ => ends_collectMetadata

theorem insert_marked (ways : WayStore) (used : UsedWays) (first second : List WayRecord) :
    (ways.insert (Block.nodeLists (marked used first))).insert (Block.nodeLists (marked used second)) =
      ways.insert (Block.nodeLists (marked used (first ++ second))) := by
  rw [WayStore.insert_insert, marked, marked, marked, List.filter_append, Block.nodeLists, Block.nodeLists,
    Block.nodeLists, List.map_append]

theorem ends_forM_nodes
    (hfail : ∀ env (n : NodeRecord) err, Fails c env (.ofNode n.id n.at_ n.tags) err → E err) :
    ∀ (blocks : List (List NodeRecord)) (nodes : NodeStore),
      (∀ block ∈ blocks, CoversRefusals E nodes.capacity? (Block.locations block)) →
      Ends (On c (env.holding nodes ways)) (blocks.forM Work.nodes)
        (fun _ u => ∃ nodes', (blocks.map Block.locations).foldlM NodeStore.insert nodes = .ok nodes' ∧
          On c (env.holding nodes' ways) u)
        fun err _ => E err
  | [], nodes, _ => Ends.pure _ fun _ h => ⟨nodes, rfl, h⟩
  | block :: blocks, nodes, hstorage => by
    refine (ends_nodes (hstorage block List.mem_cons_self) fun env n _ => hfail env n).bind fun _ =>
      Ends.of_exists fun middle hmiddle => ?_
    have hlater : ∀ later ∈ blocks, CoversRefusals E middle.capacity? (Block.locations later) := by
      rw [NodeStore.capacity?_insert hmiddle]
      exact fun later hmem => hstorage later (List.mem_cons_of_mem block hmem)
    refine (ends_forM_nodes hfail blocks middle hlater).imp fun _ u ⟨nodes', hrest, hu⟩ => ⟨nodes', ?_, hu⟩
    rw [List.map_cons, List.foldlM_cons, hmiddle]
    exact hrest

theorem ends_forM_ways : ∀ {blocks : List (List WayRecord)} {ways : WayStore},
    (∀ ways, ∀ w ∈ blocks.flatten, ∀ err,
      Fails c (env.holding nodes ways) (.ofWay w.id w.nodes w.tags) err → E err) →
    Ends (On c (env.holding nodes ways)) (blocks.forM Work.ways)
      (fun _ => On c (env.holding nodes (ways.insert (Block.nodeLists (marked env.store.usedWays blocks.flatten)))))
      fun err _ => E err
  | [], _, _ => Ends.pure _ fun _ h => h
  | block :: blocks, ways, hfail => by
    rw [List.flatten_cons] at hfail ⊢
    rw [← insert_marked]
    refine (ends_ways fun ways w hw => hfail ways w (List.mem_append_left _ hw)).bind fun _ => ?_
    exact ends_forM_ways fun ways w hw => hfail ways w (List.mem_append_right _ hw)

/-- The batches in which the nodes of some blocks are stored. -/
def nodeBatches (bs : List Block) : List (List (NodeId × Location)) :=
  ((bs.map Block.nodes).filter (!·.isEmpty)).map Block.locations

/-- **Some blocks**: their nodes go into the node store batch by batch, their marked ways into the way store. -/
theorem ends_blocks {bs : List Block} (hstorage : ∀ batch ∈ nodeBatches bs, CoversRefusals E nodes.capacity? batch)
    (hnode : ∀ env (n : NodeRecord) err, Fails c env (.ofNode n.id n.at_ n.tags) err → E err)
    (hway : ∀ nodes' ways, (nodeBatches bs).foldlM NodeStore.insert nodes = .ok nodes' → ∀ w ∈ bs.flatMap Block.ways,
      ∀ err, Fails c (env.holding nodes' ways) (.ofWay w.id w.nodes w.tags) err → E err) :
    Ends (On c (env.holding nodes ways)) (Work.blocks bs)
      (fun _ u => ∃ nodes', (nodeBatches bs).foldlM NodeStore.insert nodes = .ok nodes' ∧
        On c (env.holding nodes'
          (ways.insert (Block.nodeLists (marked env.store.usedWays (bs.flatMap Block.ways))))) u)
      fun err _ => E err := by
  have hflatten : ((bs.map Block.ways).filter (!·.isEmpty)).flatten = bs.flatMap Block.ways := by
    rw [List.flatten_filter_not_isEmpty, List.flatMap_def]
  rw [← hflatten] at hway ⊢
  refine (ends_forM_nodes hnode _ nodes (List.forall_mem_map.1 hstorage)).bind fun _ => Ends.of_exists fun nodes' hnodes => ?_
  refine ends_renewProcessor.bind fun _ => ?_
  exact (ends_forM_ways fun ways w hw => hway nodes' ways hnodes w hw).imp fun _ u hu => ⟨nodes', hnodes, hu⟩

end Blocks

/-! ## Relations -/

/-- **A relation** draws an id and stores nothing. -/
theorem ends_relation {ways : WayLists} {next : WayId}
    (hfail : ∀ next standIn tags err, Fails c (env.numbering next) (.ofRelation ways standIn tags) err → E err) :
    Ends (On c (env.numbering next)) (relation ways) (fun _ => On c (env.numbering (next - 1)))
      fun err _ => E err := by
  refine Ends.get_bind fun u hu => ?_
  rw [hu.ingest.env]
  refine (ends_keepStore (env.numbering (next - 1)).store).bind fun _ => ?_
  exact (ends_classify (hfail (next - 1) next _)).bind fun _ => ends_collectMetadata

theorem ends_forM_relation : ∀ {recorded : List WayLists} {next : Int},
    (∀ ways ∈ recorded, ∀ next standIn tags err,
      Fails c (env.numbering next) (.ofRelation ways standIn tags) err → E err) →
    Ends (On c (env.numbering next)) (recorded.forM relation)
      (fun _ => On c (env.numbering (next - recorded.length))) fun err _ => E err
  | [], next, _ => Ends.pure _ fun _ h => by simpa using h
  | ways :: recorded, next, hfail => by
    have hnext : next - (ways :: recorded).length = next - 1 - recorded.length := by
      rw [List.length_cons]
      omega
    rw [hnext]
    refine (ends_relation (hfail ways List.mem_cons_self)).bind fun _ => ?_
    exact ends_forM_relation fun w hw => hfail w (List.mem_cons_of_mem ways hw)

/-- **The recorded relations** draw one id each. -/
theorem ends_relations (hfail : ∀ ways ∈ env.store.wayLists.toList, ∀ next standIn tags err,
      Fails c (env.numbering next) (.ofRelation ways standIn tags) err → E err) :
    Ends (On c env) relations
      (fun _ => On c (env.numbering (env.store.nextRelationWay - env.store.wayLists.toList.length)))
      fun err _ => E err := by
  refine Ends.get_bind fun u hu => ?_
  rw [hu.ingest.env]
  exact (ends_count _).bind fun _ => ends_forM_relation hfail

end Work

namespace Ingest

variable {c : Classifier σ} {env : Surroundings} {E : ProcessingError → Prop} {i : Ingest σ}

/-- **A pass past the scan** ends as its work does. -/
theorem run_ends {Q : Underway σ → Prop} {work : Work σ Unit} (pass : Pass) (hi : i.At c env)
    (h : Ends (Work.On c env) work (fun _ => Q) fun err _ => E err) :
    (∃ u, i.run pass work = (.ok u.counters, u.ingest) ∧ Q u) ∨ ∃ err i', i.run pass work = (.error err, i') ∧ E err := by
  unfold run
  rw [if_pos hi.scanned]
  have hstart : Work.On c env ⟨i, .ofClassifier i.classifier, .zero⟩ := ⟨hi, hi.classifier⟩
  match hrun : work.run.run ⟨i, .ofClassifier i.classifier, .zero⟩ with
  | (.ok (), u) => exact Or.inl ⟨u, rfl, h.of_eq_ok hstart hrun⟩
  | (.error err, u) => exact Or.inr ⟨err, u.ingest, rfl, h.of_eq_error hstart hrun⟩

end Ingest
end MapFeatures
