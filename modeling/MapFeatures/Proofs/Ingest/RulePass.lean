import MapFeatures.Proofs.Ingest.Ledger
/-!
# RulePass — what the block pass leaves, if the classifier follows rules

Rules have nothing in mind, and see the same of a node wherever it is stored.  So the pass leaves what all nodes and then
all ways leave (`Ingest.withNodes`, `Ingest.withWays`), no matter how they are cut into blocks (`Ingest.blocks_rules`).
-/
namespace MapFeatures

/-! ## Counters -/

namespace Counters

theorem add_def (a b : Counters) : a + b =
    ⟨a.elements + b.elements, a.stored + b.stored, a.classified + b.classified, a.withOutput + b.withOutput⟩ := rfl

theorem add_assoc (a b c : Counters) : a + b + c = a + (b + c) := by
  simp only [add_def, Nat.add_assoc]

theorem zero_add (a : Counters) : zero + a = a := by
  simp only [add_def, zero, Nat.zero_add]

theorem add_add_add_comm (a b c d : Counters) : a + b + (c + d) = a + c + (b + d) := by
  simp only [add_def, Nat.add_add_add_comm]

end Counters

theorem appendList_assoc {α : Type} (xs : Array α) (ys zs : List α) : xs ++ ys ++ zs = xs ++ (ys ++ zs) := by
  rw [← Array.toList_inj, Array.toList_appendList, Array.toList_appendList, Array.toList_appendList, List.append_assoc]

/-! ## The elements that are classified -/

section

variable {σ : Type}

/-- The nodes that have a significant tag. -/
def Classifier.nodeElements (c : Classifier σ) (ns : List NodeRecord) : List Element :=
  (ns.filter fun n => c.significantKeys.any n.tags.contains).map fun n => .ofNode n.id n.at_ n.tags

/-- The ways that have a tag. -/
def wayElements (ws : List WayRecord) : List Element :=
  (ws.filter fun w => !w.tags.isEmpty).map fun w => .ofWay w.id w.nodes w.tags

namespace Ledger

theorem foldl_node (block : List NodeRecord) (l : Ledger σ) :
    block.foldl node l = (l.ingest.classifier.nodeElements block).foldl classify l := by
  induction block generalizing l with
  | nil => rfl
  | cons n block ih =>
    rw [List.foldl_cons, ih, node, Classifier.nodeElements, Classifier.nodeElements, List.filter_cons]
    split
    · rfl
    · rfl

theorem along_node (block : List NodeRecord) (l : Ledger σ) :
    Along NodeReady node l block ↔ Along Accepts classify l (l.ingest.classifier.nodeElements block) := by
  induction block generalizing l with
  | nil => exact Iff.rfl
  | cons n block ih =>
    rw [Along, ih, node, NodeReady, Classifier.nodeElements, Classifier.nodeElements, List.filter_cons]
    split
    · next h => simp [Along, h, classify]
    · next h => simp [h]

theorem foldl_way (block : List WayRecord) (l : Ledger σ) :
    block.foldl way l = (wayElements block).foldl classify l := by
  induction block generalizing l with
  | nil => rfl
  | cons w block ih =>
    rw [List.foldl_cons, ih, way, wayElements, wayElements, List.filter_cons]
    cases w.tags.isEmpty with
    | true => rfl
    | false => rfl

theorem along_way (block : List WayRecord) (l : Ledger σ) :
    Along WayReady way l block ↔ Along Accepts classify l (wayElements block) := by
  induction block generalizing l with
  | nil => exact Iff.rfl
  | cons w block ih =>
    rw [Along, ih, way, WayReady, wayElements, wayElements, List.filter_cons]
    cases h : w.tags.isEmpty with
    | true => simp
    | false => simp [Along]

end Ledger

end

/-! ## Classifiers with nothing in mind -/

namespace Ledger

/-- How many elements are classified, and how many of them give a feature. -/
def counted (c : Classifier Unit) (env : Surroundings) (es : List Element) : Counters :=
  ⟨0, 0, es.length, es.countP fun e => !(c.features () env e).isEmpty⟩

theorem foldl_classify (es : List Element) (l : Ledger Unit) :
    es.foldl classify l =
      { ingest :=
          { l.ingest with
            features := l.ingest.features ++ es.flatMap (l.ingest.classifier.features () l.ingest.env) }
        memory := ()
        records := l.records ++ es.flatMap (l.ingest.classifier.records () l.ingest.env)
        counters := l.counters + counted l.ingest.classifier l.ingest.env es } := by
  induction es generalizing l with
  | nil => simp [counted, Counters.add_def]
  | cons e es ih =>
    have hcounted : counted l.ingest.classifier l.ingest.env (e :: es) =
        Counters.ofClassified (!(l.ingest.classifier.features () l.ingest.env e).isEmpty) +
          counted l.ingest.classifier l.ingest.env es := by
      simp only [counted, Counters.ofClassified, Counters.add_def, List.length_cons, List.countP_cons, Nat.add_comm]
    rw [List.foldl_cons, ih, hcounted, List.flatMap_cons, List.flatMap_cons, ← List.append_assoc,
      ← Counters.add_assoc, ← appendList_assoc]
    rfl

theorem counted_append (c : Classifier Unit) (env : Surroundings) (es later : List Element) :
    counted c env (es ++ later) = counted c env es + counted c env later := by
  simp only [counted, Counters.add_def, List.length_append, List.countP_append]

theorem along_accepts (es : List Element) (l : Ledger Unit) : Along Accepts classify l es ↔
    ∀ e ∈ es, (l.ingest.classifier.outcome () l.ingest.env e).1 = .ok () := by
  induction es generalizing l with
  | nil => simp [Along]
  | cons e es ih =>
    rw [Along, ih, List.forall_mem_cons]
    rfl

end Ledger

/-! ## All nodes, and all ways -/

namespace Ingest

/-- The ingest with another store, once some elements are classified. -/
def classifying (i : Ingest Unit) (store : ObjectStore) (es : List Element) : Ingest Unit :=
  { i with
    env := { i.env with store }
    metadata := i.metadata.recordAll (es.flatMap (i.classifier.records () i.env))
    features := i.features ++ es.flatMap (i.classifier.features () i.env) }

/-- The ingest once some nodes are stored and classified. -/
def withNodes (i : Ingest Unit) (ns : List NodeRecord) : Ingest Unit :=
  let nodes := (Block.locations ns).foldl NodeStore.put i.env.store.nodes
  i.classifying { i.env.store with nodes } (i.classifier.nodeElements ns)

def nodeCounters (i : Ingest Unit) (ns : List NodeRecord) : Counters :=
  .ofGiven ns.length ns.length + Ledger.counted i.classifier i.env (i.classifier.nodeElements ns)

/-- The ingest once some ways are classified, of which the marked ones are stored. -/
def withWays (i : Ingest Unit) (ws : List WayRecord) : Ingest Unit :=
  let marked := Work.marked i.env.store.usedWays ws
  i.classifying (i.env.store.insertWays (Block.nodeLists marked)) (wayElements ws)

def wayCounters (i : Ingest Unit) (ws : List WayRecord) : Counters :=
  .ofGiven ws.length (Work.marked i.env.store.usedWays ws).length + Ledger.counted i.classifier i.env (wayElements ws)

/-- Whether the store takes each of some nodes. -/
def TakesNodes (i : Ingest Unit) (ns : List NodeRecord) : Prop := ∀ n ∈ ns, i.env.store.nodes.Takes (n.id, n.at_)

/-- Whether each of some ways can be classified. -/
def TakesWays (i : Ingest Unit) (ws : List WayRecord) : Prop :=
  ∀ e ∈ wayElements ws, (i.classifier.outcome () i.env e).1 = .ok ()

theorem nodeElements_agree {σ : Type} (c : Classifier σ) (ns : List NodeRecord) {env env' : Surroundings}
    (h : env.layers = env'.layers) : ∀ e ∈ c.nodeElements ns, Building.Agrees env env' e := by
  intro e he
  obtain ⟨n, -, rfl⟩ := List.mem_map.1 he
  exact agrees_ofNode h n.id n.at_ n.tags

theorem wayElements_agree (ws : List WayRecord) {env env' : Surroundings} (h : env.SameNodes env') :
    ∀ e ∈ wayElements ws, Building.Agrees env env' e := by
  intro e he
  obtain ⟨w, -, rfl⟩ := List.mem_map.1 he
  exact agrees_ofWay h w.id w.nodes w.tags

section

variable {rules : Config} {c : Classifier Unit} (hc : c = rules.classifier) {env env' : Surroundings} {es : List Element}
  (h : ∀ e ∈ es, Building.Agrees env env' e)

include hc h

theorem counted_congr : Ledger.counted c env es = Ledger.counted c env' es := by
  subst hc
  have hcount : (es.countP fun e => !(rules.classifier.features () env e).isEmpty) =
      es.countP fun e => !(rules.classifier.features () env' e).isEmpty :=
    List.countP_congr fun e he => by rw [(rules.treats_alike (h e he)).2.1]
  rw [Ledger.counted, Ledger.counted, hcount]

theorem flatMap_features_congr : es.flatMap (c.features () env) = es.flatMap (c.features () env') := by
  subst hc
  exact List.flatMap_congr fun e he => (rules.treats_alike (h e he)).2.1

theorem flatMap_records_congr : es.flatMap (c.records () env) = es.flatMap (c.records () env') := by
  subst hc
  exact List.flatMap_congr fun e he => (rules.treats_alike (h e he)).2.2

end

variable {rules : Config} {i : Ingest Unit} (hi : i.classifier = rules.classifier)

include hi

/-- **What is stored between does not show**, if the elements do not see it. -/
theorem classifying_ledger {store : ObjectStore} {es : List Element}
    (hagree : ∀ e ∈ es, Building.Agrees { i.env with store } i.env e) (k : Counters) :
    (es.foldl Ledger.classify ⟨{ i with env := { i.env with store } }, (), [], k⟩).collect =
      ⟨i.classifying store es, (), [], k + Ledger.counted i.classifier i.env es⟩ := by
  rw [classifying, ← flatMap_features_congr hi hagree, ← flatMap_records_congr hi hagree, ← counted_congr hi hagree,
    Ledger.foldl_classify]
  rfl

theorem classifying_append {store : ObjectStore} {later : List Element}
    (hagree : ∀ e ∈ later, Building.Agrees { i.env with store } i.env e) (es : List Element) (store' : ObjectStore) :
    (i.classifying store es).classifying store' later = i.classifying store' (es ++ later) := by
  have hfeatures := flatMap_features_congr hi hagree
  have hrecords := flatMap_records_congr hi hagree
  conv_rhs => rw [classifying, List.flatMap_append, List.flatMap_append, LayerMetadata.recordAll_append,
    ← appendList_assoc, ← hfeatures, ← hrecords]
  rfl

/-- **Rules see the same of a node before and after it is stored.** -/
theorem nodes_ledger (k : Counters) (ns : List NodeRecord) :
    Ledger.nodes ⟨i, (), [], k⟩ ns = ⟨i.withNodes ns, (), [], k + i.nodeCounters ns⟩ := by
  have hagree : ∀ e ∈ i.classifier.nodeElements ns, Building.Agrees (i.withNodes ns).env i.env e :=
    nodeElements_agree i.classifier ns rfl
  rw [Ledger.nodes, Ledger.foldl_node, nodeCounters, ← Counters.add_assoc]
  exact classifying_ledger hi hagree _

theorem nodesReady_iff (k : Counters) (ns : List NodeRecord) :
    Ledger.NodesReady ⟨i, (), [], k⟩ ns ↔ i.TakesNodes ns := by
  refine and_iff_left ?_
  rw [Ledger.along_node, Ledger.along_accepts]
  intro e he
  obtain ⟨n, -, rfl⟩ := List.mem_map.1 he
  have hclassifier : (Ledger.storeNodes ⟨i, (), [], k⟩ ns).ingest.classifier = rules.classifier := hi
  rw [hclassifier]
  exact rules.outcome_ofNode _ n.id n.at_ n.tags

theorem ways_ledger (k : Counters) (ws : List WayRecord) :
    Ledger.ways ⟨i, (), [], k⟩ ws = ⟨i.withWays ws, (), [], k + i.wayCounters ws⟩ := by
  have hagree : ∀ e ∈ wayElements ws, Building.Agrees (i.withWays ws).env i.env e :=
    wayElements_agree ws ⟨rfl, rfl, rfl⟩
  rw [Ledger.ways, Ledger.foldl_way, wayCounters, ← Counters.add_assoc]
  exact classifying_ledger hi hagree _

theorem waysReady_iff (k : Counters) (ws : List WayRecord) :
    Ledger.WaysReady ⟨i, (), [], k⟩ ws ↔ i.TakesWays ws := by
  have hclassifier : (Ledger.storeWays ⟨i, (), [], k⟩ ws).ingest.classifier = rules.classifier := hi
  rw [Ledger.WaysReady, Ledger.along_way, Ledger.along_accepts, TakesWays, hclassifier, hi]
  have hagree : ∀ e ∈ wayElements ws, Building.Agrees (Ledger.storeWays ⟨i, (), [], k⟩ ws).ingest.env i.env e :=
    wayElements_agree ws ⟨rfl, rfl, rfl⟩
  exact forall₂_congr fun e he => by rw [(rules.treats_alike (hagree e he)).1]

/-! ## One part after the other -/

omit hi in
theorem nodeElements_append {σ : Type} (c : Classifier σ) (first second : List NodeRecord) :
    c.nodeElements (first ++ second) = c.nodeElements first ++ c.nodeElements second := by
  rw [Classifier.nodeElements, List.filter_append, List.map_append]
  rfl

omit hi in
theorem wayElements_append (first second : List WayRecord) :
    wayElements (first ++ second) = wayElements first ++ wayElements second := by
  rw [wayElements, List.filter_append, List.map_append]
  rfl

theorem withNodes_append (first second : List NodeRecord) :
    (i.withNodes first).withNodes second = i.withNodes (first ++ second) := by
  have hlocations : Block.locations (first ++ second) = Block.locations first ++ Block.locations second :=
    List.map_append
  have hagree : ∀ e ∈ i.classifier.nodeElements second, Building.Agrees (i.withNodes first).env i.env e :=
    nodeElements_agree i.classifier second rfl
  conv_rhs => rw [withNodes, nodeElements_append, hlocations, List.foldl_append, ← classifying_append hi hagree]
  rfl

theorem nodeCounters_append (first second : List NodeRecord) :
    i.nodeCounters first + (i.withNodes first).nodeCounters second = i.nodeCounters (first ++ second) := by
  have hagree : ∀ e ∈ i.classifier.nodeElements second, Building.Agrees (i.withNodes first).env i.env e :=
    nodeElements_agree i.classifier second rfl
  have hgiven : Counters.ofGiven (first ++ second).length (first ++ second).length =
      .ofGiven first.length first.length + .ofGiven second.length second.length := by
    rw [List.length_append]
    rfl
  rw [nodeCounters, nodeCounters, nodeCounters, nodeElements_append, Ledger.counted_append, hgiven,
    Counters.add_add_add_comm, ← counted_congr hi hagree]
  rfl

theorem withWays_append (first second : List WayRecord) :
    (i.withWays first).withWays second = i.withWays (first ++ second) := by
  have hagree : ∀ e ∈ wayElements second, Building.Agrees (i.withWays first).env i.env e :=
    wayElements_agree second ⟨rfl, rfl, rfl⟩
  have hstored : i.env.store.insertWays (Block.nodeLists (Work.marked i.env.store.usedWays (first ++ second))) =
      (i.withWays first).env.store.insertWays (Block.nodeLists (Work.marked i.env.store.usedWays second)) := by
    rw [ObjectStore.insertWays, ← Work.insert_marked]
    rfl
  conv_rhs => rw [withWays, wayElements_append, hstored, ← classifying_append hi hagree]
  rfl

theorem wayCounters_append (first second : List WayRecord) :
    i.wayCounters first + (i.withWays first).wayCounters second = i.wayCounters (first ++ second) := by
  have hagree : ∀ e ∈ wayElements second, Building.Agrees (i.withWays first).env i.env e :=
    wayElements_agree second ⟨rfl, rfl, rfl⟩
  have hgiven : Counters.ofGiven (first ++ second).length
      (Work.marked i.env.store.usedWays (first ++ second)).length =
      .ofGiven first.length (Work.marked i.env.store.usedWays first).length +
        .ofGiven second.length (Work.marked i.env.store.usedWays second).length := by
    rw [List.length_append, Work.marked, List.filter_append, List.length_append]
    rfl
  rw [wayCounters, wayCounters, wayCounters, wayElements_append, Ledger.counted_append, hgiven,
    Counters.add_add_add_comm, ← counted_congr hi hagree]
  rfl

omit hi in
theorem takesNodes_append (first second : List NodeRecord) :
    i.TakesNodes first ∧ (i.withNodes first).TakesNodes second ↔ i.TakesNodes (first ++ second) := by
  have hsame : (i.withNodes first).TakesNodes second ↔ i.TakesNodes second :=
    forall₂_congr fun n _ => NodeStore.takes_foldl_put (Block.locations first) i.env.store.nodes (n.id, n.at_)
  rw [hsame, TakesNodes, TakesNodes, TakesNodes, List.forall_mem_append]

theorem takesWays_congr {i' : Ingest Unit} (hi' : i'.classifier = i.classifier) (h : i'.env.SameNodes i.env)
    (ws : List WayRecord) : i'.TakesWays ws ↔ i.TakesWays ws := by
  rw [TakesWays, TakesWays, hi', hi]
  exact forall₂_congr fun e he => by rw [(rules.treats_alike (wayElements_agree ws h e he)).1]

theorem takesWays_append (first second : List WayRecord) :
    i.TakesWays first ∧ (i.withWays first).TakesWays second ↔ i.TakesWays (first ++ second) := by
  have hsame : (i.withWays first).TakesWays second ↔ i.TakesWays second :=
    takesWays_congr hi (rfl : (i.withWays first).classifier = i.classifier) ⟨rfl, rfl, rfl⟩ second
  rw [hsame, TakesWays, TakesWays, TakesWays, wayElements_append, List.forall_mem_append]

/-! ## Blocks -/

omit hi

theorem classifying_nil (i : Ingest Unit) : i.classifying i.env.store [] = i := by
  have hfeatures : i.features ++ ([] : List Feature) = i.features := by simp
  exact congrArg (fun features => { i with features }) hfeatures

theorem withNodes_nil (i : Ingest Unit) : i.withNodes [] = i := i.classifying_nil

theorem withWays_nil (i : Ingest Unit) : i.withWays [] = i := i.classifying_nil

theorem foldl_nodes : ∀ (blocks : List (List NodeRecord)) {i : Ingest Unit} (k : Counters),
    i.classifier = rules.classifier →
      blocks.foldl Ledger.nodes ⟨i, (), [], k⟩ =
          ⟨i.withNodes blocks.flatten, (), [], k + i.nodeCounters blocks.flatten⟩ ∧
        (Ledger.Along Ledger.NodesReady Ledger.nodes ⟨i, (), [], k⟩ blocks ↔ i.TakesNodes blocks.flatten)
  | [], i, k, _ => by
    refine ⟨?_, by simp [Ledger.Along, TakesNodes]⟩
    rw [List.flatten_nil, withNodes_nil]
    rfl
  | block :: blocks, i, k, hi => by
    obtain ⟨hfold, hready⟩ := foldl_nodes blocks (i := i.withNodes block) (k + i.nodeCounters block) hi
    rw [List.foldl_cons, Ledger.Along, nodes_ledger hi, nodesReady_iff hi, hfold, hready, withNodes_append hi,
      takesNodes_append, Counters.add_assoc, nodeCounters_append hi, List.flatten_cons]
    exact ⟨rfl, Iff.rfl⟩

theorem foldl_ways : ∀ (blocks : List (List WayRecord)) {i : Ingest Unit} (k : Counters),
    i.classifier = rules.classifier →
      blocks.foldl Ledger.ways ⟨i, (), [], k⟩ =
          ⟨i.withWays blocks.flatten, (), [], k + i.wayCounters blocks.flatten⟩ ∧
        (Ledger.Along Ledger.WaysReady Ledger.ways ⟨i, (), [], k⟩ blocks ↔ i.TakesWays blocks.flatten)
  | [], i, k, _ => by
    refine ⟨?_, by simp [Ledger.Along, TakesWays, wayElements]⟩
    rw [List.flatten_nil, withWays_nil]
    rfl
  | block :: blocks, i, k, hi => by
    obtain ⟨hfold, hready⟩ := foldl_ways blocks (i := i.withWays block) (k + i.wayCounters block) hi
    rw [List.foldl_cons, Ledger.Along, ways_ledger hi, waysReady_iff hi, hfold, hready, withWays_append hi,
      takesWays_append hi, Counters.add_assoc, wayCounters_append hi, List.flatten_cons]
    exact ⟨rfl, Iff.rfl⟩

/-- What the block pass counts. -/
def blockCounters (i : Ingest Unit) (ns : List NodeRecord) (ws : List WayRecord) : Counters :=
  i.nodeCounters ns + (i.withNodes ns).wayCounters ws

/-- Whether the block pass has a place for all nodes and can classify all ways. -/
def Takes (i : Ingest Unit) (ns : List NodeRecord) (ws : List WayRecord) : Prop :=
  i.TakesNodes ns ∧ (i.withNodes ns).TakesWays ws

/-- **The block pass of rules** depends on the nodes and the ways alone, each in their order: if it can take them it leaves
what they leave, and else it fails. -/
theorem blocks_rules {i : Ingest Unit} (hi : i.classifier = rules.classifier) (hscanned : i.scanned = true)
    (bs : List Block) :
    let ns := bs.flatMap Block.nodes
    let ws := bs.flatMap Block.ways
    (i.Takes ns ws → i.blocks bs = (.ok (i.blockCounters ns ws), (i.withNodes ns).withWays ws)) ∧
      (¬ i.Takes ns ws → ∃ err i', i.blocks bs = (.error err, i')) := by
  intro ns ws
  obtain ⟨hnodes, hnodesReady⟩ := foldl_nodes ((bs.map Block.nodes).filter (!·.isEmpty)) .zero hi
  obtain ⟨hways, hwaysReady⟩ := foldl_ways ((bs.map Block.ways).filter (!·.isEmpty)) (i := i.withNodes ns)
    (i.nodeCounters ns) hi
  rw [List.flatten_filter_not_isEmpty, ← List.flatMap_def] at hnodes hnodesReady hways hwaysReady
  rw [Counters.zero_add] at hnodes
  have hstart : Ledger.ofIngest i = ⟨i, (), [], .zero⟩ := rfl
  have hrenew : Ledger.renew ⟨i.withNodes ns, (), [], i.nodeCounters ns⟩ =
      ⟨i.withNodes ns, (), [], i.nodeCounters ns⟩ := rfl
  have hready : (Ledger.ofIngest i).BlocksReady bs ↔ i.Takes ns ws := by
    rw [Takes, ← hnodesReady, ← hwaysReady, Ledger.BlocksReady, hstart, hnodes, hrenew]
  have hblocks : (Ledger.ofIngest i).blocks bs =
      ⟨(i.withNodes ns).withWays ws, (), [], i.blockCounters ns ws⟩ := by
    rw [Ledger.blocks, hstart, hnodes, hrenew, hways, blockCounters]
  have hledger := blocks_of_ledger hscanned bs
  rwa [hready, hblocks] at hledger

theorem blocks_eq_ok {i after : Ingest Unit} (hi : i.classifier = rules.classifier) (hscanned : i.scanned = true)
    {bs : List Block} {counters : Counters} (h : i.blocks bs = (.ok counters, after)) :
    i.Takes (bs.flatMap Block.nodes) (bs.flatMap Block.ways) ∧
      after = (i.withNodes (bs.flatMap Block.nodes)).withWays (bs.flatMap Block.ways) := by
  obtain ⟨hok, hfail⟩ := blocks_rules hi hscanned bs
  by_cases htakes : i.Takes (bs.flatMap Block.nodes) (bs.flatMap Block.ways)
  · rw [hok htakes] at h
    exact ⟨htakes, (Prod.mk.inj h).2.symm⟩
  · obtain ⟨err, i', herror⟩ := hfail htakes
    rw [herror] at h
    cases h

/-! ## Two towns and a road -/

/-- Towns become points. -/
def townRules : Config :=
  ⟨.default, ["place"], [⟨"place", some "town", [.node], "places", false, false, none, []⟩]⟩

def townIngest : Ingest Unit := ((ofStore (.withNodes .default .empty) .empty townRules.classifier).scan [] 2).2

def towns : List NodeRecord :=
  [⟨1, ⟨0, 0⟩, TextMap.ofList [("place", "town")]⟩, ⟨2, ⟨0, 10⟩, TextMap.ofList [("place", "town")]⟩]

def roads : List WayRecord := [⟨5, [1, 2], TextMap.ofList [("highway", "primary")]⟩]

example : (townIngest.blocks [towns.map .node ++ roads.map .way]).2.features.toList.map (·.id) = [1, 2] := by
  decide +kernel

end Ingest
end MapFeatures
