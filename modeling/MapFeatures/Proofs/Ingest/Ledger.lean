import MapFeatures.Proofs.Feature.Metadata
import MapFeatures.Proofs.Ingest.Elements
import MapFeatures.Proofs.Ingest.Passes
import MapFeatures.Proofs.Store.NodeOrder
/-!
# Ledger — how far a pass has come, as a function of what it was given

A ledger says of a pass what it has handed out, recorded and counted, and what its classifier has in mind.  Each part of a
pass `Leads` from one ledger to the next if it is `ready`, and else fails.  So a pass past the scan either is ready, and
what it leaves is read off the last ledger, or it ends in an error (`Ingest.run_of_leads`).
-/
namespace MapFeatures

variable {σ : Type}

namespace LayerMetadata

theorem recordAll_append (m : LayerMetadata) (records later : List (String × Attribute)) :
    m.recordAll (records ++ later) = LayerMetadata.recordAll (m.recordAll records) later := List.foldl_append

theorem merge_recordAll (m : LayerMetadata) : ∀ (records : List (String × Attribute)) (other : LayerMetadata),
    m.merge (other.recordAll records) = LayerMetadata.recordAll (m.merge other) records
  | [], _ => rfl
  | r :: records, other => by
    rw [recordAll, List.foldl_cons, ← recordAll, merge_recordAll m records, merge_record]
    rfl

end LayerMetadata

structure Ledger (σ : Type) where
  ingest : Ingest σ
  /-- What the classifier has in mind. -/
  memory : σ
  /-- The attributes that are recorded, but not collected yet. -/
  records : List (String × Attribute)
  counters : Counters

namespace Ledger

/-- The ledger at the start of a pass. -/
def ofIngest (i : Ingest σ) : Ledger σ := ⟨i, i.classifier.fresh, [], .zero⟩

/-- Whether a pass under way is as far as a ledger says. -/
structure Tracks (l : Ledger σ) (u : Underway σ) : Prop where
  ingest : u.ingest = l.ingest
  classifier : u.processor.classifier = l.ingest.classifier
  memory : u.processor.memory = l.memory
  metadata : u.processor.context.metadata = LayerMetadata.recordAll ∅ l.records
  counters : u.counters = l.counters

def count (l : Ledger σ) (counters : Counters) : Ledger σ := { l with counters := l.counters + counters }

def keep (l : Ledger σ) (store : ObjectStore) : Ledger σ :=
  { l with ingest := { l.ingest with env := { l.ingest.env with store } } }

/-- Whether the script for an element succeeds. -/
def Accepts (l : Ledger σ) (e : Element) : Prop :=
  (l.ingest.classifier.outcome l.memory l.ingest.env e).1 = .ok ()

def classify (l : Ledger σ) (e : Element) : Ledger σ where
  ingest := { l.ingest with features := l.ingest.features ++ l.ingest.classifier.features l.memory l.ingest.env e }
  memory := (l.ingest.classifier.outcome l.memory l.ingest.env e).2
  records := l.records ++ l.ingest.classifier.records l.memory l.ingest.env e
  counters := l.counters + .ofClassified !(l.ingest.classifier.features l.memory l.ingest.env e).isEmpty

def collect (l : Ledger σ) : Ledger σ :=
  { l with ingest := { l.ingest with metadata := l.ingest.metadata.recordAll l.records }, records := [] }

def renew (l : Ledger σ) : Ledger σ := { l with memory := l.ingest.classifier.fresh, records := [] }

/-! ## Work -/

/-- Whether work that starts where one ledger says ends where another says, if it is ready, and else fails. -/
def Leads (l : Ledger σ) (w : Work σ Unit) (ready : Prop) (l' : Ledger σ) : Prop :=
  Ends l.Tracks w (fun _ u => ready ∧ l'.Tracks u) fun _ _ => ¬ ready

variable {l l' l'' : Ledger σ} {w : Work σ Unit} {ready ready' : Prop}

theorem Leads.iff (h : Leads l w ready l') (hready : ready ↔ ready') : Leads l w ready' l' := propext hready ▸ h

theorem leads_pure (l : Ledger σ) : Leads l (pure ()) True l := Ends.pure () fun _ h => ⟨trivial, h⟩

theorem Leads.bind {f : Unit → Work σ Unit} (hw : Leads l w ready l') (hf : ready → Leads l' (f ()) ready' l'') :
    Leads l (w >>= f) (ready ∧ ready') l'' := by
  intro u hu
  match hfirst : w.run.run u with
  | (.ok (), u') =>
    obtain ⟨hready, hu'⟩ := hw.of_eq_ok hu hfirst
    rw [run_bind_of_eq_ok hfirst]
    match hrest : (f ()).run.run u' with
    | (.ok (), u'') => exact ⟨⟨hready, ((hf hready).of_eq_ok hu' hrest).1⟩, ((hf hready).of_eq_ok hu' hrest).2⟩
    | (.error err, u'') => exact fun h => (hf hready).of_eq_error hu' hrest h.2
  | (.error err, u') =>
    rw [run_bind_of_eq_error hfirst]
    exact fun h => hw.of_eq_error hu hfirst h.1

/-- Work that is always ready comes first. -/
theorem Leads.then {f : Unit → Work σ Unit} (hw : Leads l w True l') (hf : Leads l' (f ()) ready l'') :
    Leads l (w >>= f) ready l'' := (hw.bind fun _ => hf).iff (and_iff_right trivial)

theorem leads_get {f : Underway σ → Work σ Unit} (hf : ∀ u, l.Tracks u → Leads l (f u) ready l') :
    Leads l (get >>= f) ready l' := Ends.get_bind hf

theorem leads_modify {f : Underway σ → Underway σ} (hf : ∀ u, l.Tracks u → l'.Tracks (f u)) :
    Leads l (modify f) True l' := Ends.modify f fun _ hu => ⟨trivial, hf _ hu⟩

theorem leads_count (l : Ledger σ) (counters : Counters) : Leads l (Work.count counters) True (l.count counters) :=
  leads_modify fun _ hu => ⟨hu.ingest, hu.classifier, hu.memory, hu.metadata, congrArg (· + counters) hu.counters⟩

theorem leads_keepStore (l : Ledger σ) (store : ObjectStore) : Leads l (Work.keepStore store) True (l.keep store) :=
  leads_modify fun _ hu => ⟨by rw [hu.ingest]; rfl, hu.classifier, hu.memory, hu.metadata, hu.counters⟩

theorem leads_renewProcessor (l : Ledger σ) : Leads l Work.renewProcessor True l.renew :=
  leads_modify fun u hu => by
    rw [hu.ingest]
    exact ⟨rfl, rfl, rfl, rfl, hu.counters⟩

theorem leads_collectMetadata (l : Ledger σ) : Leads l Work.collectMetadata True l.collect := by
  refine leads_modify fun u hu => ⟨?_, hu.classifier, hu.memory, rfl, hu.counters⟩
  have hmerge := l.ingest.metadata.merge_recordAll l.records ∅
  rw [← hu.metadata, ← hu.ingest] at hmerge
  rw [collect, ← hu.ingest]
  exact congrArg (fun metadata => { u.ingest with metadata }) hmerge

theorem leads_classify (l : Ledger σ) (e : Element) : Leads l (Work.classify e) (l.Accepts e) (l.classify e) := by
  rintro ⟨ingest, p, counters⟩ ⟨hingest, hclassifier, hmemory, hmetadata, hcounters⟩
  dsimp only at hingest hclassifier hmemory hmetadata hcounters
  subst hingest hcounters
  obtain ⟨houtcome, hgives, -⟩ := FeatureProcessor.treats_as_new l.ingest.env p e
  obtain ⟨hclassifier', hmemory', hmetadata', houtput⟩ := FeatureProcessor.process_as_new l.ingest.env p e
  have hresult : (p.process l.ingest.env e).1.map (fun _ => ()) = (p.outcome l.ingest.env e).1 :=
    FeatureProcessor.result_process
  rw [houtcome, hclassifier, hmemory] at hresult
  rw [hclassifier, hmemory] at hgives hmemory' hmetadata' houtput
  rw [FeatureProcessor.gives] at hgives
  rw [Work.classify, run_bind_of_eq_ok (Work.run_get _), Accepts, ← hresult]
  dsimp only
  rcases hprocess : p.process l.ingest.env e with ⟨err | features, processor⟩
  · intro hok
    cases hok
  · rw [hprocess] at hclassifier' hmemory' hmetadata' houtput hgives
    refine ⟨rfl, ?_, ?_, hmemory', ?_, ?_⟩
    · rw [classify, ← hgives]
    · exact hclassifier'.trans hclassifier
    · rw [classify, LayerMetadata.recordAll_append, ← hmetadata]
      exact hmetadata'
    · rw [classify, ← houtput]

/-- Work whose metadata is collected in the end. -/
theorem Leads.collect (hw : Leads l w ready l') : Leads l (w >>= fun _ => Work.collectMetadata) ready l'.collect :=
  (hw.bind fun _ => leads_collectMetadata l').iff (and_iff_left trivial)

/-! ## Loops -/

section

variable {α : Type} {f : α → Work σ Unit} {Ready : Ledger σ → α → Prop} {step : Ledger σ → α → Ledger σ}

/-- Whether each step of a loop is ready when its turn comes. -/
def Along (Ready : Ledger σ → α → Prop) (step : Ledger σ → α → Ledger σ) : Ledger σ → List α → Prop
  | _, [] => True
  | l, x :: xs => Ready l x ∧ Along Ready step (step l x) xs

/-- **A loop leads where its steps do**, one after the other. -/
theorem leads_forM (h : ∀ l x, Leads l (f x) (Ready l x) (step l x)) : ∀ (xs : List α) (l : Ledger σ),
    Leads l (xs.forM f) (Along Ready step l xs) (xs.foldl step l)
  | [], l => leads_pure l
  | x :: xs, l => (h l x).bind fun _ => leads_forM h xs (step l x)

end

/-! ## Nodes and ways -/

/-- A node, if it has a significant tag. -/
def node (l : Ledger σ) (n : NodeRecord) : Ledger σ :=
  if l.ingest.classifier.significantKeys.any n.tags.contains then l.classify (.ofNode n.id n.at_ n.tags) else l

def NodeReady (l : Ledger σ) (n : NodeRecord) : Prop :=
  l.ingest.classifier.significantKeys.any n.tags.contains = true → l.Accepts (.ofNode n.id n.at_ n.tags)

/-- A way, if it has a tag. -/
def way (l : Ledger σ) (w : WayRecord) : Ledger σ :=
  if w.tags.isEmpty then l else l.classify (.ofWay w.id w.nodes w.tags)

def WayReady (l : Ledger σ) (w : WayRecord) : Prop := w.tags.isEmpty = false → l.Accepts (.ofWay w.id w.nodes w.tags)

theorem leads_node (l : Ledger σ) (n : NodeRecord) : Leads l (Work.node n) (l.NodeReady n) (l.node n) := by
  refine leads_get fun u hu => ?_
  rw [FeatureProcessor.isSignificant, hu.classifier, NodeReady, node]
  split
  · next h => exact (leads_classify l _).iff (by simp [h])
  · next h => exact (leads_pure l).iff (by simp [h])

theorem leads_way (l : Ledger σ) (w : WayRecord) : Leads l (Work.way w) (l.WayReady w) (l.way w) := by
  rw [Work.way, WayReady, way]
  split
  · next h => exact (leads_pure l).iff (by simp [h])
  · next h => exact (leads_classify l _).iff (by simp [h])

/-- The ledger once the nodes of a block are stored. -/
def storeNodes (l : Ledger σ) (block : List NodeRecord) : Ledger σ :=
  let nodes := (Block.locations block).foldl NodeStore.put l.ingest.env.store.nodes
  (l.count (.ofGiven block.length block.length)).keep { l.ingest.env.store with nodes }

/-- The ledger once the marked ways of a block are stored. -/
def storeWays (l : Ledger σ) (block : List WayRecord) : Ledger σ :=
  let marked := Work.marked l.ingest.env.store.usedWays block
  (l.count (.ofGiven block.length marked.length)).keep (l.ingest.env.store.insertWays (Block.nodeLists marked))

/-- A block of nodes. -/
def nodes (l : Ledger σ) (block : List NodeRecord) : Ledger σ := (block.foldl node (l.storeNodes block)).collect

def NodesReady (l : Ledger σ) (block : List NodeRecord) : Prop :=
  (∀ n ∈ block, l.ingest.env.store.nodes.Takes (n.id, n.at_)) ∧ Along NodeReady node (l.storeNodes block) block

/-- A block of ways. -/
def ways (l : Ledger σ) (block : List WayRecord) : Ledger σ := (block.foldl way (l.storeWays block)).collect

def WaysReady (l : Ledger σ) (block : List WayRecord) : Prop := Along WayReady way (l.storeWays block) block

/-- **A block of nodes** fails if the store has no place for one of them, or if one is not accepted. -/
theorem leads_nodes (l : Ledger σ) (block : List NodeRecord) :
    Leads l (Work.nodes block) (l.NodesReady block) (l.nodes block) := by
  refine (leads_count l _).then (leads_get fun u hu => ?_)
  rw [hu.ingest]
  have hloop : ∀ store, Leads (l.count _) (Work.keepStore store >>= fun _ => block.forM Work.node >>= fun _ =>
      Work.collectMetadata) _ _ :=
    fun store => (leads_keepStore (l.count (.ofGiven block.length block.length)) store).then
      (leads_forM leads_node block _).collect
  have htakes_iff : (∀ node ∈ Block.locations block, l.ingest.env.store.nodes.Takes node) ↔
      ∀ n ∈ block, l.ingest.env.store.nodes.Takes (n.id, n.at_) := List.forall_mem_map
  cases hinsert : l.ingest.env.store.nodes.insert (Block.locations block) with
  | error cause =>
    have hrefused : l.ingest.env.store.insertNodes (block.map fun n => (n.id, n.at_)) = .error cause :=
      congrArg _ hinsert
    have hnot : ¬ l.NodesReady block := by
      intro hready
      rw [NodeStore.insert_eq (htakes_iff.2 hready.1)] at hinsert
      cases hinsert
    rw [count, hrefused]
    exact Ends.throw _ fun _ _ => hnot
  | ok nodes =>
    have hstored : l.ingest.env.store.insertNodes (block.map fun n => (n.id, n.at_)) =
        .ok { l.ingest.env.store with nodes } := congrArg _ hinsert
    have htakes := NodeStore.takes_of_insert hinsert
    have hnodes : nodes = (Block.locations block).foldl NodeStore.put l.ingest.env.store.nodes := by
      rw [NodeStore.insert_eq htakes] at hinsert
      exact (Except.ok.inj hinsert).symm
    rw [count, hstored]
    subst hnodes
    exact (hloop _).iff (and_iff_right (htakes_iff.1 htakes)).symm

theorem leads_ways (l : Ledger σ) (block : List WayRecord) :
    Leads l (Work.ways block) (l.WaysReady block) (l.ways block) := by
  refine leads_get fun u hu => ?_
  rw [hu.ingest]
  exact (leads_count l _).then ((leads_keepStore _ _).then (leads_forM leads_way block _).collect)

/-- The nodes of some blocks and then their ways. -/
def blocks (l : Ledger σ) (bs : List Block) : Ledger σ :=
  ((bs.map Block.ways).filter (!·.isEmpty)).foldl ways (((bs.map Block.nodes).filter (!·.isEmpty)).foldl nodes l).renew

def BlocksReady (l : Ledger σ) (bs : List Block) : Prop :=
  Along NodesReady nodes l ((bs.map Block.nodes).filter (!·.isEmpty)) ∧
    Along WaysReady ways (((bs.map Block.nodes).filter (!·.isEmpty)).foldl nodes l).renew
      ((bs.map Block.ways).filter (!·.isEmpty))

theorem leads_blocks (l : Ledger σ) (bs : List Block) : Leads l (Work.blocks bs) (l.BlocksReady bs) (l.blocks bs) :=
  (leads_forM leads_nodes _ l).bind fun _ => (leads_renewProcessor _).then (leads_forM leads_ways _ _)

end Ledger

/-! ## Passes -/

namespace Ingest

/-- **A pass past the scan** leaves what its ledger says, if it is ready, and else ends in an error. -/
theorem run_of_leads {i : Ingest σ} (hi : i.scanned = true) (pass : Pass) {work : Work σ Unit} {ready : Prop}
    {l : Ledger σ} (h : Ledger.Leads (.ofIngest i) work ready l) :
    (ready → i.run pass work = (.ok l.counters, l.ingest)) ∧
      (¬ ready → ∃ err i', i.run pass work = (.error err, i')) := by
  have hstart : (Ledger.ofIngest i).Tracks ⟨i, .ofClassifier i.classifier, .zero⟩ := ⟨rfl, rfl, rfl, rfl, rfl⟩
  rw [run, if_pos hi]
  match hrun : work.run.run ⟨i, .ofClassifier i.classifier, .zero⟩ with
  | (.ok (), u) =>
    obtain ⟨hready, hu⟩ := h.of_eq_ok hstart hrun
    refine ⟨fun _ => ?_, fun hnot => absurd hready hnot⟩
    rw [← hu.counters, ← hu.ingest]
    rfl
  | (.error err, u) => exact ⟨fun hready => absurd hready (h.of_eq_error hstart hrun), fun _ => ⟨err, u.ingest, rfl⟩⟩

theorem blocks_of_ledger {i : Ingest σ} (hi : i.scanned = true) (bs : List Block) :
    ((Ledger.ofIngest i).BlocksReady bs → i.blocks bs =
        (.ok ((Ledger.ofIngest i).blocks bs).counters, ((Ledger.ofIngest i).blocks bs).ingest)) ∧
      (¬ (Ledger.ofIngest i).BlocksReady bs → ∃ err i', i.blocks bs = (.error err, i')) :=
  run_of_leads hi .blocks (Ledger.leads_blocks _ bs)

end Ingest
end MapFeatures
