import MapFeatures.Proofs.Ingest.Batches
import MapFeatures.Proofs.Ingest.RulePass
import MapFeatures.Proofs.Ingest.Scan
/-!
# RelationPass — each recorded relation is handed over once, with its own data

The third pass hands over the recorded way lists in their order, joined with the tags of the index, under one id after the
other (`Ingest.relations_eq`).  After a scan of relations with distinct ids that is each accepted relation, with its
own tags (`Ingest.exists_ordered`).  Rules do not see in which order the relations were scanned, since the notes of both
scans say the same (`Ingest.SameNotes`).
-/
namespace MapFeatures

variable {σ : Type}

/-! ## Elements one after the other -/

namespace Classifier

/-- The features of elements that a classifier gets one after the other. -/
def inTurn (c : Classifier σ) (env : Surroundings) : σ → List Element → List (List Feature)
  | _, [] => []
  | memory, e :: es => c.features memory env e :: c.inTurn env (c.outcome memory env e).2 es

/-- Whether the scripts of all these elements succeed. -/
def Succeeds (c : Classifier σ) (env : Surroundings) : σ → List Element → Prop
  | _, [] => True
  | memory, e :: es => (c.outcome memory env e).1 = .ok () ∧ c.Succeeds env (c.outcome memory env e).2 es

/-- Whether a classifier makes the same of an element in two surroundings. -/
def Alike (c : Classifier σ) (env env' : Surroundings) (e : Element) : Prop :=
  ∀ memory, c.outcome memory env e = c.outcome memory env' e ∧ c.features memory env e = c.features memory env' e

variable {c : Classifier σ} {env env' : Surroundings}

theorem inTurn_congr : ∀ {es : List Element}, (∀ e ∈ es, c.Alike env env' e) → ∀ memory,
    c.inTurn env memory es = c.inTurn env' memory es ∧ (c.Succeeds env memory es ↔ c.Succeeds env' memory es)
  | [], _, _ => ⟨rfl, Iff.rfl⟩
  | e :: es, h, memory => by
    obtain ⟨houtcome, hfeatures⟩ := h e List.mem_cons_self memory
    obtain ⟨hrest, hsucceeds⟩ := inTurn_congr (fun d hd => h d (List.mem_cons_of_mem e hd)) (c.outcome memory env' e).2
    rw [inTurn, inTurn, Succeeds, Succeeds, houtcome, hfeatures, hrest, hsucceeds]
    exact ⟨rfl, Iff.rfl⟩

/-- **A feature tells which element it is of**, as far as the element's kind and the id of its features do. -/
theorem of_mem_inTurn {f : Feature} : ∀ (es : List Element) {memory : σ} {k : Nat},
    f ∈ (c.inTurn env memory es).getD k [] → ∃ e, es[k]? = some e ∧ f.kind = e.kind ∧ f.id = e.featureId
  | [], _, _, hf => absurd hf List.not_mem_nil
  | e :: _, memory, 0, hf => ⟨e, rfl, c.kind_and_id_of_mem_features memory env e hf⟩
  | e :: es, memory, k + 1, hf => by
    have hrest : f ∈ (c.inTurn env (c.outcome memory env e).2 es).getD k [] := hf
    exact of_mem_inTurn es hrest

/-- No script sees the id that the next relation will get. -/
theorem alike_numbering (c : Classifier σ) (env : Surroundings) (next : WayId) (ways : WayLists) (standIn : WayId)
    (tags : Tags) : c.Alike (env.numbering next) env (.ofRelation ways standIn tags) := by
  intro memory
  have hsame : (env.numbering next).SameNodes env := ⟨rfl, rfl, rfl⟩
  have hagrees : Building.Agrees (env.numbering next) env (.ofRelation ways standIn tags) :=
    agrees_ofRelation hsame (fun _ _ => rfl) standIn tags
  obtain ⟨houtcome, hgives, -⟩ := FeatureProcessor.treats_alike (p := c.processor memory) (q := c.processor memory) rfl rfl
    hagrees (fun _ _ _ => rfl) (Script.only_true _)
  exact ⟨houtcome, hgives⟩

end Classifier

/-! ## What the pass hands over -/

/-- The elements of some relations, whose features have the ids from `-1` down. -/
def relationElements (rs : List RelationRecord) : List Element :=
  rs.mapIdx fun k r => .ofRelation r.ways (-(k + 1)) r.tags

namespace Work

/-- Classifies an element once the next relation has another id. -/
def relationAs (e : Element) : Work σ Unit := do
  keepStore (← get).ingest.env.store.drawRelationWay.2
  classify e
  collectMetadata

def relationsAs (es : List Element) : Work σ Unit := do
  count (.ofGiven es.length 0)
  es.forM relationAs

/-- The elements of recorded way lists, with ids from `next` down. -/
def numbered (index : RelationIndex) : WayId → List WayLists → List Element
  | _, [] => []
  | next, ways :: recorded =>
    .ofRelation ways next ((index.tagsFor? ways.relation).getD ∅) :: numbered index (next - 1) recorded

theorem length_numbered (index : RelationIndex) : ∀ (next : WayId) (recorded : List WayLists),
    (numbered index next recorded).length = recorded.length
  | _, [] => rfl
  | next, _ :: recorded => congrArg (· + 1) (length_numbered index (next - 1) recorded)

theorem numbered_map (index : RelationIndex) : ∀ {rs : List RelationRecord} (next : WayId),
    (∀ r ∈ rs, index.tagsFor? r.ways.relation = some r.tags) →
    numbered index next (rs.map (·.ways)) = rs.mapIdx fun k r => .ofRelation r.ways (next - k) r.tags
  | [], _, _ => rfl
  | r :: rs, next, h => by
    have hrest := numbered_map index (next - 1) fun d hd => h d (List.mem_cons_of_mem r hd)
    have hlater : (fun (k : Nat) (d : RelationRecord) => Element.ofRelation d.ways (next - 1 - k) d.tags) =
        fun k d => .ofRelation d.ways (next - ↑(k + 1)) d.tags := by
      funext k d
      rw [Int.sub_sub, Int.natCast_succ, Int.add_comm]
    rw [List.map_cons, numbered, hrest, h r List.mem_cons_self, List.mapIdx_cons, hlater, Int.natCast_zero, Int.sub_zero]
    rfl

theorem numbered_eq {index : RelationIndex} {rs : List RelationRecord}
    (h : ∀ r ∈ rs, index.tagsFor? r.ways.relation = some r.tags) :
    numbered index (-1) (rs.map (·.ways)) = relationElements rs := by
  rw [numbered_map index (-1) h, relationElements]
  congr
  funext k r
  rw [Int.neg_add, Int.add_comm]
  rfl

end Work

namespace Ledger

/-- The ledger once the next relation has another id. -/
def draw (l : Ledger σ) : Ledger σ := l.keep l.ingest.env.store.drawRelationWay.2

def relationAs (l : Ledger σ) (e : Element) : Ledger σ := (l.draw.classify e).collect

def Ready (l : Ledger σ) (e : Element) : Prop := l.draw.Accepts e

theorem leads_relationAs (l : Ledger σ) (e : Element) : Leads l (Work.relationAs e) (l.Ready e) (l.relationAs e) := by
  refine leads_get fun u hu => ?_
  rw [hu.ingest]
  exact (leads_keepStore l _).then (leads_classify l.draw e).collect

theorem leads_relationsAs (l : Ledger σ) (es : List Element) : Leads l (Work.relationsAs es)
    (Along Ready relationAs (l.count (.ofGiven es.length 0)) es) (es.foldl relationAs (l.count (.ofGiven es.length 0))) :=
  (leads_count l _).then (leads_forM leads_relationAs es _)

/-- **Elements that do not see how relations are numbered** are treated as if nothing had been drawn. -/
theorem foldl_relationAs {env : Surroundings} : ∀ {es : List Element} {l : Ledger σ} {next : WayId},
    l.ingest.env = env.numbering next →
    (∀ e ∈ es, ∀ next, l.ingest.classifier.Alike (env.numbering next) env e) →
    (es.foldl relationAs l).ingest.features =
        l.ingest.features ++ (l.ingest.classifier.inTurn env l.memory es).flatten ∧
      (es.foldl relationAs l).counters.elements = l.counters.elements ∧
      (es.foldl relationAs l).counters.classified = l.counters.classified + es.length ∧
      (Along Ready relationAs l es ↔ l.ingest.classifier.Succeeds env l.memory es)
  | [], l, _, _, _ => ⟨by simp [Classifier.inTurn], rfl, rfl, Iff.rfl⟩
  | e :: es, l, next, henv, h => by
    -- Each element is classified under another id, so the induction is over every `next`.
    have hdrawn : l.draw.ingest.env = env.numbering (next - 1) := by
      rw [draw, keep, henv]
      rfl
    obtain ⟨houtcome, hfeatures⟩ := h e List.mem_cons_self (next - 1) l.memory
    rw [← hdrawn] at houtcome hfeatures
    have hmemory : (l.relationAs e).memory = (l.ingest.classifier.outcome l.memory env e).2 := congrArg Prod.snd houtcome
    have hmade : (l.relationAs e).ingest.features = l.ingest.features ++ l.ingest.classifier.features l.memory env e :=
      congrArg (fun fs : List Feature => l.ingest.features ++ fs) hfeatures
    have hready : l.Ready e ↔ (l.ingest.classifier.outcome l.memory env e).1 = .ok () := by
      rw [← houtcome]
      rfl
    obtain ⟨hall, helements, hclassified, halong⟩ := foldl_relationAs (l := l.relationAs e) hdrawn
      fun d hd => h d (List.mem_cons_of_mem e hd)
    rw [List.foldl_cons, hall, helements, hclassified, Along, halong, hready, hmemory, hmade]
    refine ⟨?_, rfl, ?_, Iff.rfl⟩
    · rw [Classifier.inTurn, List.flatten_cons, ← appendList_assoc]
      rfl
    · rw [List.length_cons, Nat.add_comm es.length, ← Nat.add_assoc]
      rfl

end Ledger

namespace Work

theorem run_forM_relation : ∀ (recorded : List WayLists) {l : Ledger σ} {u : Underway σ}, l.Tracks u →
    (recorded.forM relation).run.run u =
      ((numbered l.ingest.env.store.index l.ingest.env.store.nextRelationWay recorded).forM relationAs).run.run u
  | [], _, _, _ => rfl
  | ways :: recorded, l, u, hu => by
    let e : Element := .ofRelation ways l.ingest.env.store.nextRelationWay
      ((l.ingest.env.store.index.tagsFor? ways.relation).getD ∅)
    have hfirst : (relation ways).run.run u = (relationAs e).run.run u := by
      rw [relation, run_bind_of_eq_ok (run_get u), relationAs, run_bind_of_eq_ok (run_get u), hu.ingest]
      rfl
    -- The index and the next id are read anew for each relation: what they are then, the ledger says.
    have hleads := Ledger.leads_relationAs l e
    change (relation ways >>= fun _ => recorded.forM relation : Work σ Unit).run.run u =
      (relationAs e >>= fun _ => (numbered l.ingest.env.store.index (l.ingest.env.store.nextRelationWay - 1) recorded).forM
        relationAs : Work σ Unit).run.run u
    rcases hrun : (relationAs e).run.run u with ⟨err | ⟨⟩, u'⟩
    · rw [run_bind_of_eq_error (hfirst.trans hrun), run_bind_of_eq_error hrun]
    · rw [run_bind_of_eq_ok (hfirst.trans hrun), run_bind_of_eq_ok hrun]
      exact run_forM_relation recorded (hleads.of_eq_ok hu hrun).2

end Work

namespace Ingest

/-- **The third pass hands over what is recorded**, joined with the tags of the index, in its order. -/
theorem relations_eq (i : Ingest σ) :
    i.relations = i.run .relations
      (Work.relationsAs (Work.numbered i.env.store.index i.env.store.nextRelationWay i.env.store.wayLists.toList)) := by
  let es := Work.numbered i.env.store.index i.env.store.nextRelationWay i.env.store.wayLists.toList
  have hlength : es.length = i.env.store.wayLists.toList.length := Work.length_numbered _ _ _
  have hrun : Work.relations.run.run ⟨i, .ofClassifier i.classifier, .zero⟩ =
      (Work.relationsAs es).run.run ⟨i, .ofClassifier i.classifier, .zero⟩ := by
    let l : Ledger σ := (Ledger.ofIngest i).count (.ofGiven i.env.store.wayLists.toList.length 0)
    rw [Work.relations, run_bind_of_eq_ok (Work.run_get _), Work.relationsAs, hlength]
    exact Work.run_forM_relation _ (l := l) ⟨rfl, rfl, rfl, rfl, rfl⟩
  rw [relations, run, run, hrun]

variable {rs : List RelationRecord}

theorem exists_of_mem_relationElements {e : Element} (he : e ∈ relationElements rs) :
    ∃ ways standIn tags, e = .ofRelation ways standIn tags := by
  obtain ⟨k, hk, rfl⟩ := List.mem_mapIdx.1 he
  exact ⟨_, _, _, rfl⟩

theorem id_of_mem_inTurn {c : Classifier σ} {env : Surroundings} {memory : σ} {k : Nat} {f : Feature}
    (hf : f ∈ (c.inTurn env memory (relationElements rs)).getD k []) : f.id = -(k + 1) := by
  obtain ⟨e, he, -, hid⟩ := Classifier.of_mem_inTurn _ hf
  rw [relationElements, List.getElem?_mapIdx] at he
  obtain ⟨r, -, rfl⟩ := Option.map_eq_some_iff.1 he
  exact hid

theorem alike_numbering_of_mem (c : Classifier σ) (env : Surroundings) :
    ∀ e ∈ relationElements rs, ∀ next, c.Alike (env.numbering next) env e := by
  intro e he next
  obtain ⟨ways, standIn, tags, rfl⟩ := exists_of_mem_relationElements he
  exact c.alike_numbering env next ways standIn tags

/-- **A pass over relations** classifies each of them and adds the features of one after the other, if all their scripts
succeed, and else fails. -/
theorem run_relationsAs {i : Ingest σ} (hscanned : i.scanned = true) (rs : List RelationRecord) :
    let es := relationElements rs
    (i.classifier.Succeeds i.env i.classifier.fresh es → ∃ counters after,
        i.run .relations (Work.relationsAs es) = (.ok counters, after) ∧
          counters.elements = rs.length ∧ counters.classified = rs.length ∧
          after.features = i.features ++ (i.classifier.inTurn i.env i.classifier.fresh es).flatten) ∧
      (¬ i.classifier.Succeeds i.env i.classifier.fresh es →
        ∃ err after, i.run .relations (Work.relationsAs es) = (.error err, after)) := by
  intro es
  have hlength : es.length = rs.length := List.length_mapIdx
  let start : Ledger σ := (Ledger.ofIngest i).count (.ofGiven es.length 0)
  have hstart : start.ingest.env = i.env.numbering i.env.store.nextRelationWay := rfl
  obtain ⟨hfeatures, helements, hclassified, halong⟩ :=
    Ledger.foldl_relationAs hstart (alike_numbering_of_mem i.classifier i.env)
  obtain ⟨hok, hfail⟩ := run_of_leads hscanned .relations (Ledger.leads_relationsAs (Ledger.ofIngest i) es)
  rw [halong] at hok hfail
  refine ⟨fun hsucceeds => ⟨_, _, hok hsucceeds, ?_, ?_, hfeatures⟩, hfail⟩
  · rw [helements, ← hlength]
    exact Nat.zero_add _
  · rw [hclassified, hlength]
    exact Nat.zero_add _

theorem run_relationsAs_eq_ok {i after : Ingest σ} {counters : Counters} (hscanned : i.scanned = true)
    (hrun : i.run .relations (Work.relationsAs (relationElements rs)) = (.ok counters, after)) :
    i.classifier.Succeeds i.env i.classifier.fresh (relationElements rs) ∧
      counters.elements = rs.length ∧ counters.classified = rs.length ∧
      after.features = i.features ++ (i.classifier.inTurn i.env i.classifier.fresh (relationElements rs)).flatten := by
  obtain ⟨hok, hfail⟩ := run_relationsAs hscanned rs
  by_cases hsucceeds : i.classifier.Succeeds i.env i.classifier.fresh (relationElements rs)
  · obtain ⟨counters', after', hrun', hafter⟩ := hok hsucceeds
    rw [hrun] at hrun'
    cases hrun'
    exact ⟨hsucceeds, hafter⟩
  · obtain ⟨err, after', hrun'⟩ := hfail hsucceeds
    rw [hrun] at hrun'
    cases hrun'

/-! ## What the scan records -/

section

variable {i : Ingest σ} (hnew : i.env.store.NoRelations) (hids : (rs.map (·.ways.relation)).Nodup) (estimate : Nat)

include hids in
theorem nodup_accepted (c : Classifier σ) : ((accepted c rs).map (·.ways.relation)).Nodup :=
  hids.sublist (List.filter_sublist.map _)

include hnew hids

/-- If all ids are distinct, **the tags of a relation are its own**. -/
theorem tagsFor?_scan {r : RelationRecord} (hr : r ∈ accepted i.classifier rs) :
    (i.scan rs estimate).2.env.store.index.tagsFor? r.ways.relation = some r.tags := by
  have hmem : r ∈ (accepted i.classifier rs).filter (·.ways.relation = r.ways.relation) :=
    List.mem_filter.2 ⟨hr, decide_eq_true rfl⟩
  rw [index_scan hnew, tagsFor?_foldl_indexed]
  cases hlast : ((accepted i.classifier rs).filter (·.ways.relation = r.ways.relation)).getLast? with
  | none =>
    rw [List.getLast?_eq_none_iff.1 hlast] at hmem
    cases hmem
  | some d =>
    obtain ⟨hd, hsame⟩ := List.mem_filter.1 (List.mem_of_getLast? hlast)
    rw [List.inj_on_of_nodup_map (nodup_accepted hids i.classifier) hd hr (of_decide_eq_true hsame)]
    rfl

/-- **The recorded way lists** are those of the accepted relations, in the order of the ids. -/
theorem exists_ordered : ∃ ordered : List RelationRecord, ordered.Perm (accepted i.classifier rs) ∧
    ordered.Pairwise (fun r d => r.ways.relation < d.ways.relation) ∧
    (i.scan rs estimate).2.env.store.wayLists.toList = ordered.map (·.ways) := by
  have hlists := wayLists_scan i rs estimate
  rw [hnew.wayLists, List.nil_append] at hlists
  -- The lists are sorted without their tags, so the relations have to be put in order along with them.
  have hown : List.Forall₂ (fun ways (r : RelationRecord) => ways = r.ways) ((accepted i.classifier rs).map (·.ways))
      (accepted i.classifier rs) := List.forall₂_map_left_iff.2 (List.forall₂_same.2 fun _ _ => rfl)
  obtain ⟨ordered, hsame, hperm⟩ := List.perm_comp_forall₂ hlists hown
  have hrecorded : (i.scan rs estimate).2.env.store.wayLists.toList = ordered.map (·.ways) := by
    rw [← List.forall₂_eq_eq_eq, List.forall₂_map_right_iff]
    exact hsame
  have hordered := (sorted_scan hnew rs estimate 0).1
  rw [hrecorded, WayListStore.Ordered, List.pairwise_map] at hordered
  have hdistinct : ordered.Pairwise fun r d => r.ways.relation ≠ d.ways.relation :=
    List.pairwise_map.1 ((hperm.map _).nodup_iff.2 (nodup_accepted hids i.classifier))
  exact ⟨ordered, hperm, (hordered.and hdistinct).imp fun h => lt_of_le_of_ne h.1 h.2, hrecorded⟩

/-- **After the scan and any blocks the accepted relations are handed over**, each once and with its own data. -/
theorem relations_of_scan (hfirst : i.env.store.nextRelationWay = -1) {calls : List (List Block)} {before : Ingest σ}
    (hbatches : (i.scan rs estimate).2.batches calls = (.ok (), before)) :
    before.classifier = i.classifier ∧ before.scanned = true ∧ ∃ ordered : List RelationRecord,
      ordered.Perm (accepted i.classifier rs) ∧ ordered.Pairwise (fun r d => r.ways.relation < d.ways.relation) ∧
      before.relations = before.run .relations (Work.relationsAs (relationElements ordered)) := by
  obtain ⟨nodes, -, hbefore⟩ := batches_eq_ok (scan_at i rs estimate) hbatches
  obtain ⟨ordered, hperm, hordered, hrecorded⟩ := exists_ordered hnew hids estimate
  refine ⟨hbefore.classifier, hbefore.scanned, ordered, hperm, hordered, ?_⟩
  have hnext : (i.scan rs estimate).2.env.store.nextRelationWay = -1 := by
    rw [store_scan]
    exact hfirst
  have htags : ∀ r ∈ ordered, (i.scan rs estimate).2.env.store.index.tagsFor? r.ways.relation = some r.tags :=
    fun r hr => tagsFor?_scan hnew hids estimate (hperm.mem_iff.1 hr)
  have hindex : before.env.store.index = (i.scan rs estimate).2.env.store.index := by rw [hbefore.env]; rfl
  have hnumber : before.env.store.nextRelationWay = (i.scan rs estimate).2.env.store.nextRelationWay := by
    rw [hbefore.env]; rfl
  have hlists : before.env.store.wayLists = (i.scan rs estimate).2.env.store.wayLists := by rw [hbefore.env]; rfl
  rw [relations_eq, hindex, hnumber, hlists, hrecorded, hnext, Work.numbered_eq htags]

end

/-! ## Scans in another order -/

/-- Whether two ingests differ at most in what they have noted of relations, and mark the same ways. -/
structure SameNotes (i i' : Ingest Unit) : Prop where
  classifier : i.classifier = i'.classifier
  layers : i.env.layers = i'.env.layers
  config : i.env.store.config = i'.env.store.config
  nodes : i.env.store.nodes = i'.env.store.nodes
  ways : i.env.store.ways = i'.env.store.ways
  used : i.env.store.usedWays.contains = i'.env.store.usedWays.contains
  features : i.features = i'.features

namespace SameNotes

variable {rules : Config} {i i' after : Ingest Unit} {rs : List RelationRecord}

theorem sameNodes (h : SameNotes i i') : i.env.SameNodes i'.env :=
  ⟨h.layers, h.config, congrArg NodeStore.at? h.nodes⟩

theorem features_classifying (h : SameNotes i i') (hi : i.classifier = rules.classifier) {es : List Element}
    (hagree : ∀ e ∈ es, Building.Agrees i.env i'.env e) (store store' : ObjectStore) :
    (i.classifying store es).features = (i'.classifying store' es).features := by
  have hmade := flatMap_features_congr hi hagree
  rw [classifying, classifying, ← h.features, ← h.classifier]
  exact congrArg (fun fs : List Feature => i.features ++ fs) hmade

theorem withNodes (h : SameNotes i i') (hi : i.classifier = rules.classifier) (ns : List NodeRecord) :
    SameNotes (i.withNodes ns) (i'.withNodes ns) where
  classifier := h.classifier
  layers := h.layers
  config := h.config
  nodes := congrArg ((Block.locations ns).foldl NodeStore.put) h.nodes
  ways := h.ways
  used := h.used
  features := by
    rw [Ingest.withNodes, Ingest.withNodes, ← h.classifier]
    exact h.features_classifying hi (nodeElements_agree i.classifier ns h.layers) _ _

theorem withWays (h : SameNotes i i') (hi : i.classifier = rules.classifier) (ws : List WayRecord) :
    SameNotes (i.withWays ws) (i'.withWays ws) where
  classifier := h.classifier
  layers := h.layers
  config := h.config
  nodes := h.nodes
  ways := by
    have hmarked : Work.marked i.env.store.usedWays ws = Work.marked i'.env.store.usedWays ws := by
      rw [Work.marked, Work.marked, h.used]
    change i.env.store.ways.insert (Block.nodeLists (Work.marked i.env.store.usedWays ws)) =
      i'.env.store.ways.insert (Block.nodeLists (Work.marked i'.env.store.usedWays ws))
    rw [hmarked, h.ways]
  used := h.used
  features := h.features_classifying hi (wayElements_agree ws h.sameNodes) _ _

theorem takes_iff (h : SameNotes i i') (hi : i.classifier = rules.classifier) (ns : List NodeRecord)
    (ws : List WayRecord) : i.Takes ns ws ↔ i'.Takes ns ws := by
  have hstored := h.withNodes hi ns
  have hnodes : i.TakesNodes ns ↔ i'.TakesNodes ns := by
    rw [TakesNodes, TakesNodes, h.nodes]
  have hi' : (i'.withNodes ns).classifier = rules.classifier := h.classifier.symm.trans hi
  exact and_congr hnodes (takesWays_congr hi' hstored.classifier hstored.sameNodes ws)

/-- **Blocks leave ingests alike**, since rules do not see what is noted of relations. -/
theorem blocks (h : SameNotes i i') (hi : i.classifier = rules.classifier) (hscanned : i.scanned = true)
    (hscanned' : i'.scanned = true) {bs : List Block} {counters : Counters} (hrun : i.blocks bs = (.ok counters, after)) :
    ∃ counters' after', i'.blocks bs = (.ok counters', after') ∧ SameNotes after after' ∧
      after.classifier = rules.classifier ∧ after.scanned = true ∧ after'.scanned = true := by
  obtain ⟨htakes, rfl⟩ := blocks_eq_ok hi hscanned hrun
  have hrun' := (blocks_rules (h.classifier.symm.trans hi) hscanned' bs).1 ((h.takes_iff hi _ _).1 htakes)
  have hafter := (h.withNodes hi (bs.flatMap Block.nodes)).withWays hi (bs.flatMap Block.ways)
  exact ⟨_, _, hrun', hafter, hi, hscanned, hscanned'⟩

theorem batches : ∀ {calls : List (List Block)} {i i' after : Ingest Unit}, SameNotes i i' →
    i.classifier = rules.classifier → i.scanned = true → i'.scanned = true →
    i.batches calls = (.ok (), after) → ∃ after', i'.batches calls = (.ok (), after') ∧ SameNotes after after'
  | [], i, i', after, h, _, _, _, hrun => by
    cases hrun
    exact ⟨i', rfl, h⟩
  | call :: calls, i, i', after, h, hi, hscanned, hscanned', hrun => by
    obtain ⟨counters, middle, hfirst, hrest⟩ := batches_cons_eq_ok hrun
    obtain ⟨counters', middle', hfirst', hmiddle, hrules, hon, hon'⟩ := h.blocks hi hscanned hscanned' hfirst
    obtain ⟨after', hrest', hafter⟩ := batches hmiddle hrules hon hon' hrest
    refine ⟨after', ?_, hafter⟩
    rw [Ingest.batches, hfirst']
    exact hrest'

theorem alike (h : SameNotes i i') (hi : i.classifier = rules.classifier) (ways : WayLists) (standIn : WayId)
    (tags : Tags) : i.classifier.Alike i.env i'.env (.ofRelation ways standIn tags) := by
  have hagrees : Building.Agrees i.env i'.env (.ofRelation ways standIn tags) :=
    agrees_ofRelation h.sameNodes (fun _ _ => by rw [h.ways]) standIn tags
  obtain ⟨houtcome, hfeatures, -⟩ := rules.treats_alike hagrees
  rw [hi]
  exact fun _ => ⟨houtcome, hfeatures⟩

theorem relationsAs (h : SameNotes i i') (hi : i.classifier = rules.classifier) (hscanned : i.scanned = true)
    (hscanned' : i'.scanned = true) {counters : Counters}
    (hrun : i.run .relations (Work.relationsAs (relationElements rs)) = (.ok counters, after)) :
    ∃ counters' after', i'.run .relations (Work.relationsAs (relationElements rs)) = (.ok counters', after') ∧
      after'.features = after.features := by
  have halike : ∀ e ∈ relationElements rs, i.classifier.Alike i.env i'.env e := by
    intro e he
    obtain ⟨ways, standIn, tags, rfl⟩ := exists_of_mem_relationElements he
    exact h.alike hi ways standIn tags
  obtain ⟨hparts, hsame⟩ := Classifier.inTurn_congr halike i.classifier.fresh
  obtain ⟨hsucceeds, -, -, hfeatures⟩ := run_relationsAs_eq_ok hscanned hrun
  obtain ⟨hok, -⟩ := run_relationsAs hscanned' rs
  rw [← h.classifier, ← hsame, ← hparts, ← h.features] at hok
  obtain ⟨counters', after', hrun', -, -, hfeatures'⟩ := hok hsucceeds
  exact ⟨counters', after', hrun', hfeatures'.trans hfeatures.symm⟩

end SameNotes

/-- **The order of a scan shows only in its notes.** -/
theorem sameNotes_scan {i : Ingest Unit} (hnew : i.env.store.NoRelations) {rs rs' : List RelationRecord}
    (h : rs.Perm rs') (estimate estimate' : Nat) : SameNotes (i.scan rs estimate).2 (i.scan rs' estimate').2 where
  classifier := rfl
  layers := rfl
  config := by rw [store_scan, store_scan]
  nodes := by rw [store_scan, store_scan]
  ways := by rw [store_scan, store_scan]
  used := by
    have hmembers : (memberWays i.classifier rs).Perm (memberWays i.classifier rs') := (h.filter _).flatMap_right _
    funext w
    rw [Bool.eq_iff_iff, used_scan hnew, used_scan hnew, hmembers.mem_iff]
  features := rfl

theorem eq_of_perm_of_ordered {rs rs' : List RelationRecord} (h : rs.Perm rs')
    (hrs : rs.Pairwise fun r d => r.ways.relation < d.ways.relation)
    (hrs' : rs'.Pairwise fun r d => r.ways.relation < d.ways.relation) : rs = rs' :=
  h.eq_of_pairwise (fun _ _ _ _ hab hba => absurd hab (Int.lt_asymm hba)) hrs hrs'

/-- **The third pass handles every recorded relation once.**  After a scan of relations with distinct ids, in a store that
had none, and after any blocks, it hands over the accepted relations in the order of their ids, each with its own ways and
tags, and the one in place `k` with the id `-(k + 1)`.  If it succeeds, all of them are classified, and features of two of
them never share an id.  Rules make the same features if the relations are scanned in another order. -/
theorem relations_once {rs : List RelationRecord} (hids : (rs.map (·.ways.relation)).Nodup) :
    (∀ {σ : Type} {i before : Ingest σ} {estimate : Nat} {calls : List (List Block)},
        i.env.store.NoRelations → i.env.store.nextRelationWay = -1 →
        (i.scan rs estimate).2.batches calls = (.ok (), before) →
      ∃ ordered : List RelationRecord,
        ordered.Perm (rs.filter fun r => i.classifier.scansRelation r.tags) ∧
        ordered.Pairwise (fun r d => r.ways.relation < d.ways.relation) ∧
        before.relations = before.run .relations (Work.relationsAs (relationElements ordered)) ∧
        let parts := i.classifier.inTurn before.env i.classifier.fresh (relationElements ordered)
        (∀ {counters after}, before.relations = (.ok counters, after) →
          counters.elements = ordered.length ∧ counters.classified = ordered.length ∧
            after.features.toList = before.features.toList ++ parts.flatten) ∧
        ∀ j k, ∀ f ∈ parts.getD j [], ∀ g ∈ parts.getD k [], f.id = g.id ↔ j = k) ∧
    ∀ {rules : Config} {i before after : Ingest Unit} {estimate estimate' : Nat} {calls : List (List Block)}
        {counters : Counters} {rs' : List RelationRecord},
        i.env.store.NoRelations → i.env.store.nextRelationWay = -1 → i.classifier = rules.classifier → rs.Perm rs' →
        (i.scan rs estimate).2.batches calls = (.ok (), before) → before.relations = (.ok counters, after) →
      ∃ before' after' counters', (i.scan rs' estimate').2.batches calls = (.ok (), before') ∧
        before'.relations = (.ok counters', after') ∧ before'.features = before.features ∧
        after'.features = after.features := by
  refine ⟨fun {σ} {i} {before} {estimate} {calls} hnew hfirst hbatches => ?_, ?_⟩
  · obtain ⟨hclassifier, hscanned, ordered, hperm, hordered, hrelations⟩ :=
      relations_of_scan hnew hids estimate hfirst hbatches
    refine ⟨ordered, hperm, hordered, hrelations, fun {counters} {after} hrun => ?_, fun j k f hf g hg => ?_⟩
    · rw [hrelations] at hrun
      obtain ⟨-, helements, hclassified, hfeatures⟩ := run_relationsAs_eq_ok hscanned hrun
      rw [helements, hclassified, hfeatures, Array.toList_appendList, hclassifier]
      exact ⟨rfl, rfl, rfl⟩
    · rw [id_of_mem_inTurn hf, id_of_mem_inTurn hg]
      omega
  · intro rules i before after estimate estimate' calls counters rs' hnew hfirst hi hrs hbatches hrun
    have hids' : (rs'.map (·.ways.relation)).Nodup := (hrs.map _).nodup_iff.1 hids
    obtain ⟨hclassifier, hscanned, ordered, hperm, hordered, hrelations⟩ :=
      relations_of_scan hnew hids estimate hfirst hbatches
    have hstart : (i.scan rs estimate).2.classifier = rules.classifier := hi
    obtain ⟨before', hbatches', hsame⟩ := (sameNotes_scan hnew hrs estimate estimate').batches hstart rfl rfl hbatches
    obtain ⟨-, hscanned', ordered', hperm', hordered', hrelations'⟩ :=
      relations_of_scan hnew hids' estimate' hfirst hbatches'
    obtain rfl : ordered = ordered' :=
      eq_of_perm_of_ordered (hperm.trans ((hrs.filter _).trans hperm'.symm)) hordered hordered'
    rw [hrelations] at hrun
    obtain ⟨counters', after', hrun', hfeatures⟩ := hsame.relationsAs (hclassifier.trans hi) hscanned hscanned' hrun
    exact ⟨before', after', counters', hbatches', hrelations'.trans hrun', hsame.features.symm, hfeatures⟩

/-! ## Relations out of order -/

/-- Two areas with the same ring and, between them, a route, which is not recorded. -/
def scattered : List RelationRecord :=
  [⟨⟨9, [5], []⟩, TextMap.ofList [("type", "multipolygon")]⟩, ⟨⟨2, [6], []⟩, TextMap.ofList [("type", "route")]⟩,
    ⟨⟨4, [5], []⟩, TextMap.ofList [("type", "boundary")]⟩]

/-- The areas in the order of their ids. -/
def scatteredAreas : List RelationRecord :=
  [⟨⟨4, [5], []⟩, TextMap.ofList [("type", "boundary")]⟩, ⟨⟨9, [5], []⟩, TextMap.ofList [("type", "multipolygon")]⟩]

/-- Draws the areas of a type in a layer of their own. -/
def areaRule (type layer : String) : Rule := ⟨"type", some type, [.relation], layer, true, false, none, []⟩

def areaRules : Config := ⟨.default, [], [areaRule "multipolygon" "parks", areaRule "boundary" "districts"]⟩

/-- A store with a triangle. -/
def ringStore : ObjectStore :=
  .holding .default [(1, ⟨0, 0⟩), (2, ⟨0, 10⟩), (3, ⟨10, 0⟩)] [(5, [1, 2, 3, 1])]

def scatteredIngest : Ingest Unit := ofStore ringStore .empty areaRules.classifier

def scatteredCalls : List (List Block) := [[[.way ⟨6, [1, 2], ∅⟩]], [[.way ⟨7, [1], ∅⟩]]]

theorem foundRings_ringStore : ringStore.foundRings [5] = [[⟨0, 0⟩, ⟨0, 10⟩, ⟨10, 0⟩, ⟨0, 0⟩]] := by
  rw [ObjectStore.foundRings, ringStore, ObjectStore.foundWays_holding]
  decide +kernel

theorem draws_ring {e : Element} {c : Context} {id : RelationId} (h : c.Holds ⟨ringStore, .empty⟩ e)
    (hsource : e.source = .relation ⟨id, [5], []⟩) (layer : String) :
    c.Draws ⟨ringStore, .empty⟩ e layer true (.ok (some (.multiPolygon (ringStore.foundArea [5] [])))) := by
  have hresolves : ∀ w ∈ [5] ++ [], ringStore.Resolves w := by
    intro w hw
    obtain rfl := List.mem_singleton.1 hw
    rw [← ObjectStore.missingIn?_eq_none_iff, ringStore, ObjectStore.missingIn?_holding]
    decide
  refine Context.draws_area_of_resolves h hsource hresolves ?_ ?_ layer
  · exact ne_of_eq_of_ne foundRings_ringStore (by decide)
  · change ∀ ring ∈ (ringStore.foundArea [5] []).flatMap Polygon.rings, _
    rw [ObjectStore.foundArea_nil, foundRings_ringStore]
    decide +kernel

theorem inTurn_scattered : areaRules.classifier.Succeeds ⟨ringStore, .empty⟩ () (relationElements scatteredAreas) ∧
    (areaRules.classifier.inTurn ⟨ringStore, .empty⟩ () (relationElements scatteredAreas)).flatten.map
      (fun f => (f.layer, f.id)) = [("districts", -1), ("parks", -2)] := by
  let first : Element := .ofRelation ⟨4, [5], []⟩ (-1) (TextMap.ofList [("type", "boundary")])
  let second : Element := .ofRelation ⟨9, [5], []⟩ (-2) (TextMap.ofList [("type", "multipolygon")])
  have hdistricts : areaRules.ruleFor? first.kind (some first.tags) = some (areaRule "boundary" "districts") := by rfl
  have hparks : areaRules.ruleFor? second.kind (some second.tags) = some (areaRule "multipolygon" "parks") := by rfl
  have hfirst := Config.features_of_rule hdistricts rfl rfl rfl (draws_ring (Context.holds_begin _) rfl "districts")
  have hsecond := Config.features_of_rule hparks rfl rfl rfl (draws_ring (Context.holds_begin _) rfl "parks")
  have helements : relationElements scatteredAreas = [first, second] := rfl
  rw [helements]
  refine ⟨⟨hfirst.1, hsecond.1, trivial⟩, ?_⟩
  change List.map _ (areaRules.classifier.features () _ first ++ (areaRules.classifier.features () _ second ++ [])) = _
  rw [hfirst.2, hsecond.2]
  rfl

/-- The blocks leave the triangle as it is, so the areas look the same after them. -/
theorem alike_scattered {before : Ingest Unit}
    (hbatches : (scatteredIngest.scan scattered 3).2.batches scatteredCalls = (.ok (), before)) :
    ∀ e ∈ relationElements scatteredAreas, areaRules.classifier.Alike before.env ⟨ringStore, .empty⟩ e := by
  obtain ⟨nodes, hnodes, hbefore⟩ := batches_eq_ok (scan_at scatteredIngest scattered 3) hbatches
  obtain rfl : (scatteredIngest.scan scattered 3).2.env.store.nodes = nodes := Except.ok.inj hnodes
  have hunmarked : Work.marked (scatteredIngest.scan scattered 3).2.env.store.usedWays
      (scatteredCalls.flatten.flatMap Block.ways) = [] := by decide +kernel
  rw [hunmarked] at hbefore
  have hconfig : (scatteredIngest.scan scattered 3).2.env.store.config = ringStore.config := by rw [store_scan]; rfl
  have hkept : (scatteredIngest.scan scattered 3).2.env.store.nodes = ringStore.nodes := by rw [store_scan]; rfl
  have hways : (scatteredIngest.scan scattered 3).2.env.store.ways = ringStore.ways := by rw [store_scan]; rfl
  have hsame : before.env.SameNodes ⟨ringStore, .empty⟩ := by
    rw [hbefore.env]
    exact ⟨rfl, hconfig, congrArg NodeStore.at? hkept⟩
  intro e he
  obtain ⟨ways, standIn, tags, rfl⟩ := exists_of_mem_relationElements he
  have hagrees : Building.Agrees before.env ⟨ringStore, .empty⟩ (.ofRelation ways standIn tags) :=
    agrees_ofRelation hsame (fun w _ => by rw [hbefore.env, ← hways]; rfl) standIn tags
  obtain ⟨houtcome, hfeatures, -⟩ := areaRules.treats_alike hagrees
  exact fun _ => ⟨houtcome, hfeatures⟩

theorem relations_once_scattered :
    ∃ before after before' after' counters counters',
      (scatteredIngest.scan scattered 3).2.batches scatteredCalls = (.ok (), before) ∧
      before.relations = (.ok counters, after) ∧ counters.classified = 2 ∧
      after.features.toList.map (fun f => (f.layer, f.id)) = [("districts", -1), ("parks", -2)] ∧
      (scatteredIngest.scan scattered.reverse 3).2.batches scatteredCalls = (.ok (), before') ∧
      before'.relations = (.ok counters', after') ∧ after'.features = after.features := by
  have hids : (scattered.map (·.ways.relation)).Nodup := by decide
  obtain ⟨honce, hany⟩ := relations_once hids
  have hnew : scatteredIngest.env.store.NoRelations := ⟨rfl, rfl, rfl⟩
  have hisOk : ((scatteredIngest.scan scattered 3).2.batches scatteredCalls).1 = .ok () := by decide +kernel
  have hnone : ((scatteredIngest.scan scattered 3).2.batches scatteredCalls).2.features.toList = [] := by decide +kernel
  have hbatches : (scatteredIngest.scan scattered 3).2.batches scatteredCalls =
      (.ok (), ((scatteredIngest.scan scattered 3).2.batches scatteredCalls).2) := by rw [← hisOk, Prod.eta]
  generalize ((scatteredIngest.scan scattered 3).2.batches scatteredCalls).2 = before at hbatches hnone
  obtain ⟨hclassifier, hscanned, -⟩ := relations_of_scan hnew hids 3 rfl hbatches
  obtain ⟨ordered, hperm, hordered, hrelations, hall, -⟩ := honce hnew rfl hbatches
  have haccepted : scatteredAreas.Perm (scattered.filter fun r => scatteredIngest.classifier.scansRelation r.tags) :=
    (List.reverse_perm scatteredAreas).symm
  obtain rfl : ordered = scatteredAreas :=
    eq_of_perm_of_ordered (hperm.trans haccepted.symm) hordered (by decide)
  obtain ⟨hparts, hsame⟩ := Classifier.inTurn_congr (alike_scattered hbatches) ()
  obtain ⟨hsucceeds, hdrawn⟩ := inTurn_scattered
  have hbefore : before.classifier.Succeeds before.env before.classifier.fresh (relationElements scatteredAreas) := by
    rw [hclassifier]
    exact hsame.2 hsucceeds
  obtain ⟨counters, after, hrun, -⟩ := (run_relationsAs hscanned scatteredAreas).1 hbefore
  rw [← hrelations] at hrun
  obtain ⟨before', after', counters', hbatches', hrun', -, hfeatures⟩ :=
    hany hnew rfl (rfl : scatteredIngest.classifier = areaRules.classifier) (List.reverse_perm scattered).symm hbatches hrun
  obtain ⟨-, hclassified, hmade⟩ := hall hrun
  refine ⟨before, after, before', after', counters, counters', hbatches, hrun, hclassified, ?_, hbatches', hrun', hfeatures⟩
  rw [hmade, hnone, List.nil_append, ← hdrawn]
  exact congrArg _ (congrArg _ hparts)

end Ingest
end MapFeatures
