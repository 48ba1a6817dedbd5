import MapFeatures.Proofs.Classify.Rules
import MapFeatures.Proofs.Ingest.Batches
import MapFeatures.Proofs.Ingest.RelationPass
import MapFeatures.Proofs.Ingest.Scan
import MapFeatures.Proofs.Store.Objects
/-!
# MemberWays — only the ways of recorded relations are stored, and no shape of a relation misses another

After the scan and the runs of the block pass, the way store has of each member way the nodes that came last, and no
other way (`nodesFor?_of_stores`).  The shapes of a recorded relation need no more (`nodesFor?_withAllWays`).  If the
input is `Complete`, all members of the recorded relations resolve (`resolves_of_complete`), so the rules of a
configuration fail neither on a way nor on a relation.  A flat file has to be spared one longitude, though: that one stops
the program, even if the node came with another one before (`complete_redelivered`).
-/
namespace MapFeatures
namespace Ingest

variable {σ : Type} {c : Classifier σ} {config : StoreConfig} {store : ObjectStore}
  {rs : List RelationRecord} {calls : List (List Block)}

/-- The nodes of some runs of the block pass in their order. -/
def deliveredNodes (calls : List (List Block)) : List NodeRecord := calls.flatten.flatMap Block.nodes

/-- The ways of some runs of the block pass in their order. -/
def deliveredWays (calls : List (List Block)) : List WayRecord := calls.flatten.flatMap Block.ways

/-- The store with all ways of some runs in place of the ways that it has. -/
def withAllWays (store : ObjectStore) (calls : List (List Block)) : ObjectStore :=
  { store with ways := WayStore.empty.insert (Block.nodeLists (deliveredWays calls)) }

/-- **A complete input**: every member way comes, and every node of a way comes no later than the way, with a longitude
that stands for a place. -/
structure Complete (members : List WayId) (calls : List (List Block)) : Prop where
  inSpace : ∀ w ∈ members, UsedWays.InSpace w
  members : ∀ w ∈ members, ∃ way ∈ deliveredWays calls, way.id = w
  nodes : ∀ pre call post, calls = pre ++ call :: post → ∀ way ∈ call.flatMap Block.ways, ∀ n ∈ way.nodes,
    ∃ node ∈ deliveredNodes (pre ++ [call]), node.id = n ∧ node.at_.lon ≠ Int32.minValue

/-- Whether a flat file, if there is one, is spared the longitude that stands for nothing. -/
def Spares (config : StoreConfig) (calls : List (List Block)) : Prop :=
  config.compactStorage = true → ∀ node ∈ deliveredNodes calls, node.at_.lon ≠ Int32.minValue

/-! ## The scanned store -/

/-- The surroundings that a scan of an empty store leaves. -/
structure Scanned (config : StoreConfig) (c : Classifier σ) (rs : List RelationRecord) (env : Surroundings) : Prop where
  ways : env.store.ways = .empty
  kind : env.store.nodes.capacity?.isSome = true → config.compactStorage = true
  used : ∀ w, env.store.usedWays.contains w = true ↔ w ∈ memberWays c rs ∧ UsedWays.InSpace w
  wayLists : env.store.wayLists.toList.Perm ((accepted c rs).map (·.ways))

theorem scanned_scan (h : ObjectStore.create config = .ok store) (layers : ReferenceLayers) (c : Classifier σ)
    (rs : List RelationRecord) (estimate : Nat) :
    Scanned config c rs ((ofStore store layers c).scan rs estimate).2.env := by
  obtain ⟨nodes, rfl, hkind⟩ := ObjectStore.create_eq_ok h
  constructor
  · rw [store_scan]
    rfl
  · rw [store_scan]
    exact hkind
  · intro w
    rw [contains_scan UsedWays.bounded_empty]
    have hempty : (ofStore (ObjectStore.withNodes config nodes) layers c).env.store.usedWays.contains w = false :=
      UsedWays.contains_empty w
    rw [hempty]
    simp only [Bool.false_eq_true, false_or]
    rfl
  · exact wayLists_scan _ _ _

/-! ## The stored ways -/

variable {env : Surroundings} {i after : Ingest σ}

theorem nodeLists_marked (used : UsedWays) (block : List WayRecord) :
    Block.nodeLists (Work.marked used block) = (Block.nodeLists block).filter fun e => used.contains e.1 := by
  rw [Block.nodeLists, Block.nodeLists, Work.marked, List.filter_map]
  rfl

theorem nodesFor?_of_stores (hscan : Scanned config c rs env)
    (h : Stores c env env.store.nodes env.store.ways calls.flatten after) (w : WayId) :
    after.env.store.ways.nodesFor? w =
      if env.store.usedWays.contains w then lastFor? (Block.nodeLists (deliveredWays calls)) w else none := by
  obtain ⟨nodes', -, hafter⟩ := h
  rw [hafter.env, ← lastFor?_filter, ← nodeLists_marked, ← WayStore.nodesFor?_insert_empty, ← hscan.ways]
  rfl

theorem nodesFor?_of_member (hscan : Scanned config c rs env)
    (h : Stores c env env.store.nodes env.store.ways calls.flatten after) {w : WayId} (hw : w ∈ memberWays c rs)
    (hspace : UsedWays.InSpace w) :
    after.env.store.ways.nodesFor? w = lastFor? (Block.nodeLists (deliveredWays calls)) w := by
  rw [nodesFor?_of_stores hscan h, if_pos ((hscan.used w).2 ⟨hw, hspace⟩)]

theorem nodesFor?_of_not_member (hscan : Scanned config c rs env)
    (h : Stores c env env.store.nodes env.store.ways calls.flatten after) {w : WayId} (hw : w ∉ memberWays c rs) :
    after.env.store.ways.nodesFor? w = none := by
  rw [nodesFor?_of_stores hscan h, if_neg fun hused => hw ((hscan.used w).1 hused).1]

theorem mem_memberWays {r : RelationRecord} (hr : r ∈ accepted c rs) {w : WayId} (hw : w ∈ r.members) :
    w ∈ memberWays c rs := List.mem_flatMap.2 ⟨r, hr, hw⟩

theorem nodesFor?_withAllWays (hscan : Scanned config c rs env)
    (h : Stores c env env.store.nodes env.store.ways calls.flatten after) {r : RelationRecord}
    (hr : r ∈ accepted c rs) (hspace : ∀ w ∈ r.members, UsedWays.InSpace w) :
    ∀ w ∈ r.members, after.env.store.ways.nodesFor? w = (withAllWays after.env.store calls).ways.nodesFor? w := by
  intro w hw
  rw [nodesFor?_of_member hscan h (mem_memberWays hr hw) (hspace w hw)]
  exact (WayStore.nodesFor?_insert_empty _ w).symm

/-! ## Complete inputs -/

theorem mem_deliveredWays {way : WayRecord} :
    way ∈ deliveredWays calls ↔ ∃ call ∈ calls, way ∈ call.flatMap Block.ways := by
  simp only [deliveredWays, List.mem_flatMap, List.mem_flatten]
  constructor
  · rintro ⟨block, ⟨call, hcall, hblock⟩, hway⟩
    exact ⟨call, hcall, block, hblock, hway⟩
  · rintro ⟨call, hcall, block, hblock, hway⟩
    exact ⟨block, ⟨call, hcall, hblock⟩, hway⟩

theorem at?_of_batches {bs : List Block} {nodes nodes' : NodeStore}
    (hnodes : (Work.nodeBatches bs).foldlM NodeStore.insert nodes = .ok nodes') (n : NodeId) :
    nodes'.at? n = (lastFor? (Block.locations (bs.flatMap Block.nodes)) n).or (nodes.at? n) := by
  rw [NodeStore.at?_foldlM hnodes, Work.flatten_nodeBatches]

theorem isSome_at?_of_delivered {bs : List Block} {nodes nodes' : NodeStore}
    (hnodes : (Work.nodeBatches bs).foldlM NodeStore.insert nodes = .ok nodes') {n : NodeId}
    (hdelivered : ∃ node ∈ bs.flatMap Block.nodes, node.id = n) : (nodes'.at? n).isSome = true := by
  obtain ⟨record, hrecord, rfl⟩ := hdelivered
  have hlast : (lastFor? (Block.locations (bs.flatMap Block.nodes)) record.id).isSome = true :=
    isSome_lastFor? (List.mem_map_of_mem hrecord)
  rw [at?_of_batches hnodes, Option.isSome_or, hlast, Bool.true_or]

/-- **A flat file that is spared** refuses batches for their ids only, and a hash map none. -/
theorem coversRefusals_of_spares (hspares : Spares config calls) (hscan : Scanned config c rs env) :
    ∀ batch ∈ Work.nodeBatches calls.flatten,
      CoversRefusals (fun err => ∃ cause, err = .storage cause ∧ cause.check? = none) env.store.nodes.capacity? batch := by
  intro batch hbatch nodes hkind cause hinsert
  refine ⟨cause, rfl, ?_⟩
  cases nodes with
  | hashed locations => cases hinsert
  | compact nodes =>
    rcases CompactNodes.insert_eq_error (map_eq_error hinsert) with ⟨node, -, -, rfl⟩ | ⟨-, ⟨node, hnode, hmin⟩, -⟩
    · rfl
    · have hmem := List.mem_flatten_of_mem hbatch hnode
      rw [Work.flatten_nodeBatches] at hmem
      obtain ⟨record, hrecord, rfl⟩ := List.mem_map.1 hmem
      exact absurd hmin (hspares (hscan.kind (by rw [← hkind]; rfl)) record hrecord)

variable {rules : Config} {members : List WayId}

theorem not_resolves_of_fails {e : Element} {err : ProcessingError} (h : Fails rules.classifier env e err) :
    ¬ e.Resolves env.store := by
  obtain ⟨p, hp, herr⟩ := h
  intro hres
  obtain ⟨features, hok⟩ := process_rules_eq_ok hp hres
  rw [hok] at herr
  cases herr

/-- **On a complete input the rules fail on no way**: only the store may refuse some nodes, for their ids. -/
theorem batches_complete {i : Ingest Unit} (hcomplete : Complete members calls) (hspares : Spares config calls)
    (hscan : Scanned config rules.classifier rs env) (hi : i.At rules.classifier env) :
    (∃ after, i.batches calls = (.ok (), after) ∧
      Stores rules.classifier env env.store.nodes env.store.ways calls.flatten after) ∨
      ∃ err after, i.batches calls = (.error err, after) ∧ ∃ cause, err = .storage cause ∧ cause.check? = none := by
  refine batches_ends (fun env n err hfails => ?_) hi (coversRefusals_of_spares hspares hscan) ?_
  · exact absurd trivial (not_resolves_of_fails hfails)
  · intro pre call post hsplit nodes' ways hnodes way hway err hfails
    refine absurd (fun n hn => isSome_at?_of_delivered hnodes ?_) (not_resolves_of_fails hfails)
    obtain ⟨node, hnode, hid, -⟩ := hcomplete.nodes pre call post hsplit way hway n hn
    rw [deliveredNodes, List.flatten_append, List.flatten_singleton] at hnode
    exact ⟨node, hnode, hid⟩

theorem resolves_of_complete (hcomplete : Complete (memberWays c rs) calls) (hscan : Scanned config c rs env)
    (h : Stores c env env.store.nodes env.store.ways calls.flatten after) {w : WayId} (hw : w ∈ memberWays c rs) :
    after.env.store.Resolves w := by
  have hstored := nodesFor?_of_member hscan h hw (hcomplete.inSpace w hw)
  obtain ⟨way, hway, rfl⟩ := hcomplete.members w hw
  have hlast : (lastFor? (Block.nodeLists (deliveredWays calls)) way.id).isSome = true :=
    isSome_lastFor? (List.mem_map_of_mem hway)
  obtain ⟨nodes, hnodes⟩ := Option.isSome_iff_exists.1 hlast
  refine ⟨nodes, hstored.trans hnodes, fun n hn => ?_⟩
  obtain ⟨last, hdelivered, hfound⟩ := List.mem_map.1 (mem_of_lastFor? hnodes)
  obtain ⟨-, rfl⟩ := Prod.mk.inj hfound
  obtain ⟨nodes', hbatches, hafter⟩ := h
  rw [hafter.env]
  refine isSome_at?_of_delivered hbatches ?_
  -- the node came no later than the way, and so it came
  obtain ⟨call, hcall, hlastcall⟩ := mem_deliveredWays.1 hdelivered
  obtain ⟨pre, post, hsplit⟩ := List.append_of_mem hcall
  obtain ⟨node, hnode, hid, -⟩ := hcomplete.nodes pre call post hsplit last hlastcall n hn
  refine ⟨node, ?_, hid⟩
  rw [hsplit, List.flatten_append, List.flatten_cons, ← List.append_assoc, List.flatMap_append]
  rw [deliveredNodes, List.flatten_append, List.flatten_singleton] at hnode
  exact List.mem_append_left _ hnode

theorem relations_rules_eq_ok {i : Ingest Unit} (hi : i.At rules.classifier env)
    (hresolves : ∀ ways ∈ env.store.wayLists.toList, ∀ w ∈ ways.outer ++ ways.inner, env.store.Resolves w) :
    ∃ counters, i.relations.1 = .ok counters := by
  have hwork : Ends (Work.On rules.classifier env) Work.relations _ fun err _ => False :=
    Work.ends_relations fun ways hways _ _ _ _ hfails => not_resolves_of_fails hfails (hresolves ways hways)
  rcases run_ends .relations hi hwork with ⟨u, hrun, -⟩ | ⟨_, _, -, hfalse⟩
  · exact ⟨u.counters, congrArg Prod.fst hrun⟩
  · exact False.elim hfalse

/-- **Past a complete input the rules fail on no relation.** -/
theorem relations_complete {after : Ingest Unit} (hcomplete : Complete (memberWays rules.classifier rs) calls)
    (hscan : Scanned config rules.classifier rs env)
    (h : Stores rules.classifier env env.store.nodes env.store.ways calls.flatten after) :
    ∃ counters, after.relations.1 = .ok counters := by
  have hresolves : ∀ w ∈ memberWays rules.classifier rs, after.env.store.Resolves w :=
    fun w hw => resolves_of_complete hcomplete hscan h hw
  obtain ⟨nodes', -, hafter⟩ := h
  rw [hafter.env] at hresolves
  refine relations_rules_eq_ok hafter fun ways hways w hw => ?_
  obtain ⟨r, hr, rfl⟩ := List.mem_map.1 (hscan.wayLists.mem_iff.1 hways)
  exact hresolves w (mem_memberWays hr hw)

/-! ## All together -/

/-- **The ways that are left out are not missed.**  From an empty store, through the scan and any runs of the block pass:

* if the runs succeed, the store has of each member way in the range of ids that are kept the nodes that came last, and
  of no other way any; so a recorded relation whose members are in this range has the shapes that it would have if all
  ways had been stored;
* if the classifier follows rules, the input is complete, a flat file is spared the longitude that stands for nothing, and
  no error of the store comes up, all three passes succeed. -/
theorem member_ways_suffice {config : StoreConfig} {store : ObjectStore} (hnew : ObjectStore.create config = .ok store)
    (layers : ReferenceLayers) (rs : List RelationRecord) (estimate : Nat) (calls : List (List Block)) :
    (∀ {σ : Type} (c : Classifier σ) (after : Ingest σ),
      ((ofStore store layers c).scan rs estimate).2.batches calls = (.ok (), after) →
      (∀ w ∈ memberWays c rs, UsedWays.InSpace w →
        after.env.store.ways.nodesFor? w = lastFor? (Block.nodeLists (deliveredWays calls)) w) ∧
      (∀ w ∉ memberWays c rs, after.env.store.ways.nodesFor? w = none) ∧
      (∀ r ∈ accepted c rs, (∀ w ∈ r.members, UsedWays.InSpace w) →
        after.env.store.multiPolygon r.ways.outer r.ways.inner =
          (withAllWays after.env.store calls).multiPolygon r.ways.outer r.ways.inner ∧
        after.env.store.lines r.ways.outer = (withAllWays after.env.store calls).lines r.ways.outer)) ∧
    (∀ (rules : Config),
      Complete (memberWays rules.classifier rs) calls → Spares config calls →
      (∀ cause, cause.check? = none →
        (((ofStore store layers rules.classifier).scan rs estimate).2.batches calls).1 ≠ .error (.storage cause)) →
      (((ofStore store layers rules.classifier).scan rs estimate).2.batches calls).1 = .ok () ∧
      ∃ counters, (((ofStore store layers rules.classifier).scan rs estimate).2.batches calls).2.relations.1 =
        .ok counters) := by
  constructor
  · intro σ c after hrun
    have hscan := scanned_scan hnew layers c rs estimate
    have hstores := batches_eq_ok (scan_at (ofStore store layers c) rs estimate) hrun
    refine ⟨fun w hw hspace => nodesFor?_of_member hscan hstores hw hspace,
      fun w hw => nodesFor?_of_not_member hscan hstores hw, fun r hr hspace => ?_⟩
    have hways := nodesFor?_withAllWays hscan hstores hr hspace
    have hconfig : after.env.store.config = (withAllWays after.env.store calls).config := rfl
    have hnodes : after.env.store.nodes = (withAllWays after.env.store calls).nodes := rfl
    exact ⟨ObjectStore.multiPolygon_congr hconfig hnodes hways,
      ObjectStore.lines_congr hconfig hnodes fun w hw => hways w (List.mem_append_left r.ways.inner hw)⟩
  · intro rules hcomplete hspares hstorage
    have hscan := scanned_scan hnew layers rules.classifier rs estimate
    rcases batches_complete hcomplete hspares hscan (scan_at (ofStore store layers rules.classifier) rs estimate) with
      ⟨after, hrun, hstores⟩ | ⟨_, after, hrun, cause, rfl, hcause⟩
    · rw [hrun]
      exact ⟨rfl, relations_complete hcomplete hscan hstores⟩
    · rw [hrun] at hstorage
      exact absurd rfl (hstorage cause hcause)

/-! ## A triangle and a way that no relation has -/

/-- A relation whose only way is a triangle. -/
def triangle : RelationRecord := ⟨⟨9, [5], []⟩, TextMap.ofList [("type", "multipolygon")]⟩

/-- The nodes of the triangle, then the triangle and another way. -/
def triangleCalls : List (List Block) :=
  [[[.node ⟨1, ⟨0, 0⟩, ∅⟩, .node ⟨2, ⟨0, 10⟩, ∅⟩, .node ⟨3, ⟨10, 0⟩, ∅⟩]],
    [[.way ⟨5, [1, 2, 3, 1], ∅⟩, .way ⟨6, [1, 2], ∅⟩]]]

/-- Multi-polygons are drawn, and nodes go into a flat file for sixteen of them. -/
def flatConfig : Config := ⟨⟨true, true, 16, none, false⟩, [], [areaRule "multipolygon" "parks"]⟩

def flatStore : ObjectStore := .withNodes flatConfig.store (.compact .sixteen)

/-- The triangle recorded in an empty store. -/
def triangleIngest : Ingest Unit := ((ofStore flatStore .empty flatConfig.classifier).scan [triangle] 3).2

theorem memberWays_triangle : memberWays flatConfig.classifier [triangle] = [5] := by decide +kernel

/-- Each call is looked at with those up to it. -/
theorem complete_of_forall {members : List WayId} {calls : List (List Block)}
    (hmembers : ∀ w ∈ members, UsedWays.InSpace w ∧ ∃ way ∈ deliveredWays calls, way.id = w)
    (hnodes : ∀ k < calls.length, ∀ way ∈ (calls.getD k []).flatMap Block.ways, ∀ n ∈ way.nodes,
      ∃ node ∈ deliveredNodes (calls.take (k + 1)), node.id = n ∧ node.at_.lon ≠ Int32.minValue) :
    Complete members calls where
  inSpace w hw := (hmembers w hw).1
  members w hw := (hmembers w hw).2
  nodes pre call post hsplit way hway n hn := by
    subst hsplit
    have hplace := hnodes pre.length (by simp) way (by simpa using hway) n hn
    rwa [List.take_append, Nat.add_sub_cancel_left, List.take_of_length_le (Nat.le_succ _)] at hplace

theorem complete_triangle : Complete (memberWays flatConfig.classifier [triangle]) triangleCalls := by
  rw [memberWays_triangle]
  exact complete_of_forall (by unfold UsedWays.InSpace; decide) (by decide)

theorem spares_triangle : Spares flatConfig.store triangleCalls := by
  have hlon : ∀ node ∈ deliveredNodes triangleCalls, node.at_.lon ≠ Int32.minValue := by decide
  exact fun _ => hlon

theorem foundRings_triangle {after : Ingest Unit} (hrun : triangleIngest.batches triangleCalls = (.ok (), after))
    (hway : after.env.store.ways.nodesFor? 5 = some [1, 2, 3, 1]) :
    after.env.store.foundRings [5] = [[⟨0, 0⟩, ⟨0, 10⟩, ⟨10, 0⟩, ⟨0, 0⟩]] := by
  obtain ⟨nodes, hnodes, hafter⟩ :=
    batches_eq_ok (scan_at (ofStore flatStore .empty flatConfig.classifier) [triangle] 3) hrun
  have hat : after.env.store.nodes.at? = fun n =>
      (lastFor? (Block.locations (deliveredNodes triangleCalls)) n).or (triangleIngest.env.store.nodes.at? n) := by
    rw [hafter.env]
    exact funext (at?_of_batches hnodes)
  have hfound : after.env.store.found [1, 2, 3, 1] = [⟨0, 0⟩, ⟨0, 10⟩, ⟨10, 0⟩, ⟨0, 0⟩] := by
    rw [ObjectStore.found, hat]
    rfl
  rw [ObjectStore.foundRings, ObjectStore.foundWays, List.filterMap_cons_some (by rw [hway]; rfl), hfound,
    List.filterMap_nil]
  decide +kernel

/-- The third pass draws the triangle, once its way and the nodes of it are stored. -/
theorem relations_triangle {before : Ingest Unit} (hrun : triangleIngest.batches triangleCalls = (.ok (), before))
    (hresolves : ∀ w ∈ triangle.members, before.env.store.Resolves w)
    (hway : before.env.store.ways.nodesFor? 5 = some [1, 2, 3, 1]) (hnone : before.features.toList = []) :
    ∃ counters after, before.relations = (.ok counters, after) ∧
      after.features.toList.map (fun f => (f.layer, f.id)) = [("parks", -1)] := by
  let e : Element := .ofRelation triangle.ways (-1) triangle.tags
  have hrings := foundRings_triangle hrun hway
  have hdraws : (Context.empty.begin e).Draws before.env e "parks" true
      (.ok (some (.multiPolygon (before.env.store.foundArea [5] [])))) := by
    refine Context.draws_area_of_resolves (Context.holds_begin _) rfl hresolves ?_ ?_ "parks"
    · exact ne_of_eq_of_ne hrings (by decide)
    · change ∀ ring ∈ (before.env.store.foundArea [5] []).flatMap Polygon.rings, _
      rw [ObjectStore.foundArea_nil, hrings]
      decide +kernel
  have hrule : flatConfig.ruleFor? e.kind (some e.tags) = some (areaRule "multipolygon" "parks") := by rfl
  obtain ⟨hok, hdrawn⟩ := Config.features_of_rule hrule rfl rfl rfl hdraws
  have hids : ([triangle].map (·.ways.relation)).Nodup := by decide
  obtain ⟨hclassifier, hscanned, ordered, hperm, -, hrelations⟩ :=
    relations_of_scan (i := ofStore flatStore .empty flatConfig.classifier) ⟨rfl, rfl, rfl⟩ hids 3 rfl hrun
  have haccepted : accepted flatConfig.classifier [triangle] = [triangle] := rfl
  obtain rfl : ordered = [triangle] := List.perm_singleton.1 (haccepted ▸ hperm)
  have hsucceeds : before.classifier.Succeeds before.env before.classifier.fresh (relationElements [triangle]) := by
    rw [hclassifier]
    exact ⟨hok, trivial⟩
  obtain ⟨counters, after, hafter, -, -, hfeatures⟩ := (run_relationsAs hscanned [triangle]).1 hsucceeds
  refine ⟨counters, after, hrelations.trans hafter, ?_⟩
  rw [hfeatures, Array.toList_appendList, hnone, hclassifier]
  change List.map _ (flatConfig.classifier.features () before.env e ++ []) = _
  rw [hdrawn]
  rfl

/-- The triangle is drawn, though the other way is left out. -/
theorem member_ways_suffice_triangle :
    ObjectStore.create flatConfig.store = .ok flatStore ∧
      ∃ before counters after, triangleIngest.batches triangleCalls = (.ok (), before) ∧
        before.env.store.ways.nodesFor? 5 = some [1, 2, 3, 1] ∧ before.env.store.ways.nodesFor? 6 = none ∧
        before.relations = (.ok counters, after) ∧
        after.features.toList.map (fun f => (f.layer, f.id)) = [("parks", -1)] := by
  have hnew : ObjectStore.create flatConfig.store = .ok flatStore := rfl
  obtain ⟨hstored, hsucceeds⟩ := member_ways_suffice hnew .empty [triangle] 3 triangleCalls
  have hisOk : (triangleIngest.batches triangleCalls).1.isOk = true := by decide +kernel
  have hstorage : ∀ cause, cause.check? = none → (triangleIngest.batches triangleCalls).1 ≠ .error (.storage cause) := by
    intro cause _ h
    rw [h] at hisOk
    cases hisOk
  obtain ⟨hok, -⟩ := hsucceeds flatConfig complete_triangle spares_triangle hstorage
  have hrun : triangleIngest.batches triangleCalls = (.ok (), (triangleIngest.batches triangleCalls).2) :=
    Prod.ext hok rfl
  have hnone : (triangleIngest.batches triangleCalls).2.features.toList = [] := by decide +kernel
  generalize (triangleIngest.batches triangleCalls).2 = before at hrun hnone
  obtain ⟨hmember, hother, -⟩ := hstored flatConfig.classifier before hrun
  have hmem : 5 ∈ memberWays flatConfig.classifier [triangle] := by
    rw [memberWays_triangle]
    decide
  have hway : before.env.store.ways.nodesFor? 5 = some [1, 2, 3, 1] := by
    rw [hmember 5 hmem (complete_triangle.inSpace 5 hmem)]
    decide
  have hunmarked : before.env.store.ways.nodesFor? 6 = none := by
    refine hother 6 ?_
    rw [memberWays_triangle]
    decide
  have hresolves : ∀ w ∈ triangle.members, before.env.store.Resolves w := by
    intro w hw
    obtain rfl := List.mem_singleton.1 hw
    exact resolves_of_complete complete_triangle (scanned_scan hnew .empty flatConfig.classifier [triangle] 3)
      (batches_eq_ok (scan_at (ofStore flatStore .empty flatConfig.classifier) [triangle] 3) hrun) hmem
  obtain ⟨counters, after, hrelations, hfeatures⟩ := relations_triangle hrun hresolves hway hnone
  exact ⟨hnew, before, counters, after, hrun, hway, hunmarked, hrelations, hfeatures⟩

/-- The nodes of the triangle, then a node with the longitude that stands for nothing, then the triangle. -/
def callsWithout (id : NodeId) : List (List Block) :=
  [[[.node ⟨1, ⟨0, 0⟩, ∅⟩, .node ⟨2, ⟨0, 10⟩, ∅⟩, .node ⟨3, ⟨10, 0⟩, ∅⟩]], [[.node ⟨id, ⟨0, Int32.minValue⟩, ∅⟩]],
    [[.way ⟨5, [1, 2, 3, 1], ∅⟩]]]

/-- **A node without a place** stops the program, though the input is complete: one of the triangle that came with a place
before, and also one that no way has. -/
theorem complete_redelivered :
    ObjectStore.create flatConfig.store = .ok flatStore ∧ flatConfig.store.enforceIntegrity = true ∧
      (Complete (memberWays flatConfig.classifier [triangle]) (callsWithout 1) ∧
        (triangleIngest.batches (callsWithout 1)).1 = .error (.storage (.stopped .longitude))) ∧
      Complete (memberWays flatConfig.classifier [triangle]) (callsWithout 4) ∧
        (triangleIngest.batches (callsWithout 4)).1 = .error (.storage (.stopped .longitude)) := by
  rw [memberWays_triangle]
  have hmembers : ∀ w ∈ [5], UsedWays.InSpace w := by
    unfold UsedWays.InSpace
    decide
  refine ⟨rfl, rfl, ⟨complete_of_forall ?_ (by decide), by decide +kernel⟩, complete_of_forall ?_ (by decide),
    by decide +kernel⟩
  · exact fun w hw => ⟨hmembers w hw, by revert w; decide⟩
  · exact fun w hw => ⟨hmembers w hw, by revert w; decide⟩

end Ingest
end MapFeatures
