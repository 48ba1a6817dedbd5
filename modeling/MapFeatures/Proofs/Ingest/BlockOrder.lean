import MapFeatures.Proofs.Ingest.RulePass
/-!
# BlockOrder — nodes and ways can be given in any blocks and any order

All nodes are stored before the first way is drawn, and no way is drawn from other ways.  So what rules make of each
element is the same in any order (`Ingest.features_perm`), and the order in which the stores are filled does not show
(`Ingest.blocks_any_order`).
-/
namespace MapFeatures

/-! ## What is recorded -/

theorem LayerMetadata.isSome_typeOf?_recordAll (m : LayerMetadata) (records : List (String × Attribute))
    (layer key : String) : ((m.recordAll records).typeOf? layer key).isSome = true ↔
      (m.typeOf? layer key).isSome = true ∨ ∃ r ∈ records, r.1 = layer ∧ r.2.key = key := by
  induction records generalizing m with
  | nil => simp [recordAll]
  | cons r records ih =>
    have hfirst : ((m.record r.1 r.2.key r.2.value.type).typeOf? layer key).isSome = true ↔
        (r.1 = layer ∧ r.2.key = key) ∨ (m.typeOf? layer key).isSome = true := by
      rw [typeOf?_record]
      split
      · next h => exact iff_of_true rfl (Or.inl h)
      · next h => exact (or_iff_right h).symm
    rw [recordAll, List.foldl_cons, ← recordAll, ih, hfirst, List.exists_mem_cons_iff, or_comm (a := _ ∧ _), or_assoc]

theorem LayerMetadata.isSome_typeOf?_perm {records records' : List (String × Attribute)} (h : records.Perm records')
    (m : LayerMetadata) (layer key : String) :
    ((m.recordAll records).typeOf? layer key).isSome = ((m.recordAll records').typeOf? layer key).isSome := by
  rw [Bool.eq_iff_iff, isSome_typeOf?_recordAll, isSome_typeOf?_recordAll]
  exact or_congr_right (exists_congr fun r => and_congr_left' h.mem_iff)

/-! ## What is classified -/

theorem Classifier.nodeElements_perm {σ : Type} (c : Classifier σ) {ns ns' : List NodeRecord} (h : ns.Perm ns') :
    (c.nodeElements ns).Perm (c.nodeElements ns') := (h.filter _).map _

theorem wayElements_perm {ws ws' : List WayRecord} (h : ws.Perm ws') : (wayElements ws).Perm (wayElements ws') :=
  (h.filter _).map _

theorem Ledger.counted_perm (c : Classifier Unit) (env : Surroundings) {es es' : List Element} (h : es.Perm es') :
    counted c env es = counted c env es' := by
  rw [counted, counted, h.length_eq, h.countP_eq]

namespace Ingest

section

variable {rules : Config} {i : Ingest Unit} {ns ns' : List NodeRecord} {ws ws' : List WayRecord}

/-! ## The stores -/

theorem sameContents_withNodes (hns : ns.Perm ns') (hids : (ns.map (·.id)).Nodup) :
    (i.withNodes ns).env.store.nodes.SameContents (i.withNodes ns').env.store.nodes := by
  have hkeys : ((Block.locations ns).map (·.1)).Nodup := by rwa [Block.locations, List.map_map]
  exact NodeStore.sameContents_foldl_put (hns.map _) hkeys i.env.store.nodes

theorem ways_equiv (hws : ws.Perm ws') (hids : (ws.map (·.id)).Nodup) :
    ((i.withNodes ns).withWays ws).env.store.ways.nodes.Equiv ((i.withNodes ns').withWays ws').env.store.ways.nodes := by
  have hmarked := hws.filter fun w => i.env.store.usedWays.contains w.id
  have hkeys : ((Block.nodeLists (Work.marked i.env.store.usedWays ws)).map (·.1)).Nodup := by
    rw [Block.nodeLists, List.map_map]
    exact hids.sublist (List.filter_sublist.map _)
  exact equiv_foldl_insert (hmarked.map fun w => (w.id, w.nodes)) hkeys i.env.store.ways.nodes

theorem takesNodes_perm (hns : ns.Perm ns') : i.TakesNodes ns ↔ i.TakesNodes ns' :=
  forall_congr' fun _ => imp_congr_left hns.mem_iff

/-! ## One order and another -/

variable (hi : i.classifier = rules.classifier) (hns : ns.Perm ns') (hws : ws.Perm ws')
  (hsame : (i.withNodes ns).env.SameNodes (i.withNodes ns').env)

include hi hws hsame

theorem takesWays_perm : (i.withNodes ns).TakesWays ws ↔ (i.withNodes ns').TakesWays ws' := by
  have hstored : (i.withNodes ns').classifier = rules.classifier := hi
  have hrules : (i.withNodes ns).classifier = (i.withNodes ns').classifier := rfl
  rw [takesWays_congr hstored hrules hsame]
  exact forall_congr' fun _ => imp_congr_left (wayElements_perm hws).mem_iff

include hns

theorem blockCounters_perm : i.blockCounters ns ws = i.blockCounters ns' ws' := by
  have hnodes : i.nodeCounters ns = i.nodeCounters ns' := by
    rw [nodeCounters, nodeCounters, hns.length_eq, Ledger.counted_perm _ _ (i.classifier.nodeElements_perm hns)]
  have hmarked : (Work.marked i.env.store.usedWays ws).length = (Work.marked i.env.store.usedWays ws').length :=
    (hws.filter _).length_eq
  have hways : (i.withNodes ns).wayCounters ws = (i.withNodes ns').wayCounters ws' := by
    rw [wayCounters, wayCounters, hws.length_eq, Ledger.counted_perm _ _ (wayElements_perm hws),
      counted_congr (c := (i.withNodes ns).classifier) hi (wayElements_agree ws' hsame)]
    exact congrArg (fun stored => Counters.ofGiven ws'.length stored + _) hmarked
  rw [blockCounters, blockCounters, hnodes, hways]

/-- **The same features are made** in any order. -/
theorem features_perm :
    ((i.withNodes ns).withWays ws).features.toList.Perm ((i.withNodes ns').withWays ws').features.toList := by
  have hnodes := (i.classifier.nodeElements_perm hns).flatMap_right (i.classifier.features () i.env)
  have hways := (wayElements_perm hws).flatMap_right (i.classifier.features () (i.withNodes ns).env)
  rw [flatMap_features_congr hi (wayElements_agree ws' hsame)] at hways
  simp only [withNodes, withWays, classifying, Array.toList_appendList] at hways ⊢
  exact ((hnodes.append_left _).append hways)

theorem records_perm (layer key : String) :
    (((i.withNodes ns).withWays ws).metadata.typeOf? layer key).isSome =
      (((i.withNodes ns').withWays ws').metadata.typeOf? layer key).isSome := by
  have hnodes := (i.classifier.nodeElements_perm hns).flatMap_right (i.classifier.records () i.env)
  have hways := (wayElements_perm hws).flatMap_right (i.classifier.records () (i.withNodes ns).env)
  rw [flatMap_records_congr hi (wayElements_agree ws' hsame)] at hways
  have hrecords := LayerMetadata.isSome_typeOf?_perm (hnodes.append hways) i.metadata layer key
  rw [LayerMetadata.recordAll_append, LayerMetadata.recordAll_append] at hrecords
  exact hrecords

end

/-- **The order and the cut of blocks do not show** in what the block pass of rules leaves, if the ids of the nodes and
those of the ways are distinct: it fails for both or leaves the same, where attributes may have been recorded and
features made in another order.  If only the cut differs, all is the same. -/
theorem blocks_any_order {rules : Config} {i : Ingest Unit} (hi : i.classifier = rules.classifier)
    (hscanned : i.scanned = true) {bs bs' : List Block}
    (hnodes : (bs.flatMap Block.nodes).Perm (bs'.flatMap Block.nodes))
    (hways : (bs.flatMap Block.ways).Perm (bs'.flatMap Block.ways))
    (hnodeIds : ((bs.flatMap Block.nodes).map (·.id)).Nodup) (hwayIds : ((bs.flatMap Block.ways).map (·.id)).Nodup) :
    (∃ err err' failed failed', i.blocks bs = (.error err, failed) ∧ i.blocks bs' = (.error err', failed')) ∨
      ∃ counters after after', i.blocks bs = (.ok counters, after) ∧ i.blocks bs' = (.ok counters, after') ∧
        after.env.store.nodes.SameContents after'.env.store.nodes ∧
        after.env.store.ways.nodes.Equiv after'.env.store.ways.nodes ∧
        (∀ layer key, (after.metadata.typeOf? layer key).isSome = (after'.metadata.typeOf? layer key).isSome) ∧
        after.features.toList.Perm after'.features.toList ∧
        (bs.flatMap Block.nodes = bs'.flatMap Block.nodes → bs.flatMap Block.ways = bs'.flatMap Block.ways →
          after = after') := by
  obtain ⟨hok, hfail⟩ := blocks_rules hi hscanned bs
  obtain ⟨hok', hfail'⟩ := blocks_rules hi hscanned bs'
  generalize bs.flatMap Block.nodes = ns at *
  generalize bs.flatMap Block.ways = ws at *
  generalize bs'.flatMap Block.nodes = ns' at *
  generalize bs'.flatMap Block.ways = ws' at *
  have hneither (h : ¬ i.Takes ns ws) (h' : ¬ i.Takes ns' ws') :
      ∃ err err' failed failed', i.blocks bs = (.error err, failed) ∧ i.blocks bs' = (.error err', failed') := by
    obtain ⟨err, failed, hrun⟩ := hfail h
    obtain ⟨err', failed', hrun'⟩ := hfail' h'
    exact ⟨err, err', failed, failed', hrun, hrun'⟩
  by_cases htakes : i.TakesNodes ns
  · have htakes' : i.TakesNodes ns' := (takesNodes_perm hnodes).1 htakes
    have hcontents := sameContents_withNodes (i := i) hnodes hnodeIds
    have hsame : (i.withNodes ns).env.SameNodes (i.withNodes ns').env := ⟨rfl, rfl, hcontents.at?_eq⟩
    -- Ways are drawn once all nodes are stored, so the order does not decide whether one of them is refused.
    have hboth := takesWays_perm hi hways hsame
    by_cases hdrawn : (i.withNodes ns).TakesWays ws
    · have hrun := hok ⟨htakes, hdrawn⟩
      have hrun' := hok' ⟨htakes', hboth.1 hdrawn⟩
      rw [← blockCounters_perm hi hnodes hways hsame] at hrun'
      refine Or.inr ⟨_, _, _, hrun, hrun', hcontents, ways_equiv hways hwayIds, records_perm hi hnodes hways hsame,
        features_perm hi hnodes hways hsame, ?_⟩
      rintro rfl rfl
      rfl
    · exact Or.inl (hneither (fun h => hdrawn h.2) fun h => hdrawn (hboth.2 h.2))
  · exact Or.inl (hneither (fun h => htakes h.1) fun h => htakes ((takesNodes_perm hnodes).2 h.1))

theorem blocks_any_order_towns :
    ∃ counters after after', townIngest.blocks [towns.map .node, roads.map .way] = (.ok counters, after) ∧
      townIngest.blocks [roads.map .way ++ towns.reverse.map .node] = (.ok counters, after') ∧
      after.env.store.nodes.SameContents after'.env.store.nodes ∧
      after.features.toList.Perm after'.features.toList := by
  have hrules : townIngest.classifier = townRules.classifier := rfl
  have hnodes : ([towns.map .node, roads.map .way].flatMap Block.nodes).Perm
      ([roads.map .way ++ towns.reverse.map .node].flatMap Block.nodes) := by decide
  have hways : ([towns.map .node, roads.map .way].flatMap Block.ways).Perm
      ([roads.map .way ++ towns.reverse.map .node].flatMap Block.ways) := by decide
  have horder := blocks_any_order hrules rfl hnodes hways (by decide) (by decide)
  have hisOk : (townIngest.blocks [towns.map .node, roads.map .way]).1.isOk = true := by decide +kernel
  obtain ⟨err, err', failed, failed', hrun, -⟩ |
    ⟨counters, after, after', hrun, hrun', hnodes, -, -, hfeatures, -⟩ := horder
  · rw [hrun] at hisOk
    cases hisOk
  · exact ⟨counters, after, after', hrun, hrun', hnodes, hfeatures⟩

end Ingest
end MapFeatures
