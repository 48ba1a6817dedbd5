import MapFeatures.Proofs.Feature.Metadata
import MapFeatures.Proofs.Ingest.Handed
import MapFeatures.Proofs.Store.CompactNodes
/-!
# Metadata — the metadata of an ingest describes the features that it has handed out

What the calls for an element record describes its features (`describes_windows`).  Within a block the metadata of the
ingest describes the features before it, and that of the processor those since (`Described`); at its end they are put
together (`Settled`).  Only an element that fails leaves more in the metadata than it hands out, and it ends the pass.
-/
namespace MapFeatures

variable {σ : Type}

/-! ## One element -/

theorem describes_windows {env : Surroundings} {e : Element} {ws : List Window} {made fs : List Feature}
    (htells : List.Forall₂ (Window.Tells env e) ws made) {m : LayerMetadata} (h : m.Describes fs) :
    (m.recordAll (ws.flatMap Window.records)).Describes (fs ++ made) := by
  induction htells generalizing m fs with
  | nil =>
    rw [List.append_nil]
    exact h
  | @cons w f ws made hf _ ih =>
    have hrecords : m.recordAll (w.records ++ ws.flatMap Window.records) =
        LayerMetadata.recordAll (w.attributes.foldl (fun m a => m.record f.layer a.key a.value.type) m)
          (ws.flatMap Window.records) := by
      rw [LayerMetadata.recordAll, List.foldl_append, Window.records, recordsIn, List.foldl_map, hf.layer]
      rfl
    have hmade : fs ++ f :: made = (fs ++ [f]) ++ made := by simp
    rw [List.flatMap_cons, hrecords, hmade]
    exact ih (h.concat hf.value)

/-- **An element that succeeds** adds to the metadata of the processor what describes its features. -/
theorem FeatureProcessor.describes_process {env : Surroundings} {p : FeatureProcessor σ} {e : Element}
    {fs : List Feature} (h : p.context.metadata.Describes fs) (hok : (p.outcome env e).1 = .ok ()) :
    (p.process env e).2.context.metadata.Describes (fs ++ p.gives env e) := by
  rw [gives_of_ok hok, process_eq]
  change (p.called env e).metadata.Describes _
  rw [called, Context.metadata_begin]
  exact describes_windows (Context.features_begin p.context e (p.calls env e)) h

/-! ## Parts of a pass -/

namespace Underway

/-- Whether the metadata of the ingest describes the first features, and that of the processor the rest. -/
def Described (u : Underway σ) : Prop :=
  ∃ earlier later, u.ingest.features.toList = earlier ++ later ∧ u.ingest.metadata.Describes earlier ∧
    u.processor.context.metadata.Describes later

/-- Whether the metadata of the ingest describes all features, and the processor has none. -/
structure Settled (u : Underway σ) : Prop where
  describes : u.ingest.metadata.Describes u.ingest.features.toList
  taken : u.processor.context.metadata = ∅

theorem Settled.described {u : Underway σ} (h : u.Settled) : u.Described := by
  refine ⟨u.ingest.features.toList, [], (List.append_nil _).symm, h.describes, ?_⟩
  rw [h.taken]
  exact LayerMetadata.describes_empty

end Underway

namespace Work

open Underway

theorem described_classify (e : Element) :
    Ends (Described (σ := σ)) (classify e) (fun _ => Described) fun _ _ => True := by
  -- an element that fails ends the pass, so only those that succeed count
  refine Ends.of_run fun u ⟨earlier, later, hfeatures, hearlier, hlater⟩ done u' hrun => ?_
  obtain ⟨hresult, hprocessor, hingest⟩ := run_classify e u
  rw [hrun] at hresult hprocessor hingest
  refine ⟨earlier, later ++ u.processor.gives u.ingest.env e, ?_, ?_, ?_⟩
  · rw [hingest, Array.toList_appendList, hfeatures, List.append_assoc]
  · rw [hingest]
    exact hearlier
  · rw [hprocessor]
    exact FeatureProcessor.describes_process hlater hresult.symm

theorem settled_collectMetadata :
    Ends (Described (σ := σ)) collectMetadata (fun _ => Settled) fun _ _ => True := by
  refine Ends.modify _ fun u ⟨earlier, later, hfeatures, hearlier, hlater⟩ => ⟨?_, rfl⟩
  have hmerged := hearlier.append hlater
  rw [← hfeatures] at hmerged
  exact hmerged

theorem settled_count (counters : Counters) :
    Ends (Settled (σ := σ)) (count counters) (fun _ => Settled) fun _ _ => True :=
  Ends.modify _ fun _ h => ⟨h.describes, h.taken⟩

theorem settled_keepStore (store : ObjectStore) :
    Ends (Settled (σ := σ)) (keepStore store) (fun _ => Settled) fun _ _ => True :=
  Ends.modify _ fun _ h => ⟨h.describes, h.taken⟩

theorem settled_renewProcessor : Ends (Settled (σ := σ)) renewProcessor (fun _ => Settled) fun _ _ => True :=
  Ends.modify _ fun _ h => ⟨h.describes, rfl⟩

/-- **Work that hands out features is settled** once their metadata is collected. -/
theorem settled_bind_collectMetadata {w : Work σ Unit} (hw : Ends Described w (fun _ => Described) fun _ _ => True) :
    Ends Settled (w >>= fun _ => collectMetadata) (fun _ => Settled) fun _ _ => True :=
  (hw.bind fun _ => settled_collectMetadata).of_imp fun _ h => h.described

theorem described_node (n : NodeRecord) :
    Ends (Described (σ := σ)) (node n) (fun _ => Described) fun _ _ => True := by
  refine Ends.get_bind fun u _ => ?_
  split
  · exact described_classify _
  · exact Ends.pure _ fun _ h => h

theorem described_way (w : WayRecord) :
    Ends (Described (σ := σ)) (way w) (fun _ => Described) fun _ _ => True := by
  unfold way
  split
  · exact Ends.pure _ fun _ h => h
  · exact described_classify _

theorem settled_nodes (block : List NodeRecord) :
    Ends (Settled (σ := σ)) (nodes block) (fun _ => Settled) fun _ _ => True := by
  refine (settled_count _).bind fun _ => Ends.get_bind fun u _ => ?_
  cases u.ingest.env.store.insertNodes (block.map fun n => (n.id, n.at_)) with
  | error cause => exact Ends.throw _ fun _ _ => trivial
  | ok store =>
    refine (settled_keepStore store).bind fun _ => ?_
    exact settled_bind_collectMetadata (Ends.forM fun n _ => described_node n)

theorem settled_ways (block : List WayRecord) :
    Ends (Settled (σ := σ)) (ways block) (fun _ => Settled) fun _ _ => True := by
  refine Ends.get_bind fun u _ => (settled_count _).bind fun _ => (settled_keepStore _).bind fun _ => ?_
  exact settled_bind_collectMetadata (Ends.forM fun w _ => described_way w)

theorem settled_blocks (bs : List Block) :
    Ends (Settled (σ := σ)) (blocks bs) (fun _ => Settled) fun _ _ => True := by
  refine (Ends.forM fun block _ => settled_nodes block).bind fun _ => ?_
  exact settled_renewProcessor.bind fun _ => Ends.forM fun block _ => settled_ways block

theorem settled_relation (ways : WayLists) :
    Ends (Settled (σ := σ)) (relation ways) (fun _ => Settled) fun _ _ => True :=
  Ends.get_bind fun _ _ => (settled_keepStore _).bind fun _ => settled_bind_collectMetadata (described_classify _)

theorem settled_relations : Ends (Settled (σ := σ)) relations (fun _ => Settled) fun _ _ => True :=
  Ends.get_bind fun _ _ => (settled_count _).bind fun _ => Ends.forM fun ways _ => settled_relation ways

end Work

/-! ## Passes -/

/-- A call of a pass. -/
inductive PassCall
  | scan (rs : List RelationRecord) (estimate : Nat)
  | blocks (bs : List Block)
  | relations

namespace Ingest

/-- A pass with the classifier that is made for it.  Another one may be made each time; one that is made for the nodes
of a call and one for its ways make one together, since it is told which kind of element it has. -/
def perform (i : Ingest σ) (c : Classifier σ) : PassCall → Except ProcessingError Counters × Ingest σ
  | .scan rs estimate =>
    let (counters, i) := scan { i with classifier := c } rs estimate
    (.ok counters, i)
  | .blocks bs => blocks { i with classifier := c } bs
  | .relations => relations { i with classifier := c }

/-- One pass after the other, up to the first error. -/
def performAll (i : Ingest σ) : List (Classifier σ × PassCall) → Except ProcessingError Unit × Ingest σ
  | [] => (.ok (), i)
  | (c, call) :: rest =>
    match i.perform c call with
    | (.error err, i) => (.error err, i)
    | (.ok _, i) => i.performAll rest

def Described (i : Ingest σ) : Prop := i.metadata.Describes i.features.toList

theorem described_run {i i' : Ingest σ} {pass : Pass} {work : Work σ Unit} {counters : Counters} (h : i.Described)
    (hwork : Ends Underway.Settled work (fun _ => Underway.Settled) fun _ _ => True)
    (hrun : i.run pass work = (.ok counters, i')) : i'.Described := by
  obtain ⟨u, hends, -, rfl⟩ := run_eq_ok hrun
  have hstart : Underway.Settled ⟨i, .ofClassifier i.classifier, .zero⟩ := ⟨h, rfl⟩
  exact (hwork.of_eq_ok hstart hends).describes

theorem described_perform {i i' : Ingest σ} {c : Classifier σ} {call : PassCall} {counters : Counters} (h : i.Described)
    (hrun : i.perform c call = (.ok counters, i')) : i'.Described := by
  have hmade : Described { i with classifier := c } := h
  cases call with
  | scan rs estimate =>
    cases hrun
    exact h
  | blocks bs => exact described_run hmade (Work.settled_blocks bs) hrun
  | relations => exact described_run hmade Work.settled_relations hrun

theorem described_performAll : ∀ (calls : List (Classifier σ × PassCall)) {i i' : Ingest σ}, i.Described →
    i.performAll calls = (.ok (), i') → i'.Described
  | [], _, _, h, hrun => by
    cases hrun
    exact h
  | (c, call) :: rest, i, i', h, hrun => by
    unfold performAll at hrun
    split at hrun
    · cases hrun
    · next hfirst => exact described_performAll rest (described_perform h hfirst) hrun

/-- **The metadata describes what was handed out**, after any passes that succeed: the type of a key in a layer is that in
the last feature of the layer that has the key, no key has a type that no feature has, and no layer is listed without an
attribute. -/
theorem metadata_describes_features (store : ObjectStore) (layers : ReferenceLayers) (c : Classifier σ)
    (calls : List (Classifier σ × PassCall)) {i : Ingest σ} (hrun : (ofStore store layers c).performAll calls = (.ok (), i)) :
    (∀ layer key, i.metadata.typeOf? layer key = (lastWith? i.features.toList layer key).map (·.value.type)) ∧
      (∀ layer key, i.metadata.typeOf? layer key = none ↔
        ∀ f ∈ i.features, f.layer = layer → ∀ a ∈ f.attributes, a.key ≠ key) ∧
      ∀ layer, layer ∈ TextMap.keys i.metadata ↔ ∃ f ∈ i.features, f.layer = layer ∧ f.attributes ≠ [] := by
  have hnew : (ofStore store layers c).Described := LayerMetadata.describes_empty
  have h : i.Described := described_performAll calls hnew hrun
  refine ⟨h.typeOf?, fun layer key => ?_, fun layer => ?_⟩
  · rw [h.typeOf?, Option.map_eq_none_iff, lastWith?_eq_none_iff]
    simp
  · rw [h.mem_keys_iff]
    simp

/-! ## An attribute whose type changes -/

/-- Draws every element, the first one with a text and the others with a truth value of the same key. -/
def changing : Classifier Bool where
  fresh := false
  significantKeys := ["place"]
  scansRelation _ := true
  classify _ seen := do
    match ← Script.call (.assign "places" false) with
    | .error err => pure (.error err, seen)
    | .ok _ =>
      Script.call (.setAttribute ⟨"named", if seen then .boolean true else .string "yes", 0⟩)
      pure (.ok (), true)

def places : Block :=
  [.node ⟨1, ⟨0, 0⟩, TextMap.ofList [("place", "town")]⟩, .node ⟨2, ⟨0, 10⟩, TextMap.ofList [("place", "city")]⟩]

def placesStore : ObjectStore := .withNodes ⟨true, true, 16, none, false⟩ (.compact .sixteen)

def placesCalls : List (Classifier Bool × PassCall) :=
  [(changing, .scan [] 2), (changing, .blocks [places]), (changing, .relations)]

def placesRun : Except ProcessingError Unit × Ingest Bool :=
  (ofStore placesStore .empty changing).performAll placesCalls

theorem metadata_describes_features_changing :
    ∃ i, placesRun = (.ok (), i) ∧ i.metadata.typeOf? "places" "named" = some .boolean ∧
      i.metadata.typeOf? "places" "height" = none ∧ "places" ∈ TextMap.keys i.metadata := by
  have hsplit : ∀ {ran : Except ProcessingError Unit × Ingest Bool}, ran.1.isOk = true → ran = (.ok (), ran.2) := by
    rintro ⟨result, i⟩ hisOk
    cases result with
    | error err => cases hisOk
    | ok done => rfl
  have hrun : placesRun = (.ok (), placesRun.2) := hsplit (by decide +kernel)
  obtain ⟨htypes, -, hlisted⟩ := metadata_describes_features placesStore .empty changing placesCalls hrun
  refine ⟨placesRun.2, hrun, ?_, ?_, ?_⟩
  · rw [htypes]
    decide +kernel
  · rw [htypes]
    decide +kernel
  · have hfeature : ∃ f ∈ placesRun.2.features.toList, f.layer = "places" ∧ f.attributes ≠ [] := by decide +kernel
    rw [hlisted]
    simpa only [Array.mem_toList_iff] using hfeature

end Ingest
end MapFeatures
