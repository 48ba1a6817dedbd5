import MapFeatures.Ingest.Batches
import MapFeatures.Proofs.Ingest.Passes
/-!
# Batches — the block pass, run again and again

Runs of the block pass do to the store what one run for all their blocks does (`batches_ends`), up to the first one that
fails (`batches_cases`).
-/
namespace MapFeatures

variable {σ : Type}

namespace Work

theorem nodeBatches_append (bs bs' : List Block) : nodeBatches (bs ++ bs') = nodeBatches bs ++ nodeBatches bs' := by
  rw [nodeBatches, nodeBatches, nodeBatches, List.map_append, List.filter_append, List.map_append]

theorem flatten_nodeBatches (bs : List Block) :
    (nodeBatches bs).flatten = Block.locations (bs.flatMap Block.nodes) := by
  have hmap : nodeBatches bs = ((bs.map Block.nodes).filter (!·.isEmpty)).map (List.map fun n => (n.id, n.at_)) := rfl
  rw [hmap, ← List.map_flatten, List.flatten_filter_not_isEmpty, ← List.flatMap_def]
  rfl

end Work

namespace Ingest

variable {c : Classifier σ} {env : Surroundings} {E : ProcessingError → Prop}

/-- What is stored of some blocks: all nodes, which the store has to take, and the marked ways. -/
def Stores (c : Classifier σ) (env : Surroundings) (nodes : NodeStore) (ways : WayStore) (bs : List Block)
    (i : Ingest σ) : Prop :=
  ∃ nodes', (Work.nodeBatches bs).foldlM NodeStore.insert nodes = .ok nodes' ∧
    i.At c (env.holding nodes'
      (ways.insert (Block.nodeLists (Work.marked env.store.usedWays (bs.flatMap Block.ways)))))

theorem Stores.append {nodes middle : NodeStore} {ways : WayStore} {bs bs' : List Block} {i : Ingest σ}
    (hmiddle : (Work.nodeBatches bs).foldlM NodeStore.insert nodes = .ok middle)
    (h : Stores c env middle
      (ways.insert (Block.nodeLists (Work.marked env.store.usedWays (bs.flatMap Block.ways)))) bs' i) :
    Stores c env nodes ways (bs ++ bs') i := by
  obtain ⟨nodes', hnodes, hi⟩ := h
  refine ⟨nodes', ?_, ?_⟩
  · rw [Work.nodeBatches_append, List.foldlM_append, hmiddle]
    exact hnodes
  · rw [List.flatMap_append, ← Work.insert_marked]
    exact hi

theorem blocks_ends {i : Ingest σ} {bs : List Block} {nodes : NodeStore} {ways : WayStore}
    (hi : i.At c (env.holding nodes ways))
    (hstorage : ∀ batch ∈ Work.nodeBatches bs, CoversRefusals E nodes.capacity? batch)
    (hnode : ∀ env (n : NodeRecord) err, Fails c env (.ofNode n.id n.at_ n.tags) err → E err)
    (hway : ∀ nodes' ways, (Work.nodeBatches bs).foldlM NodeStore.insert nodes = .ok nodes' →
      ∀ w ∈ bs.flatMap Block.ways, ∀ err, Fails c (env.holding nodes' ways) (.ofWay w.id w.nodes w.tags) err → E err) :
    (∃ counters i', i.blocks bs = (.ok counters, i') ∧ Stores c env nodes ways bs i') ∨
      ∃ err i', i.blocks bs = (.error err, i') ∧ E err := by
  have hends := run_ends .blocks hi (Work.ends_blocks hstorage hnode hway)
  refine hends.imp_left fun ⟨u, hrun, nodes', hnodes, hu⟩ => ⟨u.counters, u.ingest, hrun, nodes', hnodes, hu.ingest⟩

/-- **Runs of the block pass** store what one run for all their blocks would, unless one ends in an error. -/
theorem batches_ends (hnode : ∀ env (n : NodeRecord) err, Fails c env (.ofNode n.id n.at_ n.tags) err → E err) :
    ∀ {calls : List (List Block)} {i : Ingest σ} {nodes : NodeStore} {ways : WayStore},
      i.At c (env.holding nodes ways) →
      (∀ batch ∈ Work.nodeBatches calls.flatten, CoversRefusals E nodes.capacity? batch) →
      (∀ pre call post, calls = pre ++ call :: post → ∀ nodes' ways,
        (Work.nodeBatches (pre.flatten ++ call)).foldlM NodeStore.insert nodes = .ok nodes' →
        ∀ w ∈ call.flatMap Block.ways, ∀ err,
          Fails c (env.holding nodes' ways) (.ofWay w.id w.nodes w.tags) err → E err) →
      (∃ i', i.batches calls = (.ok (), i') ∧ Stores c env nodes ways calls.flatten i') ∨
        ∃ err i', i.batches calls = (.error err, i') ∧ E err
  | [], i, nodes, ways, hi, _, _ => Or.inl ⟨i, rfl, nodes, rfl, hi⟩
  | call :: calls, i, nodes, ways, hi, hstorage, hway => by
    rw [List.flatten_cons, Work.nodeBatches_append, List.forall_mem_append] at hstorage
    have hfirst := blocks_ends hi hstorage.1 hnode fun nodes' ways hnodes => hway [] call calls rfl nodes' ways hnodes
    rcases hfirst with ⟨counters, i', hrun, middle, hmiddle, hi'⟩ | ⟨err, i', hrun, herr⟩
    · have hlater : ∀ pre next post, calls = pre ++ next :: post → ∀ nodes' ways,
          (Work.nodeBatches (pre.flatten ++ next)).foldlM NodeStore.insert middle = .ok nodes' →
          ∀ w ∈ next.flatMap Block.ways, ∀ err,
            Fails c (env.holding nodes' ways) (.ofWay w.id w.nodes w.tags) err → E err := by
        intro pre next post hsplit nodes' ways hnodes
        refine hway (call :: pre) next post (by rw [hsplit]; rfl) nodes' ways ?_
        rw [List.flatten_cons, List.append_assoc, Work.nodeBatches_append, List.foldlM_append, hmiddle]
        exact hnodes
      rw [← NodeStore.capacity?_foldlM hmiddle] at hstorage
      have hrest := batches_ends hnode hi' hstorage.2 hlater
      rw [batches, hrun, List.flatten_cons]
      exact hrest.imp_left fun ⟨after, hafter, hstores⟩ => ⟨after, hafter, hstores.append hmiddle⟩
    · rw [batches, hrun]
      exact Or.inr ⟨err, i', rfl, herr⟩

theorem batches_cons_eq_ok {call : List Block} {calls : List (List Block)} {i after : Ingest σ}
    (h : i.batches (call :: calls) = (.ok (), after)) :
    ∃ counters middle, i.blocks call = (.ok counters, middle) ∧ middle.batches calls = (.ok (), after) := by
  rw [batches] at h
  match hfirst : i.blocks call with
  | (.error e, middle) =>
    rw [hfirst] at h
    cases h
  | (.ok counters, middle) =>
    rw [hfirst] at h
    exact ⟨counters, middle, rfl, h⟩

/-- **Calls one after the other** all succeed, or the first one that fails is the last one. -/
theorem batches_cases (calls : List (List Block)) (i : Ingest σ) :
    (∃ after, i.batches calls = (.ok (), after)) ∨
      ∃ pre call post middle e after, calls = pre ++ call :: post ∧ i.batches pre = (.ok (), middle) ∧
        middle.blocks call = (.error e, after) ∧ i.batches calls = (.error e, after) := by
  induction calls generalizing i with
  | nil => exact Or.inl ⟨i, rfl⟩
  | cons call calls ih =>
    rcases hfirst : i.blocks call with ⟨e | counters, i'⟩
    · exact Or.inr ⟨[], call, calls, i, e, i', rfl, rfl, hfirst, by rw [batches, hfirst]⟩
    · have hall : i.batches (call :: calls) = i'.batches calls := by rw [batches, hfirst]
      rw [hall]
      refine (ih i').imp_right ?_
      rintro ⟨pre, next, post, middle, e, after, rfl, hpre, hnext, hrest⟩
      refine ⟨call :: pre, next, post, middle, e, after, rfl, ?_, hnext, hrest⟩
      rw [batches, hfirst]
      exact hpre

theorem batches_append_eq_ok {later : List (List Block)} {after : Ingest σ} :
    ∀ {calls : List (List Block)} {i : Ingest σ}, i.batches (calls ++ later) = (.ok (), after) →
      ∃ middle, i.batches calls = (.ok (), middle) ∧ middle.batches later = (.ok (), after)
  | [], i, h => ⟨i, rfl, h⟩
  | call :: calls, i, h => by
    obtain ⟨counters, i', hfirst, hrest⟩ := batches_cons_eq_ok h
    obtain ⟨middle, hcalls, hlater⟩ := batches_append_eq_ok hrest
    refine ⟨middle, ?_, hlater⟩
    rw [batches, hfirst]
    exact hcalls

theorem blocks_of_not_scanned {i : Ingest σ} (h : i.scanned = false) (bs : List Block) :
    i.blocks bs = (.error (.passOrder .blocks), i) := by
  rw [blocks, run, h]
  rfl

theorem nil_of_batches {i after : Ingest σ} (hscanned : i.scanned = false) : ∀ {calls : List (List Block)},
    i.batches calls = (.ok (), after) → calls = [] ∧ after = i
  | [], h => ⟨rfl, (Prod.mk.inj h).2.symm⟩
  | call :: _, h => by
    obtain ⟨counters, middle, hfirst, -⟩ := batches_cons_eq_ok h
    rw [blocks_of_not_scanned hscanned] at hfirst
    cases hfirst

/-- **Runs that succeed** store what one run for all their blocks would. -/
theorem batches_eq_ok {calls : List (List Block)} {i after : Ingest σ} (hi : i.At c env)
    (hrun : i.batches calls = (.ok (), after)) :
    Stores c env env.store.nodes env.store.ways calls.flatten after := by
  have hends : (∃ i', i.batches calls = (.ok (), i') ∧ Stores c env env.store.nodes env.store.ways calls.flatten i') ∨
      ∃ err i', i.batches calls = (.error err, i') ∧ True :=
    batches_ends (fun _ _ _ _ => trivial) hi (fun _ _ _ _ _ _ => trivial) fun _ _ _ _ _ _ _ _ _ _ _ => trivial
  rcases hends with ⟨i', hok, hstores⟩ | ⟨err, i', herror, -⟩
  · rw [hrun] at hok
    cases hok
    exact hstores
  · rw [hrun] at herror
    cases herror

end Ingest
end MapFeatures
