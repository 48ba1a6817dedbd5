import MapFeatures.Proofs.Store.Interchange
/-!
# Reuse — a store that is cleared answers as a new one

A store that was cleared is a new one but for its way lists: they count as sorted and keep their room.  Neither shows in
a reply (`WayListStore.reply_same`), and no call brings out another difference (`ObjectStore.respond_same`).  The kind
and the capacity of the node store stay what they were through all calls (`ObjectStore.kept_after`), so that it can
always be cleared.
-/
namespace MapFeatures

/-! ## Calls of way lists -/

inductive WayListCall
  | append (batch : List WayLists)
  | sort
  | clear
  | reopen
  | find (relation : RelationId)
  | snapshot
  | size

inductive WayListReply
  | done
  | found (entry : Option WayLists)
  | entries (all : List WayLists)
  | size (count : Nat) (empty : Bool)

namespace WayListStore

def reply (s : WayListStore) : WayListCall → WayListReply × WayListStore
  | .append batch => (.done, s.append batch)
  | .sort => (.done, s.sort)
  | .clear => (.done, s.clear)
  | .reopen => (.done, .empty)
  | .find relation => (.found (s.find? relation), s)
  | .snapshot => (.entries s.toList, s)
  | .size => (.size s.size s.isEmpty, s)

/-- Whether two stores have the same entries, and both or neither count as sorted if there are any. -/
structure Same (s t : WayListStore) : Prop where
  entries : s.entries = t.entries
  sorted : s.sorted = t.sorted ∨ s.entries = #[]

variable {s t : WayListStore}

theorem same_clear (s : WayListStore) : empty.Same s.clear := ⟨rfl, .inr rfl⟩

theorem find?_of_entries_eq_empty (h : s.entries = #[]) (relation : RelationId) : s.find? relation = none := by
  unfold find?
  rw [h]
  split
  · rw [Array.getElem?_empty, Option.filter_none]
  · exact Array.find?_empty

theorem Same.find?_eq (h : s.Same t) (relation : RelationId) : s.find? relation = t.find? relation := by
  rcases h.sorted with hsorted | hempty
  · rw [find?, find?, h.entries, hsorted]
  · rw [find?_of_entries_eq_empty hempty, find?_of_entries_eq_empty (h.entries ▸ hempty)]

theorem Same.append (h : s.Same t) (batch : List WayLists) : (s.append batch).Same (t.append batch) := by
  unfold WayListStore.append
  split
  · exact h
  · exact ⟨by simp only [h.entries], .inl rfl⟩

theorem entries_sort_of_entries_eq_empty (h : s.entries = #[]) : s.sort.entries = #[] := by
  unfold WayListStore.sort
  split
  · exact h
  · rw [h, List.mergeSort_nil]

theorem Same.sort (h : s.Same t) : s.sort.Same t.sort := by
  rcases h.sorted with hsorted | hempty
  · refine ⟨?_, .inl ?_⟩
    · rw [WayListStore.sort, WayListStore.sort, hsorted, ← h.entries]
      split
      · exact h.entries
      · rfl
    · rw [WayListStore.sort, WayListStore.sort, hsorted]
      split
      · exact hsorted
      · rfl
  · have hs := entries_sort_of_entries_eq_empty hempty
    exact ⟨hs.trans (entries_sort_of_entries_eq_empty (h.entries ▸ hempty)).symm, .inr hs⟩

/-- **Way lists that are the same reply alike**, and stay the same. -/
theorem reply_same (h : s.Same t) (c : WayListCall) :
    (s.reply c).1 = (t.reply c).1 ∧ (s.reply c).2.Same (t.reply c).2 := by
  cases c with
  | append batch => exact ⟨rfl, h.append batch⟩
  | sort => exact ⟨rfl, h.sort⟩
  | clear => exact ⟨rfl, rfl, .inl rfl⟩
  | reopen => exact ⟨rfl, rfl, .inl rfl⟩
  | find relation => exact ⟨congrArg WayListReply.found (h.find?_eq relation), h⟩
  | snapshot => exact ⟨by rw [reply, reply, toList, toList, h.entries], h⟩
  | size => exact ⟨by rw [reply, reply, size, size, isEmpty, isEmpty, h.entries], h⟩

end WayListStore

/-! ## Calls of the set of used ways and of the index -/

inductive UsedWaysCall
  | reserve (nodes : Nat) (compact : Bool)
  | mark (way : WayId)
  | clear
  | contains (way : WayId)
  | count

inductive UsedWaysReply
  | done
  | contains (found : Bool)
  | count (ways : Nat)

def UsedWays.reply (s : UsedWays) : UsedWaysCall → UsedWaysReply × UsedWays
  | .reserve nodes compact => (.done, s.reserve nodes compact)
  | .mark way => (.done, s.mark way)
  | .clear => (.done, .empty)
  | .contains way => (.contains (s.contains way), s)
  | .count => (.count s.count, s)

inductive IndexCall
  | recordContainment (relation : RelationId) (way : WayId)
  | storeTags (relation : RelationId) (tags : Tags)
  | clear
  | containsWay (way : WayId)
  | relationsFor (way : WayId)
  | tagsFor (relation : RelationId)
  | tagValue (relation : RelationId) (key : String)
  | counts

inductive IndexReply
  | done
  | containsWay (found : Bool)
  | relations (ids : List RelationId)
  | tags (found : Option Tags)
  | value (text : String)
  | counts (ways relations : Nat)

def RelationIndex.reply (i : RelationIndex) : IndexCall → IndexReply × RelationIndex
  | .recordContainment relation way => (.done, i.recordContainment relation way)
  | .storeTags relation tags => (.done, i.storeTags relation tags)
  | .clear => (.done, .empty)
  | .containsWay way => (.containsWay (i.containsWay way), i)
  | .relationsFor way => (.relations (i.relationsFor way), i)
  | .tagsFor relation => (.tags (i.tagsFor? relation), i)
  | .tagValue relation key => (.value (i.tagValue relation key), i)
  | .counts => (.counts i.wayCount i.relationCount, i)

/-! ## Calls of a whole store -/

/-- All that a store and its parts can be asked or told, but not how much memory they take. -/
inductive StoreCall
  | objects (call : ObjectCall)
  | nodesFor (way : WayId)
  | countWays
  | reserveUsedWays (estimate : Nat)
  | usedWays (call : UsedWaysCall)
  | index (call : IndexCall)
  | wayLists (call : WayListCall)
  | drawRelationWay

inductive StoreReply
  | objects (reply : ObjectReply)
  | nodes (result : Except StoreError (List NodeId))
  | ways (count : Nat)
  | done
  | usedWays (reply : UsedWaysReply)
  | index (reply : IndexReply)
  | wayLists (reply : WayListReply)
  | relationWay (id : WayId)

namespace ObjectStore

def respond (s : ObjectStore) : StoreCall → StoreReply × ObjectStore
  | .objects call => (s.reply call).map .objects id
  | .nodesFor way => (.nodes (s.nodesFor way), s)
  | .countWays => (.ways s.ways.size, s)
  | .reserveUsedWays estimate => (.done, s.reserveUsedWays estimate)
  | .usedWays call => (s.usedWays.reply call).map .usedWays fun usedWays => { s with usedWays }
  | .index call => (s.index.reply call).map .index fun index => { s with index }
  | .wayLists call => (s.wayLists.reply call).map .wayLists fun wayLists => { s with wayLists }
  | .drawRelationWay => s.drawRelationWay.map .relationWay id

/-- The store after some calls. -/
def afterCalls (s : ObjectStore) (calls : List StoreCall) : ObjectStore := calls.foldl (fun s c => (s.respond c).2) s

/-- Whether two stores differ in their way lists only, and these are the same. -/
inductive Same (s : ObjectStore) : ObjectStore → Prop
  | of_wayLists (wayLists : WayListStore) (h : s.wayLists.Same wayLists) : Same s { s with wayLists }

theorem reply_same {s t : ObjectStore} (h : s.Same t) (c : ObjectCall) :
    (s.reply c).1 = (t.reply c).1 ∧ (s.reply c).2.Same (t.reply c).2 := by
  obtain ⟨wayLists, h⟩ := h
  have hsame : s.Same { s with wayLists } := .of_wayLists wayLists h
  cases c with
  | insertNodes batch =>
    simp only [reply, insertNodes]
    cases s.nodes.insert batch with
    | error err => exact ⟨rfl, hsame⟩
    | ok nodes => exact ⟨rfl, .of_wayLists wayLists h⟩
  | insertWays batch => exact ⟨rfl, .of_wayLists wayLists h⟩
  | clear =>
    simp only [reply, clear]
    cases s.nodes.clear with
    | error err => exact ⟨rfl, hsame⟩
    | ok nodes => exact ⟨rfl, .of_wayLists wayLists.clear ⟨rfl, .inl rfl⟩⟩
  | countNodes => exact ⟨rfl, hsame⟩
  | pointFor id => exact ⟨rfl, hsame⟩
  | shape request =>
    have hshape := @shape_congr s { s with wayLists } rfl rfl rfl request
    exact ⟨congrArg ObjectReply.shape hshape, hsame⟩

/-- **Stores that are the same reply alike**, and stay the same. -/
theorem respond_same {s t : ObjectStore} (h : s.Same t) (c : StoreCall) :
    (s.respond c).1 = (t.respond c).1 ∧ (s.respond c).2.Same (t.respond c).2 := by
  cases c with
  | objects call => exact (reply_same h call).imp_left (congrArg StoreReply.objects)
  | wayLists call =>
    obtain ⟨wayLists, h⟩ := h
    obtain ⟨hreply, hnext⟩ := WayListStore.reply_same h call
    exact ⟨congrArg StoreReply.wayLists hreply, .of_wayLists _ hnext⟩
  | _ =>
    obtain ⟨wayLists, h⟩ := h
    exact ⟨rfl, .of_wayLists wayLists h⟩

theorem answers_same {s t : ObjectStore} (h : s.Same t) (calls : List StoreCall) :
    answers respond s calls = answers respond t calls :=
  answers_eq (fun s t c (h : s.Same t) (_ : True) => respond_same h c) calls h fun _ _ => trivial

end ObjectStore

/-! ## What no call changes -/

namespace NodeStore

variable {s t : NodeStore}

theorem capacity?_clear (h : s.clear = .ok t) : t.capacity? = s.capacity? := by
  cases s with
  | hashed locations => cases h; rfl
  | compact nodes =>
    obtain ⟨nodes', hnodes, rfl⟩ := map_eq_ok h
    exact congrArg some (CompactNodes.fresh_eq_ok hnodes).1

/-- What is left after clearing depends on the kind and the capacity only. -/
theorem clear_congr (h : s.capacity? = t.capacity?) : s.clear = t.clear := by
  match s, t, h with
  | .hashed _, .hashed _, _ => rfl
  | .compact nodes, .compact nodes', h =>
    have hcapacity : nodes.capacity = nodes'.capacity := Option.some.inj h
    rw [clear, clear, CompactNodes.clear, CompactNodes.clear, hcapacity]

end NodeStore

namespace ObjectStore

/-- Whether two stores have the same settings and node stores of the same kind and capacity. -/
structure Kept (s t : ObjectStore) : Prop where
  config : t.config = s.config
  capacity : t.nodes.capacity? = s.nodes.capacity?

theorem kept_reply (s : ObjectStore) (c : ObjectCall) : s.Kept (s.reply c).2 := by
  cases c with
  | insertNodes batch =>
    simp only [reply, insertNodes]
    cases hinsert : s.nodes.insert batch with
    | error err => exact ⟨rfl, rfl⟩
    | ok nodes => exact ⟨rfl, NodeStore.capacity?_insert hinsert⟩
  | clear =>
    simp only [reply, clear]
    cases hclear : s.nodes.clear with
    | error err => exact ⟨rfl, rfl⟩
    | ok nodes => exact ⟨rfl, NodeStore.capacity?_clear hclear⟩
  | _ => exact ⟨rfl, rfl⟩

theorem kept_respond (s : ObjectStore) (c : StoreCall) : s.Kept (s.respond c).2 := by
  cases c with
  | objects call => exact s.kept_reply call
  | _ => exact ⟨rfl, rfl⟩

/-- **Through all calls a store keeps** its settings, and its node store the kind and the capacity. -/
theorem kept_after : ∀ (calls : List StoreCall) (s : ObjectStore), s.Kept (s.afterCalls calls)
  | [], _ => ⟨rfl, rfl⟩
  | c :: calls, s => by
    have hfirst := s.kept_respond c
    have hrest := kept_after calls (s.respond c).2
    exact ⟨hrest.config.trans hfirst.config, hrest.capacity.trans hfirst.capacity⟩

/-- A new store is what clearing its nodes leaves. -/
theorem clear_nodes_of_create {config : StoreConfig} {s : ObjectStore} (h : create config = .ok s) :
    s = withNodes config s.nodes ∧ s.nodes.clear = .ok s.nodes := by
  unfold create at h
  split at h
  · obtain ⟨nodes, hnodes, rfl⟩ := map_eq_ok h
    refine ⟨rfl, ?_⟩
    simp only [withNodes, NodeStore.clear, CompactNodes.clear, CompactNodes.fresh_of_create hnodes]
    rfl
  · cases h
    exact ⟨rfl, rfl⟩

/-- **A store that is cleared is as good as new**: whatever it was asked and told before, it can be cleared, and from
then on it replies to all calls as a new one with its settings. -/
theorem cleared_answers_as_new {config : StoreConfig} {s : ObjectStore} (hcreate : create config = .ok s)
    (history : List StoreCall) :
    ∃ t, (s.afterCalls history).clear = .ok t ∧
      ∀ calls : List StoreCall, answers respond t calls = answers respond s calls := by
  obtain ⟨hnew, hnodes⟩ := clear_nodes_of_create hcreate
  have hkept := kept_after history s
  have hclear : (s.afterCalls history).nodes.clear = .ok s.nodes := by
    rw [NodeStore.clear_congr hkept.capacity, hnodes]
  have hconfig : (s.afterCalls history).config = config := by
    rw [hkept.config, hnew]
    rfl
  refine ⟨{ withNodes config s.nodes with wayLists := (s.afterCalls history).wayLists.clear }, ?_, fun calls => ?_⟩
  · rw [clear, hclear, hconfig]
    rfl
  · conv => rhs; rw [hnew]
    exact (answers_same (.of_wayLists _ (WayListStore.same_clear _)) calls).symm

theorem cleared_answers_as_new_thousand :
    let config := { StoreConfig.default with compactStorage := true, compactNodeCapacity := 1000 }
    let s := withNodes config (.compact ⟨1000, SparseFile.ofLength 8000, 0, by decide⟩)
    let history : List StoreCall := [.objects (.insertNodes [(7, ⟨1, 1⟩)]), .usedWays (.mark 3),
      .wayLists (.append [⟨5, [3], []⟩]), .wayLists .sort, .drawRelationWay]
    let calls : List StoreCall := [.wayLists (.find 5), .objects (.pointFor 7), .usedWays (.contains 3), .drawRelationWay,
      .wayLists (.append [⟨9, [], []⟩, ⟨2, [], []⟩]), .wayLists .snapshot, .wayLists (.find 9)]
    create config = .ok s ∧
      ∃ t, (s.afterCalls history).clear = .ok t ∧ answers respond t calls = answers respond s calls := by
  intro config s history calls
  have hnodes : CompactNodes.create 1000 = .ok ⟨1000, SparseFile.ofLength 8000, 0, by decide⟩ := rfl
  have hcreate : create config = .ok s := by
    rw [create, if_pos rfl]
    exact congrArg (Except.map fun nodes => withNodes config (.compact nodes)) hnodes
  obtain ⟨t, hclear, hanswers⟩ := cleared_answers_as_new hcreate history
  exact ⟨hcreate, t, hclear, hanswers calls⟩

end ObjectStore
end MapFeatures
