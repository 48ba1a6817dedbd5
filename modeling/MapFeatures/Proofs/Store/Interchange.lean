import MapFeatures.Proofs.Store.LastWrite
import MapFeatures.Proofs.Store.Repair
/-!
# Interchange — a flat file answers as a hash map does

A flat file `Mirrors` a hash map if both have the same locations and the same number of them.  A batch of nodes that fit
keeps it so (`Mirrors.foldl`), since a write shows at its own id only; by `answers_eq`, so does a run of calls.  So
whatever capacity a flat file could be made for, it answers as a hash map does, and so do the stores of all elements over
the two (`compact_answers_as_hashed`).
-/
namespace MapFeatures

/-! ## Runs -/

section

variable {σ τ Call Reply : Type}

/-- The replies to some calls, each made of the state that the ones before it left. -/
def answers (step : σ → Call → Reply × σ) : σ → List Call → List Reply
  | _, [] => []
  | s, c :: calls => (step s c).1 :: answers step (step s c).2 calls

/-- The state that some calls leave. -/
def stateAfter (step : σ → Call → Reply × σ) (s : σ) (calls : List Call) : σ := calls.foldl (fun s c => (step s c).2) s

theorem stateAfter_append (step : σ → Call → Reply × σ) (s : σ) (first later : List Call) :
    stateAfter step s (first ++ later) = stateAfter step (stateAfter step s first) later := List.foldl_append

/-- **Two states that reply alike to allowed calls, and stay related under them, reply alike to a run.** -/
theorem answers_eq {step : σ → Call → Reply × σ} {step' : τ → Call → Reply × τ} {Related : σ → τ → Prop}
    {Allowed : Call → Prop}
    (h : ∀ s t c, Related s t → Allowed c → (step s c).1 = (step' t c).1 ∧ Related (step s c).2 (step' t c).2) :
    ∀ (calls : List Call) {s : σ} {t : τ}, Related s t → (∀ c ∈ calls, Allowed c) →
      answers step s calls = answers step' t calls
  | [], _, _, _, _ => rfl
  | c :: calls, s, t, hrelated, hallowed => by
    obtain ⟨hreply, hnext⟩ := h s t c hrelated (hallowed c List.mem_cons_self)
    rw [answers, answers, hreply, answers_eq h calls hnext fun c' hc => hallowed c' (List.mem_cons_of_mem c hc)]

/-- The outcome of a change, and the state after it; a change that fails leaves the state as it is. -/
def attempt (s : σ) : Except StoreError σ → Except StoreError Unit × σ
  | .ok s' => (.ok (), s')
  | .error e => (.error e, s)

end

/-! ## Calls of node stores -/

inductive NodeCall
  | insert (batch : List (NodeId × Location))
  | at_ (id : NodeId)
  | size
  | isEmpty
  | clear

inductive NodeReply
  | done (result : Except StoreError Unit)
  | location (found : Option Location)
  | size (count : Nat)
  | isEmpty (empty : Bool)

/-- Whether ids are below the capacity, and no longitude is the one that stands for nothing. -/
def Fit (capacity : UInt64) (batch : List (NodeId × Location)) : Prop :=
  ∀ node ∈ batch, 0 ≤ node.1 ∧ node.1 < capacity.toNat ∧ node.2.lon ≠ Int32.minValue

def NodeCall.Fits (capacity : UInt64) : NodeCall → Prop
  | .insert batch => Fit capacity batch
  | _ => True

def NodeStore.reply (s : NodeStore) : NodeCall → NodeReply × NodeStore
  | .insert batch => (attempt s (s.insert batch)).map .done id
  | .at_ id => (.location (s.at? id), s)
  | .size => (.size s.size, s)
  | .isEmpty => (.isEmpty s.isEmpty, s)
  | .clear => (attempt s s.clear).map .done id

/-! ## The same locations -/

/-- Whether a flat file and a hash map have the same locations, and the same number of them. -/
structure Mirrors (nodes : CompactNodes) (locations : Std.HashMap NodeId Location) : Prop where
  at_ : ∀ id, nodes.at? id = locations[id]?
  count : nodes.count = locations.size

namespace CompactNodes

theorem freshFile_eq_ok {o : Overflow} {capacity : UInt64} {file : SparseFile} (h : freshFile o capacity = .ok file) :
    ∃ length, file = SparseFile.ofLength length := by
  unfold freshFile at h
  split at h
  · cases h
  · split at h
    · cases h
    · cases h
      exact ⟨_, rfl⟩

/-- **What a store is made with**: the capacity, and a file of zeros. -/
theorem fresh_eq_ok {capacity : UInt64} {nodes : CompactNodes} (h : fresh capacity = .ok nodes) :
    nodes.capacity = capacity ∧ nodes.count = 0 ∧ ∃ length, nodes.file = SparseFile.ofLength length := by
  unfold fresh at h
  split at h
  · cases h
  · next file hfile =>
    cases h
    exact ⟨rfl, rfl, freshFile_eq_ok hfile⟩

theorem read_ofLength {length : UInt64} {offset : Nat} (h : (SparseFile.ofLength length).Has offset Slot.size) :
    (SparseFile.ofLength length).read offset Slot.size h = [0, 0, 0, 0, 0, 0, 0, 0] := by
  have hbyte : (SparseFile.ofLength length).byteAt = fun _ => 0 := by
    funext place
    exact Std.HashMap.getD_empty
  rw [SparseFile.read, hbyte, List.map_const', List.length_range']
  rfl

theorem at?_of_zeros {nodes : CompactNodes} {length : UInt64} (h : nodes.file = SparseFile.ofLength length)
    (id : NodeId) : nodes.at? id = none := by
  have hzeros : Slot.decode? [0, 0, 0, 0, 0, 0, 0, 0] = none := by decide
  cases hid : nodes.offset? id with
  | none => exact at?_eq_none hid
  | some offset =>
    have hread : ∀ hslot, nodes.file.read offset.toNat Slot.size hslot = [0, 0, 0, 0, 0, 0, 0, 0] := by
      rw [h]
      exact read_ofLength
    rw [at?_of_offset? hid, hread, hzeros]

theorem mirrors_of_fresh {capacity : UInt64} {nodes : CompactNodes} (h : fresh capacity = .ok nodes) :
    Mirrors nodes ∅ := by
  obtain ⟨-, hcount, length, hfile⟩ := fresh_eq_ok h
  exact ⟨fun id => by rw [at?_of_zeros hfile, Std.HashMap.getElem?_empty], by rw [hcount, Std.HashMap.size_empty]⟩

end CompactNodes

variable {nodes : CompactNodes} {locations : Std.HashMap NodeId Location}

/-- **A node that is taken, written on both sides, keeps them alike**, since it shows at its own id only. -/
theorem Mirrors.put (h : Mirrors nodes locations) {node : NodeId × Location} (htakes : nodes.Takes node) :
    Mirrors (nodes.put node) (locations.insert node.1 node.2) where
  at_ id := by
    rw [CompactNodes.at?_put htakes, Std.HashMap.getElem?_insert, h.at_]
    simp only [beq_iff_eq]
  count := by
    rw [CompactNodes.count_put htakes.1, h.at_, h.count, Std.HashMap.size_insert]
    by_cases hmem : node.1 ∈ locations
    · rw [if_pos hmem, Std.HashMap.getElem?_eq_some_getElem hmem]
      rfl
    · rw [if_neg hmem, Std.HashMap.getElem?_eq_none hmem]
      rfl

/-- **So does a batch of such nodes.** -/
theorem Mirrors.foldl : ∀ {batch : List (NodeId × Location)} {nodes : CompactNodes}
    {locations : Std.HashMap NodeId Location}, Mirrors nodes locations → (∀ node ∈ batch, nodes.Takes node) →
    Mirrors (batch.foldl CompactNodes.put nodes) (batch.foldl (fun m node => m.insert node.1 node.2) locations)
  | [], _, _, h, _ => h
  | node :: batch, nodes, _, h, hbatch => by
    rw [List.foldl_cons, List.foldl_cons]
    refine (h.put (hbatch node List.mem_cons_self)).foldl fun n hn => ?_
    exact (CompactNodes.takes_put nodes node n).2 (hbatch n (List.mem_cons_of_mem node hn))

/-! ## Node stores that answer alike -/

/-- A flat file of some capacity and a hash map with the same locations. -/
inductive Interchangeable (capacity : UInt64) : NodeStore → NodeStore → Prop
  | of_mirrors {nodes : CompactNodes} {locations : Std.HashMap NodeId Location}
      (hcapacity : nodes.capacity = capacity) (h : Mirrors nodes locations) :
      Interchangeable capacity (.compact nodes) (.hashed locations)

namespace Interchangeable

variable {capacity : UInt64} {s t : NodeStore}

theorem at?_eq (h : Interchangeable capacity s t) : s.at? = t.at? := by
  obtain ⟨-, h⟩ := h
  exact funext h.at_

theorem size_eq (h : Interchangeable capacity s t) : s.size = t.size := by
  obtain ⟨-, h⟩ := h
  exact h.count

/-- **A batch that fits is taken by both**, and leaves them alike. -/
theorem insert (h : Interchangeable capacity s t) {batch : List (NodeId × Location)} (hfit : Fit capacity batch) :
    ∃ s' t', s.insert batch = .ok s' ∧ t.insert batch = .ok t' ∧ Interchangeable capacity s' t' := by
  obtain ⟨rfl, h⟩ := h
  rename_i nodes locations
  have htakes : ∀ node ∈ batch, nodes.Takes node := fun node hnode =>
    ⟨⟨(hfit node hnode).1, (hfit node hnode).2.1⟩, (hfit node hnode).2.2⟩
  refine ⟨.compact (batch.foldl CompactNodes.put nodes), _, ?_, rfl,
    .of_mirrors (CompactNodes.capacity_foldl_put batch nodes) (h.foldl htakes)⟩
  rw [NodeStore.insert, CompactNodes.insert_eq_of_takes htakes]
  rfl

/-- **Both are cleared**, since a store of this capacity could be made before. -/
theorem clear (h : Interchangeable capacity s t) {nodes : CompactNodes} (hfresh : CompactNodes.fresh capacity = .ok nodes) :
    ∃ s' t', s.clear = .ok s' ∧ t.clear = .ok t' ∧ Interchangeable capacity s' t' := by
  obtain ⟨rfl, -⟩ := h
  refine ⟨.compact nodes, _, ?_, rfl, .of_mirrors (CompactNodes.fresh_eq_ok hfresh).1 (CompactNodes.mirrors_of_fresh hfresh)⟩
  rw [NodeStore.clear, CompactNodes.clear, hfresh]
  rfl

end Interchangeable

/-- What a call replies to two stores, and what becomes of them. -/
theorem NodeStore.reply_eq {capacity : UInt64} {nodes : CompactNodes} (hfresh : CompactNodes.fresh capacity = .ok nodes)
    (s t : NodeStore) (c : NodeCall) (h : Interchangeable capacity s t) (hfits : c.Fits capacity) :
    (s.reply c).1 = (t.reply c).1 ∧ Interchangeable capacity (s.reply c).2 (t.reply c).2 := by
  cases c with
  | insert batch =>
    obtain ⟨s', t', hs, ht, h'⟩ := h.insert hfits
    rw [reply, reply, hs, ht]
    exact ⟨rfl, h'⟩
  | at_ id =>
    rw [reply, reply, h.at?_eq]
    exact ⟨rfl, h⟩
  | size =>
    rw [reply, reply, h.size_eq]
    exact ⟨rfl, h⟩
  | isEmpty =>
    rw [reply, reply, isEmpty, isEmpty, h.size_eq]
    exact ⟨rfl, h⟩
  | clear =>
    obtain ⟨s', t', hs, ht, h'⟩ := h.clear hfresh
    rw [reply, reply, hs, ht]
    exact ⟨rfl, h'⟩

/-! ## Object stores that answer alike -/

inductive ObjectCall
  | insertNodes (batch : List (NodeId × Location))
  | insertWays (batch : List (WayId × List NodeId))
  | clear
  | countNodes
  | pointFor (id : NodeId)
  | shape (request : ShapeRequest)

inductive ObjectReply
  | done (result : Except StoreError Unit)
  | count (nodes : Nat)
  | point (result : Except StoreError Location)
  | shape (result : Except StoreError Shape)

def ObjectCall.Fits (capacity : UInt64) : ObjectCall → Prop
  | .insertNodes batch => Fit capacity batch
  | _ => True

def ObjectStore.reply (s : ObjectStore) : ObjectCall → ObjectReply × ObjectStore
  | .insertNodes batch => (attempt s (s.insertNodes batch)).map .done id
  | .insertWays batch => (.done (.ok ()), s.insertWays batch)
  | .clear => (attempt s s.clear).map .done id
  | .countNodes => (.count s.nodes.size, s)
  | .pointFor id => (.point (s.pointFor id), s)
  | .shape request => (.shape (s.shape request), s)

/-- Stores that differ at most in where their nodes are. -/
structure ObjectStore.Alike (capacity : UInt64) (s t : ObjectStore) : Prop where
  nodes : Interchangeable capacity s.nodes t.nodes
  ways : s.ways = t.ways
  strict : s.config.enforceIntegrity = t.config.enforceIntegrity

namespace ObjectStore

theorem shape_congr {s t : ObjectStore} (hnodes : s.nodes.at? = t.nodes.at?) (hways : s.ways = t.ways)
    (hstrict : s.config.enforceIntegrity = t.config.enforceIntegrity) (request : ShapeRequest) :
    s.shape request = t.shape request := by
  have hfound : s.found = t.found := by
    funext ids
    rw [found, hnodes, found]
  have hfoundWays : s.foundWays = t.foundWays := by
    funext ids
    rw [foundWays, hways, hfound, foundWays]
  have hrings : s.foundRings = t.foundRings := by
    funext ids
    rw [foundRings, hfoundWays, foundRings]
  have hmissingNode : s.missingNode? = t.missingNode? := by
    funext ids
    rw [missingNode?, hnodes, missingNode?]
  have hmissing : s.missingAmong? = t.missingAmong? := by
    have hway : s.missingIn? = t.missingIn? := by
      funext id
      rw [missingIn?, hways, hmissingNode, missingIn?]
    funext ids
    rw [missingAmong?, hway, missingAmong?]
  rw [shape_eq, shape_eq, enforced, enforced, hstrict]
  cases request with
  | locations nodes => rw [foundShape, foundShape, missingOf?, missingOf?, hfound, hmissingNode]
  | line nodes => rw [foundShape, foundShape, missingOf?, missingOf?, hfound, hmissingNode]
  | polygon nodes => rw [foundShape, foundShape, missingOf?, missingOf?, hfound, hmissingNode]
  | multiPolygon outer inner =>
    rw [foundShape, foundShape, missingOf?, missingOf?, foundArea, foundArea, consulted, consulted, hrings, hmissing]
  | lines ways => rw [foundShape, foundShape, foundLines, foundLines, missingOf?, missingOf?, hfoundWays, hmissing]

/-- What a call replies to two stores, and what becomes of them. -/
theorem reply_eq {capacity : UInt64} {nodes : CompactNodes} (hfresh : CompactNodes.fresh capacity = .ok nodes)
    (s t : ObjectStore) (c : ObjectCall) (h : Alike capacity s t) (hfits : c.Fits capacity) :
    (s.reply c).1 = (t.reply c).1 ∧ Alike capacity (s.reply c).2 (t.reply c).2 := by
  cases c with
  | insertNodes batch =>
    obtain ⟨s', t', hs, ht, h'⟩ := h.nodes.insert hfits
    rw [reply, reply, insertNodes, insertNodes, hs, ht]
    exact ⟨rfl, h', h.ways, h.strict⟩
  | insertWays batch =>
    refine ⟨rfl, h.nodes, ?_, h.strict⟩
    exact congrArg (·.insert batch) h.ways
  | clear =>
    obtain ⟨s', t', hs, ht, h'⟩ := h.nodes.clear hfresh
    rw [reply, reply, clear, clear, hs, ht]
    exact ⟨rfl, h', rfl, h.strict⟩
  | countNodes =>
    rw [reply, reply, h.nodes.size_eq]
    exact ⟨rfl, h⟩
  | pointFor id =>
    rw [reply, reply, pointFor, h.nodes.at?_eq, pointFor]
    exact ⟨rfl, h⟩
  | shape request =>
    rw [reply, reply, shape_congr h.nodes.at?_eq h.ways h.strict]
    exact ⟨rfl, h⟩

end ObjectStore

/-! ## Flat files as they are made -/

theorem CompactNodes.fresh_of_create {requested : UInt64} {nodes : CompactNodes} (h : create requested = .ok nodes) :
    fresh nodes.capacity = .ok nodes := by
  rwa [(fresh_eq_ok h).1]

/-- **A flat file answers as a hash map does**, whatever capacity it could be made for: to all calls that insert nodes
within the capacity, none of them with the longitude that stands for nothing.  So do stores of all elements over them. -/
theorem compact_answers_as_hashed {requested : UInt64} {nodes : CompactNodes}
    (hcreate : CompactNodes.create requested = .ok nodes) :
    (∀ calls : List NodeCall, (∀ c ∈ calls, c.Fits nodes.capacity) →
      answers NodeStore.reply (.compact nodes) calls = answers NodeStore.reply .empty calls) ∧
    ∀ config : StoreConfig, config.compactNodeCapacity = requested →
      ∃ s t, ObjectStore.create { config with compactStorage := true } = .ok s ∧
        ObjectStore.create { config with compactStorage := false } = .ok t ∧
        ∀ calls : List ObjectCall, (∀ c ∈ calls, c.Fits nodes.capacity) →
          answers ObjectStore.reply s calls = answers ObjectStore.reply t calls := by
  have hfresh := CompactNodes.fresh_of_create hcreate
  have hempty : Interchangeable nodes.capacity (.compact nodes) .empty :=
    .of_mirrors rfl (CompactNodes.mirrors_of_fresh hfresh)
  refine ⟨fun calls hfits => answers_eq (NodeStore.reply_eq hfresh) calls hempty hfits, fun config hconfig => ?_⟩
  refine ⟨.withNodes { config with compactStorage := true } (.compact nodes),
    .withNodes { config with compactStorage := false } .empty, ?_, rfl, fun calls hfits => ?_⟩
  · rw [ObjectStore.create, if_pos rfl]
    dsimp only
    rw [hconfig, hcreate]
    rfl
  · exact answers_eq (ObjectStore.reply_eq hfresh) calls ⟨hempty, rfl, rfl⟩ hfits

/-- A node that is written twice in one batch, in a file for a thousand ids. -/
theorem compact_answers_as_hashed_thousand :
    ∃ nodes, CompactNodes.create 1000 = .ok nodes ∧
      answers NodeStore.reply (.compact nodes) [.insert [(7, ⟨1, 1⟩), (7, ⟨2, 2⟩)], .at_ 7, .size, .clear, .size] =
        answers NodeStore.reply .empty [.insert [(7, ⟨1, 1⟩), (7, ⟨2, 2⟩)], .at_ 7, .size, .clear, .size] := by
  have hcreate : CompactNodes.create 1000 = .ok ⟨1000, SparseFile.ofLength 8000, 0, by decide⟩ := rfl
  refine ⟨_, hcreate, (compact_answers_as_hashed hcreate).1 _ fun c hc => ?_⟩
  simp only [List.mem_cons, List.not_mem_nil, or_false] at hc
  obtain rfl | rfl | rfl | rfl | rfl := hc
  · intro node hnode
    simp only [List.mem_cons, List.not_mem_nil, or_false] at hnode
    obtain rfl | rfl := hnode
    · exact ⟨by decide, by decide, by decide⟩
    · exact ⟨by decide, by decide, by decide⟩
  · trivial
  · trivial
  · trivial
  · trivial

end MapFeatures
