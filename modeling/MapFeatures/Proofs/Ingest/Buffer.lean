import MapFeatures.Proofs.Ingest.Batches
import MapFeatures.Proofs.Ingest.RulePass
/-!
# Buffer — records that come one by one are handed on in full batches

What a buffer holds, together with what is still to come, makes the calls that are still to be made (`BlockBuffer.calls`);
a record that is taken leaves them as they are (`rest_push`), and no call is made after an error.  So feeding records is a
matter of the batches that they make (`Ingest.feed_eq`).
-/
namespace MapFeatures

/-! ## Pieces -/

namespace Batches

variable {α : Type}

@[simp] theorem pieces_nil (length : Nat) : pieces length ([] : List α) = [] := by
  rw [pieces]

theorem pieces_append {length : Nat} (hpos : 0 < length) {first : List α} (h : first.length = length) (rest : List α) :
    pieces length (first ++ rest) = first :: pieces length rest := by
  cases first with
  | nil => exact absurd h (Nat.ne_of_lt hpos)
  | cons x first =>
    have hlength : first.length = length - 1 := by rw [← h]; rfl
    rw [List.cons_append, pieces, ← hlength, List.take_left, List.drop_left]

theorem pieces_of_length_le {length : Nat} {xs : List α} (hne : xs ≠ []) (h : xs.length ≤ length) :
    pieces length xs = [xs] := by
  cases xs with
  | nil => exact absurd rfl hne
  | cons x xs =>
    have hle : xs.length ≤ length - 1 := Nat.le_sub_one_of_lt h
    rw [pieces, List.take_of_length_le hle, List.drop_of_length_le hle, pieces_nil]

theorem flatten_pieces (length : Nat) (xs : List α) : (pieces length xs).flatten = xs := by
  fun_induction pieces length xs with
  | case1 => rfl
  | case2 x xs ih => rw [List.flatten_cons, ih, List.cons_append, List.take_append_drop]

/-- **A piece has at least one element and at most as many as it has room for.** -/
theorem length_of_mem_pieces {length : Nat} (hpos : 0 < length) (xs : List α) :
    ∀ piece ∈ pieces length xs, 1 ≤ piece.length ∧ piece.length ≤ length := by
  fun_induction pieces length xs with
  | case1 => exact fun _ h => absurd h List.not_mem_nil
  | case2 x xs ih =>
    refine List.forall_mem_cons.2 ⟨⟨Nat.succ_pos _, ?_⟩, ih⟩
    rw [List.length_cons, List.length_take]
    omega

end Batches

/-! ## The buffer -/

namespace BlockBuffer

open Batches (pieces filled)

variable {σ : Type}

theorem filled_nil : filled [] = [] := by
  rw [filled, Batches.pieces_nil, Batches.pieces_nil]

/-- Whether neither the block nor the batch is full. -/
structure HasRoom (b : BlockBuffer σ) : Prop where
  block : b.current.size < Block.capacity
  batch : b.batch.length < Batches.capacity

/-- The calls for what a buffer holds and some more records. -/
def held (b : BlockBuffer σ) (rs : List Record) : List (List Block) :=
  pieces Batches.capacity (b.batch ++ pieces Block.capacity (b.current.toList ++ rs))

/-- What some calls lead to, if there was no error before. -/
def rest (b : BlockBuffer σ) (calls : List (List Block)) : Except ProcessingError Unit × Ingest σ :=
  match b.error? with
  | some e => (.error e, b.ingest)
  | none => b.ingest.batches calls

variable {b : BlockBuffer σ}

theorem rest_of_error {e : ProcessingError} (h : b.error? = some e) (calls : List (List Block)) :
    b.rest calls = (.error e, b.ingest) := by
  rw [rest, h]

theorem closed_eq (hblock : b.current.size ≤ Block.capacity) : (if b.current.isEmpty then b else b.closeBlock) =
    { b with current := #[], batch := b.batch ++ pieces Block.capacity b.current.toList } := by
  by_cases hempty : b.current = #[]
  · obtain ⟨ingest, current, batch, sawWays, error?⟩ := b
    dsimp only at hempty
    subst hempty
    rw [Batches.pieces_nil, List.append_nil]
    rfl
  · have hne : b.current.toList ≠ [] := fun h => hempty (Array.toList_inj.1 h)
    rw [if_neg (mt Array.isEmpty_iff.1 hempty), Batches.pieces_of_length_le hne hblock]
    rfl

theorem flush_of_error {e : ProcessingError} (h : b.error? = some e) :
    b.flush.error? = some e ∧ b.flush.ingest = b.ingest := by
  unfold flush
  by_cases hempty : b.current.isEmpty = true
  · simp [hempty, h]
  · simp [hempty, h, closeBlock]

/-- **What is flushed is handed on** before all that comes later. -/
theorem rest_flush (herror : b.error? = none) (hblock : b.current.size ≤ Block.capacity)
    (hbatch : (b.batch ++ pieces Block.capacity b.current.toList).length ≤ Batches.capacity) :
    b.flush.current = #[] ∧ b.flush.batch = [] ∧ b.flush.sawWays = b.sawWays ∧
      ∀ later, b.rest (b.held [] ++ later) = b.flush.rest later := by
  unfold flush
  rw [closed_eq hblock, held, List.append_nil]
  generalize b.batch ++ pieces Block.capacity b.current.toList = closed at hbatch
  dsimp only
  rw [herror]
  by_cases hnone : closed = []
  · subst hnone
    refine ⟨rfl, rfl, rfl, fun later => ?_⟩
    rw [Batches.pieces_nil, List.nil_append, rest, herror]
    simp [rest]
  · have hcalls : pieces Batches.capacity closed = [closed] := Batches.pieces_of_length_le hnone hbatch
    have hhand : (closed.isEmpty || (none : Option ProcessingError).isSome) = false := by simpa using hnone
    rw [hcalls, hhand, if_neg Bool.false_ne_true]
    match hrun : b.ingest.blocks closed with
    | (.error e, i) =>
      refine ⟨rfl, rfl, rfl, fun later => ?_⟩
      rw [rest, herror, List.singleton_append]
      simp only [Ingest.batches, hrun, rest]
    | (.ok _, i) =>
      refine ⟨rfl, rfl, rfl, fun later => ?_⟩
      rw [rest, herror, List.singleton_append]
      simp only [Ingest.batches, hrun, rest]

theorem rest_flush_of_room (h : b.HasRoom) (herror : b.error? = none) :
    b.flush.current = #[] ∧ b.flush.batch = [] ∧ b.flush.sawWays = b.sawWays ∧
      ∀ later, b.rest (b.held [] ++ later) = b.flush.rest later := by
  refine rest_flush herror (Nat.le_of_lt h.block) ?_
  -- What is less than a block makes one piece at most, which a batch with room can take.
  have hbatch := h.batch
  have hone : (pieces Block.capacity b.current.toList).length ≤ 1 := by
    by_cases hne : b.current.toList = []
    · rw [hne, Batches.pieces_nil]
      exact Nat.zero_le 1
    · rw [Batches.pieces_of_length_le hne (Nat.le_of_lt h.block)]
      exact Nat.le_refl 1
  rw [List.length_append]
  omega

theorem held_of_empty (hcurrent : b.current = #[]) (hbatch : b.batch = []) (rs : List Record) :
    b.held rs = filled rs := by
  rw [held, hcurrent, hbatch]
  rfl

theorem hasRoom_of_empty (hcurrent : b.current = #[]) (hbatch : b.batch = []) : b.HasRoom where
  block := by
    rw [hcurrent]
    decide
  batch := by
    rw [hbatch]
    decide

theorem rest_flush_full (herror : b.error? = none) (hcurrent : b.current = #[])
    (hlength : b.batch.length = Batches.capacity) :
    b.flush.HasRoom ∧ b.flush.sawWays = b.sawWays ∧
      ∀ rs later, b.rest (b.held rs ++ later) = b.flush.rest (b.flush.held rs ++ later) := by
  have hnone : pieces Block.capacity b.current.toList = [] := by rw [hcurrent, Batches.pieces_nil]
  have hflushed : (b.batch ++ pieces Block.capacity b.current.toList).length ≤ Batches.capacity :=
    Nat.le_of_eq (by rw [hnone, List.append_nil, hlength])
  have hblock : b.current.size ≤ Block.capacity := by
    rw [hcurrent]
    exact Nat.zero_le _
  obtain ⟨hcurrent', hbatch', hsaw, hrest⟩ := rest_flush herror hblock hflushed
  refine ⟨hasRoom_of_empty hcurrent' hbatch', hsaw, fun rs later => ?_⟩
  have hfirst : b.held rs = b.held [] ++ filled rs := by
    have hpieces := fun later => Batches.pieces_append (by decide) hlength later
    rw [held, held, List.append_nil, hnone, hpieces, hpieces, Batches.pieces_nil, hcurrent]
    rfl
  rw [hfirst, List.append_assoc, held_of_empty hcurrent' hbatch', ← hrest]

/-- **One more record in the block** leaves the calls as they are. -/
theorem rest_fill (h : b.HasRoom) (herror : b.error? = none) (r : Record) :
    (b.fill r).HasRoom ∧ (b.fill r).sawWays = b.sawWays ∧
      ∀ rs later, b.rest (b.held (r :: rs) ++ later) = (b.fill r).rest ((b.fill r).held rs ++ later) := by
  have hsplit : ∀ rs, b.current.toList ++ r :: rs = (b.current.push r).toList ++ rs := by simp
  unfold fill
  by_cases hroom : (b.current.push r).size < Block.capacity
  · rw [if_pos hroom]
    refine ⟨⟨hroom, h.batch⟩, rfl, fun rs later => ?_⟩
    rw [held, hsplit]
    rfl
  · rw [if_neg hroom]
    have hfull : (b.current.push r).toList.length = Block.capacity := by
      have hblock := h.block
      rw [Array.size_push] at hroom
      rw [Array.length_toList, Array.size_push]
      omega
    let closed : BlockBuffer σ := closeBlock { b with current := b.current.push r }
    have hheld : ∀ rs, b.held (r :: rs) = closed.held rs := by
      intro rs
      rw [held, hsplit, Batches.pieces_append (by decide) hfull, List.append_cons]
      rfl
    have hlength : closed.batch.length = b.batch.length + 1 := List.length_append
    change (if closed.batch.length < Batches.capacity then closed else closed.flush).HasRoom ∧ _
    by_cases hmore : closed.batch.length < Batches.capacity
    · rw [if_pos hmore]
      refine ⟨⟨Nat.zero_lt_succ _, hmore⟩, rfl, fun rs later => ?_⟩
      rw [hheld]
      rfl
    · have hbatch := h.batch
      obtain ⟨hroom', hsaw, hrest⟩ := rest_flush_full (b := closed) herror rfl (by omega)
      rw [if_neg hmore]
      refine ⟨hroom', hsaw, fun rs later => ?_⟩
      rw [hheld, ← hrest]
      rfl

theorem fill_of_error {e : ProcessingError} (herror : b.error? = some e) (r : Record) :
    (b.fill r).error? = some e ∧ (b.fill r).ingest = b.ingest := by
  unfold fill
  dsimp only
  split
  · exact ⟨herror, rfl⟩
  · split
    · exact ⟨herror, rfl⟩
    · exact flush_of_error (b := closeBlock { b with current := b.current.push r }) herror

/-- **The calls** for what a buffer holds and some more records: what comes before the first way is handed on before it. -/
def calls (b : BlockBuffer σ) (rs : List Record) : List (List Block) :=
  if b.sawWays then b.held rs
  else
    let beforeWays := rs.takeWhile fun r => r.way?.isNone
    b.held beforeWays ++ filled (rs.drop beforeWays.length)

theorem rest_finish (h : b.error? = none → b.HasRoom) : b.finish = b.rest (b.calls []) := by
  have hfinish : b.finish = b.flush.rest [] := by
    unfold finish rest
    generalize b.flush = flushed
    cases herror : flushed.error? with
    | some e => simp only [herror]
    | none =>
      simp only [herror]
      rfl
  have hcalls : b.calls [] = b.held [] ++ [] := by
    unfold calls
    split
    · exact (List.append_nil _).symm
    · exact congrArg (b.held [] ++ ·) filled_nil
  rw [hfinish, hcalls]
  cases herror : b.error? with
  | some e =>
    obtain ⟨herror', hingest⟩ := flush_of_error herror
    rw [rest_of_error herror', rest_of_error herror, hingest]
  | none => exact ((rest_flush_of_room (h herror) herror).2.2.2 []).symm

theorem calls_of_sawWays (h : b.sawWays = true) (rs : List Record) : b.calls rs = b.held rs := if_pos h

theorem calls_of_not_sawWays (h : b.sawWays = false) (rs : List Record) :
    b.calls rs = b.held (rs.takeWhile fun r => r.way?.isNone) ++
      filled (rs.drop (rs.takeWhile fun r => r.way?.isNone).length) :=
  if_neg fun hsaw => Bool.false_ne_true (h.symm.trans hsaw)

theorem rest_first_way (h : b.HasRoom) (herror : b.error? = none) (hsaw : b.sawWays = false) {r : Record}
    (hway : r.way?.isNone = false) (rs : List Record) :
    let b' := (flush { b with sawWays := true }).fill r
    (b'.error? = none → b'.HasRoom) ∧ b.rest (b.calls (r :: rs)) = b'.rest (b'.calls rs) := by
  obtain ⟨hcurrent, hbatch, hsaw', hrest⟩ := rest_flush_of_room (b := { b with sawWays := true }) ⟨h.block, h.batch⟩ herror
  have hcalls : b.rest (b.calls (r :: rs)) = (flush { b with sawWays := true }).rest (filled (r :: rs)) := by
    rw [calls_of_not_sawWays hsaw, List.takeWhile_cons, if_neg (by rw [hway]; decide), ← hrest]
    rfl
  intro b'
  cases hflush : (flush { b with sawWays := true }).error? with
  | some e =>
    obtain ⟨herror', hingest⟩ := fill_of_error hflush r
    refine ⟨fun hnone => ?_, ?_⟩
    · rw [herror'] at hnone
      cases hnone
    · rw [hcalls, rest_of_error hflush, rest_of_error herror', hingest]
  | none =>
    -- The way comes into an empty buffer, which holds just what is still to come.
    obtain ⟨hroom, hsame, hfill⟩ := rest_fill (hasRoom_of_empty hcurrent hbatch) hflush r
    refine ⟨fun _ => hroom, ?_⟩
    have hrest' := hfill rs []
    rw [List.append_nil, List.append_nil] at hrest'
    rw [hcalls, ← held_of_empty hcurrent hbatch, hrest', calls_of_sawWays (hsame.trans hsaw')]

/-- **A record that is taken** leaves the calls as they are. -/
theorem rest_push (h : b.HasRoom) (herror : b.error? = none) (r : Record) (rs : List Record) :
    ((b.push r).error? = none → (b.push r).HasRoom) ∧
      b.rest (b.calls (r :: rs)) = (b.push r).rest ((b.push r).calls rs) := by
  have hpush : b.push r = if r.way?.isSome && !b.sawWays then (flush { b with sawWays := true }).fill r else b.fill r := by
    unfold push
    rw [herror]
    rfl
  obtain ⟨hroom, hsame, hfill⟩ := rest_fill h herror r
  rw [hpush]
  cases hsaw : b.sawWays with
  | true =>
    have hrest := hfill rs []
    rw [List.append_nil, List.append_nil] at hrest
    rw [Bool.not_true, Bool.and_false, if_neg Bool.false_ne_true, calls_of_sawWays hsaw,
      calls_of_sawWays (hsame.trans hsaw)]
    exact ⟨fun _ => hroom, hrest⟩
  | false =>
    cases hway : r.way?.isNone with
    | false =>
      have hsome : r.way?.isSome = true := by rw [← Option.not_isNone, hway]; rfl
      rw [hsome, if_pos (by decide)]
      exact rest_first_way h herror hsaw hway rs
    | true =>
      have hnone : r.way?.isSome = false := by rw [← Option.not_isNone, hway]; rfl
      rw [hnone, if_neg (by decide), calls_of_not_sawWays hsaw, calls_of_not_sawWays (hsame.trans hsaw),
        List.takeWhile_cons, if_pos hway]
      exact ⟨fun _ => hroom, hfill _ _⟩

theorem finish_foldl_push : ∀ (rs : List Record) {b : BlockBuffer σ}, (b.error? = none → b.HasRoom) →
    (rs.foldl push b).finish = b.rest (b.calls rs)
  | [], _, h => rest_finish h
  | r :: rs, b, h => by
    rw [List.foldl_cons]
    cases herror : b.error? with
    | some e =>
      -- After an error nothing is taken any more, and no call is made.
      have hpush : b.push r = b := by
        unfold push
        rw [herror]
        rfl
      rw [hpush, finish_foldl_push rs h, rest_of_error herror, rest_of_error herror]
    | none =>
      obtain ⟨hroom, hrest⟩ := rest_push (h herror) herror r rs
      rw [finish_foldl_push rs hroom, hrest]

end BlockBuffer

namespace Ingest

/-- **Feeding records one by one** makes the calls of their batches, up to the first error. -/
theorem feed_eq {σ : Type} (i : Ingest σ) (records : List Record) :
    i.feed records = i.batches (Batches.ofRecords records) := by
  have hroom : (BlockBuffer.ofIngest i).HasRoom := BlockBuffer.hasRoom_of_empty rfl rfl
  rw [feed, BlockBuffer.finish_foldl_push records fun _ => hroom]
  rfl

end Ingest

/-! ## The batches -/

namespace Batches

theorem flatten_filled (records : List Record) : (filled records).flatten.flatten = records := by
  rw [filled, flatten_pieces, flatten_pieces]

theorem sizes_of_mem_filled (records : List Record) : ∀ batch ∈ filled records,
    (1 ≤ batch.length ∧ batch.length ≤ capacity) ∧ ∀ block ∈ batch, 1 ≤ block.length ∧ block.length ≤ Block.capacity := by
  intro batch hbatch
  refine ⟨length_of_mem_pieces (by decide) _ batch hbatch, fun block hblock => ?_⟩
  have hmem : block ∈ (filled records).flatten := List.mem_flatten_of_mem hbatch hblock
  rw [filled, flatten_pieces] at hmem
  exact length_of_mem_pieces (by decide) _ block hmem

theorem flatMap_eq_nil_of_mem_filled {β : Type} {f : Record → Option β} {records : List Record}
    (h : ∀ r ∈ records, f r = none) : ∀ batch ∈ filled records, batch.flatMap (List.filterMap f) = [] := by
  intro batch hbatch
  refine List.flatMap_eq_nil_iff.2 fun block hblock => List.filterMap_eq_nil_iff.2 fun r hr => h r ?_
  rw [← flatten_filled records]
  exact List.mem_flatten_of_mem (List.mem_flatten_of_mem hbatch hblock) hr

/-- **Nodes and then ways** are in batches of their own. -/
theorem ofRecords_nodes_ways (ns : List NodeRecord) (ws : List WayRecord) :
    ofRecords (ns.map .node ++ ws.map .way) = filled (ns.map .node) ++ filled (ws.map .way) := by
  have hnodes : (ns.map Record.node ++ ws.map Record.way).takeWhile (fun r => r.way?.isNone) = ns.map .node := by
    have hall : ∀ r ∈ ns.map Record.node, r.way?.isNone = true := by
      intro r hr
      obtain ⟨n, -, rfl⟩ := List.mem_map.1 hr
      rfl
    rw [List.takeWhile_append_of_pos hall]
    cases ws with
    | nil => exact List.append_nil _
    | cons w ws => exact List.append_nil _
  rw [ofRecords, hnodes, List.drop_left]

end Batches

namespace Ingest

variable {σ : Type}

/-- **Calls with nodes only** leave what one call for all of them leaves. -/
theorem batches_nodes {rules : Config} : ∀ {calls : List (List Block)} {i after : Ingest Unit},
    i.classifier = rules.classifier → i.scanned = true → (∀ call ∈ calls, call.flatMap Block.ways = []) →
    i.batches calls = (.ok (), after) →
    i.TakesNodes (calls.flatten.flatMap Block.nodes) ∧ after = i.withNodes (calls.flatten.flatMap Block.nodes)
  | [], i, after, _, _, _, h => by
    cases h
    exact ⟨fun _ hn => absurd hn List.not_mem_nil, (withNodes_nil i).symm⟩
  | call :: calls, i, after, hi, hscanned, hnone, h => by
    obtain ⟨counters, middle, hfirst, hrest⟩ := batches_cons_eq_ok h
    obtain ⟨⟨htakes, -⟩, hmiddle⟩ := blocks_eq_ok hi hscanned hfirst
    rw [hnone call List.mem_cons_self, withWays_nil] at hmiddle
    subst hmiddle
    obtain ⟨htakes', rfl⟩ := batches_nodes (i := i.withNodes (call.flatMap Block.nodes)) hi hscanned
      (fun c hc => hnone c (List.mem_cons_of_mem call hc)) hrest
    rw [List.flatten_cons, List.flatMap_append, ← takesNodes_append, ← withNodes_append hi]
    exact ⟨⟨htakes, htakes'⟩, rfl⟩

theorem batches_ways {rules : Config} : ∀ {calls : List (List Block)} {i after : Ingest Unit},
    i.classifier = rules.classifier → i.scanned = true → (∀ call ∈ calls, call.flatMap Block.nodes = []) →
    i.batches calls = (.ok (), after) →
    i.TakesWays (calls.flatten.flatMap Block.ways) ∧ after = i.withWays (calls.flatten.flatMap Block.ways)
  | [], i, after, _, _, _, h => by
    cases h
    exact ⟨fun _ hw => absurd hw List.not_mem_nil, (withWays_nil i).symm⟩
  | call :: calls, i, after, hi, hscanned, hnone, h => by
    obtain ⟨counters, middle, hfirst, hrest⟩ := batches_cons_eq_ok h
    obtain ⟨⟨-, htakes⟩, hmiddle⟩ := blocks_eq_ok hi hscanned hfirst
    rw [hnone call List.mem_cons_self, withNodes_nil] at htakes hmiddle
    subst hmiddle
    obtain ⟨htakes', rfl⟩ := batches_ways (i := i.withWays (call.flatMap Block.ways)) hi hscanned
      (fun c hc => hnone c (List.mem_cons_of_mem call hc)) hrest
    rw [List.flatten_cons, List.flatMap_append, ← takesWays_append hi, ← withWays_append hi]
    exact ⟨⟨htakes, htakes'⟩, rfl⟩

theorem flatMap_joined {β : Type} (f : Record → Option β) {calls others : List (List Block)}
    (h : ∀ call ∈ others, call.flatMap (List.filterMap f) = []) :
    [(calls ++ others).flatten.flatten].flatMap (List.filterMap f) = calls.flatten.flatMap (List.filterMap f) ∧
      [(others ++ calls).flatten.flatten].flatMap (List.filterMap f) = calls.flatten.flatMap (List.filterMap f) := by
  have hjoin (blocks : List Block) : [blocks.flatten].flatMap (List.filterMap f) = blocks.flatMap (List.filterMap f) := by
    rw [List.flatMap_singleton, List.filterMap_flatten, List.flatMap_def]
  have hnone : others.flatten.flatMap (List.filterMap f) = [] := by
    refine List.flatMap_eq_nil_iff.2 fun block hblock => ?_
    obtain ⟨call, hcall, hmem⟩ := List.mem_flatten.1 hblock
    exact List.flatMap_eq_nil_iff.1 (h call hcall) block hmem
  rw [hjoin, hjoin, List.flatten_append, List.flatten_append, List.flatMap_append, List.flatMap_append, hnone]
  exact ⟨List.append_nil _, List.nil_append _⟩

/-- **Calls for nodes and then calls for ways** leave what one call for all of them leaves. -/
theorem blocks_of_batches {rules : Config} {nodeCalls wayCalls : List (List Block)} {i after : Ingest Unit}
    (hi : i.classifier = rules.classifier) (hscanned : i.scanned = true)
    (hnodes : ∀ call ∈ nodeCalls, call.flatMap Block.ways = []) (hways : ∀ call ∈ wayCalls, call.flatMap Block.nodes = [])
    (h : i.batches (nodeCalls ++ wayCalls) = (.ok (), after)) :
    ∃ counters, i.blocks [(nodeCalls ++ wayCalls).flatten.flatten] = (.ok counters, after) := by
  obtain ⟨middle, hfirst, hsecond⟩ := batches_append_eq_ok h
  obtain ⟨htakes, rfl⟩ := batches_nodes hi hscanned hnodes hfirst
  obtain ⟨htakes', rfl⟩ :=
    batches_ways (i := i.withNodes (nodeCalls.flatten.flatMap Block.nodes)) hi hscanned hways hsecond
  have hallNodes : [(nodeCalls ++ wayCalls).flatten.flatten].flatMap Block.nodes =
      nodeCalls.flatten.flatMap Block.nodes := (flatMap_joined Record.node? hways).1
  have hallWays : [(nodeCalls ++ wayCalls).flatten.flatten].flatMap Block.ways =
      wayCalls.flatten.flatMap Block.ways := (flatMap_joined Record.way? hnodes).2
  obtain ⟨hok, -⟩ := blocks_rules hi hscanned [(nodeCalls ++ wayCalls).flatten.flatten]
  rw [hallNodes, hallWays] at hok
  exact ⟨_, hok ⟨htakes, htakes'⟩⟩

/-- **Batching is transparent.**  For nodes and then ways there are calls, with each element once and in order, in batches
of one to 64 blocks of one to 8000 elements, nodes and ways apart, such that feeding the elements one by one makes these
calls, up to the first error, which it returns.  If the classifier follows rules and there is no error, it leaves what a
single call with one block leaves. -/
theorem feed_transparent (ns : List NodeRecord) (ws : List WayRecord) :
    let records := ns.map Record.node ++ ws.map Record.way
    ∃ calls : List (List Block),
      calls.flatten.flatten = records ∧
      (∀ batch ∈ calls, (1 ≤ batch.length ∧ batch.length ≤ 64) ∧
        (∀ block ∈ batch, 1 ≤ block.length ∧ block.length ≤ 8000) ∧
        (batch.flatMap Block.ways = [] ∨ batch.flatMap Block.nodes = [])) ∧
      (∀ {σ : Type} (i : Ingest σ), i.feed records = i.batches calls ∧
        ((∃ after, i.feed records = (.ok (), after)) ∨
          ∃ pre call post middle e after, calls = pre ++ call :: post ∧ i.batches pre = (.ok (), middle) ∧
            middle.blocks call = (.error e, after) ∧ i.feed records = (.error e, after))) ∧
      ∀ (rules : Config) (i after : Ingest Unit), i.classifier = rules.classifier → i.feed records = (.ok (), after) →
        (i.blocks [records]).2 = after ∧ (i.scanned = true → ∃ counters, (i.blocks [records]).1 = .ok counters) := by
  intro records
  let nodeCalls := Batches.filled (ns.map .node)
  let wayCalls := Batches.filled (ws.map .way)
  have hcalls : Batches.ofRecords records = nodeCalls ++ wayCalls := Batches.ofRecords_nodes_ways ns ws
  have hjoined : (nodeCalls ++ wayCalls).flatten.flatten = records := by
    rw [List.flatten_append, List.flatten_append, Batches.flatten_filled, Batches.flatten_filled]
  have hnodes : ∀ call ∈ nodeCalls, call.flatMap Block.ways = [] :=
    Batches.flatMap_eq_nil_of_mem_filled fun r hr => by obtain ⟨n, -, rfl⟩ := List.mem_map.1 hr; rfl
  have hways : ∀ call ∈ wayCalls, call.flatMap Block.nodes = [] :=
    Batches.flatMap_eq_nil_of_mem_filled fun r hr => by obtain ⟨w, -, rfl⟩ := List.mem_map.1 hr; rfl
  have hfeed {σ : Type} (i : Ingest σ) : i.feed records = i.batches (nodeCalls ++ wayCalls) := by rw [feed_eq, hcalls]
  refine ⟨nodeCalls ++ wayCalls, hjoined, ?_, fun i => ?_, fun rules i after hi h => ?_⟩
  · refine List.forall_mem_append.2 ⟨fun batch hbatch => ?_, fun batch hbatch => ?_⟩
    · obtain ⟨hbatches, hblocks⟩ := Batches.sizes_of_mem_filled _ batch hbatch
      exact ⟨hbatches, hblocks, Or.inl (hnodes batch hbatch)⟩
    · obtain ⟨hbatches, hblocks⟩ := Batches.sizes_of_mem_filled _ batch hbatch
      exact ⟨hbatches, hblocks, Or.inr (hways batch hbatch)⟩
  · rw [hfeed i]
    exact ⟨rfl, batches_cases (nodeCalls ++ wayCalls) i⟩
  · rw [hfeed i] at h
    cases hscanned : i.scanned with
    | true =>
      obtain ⟨counters, hblocks⟩ := blocks_of_batches hi hscanned hnodes hways h
      rw [hjoined] at hblocks
      rw [hblocks]
      exact ⟨rfl, fun _ => ⟨counters, rfl⟩⟩
    | false =>
      rw [blocks_of_not_scanned hscanned, (nil_of_batches hscanned h).2]
      exact ⟨rfl, fun hscanned => absurd hscanned Bool.false_ne_true⟩

theorem feed_transparent_towns :
    ∃ after counters, townIngest.feed (towns.map .node ++ roads.map .way) = (.ok (), after) ∧
      townIngest.blocks [towns.map .node ++ roads.map .way] = (.ok counters, after) ∧
      after.features.toList.map (·.layer) = ["places", "places"] := by
  obtain ⟨calls, -, -, -, hsame⟩ := feed_transparent towns roads
  have hscanned : townIngest.scanned = true := rfl
  have hisOk : (townIngest.feed (towns.map .node ++ roads.map .way)).1 = .ok () := by decide +kernel
  have hrun : townIngest.feed (towns.map .node ++ roads.map .way) =
      (.ok (), (townIngest.feed (towns.map .node ++ roads.map .way)).2) := by rw [← hisOk, Prod.eta]
  obtain ⟨hafter, hok⟩ := hsame townRules townIngest _ rfl hrun
  obtain ⟨counters, hcounters⟩ := hok hscanned
  refine ⟨_, counters, hrun, ?_, by decide +kernel⟩
  rw [← hcounters, ← hafter, Prod.eta]

end Ingest
end MapFeatures
