import MapFeatures.Ingest.Passes
/-!
# Batches — a long sequence of records, cut into blocks that are handed on in batches

Whatever comes before the first way is handed on before that way, so that ways find their nodes.  Apart from that all
blocks but the last are full, and so are all batches (`Batches.ofRecords`).  Records come one by one: a `BlockBuffer`
holds those that are not handed on yet, and hands on nothing after an error.
-/
namespace MapFeatures

def Block.capacity : Nat := 8000

namespace Batches

def capacity : Nat := 64

/-- A list in pieces of one length, of which the last may be shorter. -/
def pieces {α : Type} (length : Nat) : List α → List (List α)
  | [] => []
  | x :: rest => (x :: rest.take (length - 1)) :: pieces length (rest.drop (length - 1))
termination_by xs => xs.length
decreasing_by simp only [List.length_drop, List.length_cons]; omega

/-- Full batches of full blocks, as far as they go. -/
def filled (records : List Record) : List (List Block) := pieces capacity (pieces Block.capacity records)

/-- **The batches of a sequence**: what comes before the first way, and the rest. -/
def ofRecords (records : List Record) : List (List Block) :=
  let beforeWays := records.takeWhile fun r => r.way?.isNone
  filled beforeWays ++ filled (records.drop beforeWays.length)

end Batches

namespace Ingest

/-- The second pass for one batch after the other, up to the first error. -/
def batches {σ : Type} (i : Ingest σ) : List (List Block) → Except ProcessingError Unit × Ingest σ
  | [] => (.ok (), i)
  | batch :: rest =>
    match i.blocks batch with
    | (.error e, i) => (.error e, i)
    | (.ok _, i) => i.batches rest

end Ingest

/-- Records on their way to the second pass. -/
structure BlockBuffer (σ : Type) where
  ingest : Ingest σ
  /-- The block that is being filled. -/
  current : Array Record
  /-- The blocks that are to be handed on together. -/
  batch : List Block
  sawWays : Bool
  /-- The error of the second pass, if there was one. -/
  error? : Option ProcessingError

namespace BlockBuffer

variable {σ : Type}

def ofIngest (i : Ingest σ) : BlockBuffer σ := ⟨i, #[], [], false, none⟩

/-- The block that is being filled becomes the last one of the batch. -/
def closeBlock (b : BlockBuffer σ) : BlockBuffer σ :=
  { b with batch := b.batch ++ [b.current.toList], current := #[] }

/-- Hands on what there is, unless there was an error. -/
def flush (b : BlockBuffer σ) : BlockBuffer σ :=
  let b := if b.current.isEmpty then b else b.closeBlock
  if b.batch.isEmpty || b.error?.isSome then b
  else
    match b.ingest.blocks b.batch with
    | (.error e, ingest) => { b with ingest, batch := [], error? := some e }
    | (.ok _, ingest) => { b with ingest, batch := [] }

/-- One more record in the block; a full block goes into the batch, and a full batch is handed on. -/
def fill (b : BlockBuffer σ) (r : Record) : BlockBuffer σ :=
  let b := { b with current := b.current.push r }
  if b.current.size < Block.capacity then b
  else
    let b := b.closeBlock
    if b.batch.length < Batches.capacity then b else b.flush

/-- Takes a record; the first way comes after all that is there has been handed on. -/
def push (b : BlockBuffer σ) (r : Record) : BlockBuffer σ :=
  if b.error?.isSome then b
  else if r.way?.isSome && !b.sawWays then (flush { b with sawWays := true }).fill r
  else b.fill r

/-- Hands on the rest; the error, if there was one. -/
def finish (b : BlockBuffer σ) : Except ProcessingError Unit × Ingest σ :=
  let b := b.flush
  match b.error? with
  | some e => (.error e, b.ingest)
  | none => (.ok (), b.ingest)

end BlockBuffer

/-- The second pass for records that come one by one. -/
def Ingest.feed {σ : Type} (i : Ingest σ) (records : List Record) : Except ProcessingError Unit × Ingest σ :=
  (records.foldl BlockBuffer.push (.ofIngest i)).finish

end MapFeatures
