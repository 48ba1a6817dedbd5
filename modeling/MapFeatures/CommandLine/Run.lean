import MapFeatures.Classify.Rules
import MapFeatures.CommandLine.Arguments
import MapFeatures.Config.Reader
import MapFeatures.Extract
import MapFeatures.Ingest.Batches
/-!
# Run — a file is read, its elements become features, and the features are counted

The features are counted by layer; a line for each layer tells how many there are and which attributes they have.
-/
namespace MapFeatures.CommandLine

/-- Why a run fails. -/
inductive Failure
  /-- The configuration is missing or faulty. -/
  | config (path : String)
  | stores
  /-- There is no input file. -/
  | noInput (path : String)
  /-- The input file is faulty. -/
  | malformed
  | blocks (cause : ProcessingError)
  | relations (cause : ProcessingError)
  /-- The program stops at a check. -/
  | stopped (check : Check)
deriving DecidableEq, Repr

namespace Failure

def headline : Failure → String
  | config path => "Could not load " ++ path
  | stores => "Could not set up the stores"
  | noInput path => "Could not read " ++ path
  | malformed => "Could not scan relations"
  | blocks _ => "Could not process nodes and ways"
  | relations _ => "Could not process relations"
  | stopped check => check.message

/-- The exit code. -/
def exitCode : Failure → UInt32
  | stopped _ => 101
  | _ => 1

/-- The failure, unless the program stops at a check before it could be told. -/
def unlessStopped (check : Option Check) (f : Failure) : Failure :=
  match check with
  | some check => stopped check
  | none => f

/-- The error of a pass that is behind it. -/
def cause? : Failure → Option ProcessingError
  | blocks cause => some cause
  | relations cause => some cause
  | _ => none

/-- What is behind it, the nearest first, each without its own cause. -/
def causes (f : Failure) : List String :=
  match f.cause? with
  | none => []
  | some e => e.headline :: (e.cause?.map StoreError.message).toList

end Failure

/-- An input file; if it is faulty, there is no extract. -/
structure InputFile where
  /-- In bytes. -/
  size : Nat
  extract : Option Extract

/-- The nodes to expect in a file of this size. -/
def estimate (size : Nat) : Nat := size / 10

/-- How many features each layer has. -/
def layerCounts (features : Array Feature) : TextMap Nat :=
  features.foldl (fun counts f => counts.insert f.layer ((counts.get? f.layer).getD 0 + 1)) ∅

/-- The line of a layer. -/
def layerLine (metadata : LayerMetadata) (layer : String) (count : Nat) : String :=
  let attributes := (metadata.keysOf layer).entries.map fun a => a.1 ++ ":" ++ a.2.name
  layer ++ ": " ++ toString count ++ " features [" ++ String.intercalate ", " attributes ++ "]"

/-- The lines of all layers that have features. -/
def layerLines {σ : Type} (i : Ingest σ) : List String :=
  (layerCounts i.features).entries.map fun e => layerLine i.metadata e.1 e.2

/-- All three passes. -/
def ingest {σ : Type} (i : Ingest σ) (size : Nat) (x : Extract) : Except Failure (Ingest σ) :=
  let (_, i) := i.scan x.relations (estimate size)
  match i.feed x.records with
  | (.error e, _) => .error (.unlessStopped e.check? (.blocks e))
  | (.ok _, i) =>
    match i.relations with
    | (.error e, _) => .error (.unlessStopped e.check? (.relations e))
    | (.ok _, i) => .ok i

/-- The configuration in the file that the arguments name. -/
def loadConfig (a : Arguments) (content : Option ByteArray) : Except Failure Config :=
  (Config.ofFile content).mapError fun _ => .config a.config

/-- The lines of a run with a configuration. -/
def runWith (config : Config) (a : Arguments) (input : Option InputFile) : Except Failure (List String) := do
  let store ← (ObjectStore.create config.store).mapError fun e => .unlessStopped e.check? .stores
  let some file := input | .error (.noInput a.input)
  let some extract := file.extract | .error .malformed
  let i ← ingest (.ofStore store .empty config.classifier) file.size extract
  .ok (layerLines i)

/-- **The lines of a run**, given what the two files hold. -/
def run (a : Arguments) (config : Option ByteArray) (input : Option InputFile) : Except Failure (List String) := do
  runWith (← loadConfig a config) a input

end MapFeatures.CommandLine
