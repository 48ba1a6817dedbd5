import MapFeatures.CommandLine.Help
import MapFeatures.CommandLine.Run
import MapFeatures.Extract.Reader
/-!
# Main — the program

Reads the two files, runs, and prints the lines; what goes wrong is told on the error stream.  The file that the nodes
are to be kept in is only opened: they are kept in memory.
-/
namespace MapFeatures.CommandLine

/-- What a file holds, if it can be read. -/
def content? (path : String) : IO (Option ByteArray) := do
  try return some (← IO.FS.readBinFile path)
  catch _ => return none

/-- An input file, if it can be read. -/
def inputFile? (path : String) : IO (Option InputFile) := do
  match ← content? path with
  | none => return none
  | some bytes => return some ⟨bytes.size, Extract.ofBytes? bytes⟩

/-- Whether the file that the nodes are to be kept in can be written, if there is to be one. -/
def storeIsWritable (c : StoreConfig) : IO Bool := do
  match c.storePath.filter fun _ => c.compactStorage with
  | none => return true
  | some path =>
    try
      discard (IO.FS.Handle.mk path .append)
      return true
    catch _ => return false

/-- The lines of a run, or why it fails. -/
def lines (a : Arguments) : IO (Except Failure (List String)) := do
  match loadConfig a (← content? a.config) with
  | .error f => return .error f
  | .ok c =>
    if ← storeIsWritable c.store then return runWith c a (← inputFile? a.input) else return .error .stores

/-- Tells why a run fails, and what is behind it. -/
def tell (f : Failure) : IO Unit := do
  match f with
  | .stopped check => IO.eprintln check.message
  | f =>
    IO.eprintln ("Error: " ++ f.headline)
    f.causes.forM fun cause => IO.eprintln ("Caused by: " ++ cause)

/-- Runs the program; the result is the exit code. -/
def program (arguments : List String) : IO UInt32 := do
  match Request.ofArguments arguments with
  | .error e =>
    IO.eprintln ("error: " ++ e.message)
    return 2
  | .ok .help =>
    help.forM IO.println
    return 0
  | .ok .version =>
    IO.println version
    return 0
  | .ok (.run a) =>
    match ← lines a with
    | .error f =>
      tell f
      return f.exitCode
    | .ok lines =>
      lines.forM IO.println
      return 0

end MapFeatures.CommandLine

def main (arguments : List String) : IO UInt32 := MapFeatures.CommandLine.program arguments
