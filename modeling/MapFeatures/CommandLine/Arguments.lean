/-!
# Arguments — what the program is asked to do

One input file, `--config` with a file, and `--threads` with a number, in any order; a value may follow its option after
`=`.  After `--` nothing is an option.  The first argument that does not fit decides, unless the help or the version is
asked for before it.
-/
namespace MapFeatures.CommandLine

/-- What a run needs. -/
structure Arguments where
  input : String
  config : String
  threads : Option Nat
deriving DecidableEq, Repr

inductive Request
  | run (a : Arguments)
  | help
  | version
deriving DecidableEq, Repr

/-- The options that have a value. -/
inductive Key
  | config
  | threads
deriving DecidableEq, Repr

def Key.name : Key → String
  | config => "--config"
  | threads => "--threads"

inductive UsageError
  /-- There is no such option, or no room for another file. -/
  | unexpected (argument : String)
  /-- The value of an option is missing. -/
  | noValue (key : Key)
  /-- A file is named by an empty text. -/
  | emptyValue
  /-- An option is given twice. -/
  | repeated (key : Key)
  /-- An option that has no value is given one. -/
  | unneededValue (option : String)
  /-- The number of threads is none. -/
  | noNumber (value : String)
  /-- The input file is missing. -/
  | noInput
  /-- The option is missing. -/
  | missing (key : Key)
deriving DecidableEq, Repr

namespace UsageError

def message : UsageError → String
  | unexpected argument => "unexpected argument '" ++ argument ++ "' found"
  | noValue key => "a value is required for '" ++ key.name ++ "' but none was supplied"
  | emptyValue => "a file name must not be empty"
  | repeated key => "the argument '" ++ key.name ++ "' cannot be used multiple times"
  | unneededValue option => "unexpected value for '" ++ option ++ "' found; no more were expected"
  | noNumber value => "invalid value '" ++ value ++ "' for '--threads': not a number of threads"
  | noInput => "the input file is missing"
  | missing key => "the argument '" ++ key.name ++ "' is missing"

end UsageError

/-- What is known of a run so far. -/
structure Known where
  input : Option String
  config : Option String
  threads : Option Nat

namespace Known

def nothing : Known := ⟨none, none, none⟩

def digit? (c : Char) : Option Nat := if c.isDigit then some (c.toNat - '0'.toNat) else none

/-- A number of threads in decimal digits, with or without a plus sign, below `2 ^ 64`. -/
def threadCount? (value : String) : Option Nat := do
  let digits := match value.toList with
    | '+' :: rest => rest
    | cs => cs
  if digits.isEmpty then none
  else
    let ds ← digits.mapM digit?
    let n := ds.foldl (fun n d => 10 * n + d) 0
    if n < UInt64.size then some n else none

def setInput (k : Known) (value : String) : Except UsageError Known :=
  if k.input.isSome then .error (.unexpected value)
  else if value.isEmpty then .error .emptyValue
  else .ok { k with input := some value }

def set (k : Known) (key : Key) (value : String) : Except UsageError Known :=
  match key with
  | .config =>
    if value.isEmpty then .error .emptyValue
    else if k.config.isSome then .error (.repeated key)
    else .ok { k with config := some value }
  | .threads =>
    match threadCount? value with
    | none => .error (.noNumber value)
    | some n => if k.threads.isSome then .error (.repeated key) else .ok { k with threads := some n }

/-- The run, if nothing that it needs is missing. -/
def finish (k : Known) : Except UsageError Request :=
  match k.input, k.config with
  | none, _ => .error .noInput
  | _, none => .error (.missing .config)
  | some input, some config => .ok (.run ⟨input, config, k.threads⟩)

end Known

/-- What an argument is by its look. -/
inductive Look
  /-- Two dashes and nothing else. -/
  | divider
  /-- A name after two dashes, and what follows `=`. -/
  | long (name : String) (value : Option String)
  /-- The first letter after one dash. -/
  | short (letter : Char)
  | plain
deriving DecidableEq, Repr

def Look.of (argument : String) : Look :=
  match argument.toList with
  | ['-', '-'] => .divider
  | '-' :: '-' :: rest =>
    let name := rest.takeWhile (· ≠ '=')
    .long (.ofList name) ((rest.drop name.length).tail?.map .ofList)
  | '-' :: letter :: _ => .short letter
  | _ => .plain

/-- Files only, as after two dashes. -/
def files (k : Known) : List String → Except UsageError Request
  | [] => k.finish
  | argument :: rest => do files (← k.setInput argument) rest

/-- An option that has no value. -/
def flag (name : String) (value : Option String) (r : Request) : Except UsageError Request :=
  if value.isSome then .error (.unneededValue name) else .ok r

/-- Goes on with what is known so far. -/
def read (k : Known) : List String → Except UsageError Request
  | [] => k.finish
  | argument :: rest =>
    match Look.of argument with
    | .divider => files k rest
    | .plain => do read (← k.setInput argument) rest
    | .short 'h' => .ok .help
    | .short 'V' => .ok .version
    | .short _ => .error (.unexpected argument)
    | .long "help" value => flag "--help" value .help
    | .long "version" value => flag "--version" value .version
    | .long "config" value => option .config value rest
    | .long "threads" value => option .threads value rest
    | .long _ _ => .error (.unexpected argument)
where
  /-- An option with its value, which is the next argument if it does not follow `=`. -/
  option (key : Key) (value : Option String) (rest : List String) : Except UsageError Request :=
    match value with
    | some value => do read (← k.set key value) rest
    | none =>
      match rest with
      | [] => .error (.noValue key)
      | value :: rest =>
        if Look.of value = .plain then do read (← k.set key value) rest else .error (.noValue key)

/-- **What the arguments ask for.** -/
def Request.ofArguments (arguments : List String) : Except UsageError Request := read .nothing arguments

end MapFeatures.CommandLine
