import TriangleCompiler.CommandLine.Options

/-! The arguments of the command line. -/

namespace TriangleCompiler.CommandLine

/-- The choice with this name. -/
def Emit.ofName? : String → Option Emit
  | "text" => some .text
  | "binary" => some .binary
  | "both" => some .both
  | _ => none

/-- Why arguments are rejected. -/
inductive UsageError where
  | unknown (argument : String)
  | unexpected (argument : String)
  | repeated (option : String)
  | missingValue (option : String)
  | unexpectedValue (option : String)
  | invalidValue (option value : String)
  | missingInput
deriving DecidableEq, Repr

/-- The wording of a usage error. -/
def UsageError.message : UsageError → String
  | unknown argument | unexpected argument => s!"error: unexpected argument '{argument}' found"
  | repeated option => s!"error: the argument '{option}' cannot be used multiple times"
  | missingValue option => s!"error: a value is required for '{option}' but none was supplied"
  | unexpectedValue option => s!"error: unexpected value for '{option}' found; no more were expected"
  | invalidValue option value => s!"error: invalid value '{value}' for '{option}'"
  | missingInput => "error: the required argument '<INPUT>' was not provided"

/-- The options that have a value. -/
inductive Setting where
  | output
  | emit
deriving DecidableEq, Repr

/-- The options that are given or not. -/
inductive Flag where
  | dumpTokens
  | dumpTree
  | verbose
deriving DecidableEq, Repr

/-- What an option is. -/
inductive Meaning where
  | setting (setting : Setting)
  | flag (flag : Flag)
  | version
  | help
deriving DecidableEq, Repr

/-- The option with a long name. -/
def longOption? : String → Option Meaning
  | "output" => some (.setting .output)
  | "emit" => some (.setting .emit)
  | "dump-tokens" => some (.flag .dumpTokens)
  | "dump-tree" => some (.flag .dumpTree)
  | "verbose" => some (.flag .verbose)
  | "version" => some .version
  | "help" => some .help
  | _ => none

/-- The option with a letter. -/
def shortOption? : Char → Option Meaning
  | 'o' => some (.setting .output)
  | 'v' => some (.flag .verbose)
  | 'V' => some .version
  | 'h' => some .help
  | _ => none

/-- How messages name an option that has a value. -/
def Setting.text : Setting → String
  | output => "--output <OUTPUT>"
  | emit => "--emit <EMIT>"

/-- How messages name an option that is given or not. -/
def Flag.text : Flag → String
  | dumpTokens => "--dump-tokens"
  | dumpTree => "--dump-tree"
  | verbose => "--verbose"

/-- What the arguments so far have given. -/
structure Given where
  input : Option String
  output : Option String
  emit : Option Emit
  flags : List Flag
deriving DecidableEq, Repr

namespace Given

/-- Before the first argument nothing is given. -/
def nothing : Given := ⟨none, none, none, []⟩

/-- Gives the input. -/
def addInput (g : Given) (path : String) : Except UsageError Given :=
  if g.input.isSome then .error (.unexpected path)
  else if path = "" then .error (.missingValue "<INPUT>")
  else .ok { g with input := some path }

/-- Gives an option its value. -/
def addSetting (g : Given) (setting : Setting) (value : String) : Except UsageError Given :=
  match setting with
  | .output =>
    if g.output.isSome then .error (.repeated setting.text)
    else if value = "" then .error (.missingValue setting.text)
    else .ok { g with output := some value }
  | .emit =>
    if g.emit.isSome then .error (.repeated setting.text)
    else
      match Emit.ofName? value with
      | some emit => .ok { g with emit := some emit }
      | none => .error (.invalidValue setting.text value)

/-- Gives an option without a value. -/
def addFlag (g : Given) (flag : Flag) : Except UsageError Given :=
  if flag ∈ g.flags then .error (.repeated flag.text) else .ok { g with flags := flag :: g.flags }

/-- What is asked for once all arguments are read. -/
def request (g : Given) : Except UsageError Request :=
  match g.input with
  | none => .error .missingInput
  | some input =>
    .ok (.compile ⟨input, g.output, g.emit.getD .both, .dumpTokens ∈ g.flags, .dumpTree ∈ g.flags,
      .verbose ∈ g.flags⟩)

end Given

/-- What reading an argument leads to: the next argument is read, possibly as the value of an option, or
    the request is known. -/
inductive Step where
  | more (given : Given) (pending : Option Setting)
  | done (request : Request)
deriving DecidableEq, Repr

/-- Reads an option with a long name and the value that is attached to it. -/
def readLong (g : Given) (name : String) (value : Option String) : Except UsageError Step :=
  match longOption? name, value with
  | none, _ => .error (.unknown ("--" ++ name))
  | some (.setting setting), some value => do
    pure (.more (← g.addSetting setting value) none)
  | some (.setting setting), none => .ok (.more g (some setting))
  | some _, some _ => .error (.unexpectedValue ("--" ++ name))
  | some (.flag flag), none => do
    pure (.more (← g.addFlag flag) none)
  | some .version, none => .ok (.done .version)
  | some .help, none => .ok (.done .help)

/-- Reads options that are letters behind one dash. What follows the letter of an option that has a value
    is the value, without an equals sign before it. -/
def readShort (g : Given) : List Char → Except UsageError Step
  | [] => .ok (.more g none)
  | letter :: rest =>
    match shortOption? letter with
    | none => .error (.unknown (String.ofList ['-', letter]))
    | some (.flag flag) => do
      readShort (← g.addFlag flag) rest
    | some .version => .ok (.done .version)
    | some .help => .ok (.done .help)
    | some (.setting setting) =>
      match rest with
      | [] => .ok (.more g (some setting))
      | '=' :: value => do
        pure (.more (← g.addSetting setting (String.ofList value)) none)
      | value => do
        pure (.more (← g.addSetting setting (String.ofList value)) none)

/-- Reads an argument that is no value of an option. -/
def readArgument (g : Given) (argument : String) : Except UsageError Step :=
  match argument.toList with
  | '-' :: '-' :: long =>
    let name := long.takeWhile (· ≠ '=')
    let value := if '=' ∈ long then some (String.ofList (long.drop (name.length + 1))) else none
    readLong g (String.ofList name) value
  | '-' :: letter :: rest => readShort g (letter :: rest)
  | _ => do
    pure (.more (← g.addInput argument) none)

/-- Whether an argument cannot be the value of an option because it looks like an option. A dash alone
    is a file name. -/
def looksLikeOption (argument : String) : Bool :=
  argument.toList.head? = some '-' && argument ≠ "-"

/-- Reads arguments of which none is an option. -/
def readInputs (g : Given) : List String → Except UsageError Request
  | [] => g.request
  | argument :: rest => do
    readInputs (← g.addInput argument) rest

/-- Reads arguments. `pending` is the option whose value is next, and `--` ends the options. -/
def readArguments (g : Given) (pending : Option Setting) :
    List String → Except UsageError Request
  | [] =>
    match pending with
    | some setting => .error (.missingValue setting.text)
    | none => g.request
  | argument :: rest =>
    match pending with
    | some setting =>
      if looksLikeOption argument then .error (.missingValue setting.text)
      else do
        readArguments (← g.addSetting setting argument) none rest
    | none =>
      if argument = "--" then readInputs g rest
      else do
        match ← readArgument g argument with
        | .more g pending => readArguments g pending rest
        | .done request => pure request

/-- What arguments ask for. -/
def Request.ofArguments (arguments : List String) : Except UsageError Request :=
  readArguments .nothing none arguments

end TriangleCompiler.CommandLine
