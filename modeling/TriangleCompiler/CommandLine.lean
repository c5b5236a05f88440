import TriangleCompiler.CommandLine.Directory
import TriangleCompiler.CommandLine.Log
import TriangleCompiler.CommandLine.Options

/-! The compiler as a program: it reads a source file, reports what is wrong with it or writes the code
    next to it, and says with its exit code how that went. -/

namespace TriangleCompiler.CommandLine

open Machine (Code Format)

/-- What a run shows, apart from the files that it writes. -/
structure Outcome where
  exitCode : Nat
  stdout : String
  log : List LogEntry
  /-- What is said on standard error behind the log. -/
  messages : String
deriving DecidableEq, Repr

/-- What stands on standard error. -/
def Outcome.stderr (o : Outcome) : String :=
  String.join (o.log.map LogEntry.line) ++ o.messages

/-- What a run has shown so far. -/
structure Shown where
  stdout : String
  log : List LogEntry
deriving DecidableEq, Repr

/-- Before anything is shown. -/
def Shown.nothing : Shown := ⟨"", []⟩

/-- Goes on with the log, which is shown only on request. -/
def Shown.note (shown : Shown) (options : Options) (entries : List LogEntry) : Shown :=
  if options.verbose then { shown with log := shown.log ++ entries } else shown

/-- The files that a run reads and writes. -/
structure FileSystem (m : Type → Type) where
  read : String → m (Except FileError (List UInt8))
  write : String → List UInt8 → m (Except FileError Unit)

/-- A directory as a file system. -/
def directoryFiles : FileSystem (StateM Directory) where
  read path := fun d => (d.read path, d)
  write path bytes := fun d =>
    match d.write path bytes with
    | .ok d' => (.ok (), d')
    | .error e => (.error e, d)

/-- The version of the compiler. -/
def versionText : String := "trianglec 0.0.1\n"

/-- How the compiler is called. -/
def usageText : String := "Usage: trianglec [OPTIONS] <INPUT>\n"

/-- The end of a run. -/
def Shown.finish (shown : Shown) (exitCode : Nat) (messages : String) : Outcome :=
  ⟨exitCode, shown.stdout, shown.log, messages⟩

/-- The end of a run that a file error stopped. -/
def stopped (shown : Shown) (e : FileError) : Outcome :=
  shown.finish 2 s!"failed to run: {e.message}\n"

/-- The end of a run on a program with errors. -/
def failed (options : Options) (shown : Shown) (errors : Diagnostics) : Outcome :=
  let lines := errors.lines.map fun line => s!"{options.input}: {line}\n"
  shown.finish 1 (String.join lines ++ s!"compilation failed with {errors.length} errors\n")

/-- What is printed on request before the result. -/
def dump (options : Options) (c : Compilation) : String :=
  let tokens := if options.dumpTokens then String.join (c.tokens.map (·.dump ++ "\n")) else ""
  let tree := if options.dumpTree then c.tree.getD "" else ""
  tokens ++ tree

/-- The path of a file to write. -/
def outputPath (options : Options) (format : Format) : String :=
  Path.withExtension (options.output.getD options.input) format.extension

variable {m : Type → Type} [Monad m]

/-- Writes code in some forms, one after the other, up to the first that cannot be written. -/
def writeAll (fs : FileSystem m) (options : Options) (shown : Shown) (code : Code) :
    List Format → m Outcome
  | [] => pure ((shown.note options [⟨.info, s!"emitted {code.size} instructions"⟩]).finish 0 "")
  | format :: rest => do
    let path := outputPath options format
    match ← fs.write path (code.bytes format) with
    | .ok () =>
      writeAll fs options (shown.note options [⟨.debug, s!"wrote {format.name} code to {path}"⟩]) code rest
    | .error e => pure (stopped shown e)

/-- Compiles a source text and writes the code. -/
def compileText (fs : FileSystem m) (options : Options) (source : String) : m Outcome :=
  let shown := Shown.nothing.note options [⟨.info, s!"compiling {options.input}"⟩]
  match Compilation.run source with
  | .error fault => pure (shown.finish 101 (fault.message ++ "\n"))
  | .ok c =>
    let shown := { shown.note options c.log with stdout := dump options c }
    match c.result with
    | .ok code => writeAll fs options shown code options.emit.formats
    | .error errors => pure (failed options shown errors)

/-- Compiles the input. -/
def compile (fs : FileSystem m) (options : Options) : m Outcome := do
  match ← fs.read options.input with
  | .error e => pure (stopped .nothing e)
  | .ok bytes =>
    match String.fromUTF8? ⟨bytes.toArray⟩ with
    | none => pure (stopped .nothing .notText)
    | some source => compileText fs options source

/-- Does what is asked for. -/
def serve (fs : FileSystem m) : Request → m Outcome
  | .compile options => compile fs options
  | .version => pure ⟨0, versionText, [], ""⟩
  | .help => pure ⟨0, usageText, [], ""⟩

end TriangleCompiler.CommandLine
