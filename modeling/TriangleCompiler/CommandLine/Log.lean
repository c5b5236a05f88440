import TriangleCompiler.Compilation

/-! The log of a compilation: what each stage does, step by step. Entries that are not shown even on request
    are left out. -/

namespace TriangleCompiler

/-- How much an entry of the log matters. -/
inductive Level where
  | info
  | debug
deriving DecidableEq, Repr

/-- How a line of the log names a level. -/
def Level.name : Level → String
  | info => " INFO"
  | debug => "DEBUG"

/-- An entry of the log. -/
structure LogEntry where
  level : Level
  message : String
deriving DecidableEq, Repr

/-- The line of an entry, without the time that it starts with. -/
def LogEntry.line (e : LogEntry) : String :=
  s!"{e.level.name} {e.message}\n"

namespace Compilation

/-- The entries for the errors that a stage reported. -/
def reports (c : Compilation) (stage : Stage) : List LogEntry :=
  (c.errors.filter (·.value.stage = stage)).map fun e => ⟨.debug, s!"reported {e.text}"⟩

/-- The entries of a stage after the first: that it starts and what it reports, or that it is skipped. -/
def stageLog (c : Compilation) (stage : Stage) (name start : String) (entered : Bool) : List LogEntry :=
  if entered then ⟨.debug, start⟩ :: c.reports stage
  else [⟨.debug, s!"skipping {name}, {c.errors.length} errors so far"⟩]

/-- The entries of all stages. -/
def log (c : Compilation) : List LogEntry :=
  c.reports .scan ++ [⟨.debug, s!"lexed {c.tokens.length} tokens"⟩]
    ++ c.stageLog .parse "parsing" s!"parsing {c.tokens.length} tokens" c.program.isSome
    ++ c.stageLog .resolve "resolution" "resolving declarations" c.resolution.isSome
    ++ c.stageLog .check "type checking" "checking types" c.types.isSome
    ++ c.stageLog .generate "code generation" "generating code" c.code.isSome
    ++ c.code.toList.map (fun code => ⟨.debug, s!"generated {code.size} instructions"⟩)
    ++ if c.errors.isEmpty then [] else [⟨.info, s!"compilation failed with {c.errors.length} errors"⟩]

end Compilation

end TriangleCompiler
