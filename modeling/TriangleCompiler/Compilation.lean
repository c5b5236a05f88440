import TriangleCompiler.Generation
import TriangleCompiler.Machine.Listing
import TriangleCompiler.Program.Outline
import TriangleCompiler.Program.Parser
import TriangleCompiler.Resolution
import TriangleCompiler.Token.Lexer
import TriangleCompiler.Typing

/-! Compilations: from a source text to code, in five stages. A stage reports all the errors that it
    finds; it is entered only if the stages before it found none. -/

namespace TriangleCompiler

open Machine (Code)

/-- What a compilation has produced, up to and including the first stage that found an error. -/
structure Compilation where
  tokens : List Token
  program : Option Program
  resolution : Option Resolution
  types : Option Types
  code : Option Code
  errors : Diagnostics

namespace Compilation

/-- The tokens of a source text. -/
def scan (source : String) : Compilation :=
  let tokens := Token.ofString source
  ⟨tokens, none, none, none, none, Token.diagnostics tokens⟩

/-- Reads the program that the tokens make up. -/
def parse (c : Compilation) : Except Fault Compilation := do
  let result ← Program.ofTokens c.tokens
  pure { c with program := some result.program, errors := c.errors ++ result.diagnostics }

/-- Links the names of the program. -/
def resolve (c : Compilation) : Except Fault Compilation :=
  match c.program with
  | some p => do
    let s ← p.resolve.finalState (.start p)
    pure { c with resolution := some s.links, errors := c.errors ++ s.errors.toList }
  | none => pure c

/-- Gives the nodes of the program their types. -/
def check (c : Compilation) : Except Fault Compilation :=
  match c.program, c.resolution with
  | some p, some links => do
    let s ← (p.check links).finalState (.start p)
    pure { c with types := some s.types, errors := c.errors ++ s.errors.toList }
  | _, _ => pure c

/-- Generates the code of the program. -/
def generate (c : Compilation) : Except Fault Compilation :=
  match c.program, c.resolution, c.types with
  | some p, some links, some types => do
    let s ← (p.generate ⟨links, types⟩).finalState (.start p .empty)
    pure { c with code := some s.code, errors := c.errors ++ s.errors.toList }
  | _, _, _ => pure c

/-- Enters a stage, unless an error was found before it. -/
def unlessFailed (stage : Compilation → Except Fault Compilation) (c : Compilation) :
    Except Fault Compilation :=
  if c.errors.isEmpty then stage c else pure c

/-- Compiles a source text. -/
def run (source : String) : Except Fault Compilation := do
  let c ← unlessFailed parse (scan source)
  let c ← unlessFailed resolve c
  let c ← unlessFailed check c
  unlessFailed generate c

/-- The printed tree of the program, with what is known of its nodes. -/
def tree (c : Compilation) : Option String :=
  c.program.map (·.render c.resolution c.types)

/-- The code, if there is no error, or the errors. -/
def result (c : Compilation) : Except Diagnostics Code :=
  match c.code with
  | some code => if c.errors.isEmpty then .ok code else .error c.errors
  | none => .error c.errors

/-- Whether the source text was compiled without an error. -/
def succeeded (c : Compilation) : Bool :=
  c.code.isSome && c.errors.isEmpty

end Compilation

end TriangleCompiler
