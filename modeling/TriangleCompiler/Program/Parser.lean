import TriangleCompiler.Program.Parser.Command

/-! From tokens to programs. Reading never fails: what is not well-formed is reported and leaves an error
    node in the tree. -/

namespace TriangleCompiler

namespace Parser

/-- Reads the end of the text. -/
def endOfText (s : State) : State :=
  if s.kind = .endOfText then s else s.reportMissing .endOfText

/-- What reading a stream of tokens gives: the program, and the errors in it. -/
structure Result where
  program : Program
  findings : List Finding

/-- The errors as diagnostics. -/
def Result.diagnostics (r : Result) : Diagnostics :=
  r.findings.map Finding.diagnostic

/-- Reads a program from the start of a stream of tokens. -/
def program (s : State) : Result :=
  match command s with
  | ⟨(c, s₁), _⟩ => ⟨⟨c, s₁.nextId⟩, (endOfText s₁).findings.reverse⟩

end Parser

/-- The program that a list of tokens makes up. The list must end with the end of the text. -/
def Program.ofTokens (tokens : List Token) : Except Fault Parser.Result :=
  (Parser.State.ofTokens tokens).map Parser.program

end TriangleCompiler
