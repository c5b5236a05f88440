import TriangleCompiler.Machine.Listing

/-! What the compiler can be asked for. -/

namespace TriangleCompiler.CommandLine

open Machine (Format)

/-- Which files to write. -/
inductive Emit where
  | text
  | binary
  | both
deriving DecidableEq, Repr

/-- The forms to write, in this order. -/
def Emit.formats : Emit → List Format
  | text => [.text]
  | binary => [.binary]
  | both => Format.all

/-- How to compile a program. -/
structure Options where
  input : String
  /-- The files to write are named after this path, or else after the input. -/
  output : Option String
  emit : Emit
  dumpTokens : Bool
  dumpTree : Bool
  verbose : Bool
deriving DecidableEq, Repr

/-- What the compiler is asked for. -/
inductive Request where
  | compile (options : Options)
  | version
  | help
deriving DecidableEq, Repr

end TriangleCompiler.CommandLine
