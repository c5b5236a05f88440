import TriangleCompiler.Builtin

/-! What a name stands for. -/

namespace TriangleCompiler

/-- The number of a node of a program's tree. In a program of at most 2^32 nodes it is a word of 32 bits;
    larger programs are out of scope. -/
abbrev NodeId := Nat

/-- A node's number as messages and printed trees show it. -/
def NodeId.text (id : NodeId) : String :=
  s!"#{id}"

/-- The declaration that a name stands for. -/
inductive Link where
  | builtin (b : Builtin)
  /-- The constant that the node declares. -/
  | const (id : NodeId)
  /-- The variable that the node declares. -/
  | var (id : NodeId)
deriving DecidableEq, Repr

/-- A link in words. -/
def Link.text : Link → String
  | builtin b => s!"builtin {b.name}"
  | const id => s!"const {NodeId.text id}"
  | var id => s!"var {NodeId.text id}"

end TriangleCompiler
