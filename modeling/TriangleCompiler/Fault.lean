import TriangleCompiler.Link

/-! Broken promises. A fault is no error in a program: it says that an operation was used in a way that
    its caller promised to avoid. -/

namespace TriangleCompiler

open Machine (Instruction)

/-- The promises that a caller can break. -/
inductive Fault where
  /-- Tokens go into an empty buffer; this one held some. -/
  | dirtyBuffer (size : Nat)
  /-- The last token of a stream marks the end of the text. -/
  | unterminated
  /-- The outermost scope stays open. -/
  | outermostScope
  /-- No two builtins have the same name. -/
  | builtinDeclared (existing : Link)
  /-- A node has a place in the table. -/
  | nodeOutOfBounds (id : NodeId) (size : Nat)
  /-- A node is decorated once. -/
  | nodeDecorated (id : NodeId)
  /-- Only an open storage scope can be closed. -/
  | noScopeToClose
  /-- Storage is allocated in an open scope. -/
  | noScopeToAllocate
  /-- Every instruction has an address. -/
  | limitNotAddressable (limit : Nat)
  /-- Only an emitted instruction can be patched. -/
  | patchOutside (address : Int)
  /-- Only a jump can be patched. -/
  | patchNotJump (address : Int) (instruction : Instruction)
  /-- Code is generated from a tree without gaps in its links and types. -/
  | unchecked
  /-- Code is generated from a tree without error nodes. -/
  | errorNode
  /-- A declaration is generated before its uses. -/
  | noEntity
  /-- Only variables are assigned to. -/
  | notStorable
  /-- Only variables are passed by reference. -/
  | noAddress
  /-- The target of an assignment or a reference is a variable. -/
  | notAVariable (link : Link)
  /-- What is called is a routine, and what is applied is an operator. -/
  | notCallable (link : Link)
  /-- A name in an expression stands for a value. -/
  | notAValue (b : Builtin)
deriving DecidableEq, Repr

namespace Fault

/-- What code generation asks of its input. -/
def uncheckedMessage : String := "code generation requires a resolved and checked program"

/-- The wording of a fault. -/
def message : Fault → String
  | dirtyBuffer size =>
    s!"assertion `left == right` failed: must pass clean tokens buffer\n  left: {size}\n right: 0"
  | unterminated => "token stream must be terminated by EndOfText"
  | outermostScope => "can't close the outermost scope"
  | builtinDeclared existing => s!"standard environment names are unique: {existing.text}"
  | nodeOutOfBounds id size => s!"node {NodeId.text id} is out of the table bounds ({size})"
  | nodeDecorated id => s!"node {NodeId.text id} is already decorated"
  | noScopeToClose => "no scope to close"
  | noScopeToAllocate => "no scope to allocate in"
  | limitNotAddressable limit => s!"code limit of {limit} instructions isn't addressable"
  | patchOutside address => s!"can't patch {address}, it isn't part of the program"
  | patchNotJump address instruction =>
    s!"can't patch {address}, `{instruction.mnemonic}` isn't a jump"
  | unchecked => uncheckedMessage
  | errorNode => s!"internal error: entered unreachable code: {uncheckedMessage}"
  | noEntity => "entities are generated before their uses"
  | notStorable => "variables can be stored to"
  | noAddress => "variables have an address"
  | notAVariable link => s!"{link.text} isn't a variable"
  | notCallable link => s!"{link.text} isn't callable"
  | notAValue b => s!"`{b.name}` isn't a value"

end Fault

end TriangleCompiler
