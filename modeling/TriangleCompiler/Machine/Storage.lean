import TriangleCompiler.Fault

/-! Storage for declared names. There is one stack, so the place of a name is the number of words that
    everything declared before it takes, in all scopes that are open. -/

namespace TriangleCompiler.Machine

/-- The number of words that each open scope takes, from the innermost outwards. -/
structure Storage where
  sizes : List Nat
deriving DecidableEq, Repr

namespace Storage

/-- Storage without an open scope. -/
def empty : Storage := ⟨[]⟩

/-- The number of open scopes. -/
def depth (s : Storage) : Nat :=
  s.sizes.length

/-- The number of words that the innermost scope takes. -/
def localSize (s : Storage) : Nat :=
  s.sizes.headD 0

/-- The number of words that scopes of these sizes take together. -/
def total : List Nat → Nat
  | [] => 0
  | size :: rest => size + total rest

@[simp] theorem total_cons (size : Nat) (rest : List Nat) : total (size :: rest) = size + total rest := rfl

/-- The number of words that all open scopes take. -/
def totalSize (s : Storage) : Nat :=
  total s.sizes

/-- Opens a scope. -/
def openScope (s : Storage) : Storage :=
  ⟨0 :: s.sizes⟩

/-- Closes the innermost scope and gives its size. -/
def closeScope (s : Storage) : Except Fault (Nat × Storage) :=
  match s.sizes with
  | [] => .error .noScopeToClose
  | size :: rest => .ok (size, ⟨rest⟩)

/-- Takes `size` words in the innermost scope and gives their place. If there is no room for them, the
    scope takes all the room that there is. -/
def allocate (s : Storage) (size : Nat) : Except Fault (Option Nat × Storage) :=
  match s.sizes with
  | [] => .error .noScopeToAllocate
  | inner :: rest =>
    let offset := s.totalSize
    if offset + size ≤ Word.max then .ok (some offset, ⟨(inner + size) :: rest⟩)
    else .ok (none, ⟨(inner + (Word.max - offset)) :: rest⟩)

end Storage

/-- What a declared name is at run time. The offsets count from the bottom of the stack. -/
inductive Entity where
  /-- A constant whose value is known beforehand; it takes no room. -/
  | known (value : Word)
  /-- A constant whose value is computed at run time. -/
  | stored (offset : Word) (size : UInt8)
  | var (offset : Word) (size : UInt8)
deriving DecidableEq, Repr

namespace Entity

/-- Pushes the value. -/
def load : Entity → Instruction
  | known value => .loadLiteral value
  | stored offset size | var offset size => ⟨.load, .sb, size, offset⟩

/-- Pushes the address; only variables have one. -/
def loadAddress? : Entity → Option Instruction
  | var offset _ => some ⟨.loadAddress, .sb, 0, offset⟩
  | _ => none

/-- Pops a value and keeps it; only variables can. -/
def store? : Entity → Option Instruction
  | var offset size => some ⟨.store, .sb, size, offset⟩
  | _ => none

end Entity

end TriangleCompiler.Machine
