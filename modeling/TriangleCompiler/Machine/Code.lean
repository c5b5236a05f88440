import TriangleCompiler.Fault

/-! Code under construction: a list of instructions that has a limit, in which jumps can be completed
    once their target is known. -/

namespace TriangleCompiler.Machine

/-- Instructions with the addresses 0, 1, 2, ..., of which there are at most `limit`. Every address is a
    word. -/
structure Code where
  instructions : Array Instruction
  limit : Nat
  bounded : instructions.size ≤ limit
  addressable : limit ≤ Word.max

namespace Code

/-- Code without instructions, for as many as there are addresses. -/
def empty : Code :=
  ⟨#[], Word.max, Nat.zero_le _, Nat.le_refl _⟩

/-- Code without instructions, for `limit` of them. -/
def withLimit (limit : Nat) : Except Fault Code :=
  if h : limit ≤ Word.max then .ok ⟨#[], limit, Nat.zero_le _, h⟩
  else .error (.limitNotAddressable limit)

/-- The number of instructions. -/
def size (c : Code) : Nat :=
  c.instructions.size

/-- The address of the instruction that is emitted next. -/
def nextAddress (c : Code) : Word :=
  Int16.ofNat c.size

/-- Whether there is no room for another instruction. -/
def isFull (c : Code) : Bool :=
  c.limit ≤ c.size

/-- Appends an instruction for which there is room. It gets the address `c.nextAddress`. -/
def append (c : Code) (i : Instruction) (h : c.size < c.limit) : Code :=
  { c with
    instructions := c.instructions.push i
    bounded := by rw [Array.size_push]; exact h }

/-- Appends an instruction, if there is room for it. -/
@[inline] def emit? (c : Code) (i : Instruction) : Option Code :=
  if h : c.size < c.limit then some (c.append i h) else none

/-- The instruction at an address. -/
def get? (c : Code) (address : Int) : Option Instruction :=
  if 0 ≤ address then c.instructions[address.toNat]? else none

/-- Why the instruction at an address cannot be given a target: there is none, or it is no jump. -/
def refusal? (c : Code) (address : Int) : Option Fault :=
  match c.get? address with
  | none => some (.patchOutside address)
  | some i => if i.isJump then none else some (.patchNotJump address i)

/-- Gives the instruction at an address the next address as its operand. -/
def retarget (c : Code) (address : Nat) : Code :=
  let target := c.nextAddress
  { c with
    instructions := c.instructions.modify address ({ · with operand := target })
    bounded := by rw [Array.size_modify]; exact c.bounded }

/-- Makes the jump at an address go on at the next address. -/
@[inline] def patch (c : Code) (address : Int) : Except Fault Code :=
  match c.refusal? address with
  | some fault => .error fault
  | none => .ok (c.retarget address.toNat)

end Code

end TriangleCompiler.Machine
