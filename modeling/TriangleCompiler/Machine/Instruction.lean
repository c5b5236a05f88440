import TriangleCompiler.Machine.Names

/-! Machine words and instructions, with the two ways to write an instruction down: as text and as five
    bytes. -/

namespace TriangleCompiler.Machine

/-- The contents of a memory cell: sixteen bits, read as a signed number. -/
abbrev Word := Int16

namespace Word

/-- The largest word. -/
def max : Nat := 32767

/-- The word with this value, if there is one. -/
def ofInt? (n : Int) : Option Word :=
  if -32768 ≤ n ∧ n ≤ 32767 then some (Int16.ofInt n) else none

/-- A truth value as a word. -/
def ofBool (b : Bool) : Word :=
  if b then 1 else 0

/-- The low byte of a word. -/
def lowByte (w : Word) : UInt8 :=
  w.toUInt16.toUInt8

/-- The high byte of a word. -/
def highByte (w : Word) : UInt8 :=
  (w.toUInt16 >>> 8).toUInt8

/-- A word in decimal. -/
def text (w : Word) : String :=
  toString w.toInt

end Word

/-- An instruction. The operand is a distance from the address in the register, or a plain value. -/
structure Instruction where
  op : OpCode
  register : Register
  length : UInt8
  operand : Word
deriving DecidableEq, Repr

namespace Instruction

/-! ### The instructions that programs are made of -/

/-- Pushes `value`. -/
def loadLiteral (value : Word) : Instruction := ⟨.loadLiteral, .cb, 0, value⟩

/-- Calls a built-in routine. -/
def call (routine : Primitive) : Instruction := ⟨.call, .pb, 0, Int16.ofNat routine.number⟩

/-- Makes room for `words` words on the stack. -/
def push (words : UInt8) : Instruction := ⟨.push, .cb, 0, Int16.ofNat words.toNat⟩

/-- Drops `words` words from the top of the stack and keeps none. -/
def pop (words : Word) : Instruction := ⟨.pop, .cb, 0, words⟩

/-- Goes on at `target`. -/
def jump (target : Word) : Instruction := ⟨.jump, .cb, 0, target⟩

/-- Pops a word and goes on at `target` if it equals the low byte of `value`. -/
def jumpIf (value target : Word) : Instruction := ⟨.jumpIf, .cb, value.lowByte, target⟩

/-- Stops the machine. -/
def halt : Instruction := ⟨.halt, .cb, 0, 0⟩

/-- Whether the operand says where to go on. -/
def isJump (i : Instruction) : Bool :=
  i.op = .jump || i.op = .jumpIf

/-! ### Written forms -/

/-- A place in memory as a distance from a register. -/
def place (i : Instruction) : String :=
  s!"{i.register.name}+{i.operand.text}"

/-- The routine that a call names, or its place. -/
def callee (i : Instruction) : String :=
  match i.register, Primitive.ofNumber? i.operand.toInt with
  | .pb, some routine => routine.name
  | _, _ => i.place

/-- The truth value that a conditional jump waits for. -/
def awaited (i : Instruction) : String :=
  if i.length = 1 then "TRUE" else "FALSE"

/-- An instruction in words. -/
def mnemonic (i : Instruction) : String :=
  match i.op with
  | .load => s!"LOAD   {i.length.toNat} {i.place}"
  | .loadAddress => s!"LOADA  {i.place}"
  | .loadIndirect => s!"LOADI  {i.length.toNat}"
  | .loadLiteral => s!"LOADL  {i.operand.text}"
  | .store => s!"STORE  {i.length.toNat} {i.place}"
  | .storeIndirect => s!"STOREI {i.length.toNat}"
  | .call => s!"CALL   {i.callee}"
  | .callIndirect => "CALLI"
  | .return_ => s!"RETURN {i.length.toNat} {i.operand.text}"
  | .push => s!"PUSH   {i.operand.text}"
  | .pop => s!"POP    {i.length.toNat} {i.operand.text}"
  | .jump => s!"JUMP   {i.place}"
  | .jumpIndirect => "JUMPI"
  | .jumpIf => s!"JUMPIF {i.awaited} {i.place}"
  | .halt => "HALT"

/-- The four numbers of an instruction. -/
def fields (i : Instruction) : String :=
  s!"{i.op.number} {i.register.number} {i.length.toNat} {i.operand.text}"

/-- An instruction as bytes: operation, register, length, and the operand with its low byte first. -/
def bytes (i : Instruction) : List UInt8 :=
  [UInt8.ofNat i.op.number, UInt8.ofNat i.register.number, i.length, i.operand.lowByte,
   i.operand.highByte]

end Instruction

end TriangleCompiler.Machine
