import TriangleCompiler.Machine.Instruction

/-! The abstract machine. It has a stack of words, which are addressed from its bottom, and goes from
    instruction to instruction until it halts. What its built-in routines do is left open. -/

namespace TriangleCompiler.Machine

/-- What the built-in routines do: from their operands and the state of input and output they lead to a
    word and the state behind, where they are defined. -/
abbrev Interpretation (σ : Type) := Primitive → List Word → σ → Option (Word × σ)

/-- How a built-in routine is called. -/
inductive Convention where
  /-- It pops operands and pushes the word that it leads to. -/
  | function (operands : Nat)
  /-- It pops operands; the word that it leads to does not matter. -/
  | procedure (operands : Nat)
  /-- It pops an address and stores the word that it leads to there. -/
  | input
deriving DecidableEq, Repr

/-- How each of the built-in routines is called. -/
def Primitive.convention : Primitive → Convention
  | eol | eof => .function 0
  | id | not | succ | pred | neg | new => .function 1
  | and | or | add | sub | mult | div | mod | lt | le | ge | gt | eq | ne => .function 2
  | getEol | putEol => .procedure 0
  | put | putInt => .procedure 1
  | dispose => .procedure 2
  | get | getInt => .input

/-- The number that a word stands for as an address or as a count. -/
def Word.index? (w : Word) : Option Nat :=
  if 0 ≤ w.toInt then some w.toInt.toNat else none

/-- The address of the next instruction, the stack from its bottom upwards, and the state of input and
    output. -/
structure Config (σ : Type) where
  pc : Nat
  stack : List Word
  io : σ

namespace Config

variable {σ : Type}

/-- Goes on with the next instruction and another stack. -/
def next (c : Config σ) (stack : List Word) : Config σ := ⟨c.pc + 1, stack, c.io⟩

end Config

/-- The top words of a stack, and what is below them. -/
def split? (count : Nat) (stack : List Word) : Option (List Word × List Word) :=
  if count ≤ stack.length then
    some (stack.take (stack.length - count), stack.drop (stack.length - count))
  else none

/-- A stack with other words from an offset on. -/
def overwrite? (stack : List Word) (offset : Nat) (words : List Word) : Option (List Word) :=
  if offset + words.length ≤ stack.length then
    some (stack.take offset ++ words ++ stack.drop (offset + words.length))
  else none

variable {σ : Type}

/-- Calls a built-in routine. -/
def callPrimitive? (I : Interpretation σ) (p : Primitive) (c : Config σ) : Option (Config σ) :=
  match p.convention with
  | .function count => do
    let (rest, operands) ← split? count c.stack
    let (result, io) ← I p operands c.io
    some ⟨c.pc + 1, rest ++ [result], io⟩
  | .procedure count => do
    let (rest, operands) ← split? count c.stack
    let (_, io) ← I p operands c.io
    some ⟨c.pc + 1, rest, io⟩
  | .input => do
    let (rest, address) ← split? 1 c.stack
    let offset ← address.head?.bind Word.index?
    let (result, io) ← I p [] c.io
    some ⟨c.pc + 1, ← overwrite? rest offset [result], io⟩

/-- What an instruction does. Instructions that no program is made of do nothing here, and neither does
    one that finds too few words on the stack. -/
def execute? (I : Interpretation σ) (i : Instruction) (c : Config σ) : Option (Config σ) :=
  match i.op, i.register with
  | .loadLiteral, _ => some (c.next (c.stack ++ [i.operand]))
  | .loadAddress, .sb => some (c.next (c.stack ++ [i.operand]))
  | .load, .sb => do
    let offset ← i.operand.index?
    if offset + i.length.toNat ≤ c.stack.length then
      some (c.next (c.stack ++ (c.stack.drop offset).take i.length.toNat))
    else none
  | .store, .sb => do
    let offset ← i.operand.index?
    let (rest, words) ← split? i.length.toNat c.stack
    some (c.next (← overwrite? rest offset words))
  | .push, _ => do
    let count ← i.operand.index?
    some (c.next (c.stack ++ List.replicate count 0))
  | .pop, _ => do
    let count ← i.operand.index?
    let (rest, kept) ← split? i.length.toNat c.stack
    let (rest, _) ← split? count rest
    some (c.next (rest ++ kept))
  | .jump, .cb => do
    some { c with pc := ← i.operand.index? }
  | .jumpIf, .cb => do
    let (rest, condition) ← split? 1 c.stack
    if condition = [Int16.ofNat i.length.toNat] then some ⟨← i.operand.index?, rest, c.io⟩
    else some (c.next rest)
  | .call, .pb => do
    callPrimitive? I (← Primitive.ofNumber? i.operand.toInt) c
  | _, _ => none

/-- One step of the machine; there is none at an instruction that halts it or that it cannot execute. -/
def step? (I : Interpretation σ) (code : List Instruction) (c : Config σ) : Option (Config σ) :=
  code[c.pc]?.bind fun i => execute? I i c

/-- So many steps of the machine. -/
def steps? (I : Interpretation σ) (code : List Instruction) : Nat → Config σ → Option (Config σ)
  | 0, c => some c
  | n + 1, c => (step? I code c).bind (steps? I code n)

/-- The machine gets from one configuration to the other. -/
def Reaches (I : Interpretation σ) (code : List Instruction) (c d : Config σ) : Prop :=
  ∃ n, steps? I code n c = some d

/-- The next instruction halts the machine. -/
def Halted (code : List Instruction) (c : Config σ) : Prop :=
  code[c.pc]?.map (·.op) = some .halt

/-- The machine is stuck: it has not halted and has no step. -/
def Stuck (I : Interpretation σ) (code : List Instruction) (c : Config σ) : Prop :=
  step? I code c = none ∧ ¬Halted code c

/-- The machine starts at the first instruction with nothing on the stack. -/
def Config.initial (io : σ) : Config σ := ⟨0, [], io⟩

/-- From the state `io` of input and output the machine comes to a halt, in the state `io'`. -/
def Halts (I : Interpretation σ) (code : List Instruction) (io io' : σ) : Prop :=
  ∃ c, Reaches I code (.initial io) c ∧ Halted code c ∧ c.io = io'

/-- From the state `io` of input and output the machine gets stuck. -/
def GetsStuck (I : Interpretation σ) (code : List Instruction) (io : σ) : Prop :=
  ∃ c, Reaches I code (.initial io) c ∧ Stuck I code c

/-- From the state `io` of input and output the machine never stops. -/
def RunsOn (I : Interpretation σ) (code : List Instruction) (io : σ) : Prop :=
  ∀ n, (steps? I code n (.initial io)).isSome

variable {I : Interpretation σ} {code : List Instruction} {c d e : Config σ} {pc m n : Nat}
  {stack rest : List Word} {io : σ}

/-! ### Runs -/

theorem steps?_add (m n : Nat) (c : Config σ) :
    steps? I code (m + n) c = (steps? I code m c).bind (steps? I code n) := by
  induction m generalizing c with
  | zero => simp [steps?]
  | succ m ih =>
    rw [Nat.succ_add, steps?, steps?]
    cases step? I code c with
    | none => rfl
    | some d => exact ih d

theorem Reaches.refl (c : Config σ) : Reaches I code c c := ⟨0, rfl⟩

theorem Reaches.trans (h : Reaches I code c d) (h' : Reaches I code d e) : Reaches I code c e := by
  obtain ⟨m, hm⟩ := h
  obtain ⟨n, hn⟩ := h'
  exact ⟨m + n, by rw [steps?_add, hm]; exact hn⟩

theorem Reaches.single (h : step? I code c = some d) : Reaches I code c d :=
  ⟨1, by rw [steps?, h]; rfl⟩

/-- A run that goes on for some time goes on for less. -/
theorem isSome_steps?_of_le (h : (steps? I code n c).isSome) (hle : m ≤ n) :
    (steps? I code m c).isSome := by
  obtain ⟨k, rfl⟩ := Nat.exists_eq_add_of_le hle
  rw [steps?_add] at h
  cases hm : steps? I code m c with
  | none => rw [hm] at h; cases h
  | some d => rfl

/-- A run does not get past a configuration that has no step. -/
theorem steps?_eq_none (h : steps? I code m c = some d) (hd : step? I code d = none) (hlt : m < n) :
    steps? I code n c = none := by
  obtain ⟨k, rfl⟩ : ∃ k, n = m + (k + 1) := ⟨n - m - 1, by omega⟩
  rw [steps?_add, h]
  show (step? I code d).bind _ = none
  rw [hd]
  rfl

/-- All runs from one configuration end the same way. -/
theorem Reaches.unique (h : Reaches I code c d) (hd : step? I code d = none) (h' : Reaches I code c e)
    (he : step? I code e = none) : d = e := by
  obtain ⟨m, hm⟩ := h
  obtain ⟨n, hn⟩ := h'
  rcases Nat.lt_trichotomy m n with hlt | rfl | hlt
  · rw [steps?_eq_none hm hd hlt] at hn
    cases hn
  · exact Option.some.inj (hm.symm.trans hn)
  · rw [steps?_eq_none hn he hlt] at hm
    cases hm

theorem Halted.step?_eq_none (h : Halted code c) : step? I code c = none := by
  obtain ⟨i, hi, hop⟩ := Option.map_eq_some_iff.mp h
  rw [step?, hi]
  simp [execute?, hop]

/-! ### Words as numbers, and parts of a stack -/

theorem Word.index?_ofNat {k : Nat} (h : k ≤ Word.max) : Word.index? (Int16.ofNat k) = some k := by
  have hk : (Int16.ofNat k).toInt = k := Int16.toInt_ofNat_of_lt (by simp only [Word.max] at h; omega)
  simp [Word.index?, hk]

theorem split?_append (rest top : List Word) : split? top.length (rest ++ top) = some (rest, top) := by
  simp [split?]

theorem overwrite?_singleton {k : Nat} (h : k < stack.length) (w : Word) :
    overwrite? stack k [w] = some (stack.set k w) := by
  have hle : k + [w].length ≤ stack.length := h
  rw [overwrite?, if_pos hle, List.set_eq_take_append_cons_drop, if_pos h]
  simp

/-! ### The instructions that programs are made of -/

section Instructions
variable {k : Nat}

theorem step?_loadLiteral {value : Word} (h : code[pc]? = some (.loadLiteral value)) :
    step? I code ⟨pc, stack, io⟩ = some ⟨pc + 1, stack ++ [value], io⟩ := by
  simp only [step?, h, Option.bind_some]
  rfl

theorem step?_loadAddress {offset : Word} (h : code[pc]? = some ⟨.loadAddress, .sb, 0, offset⟩) :
    step? I code ⟨pc, stack, io⟩ = some ⟨pc + 1, stack ++ [offset], io⟩ := by
  simp only [step?, h, Option.bind_some]
  rfl

theorem step?_load {w : Word} (h : code[pc]? = some ⟨.load, .sb, 1, Int16.ofNat k⟩) (hk : k ≤ Word.max)
    (hw : stack[k]? = some w) :
    step? I code ⟨pc, stack, io⟩ = some ⟨pc + 1, stack ++ [w], io⟩ := by
  obtain ⟨hlt, rfl⟩ := List.getElem?_eq_some_iff.mp hw
  have hle : k + (1 : UInt8).toNat ≤ stack.length := hlt
  have htake : (stack.drop k).take (1 : UInt8).toNat = [stack[k]] := by
    rw [List.drop_eq_getElem_cons hlt]
    rfl
  simp only [step?, h, Option.bind_some, execute?, Word.index?_ofNat hk, Option.bind_eq_bind, if_pos hle,
    htake]
  rfl

theorem step?_store {w : Word} (h : code[pc]? = some ⟨.store, .sb, 1, Int16.ofNat k⟩) (hk : k ≤ Word.max)
    (hlt : k < rest.length) :
    step? I code ⟨pc, rest ++ [w], io⟩ = some ⟨pc + 1, rest.set k w, io⟩ := by
  have hsplit : split? (1 : UInt8).toNat (rest ++ [w]) = some (rest, [w]) := split?_append rest [w]
  simp only [step?, h, Option.bind_some, execute?, Word.index?_ofNat hk, Option.bind_eq_bind, hsplit,
    overwrite?_singleton hlt]
  rfl

theorem step?_push (h : code[pc]? = some (.push 1)) :
    step? I code ⟨pc, stack, io⟩ = some ⟨pc + 1, stack ++ [0], io⟩ := by
  simp only [step?, h, Option.bind_some]
  rfl

theorem step?_pop (h : code[pc]? = some (.pop (Int16.ofNat k))) (hk : k ≤ Word.max)
    (hle : k ≤ stack.length) :
    step? I code ⟨pc, stack, io⟩ = some ⟨pc + 1, stack.take (stack.length - k), io⟩ := by
  simp [step?, h, execute?, Instruction.pop, Word.index?_ofNat hk, split?, hle, Config.next]

theorem step?_jump {target : Word} (h : code[pc]? = some (.jump target)) (hk : Word.index? target = some k) :
    step? I code ⟨pc, stack, io⟩ = some ⟨k, stack, io⟩ := by
  simp [step?, h, execute?, Instruction.jump, hk]

theorem step?_jumpIf {b : Bool} {w target : Word} (h : code[pc]? = some (.jumpIf (Word.ofBool b) target))
    (hk : Word.index? target = some k) : step? I code ⟨pc, stack ++ [w], io⟩ =
      some ⟨if w = Word.ofBool b then k else pc + 1, stack, io⟩ := by
  have hsplit : split? 1 (stack ++ [w]) = some (stack, [w]) := split?_append stack [w]
  have hb : Int16.ofNat (Word.lowByte (Word.ofBool b)).toNat = Word.ofBool b := by cases b <;> decide
  simp only [step?, h, Option.bind_some, execute?, Instruction.jumpIf, hsplit, hb]
  by_cases hw : w = Word.ofBool b
  · simp [hw, hk]
  · simp [hw, Config.next]

theorem ofNumber?_number (p : Primitive) : Primitive.ofNumber? (Int16.ofNat p.number).toInt = some p := by
  cases p <;> decide

theorem step?_call (p : Primitive) (h : code[pc]? = some (.call p)) :
    step? I code ⟨pc, stack, io⟩ = callPrimitive? I p ⟨pc, stack, io⟩ := by
  simp only [step?, h, Option.bind_some, execute?, Instruction.call, ofNumber?_number,
    Option.bind_eq_bind]

theorem callPrimitive?_function {p : Primitive} {operands : List Word}
    (hp : p.convention = .function operands.length) : callPrimitive? I p ⟨pc, rest ++ operands, io⟩ =
      (I p operands io).map fun r => ⟨pc + 1, rest ++ [r.1], r.2⟩ := by
  simp only [callPrimitive?, hp, split?_append, Option.bind_eq_bind, Option.bind_some]
  cases I p operands io <;> rfl

theorem callPrimitive?_procedure {p : Primitive} {operands : List Word}
    (hp : p.convention = .procedure operands.length) : callPrimitive? I p ⟨pc, rest ++ operands, io⟩ =
      (I p operands io).map fun r => ⟨pc + 1, rest, r.2⟩ := by
  simp only [callPrimitive?, hp, split?_append, Option.bind_eq_bind, Option.bind_some]
  cases I p operands io <;> rfl

theorem callPrimitive?_input {p : Primitive} (hp : p.convention = .input) (hk : k ≤ Word.max)
    (hlt : k < rest.length) : callPrimitive? I p ⟨pc, rest ++ [Int16.ofNat k], io⟩ =
      (I p [] io).map fun r => ⟨pc + 1, rest.set k r.1, r.2⟩ := by
  have hsplit : split? 1 (rest ++ [Int16.ofNat k]) = some (rest, [Int16.ofNat k]) :=
    split?_append rest [Int16.ofNat k]
  simp only [callPrimitive?, hp, hsplit, Option.bind_eq_bind, Option.bind_some, List.head?_cons,
    Word.index?_ofNat hk, overwrite?_singleton hlt]
  cases I p [] io <;> rfl

end Instructions

end TriangleCompiler.Machine
