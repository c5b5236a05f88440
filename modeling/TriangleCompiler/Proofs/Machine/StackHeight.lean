import TriangleCompiler.Proofs.Machine.Execution

/-! The height of the stack. Every instruction takes a fixed number of words from the stack and puts a fixed
    number there, so code can be checked without running it: a height is assigned to every address, and
    the heights agree along every way from one instruction to another. -/

namespace TriangleCompiler.Machine

/-- The words that a routine takes from the stack and those that it leaves there. -/
def Convention.effect : Convention → Nat × Nat
  | .function operands => (operands, 1)
  | .procedure operands => (operands, 0)
  | .input => (1, 0)

namespace Instruction

/-- The words that an instruction takes from the stack and those that it leaves there. Instructions that
    no program is made of have no effect, and neither has the one that halts the machine. -/
def effect? (i : Instruction) : Option (Nat × Nat) :=
  match i.op, i.register with
  | .loadLiteral, _ => some (0, 1)
  | .loadAddress, .sb => some (0, 1)
  | .load, .sb => if i.length = 1 then some (0, 1) else none
  | .store, .sb => if i.length = 1 then some (1, 0) else none
  | .push, _ => i.operand.index?.map fun count => (0, count)
  | .pop, _ => if i.length = 0 then i.operand.index?.map fun count => (count, 0) else none
  | .jump, .cb => some (0, 0)
  | .jumpIf, .cb => some (1, 0)
  | .call, .pb => (Primitive.ofNumber? i.operand.toInt).map fun p => p.convention.effect
  | _, _ => none

/-- Where the machine may go on behind an instruction at the address `a`. -/
def LeadsTo (i : Instruction) (a b : Nat) : Prop :=
  match i.op with
  | .halt => False
  | .jump => i.operand.index? = some b
  | .jumpIf => i.operand.index? = some b ∨ b = a + 1
  | _ => b = a + 1

/-- What an instruction reads or writes on a stack of this height is there. The word that is stored is not
    itself a place to store it. -/
structure Addresses (i : Instruction) (height : Nat) : Prop where
  load : i.op = .load ∨ i.op = .loadAddress → ∃ k, i.operand.index? = some k ∧ k < height
  store : i.op = .store → ∃ k, i.operand.index? = some k ∧ k < height - 1

end Instruction

/-- Code with a height of the stack for every address. -/
structure Balanced (code : List Instruction) (height : Nat → Nat) : Prop where
  start : height 0 = 0
  halt : ∀ a i, code[a]? = some i → i.op = .halt → height a = 0
  effect : ∀ a i, code[a]? = some i → i.op ≠ .halt → ∃ taken given, i.effect? = some (taken, given) ∧
    taken ≤ height a ∧ ∀ b, i.LeadsTo a b → b < code.length ∧ height b + taken = height a + given
  jump : ∀ (a : Nat) (i : Instruction), code[a]? = some i → i.isJump = true →
    ∃ b, i.operand.index? = some b ∧ b < code.length
  addresses : ∀ (a : Nat) (i : Instruction), code[a]? = some i → i.Addresses (height a)

/-! ### The heights of runs -/

section Runs
variable {σ : Type} {I : Interpretation σ} {code : List Instruction} {c d : Config σ} {i : Instruction}
  {taken given count : Nat} {stack rest top : List Word}

theorem length_of_split? (h : split? count stack = some (rest, top)) :
    rest.length + count = stack.length ∧ top.length = count := by
  unfold split? at h
  split at h
  · cases h
    simp only [List.length_take, List.length_drop]
    omega
  · cases h

theorem length_of_overwrite? {offset : Nat} {words : List Word}
    (h : overwrite? stack offset words = some rest) : rest.length = stack.length := by
  unfold overwrite? at h
  split at h
  · cases h
    simp only [List.length_append, List.length_take, List.length_drop]
    omega
  · cases h

theorem callPrimitive?_height {p : Primitive} (h : callPrimitive? I p c = some d) :
    d.stack.length + p.convention.effect.1 = c.stack.length + p.convention.effect.2 ∧ d.pc = c.pc + 1 := by
  unfold callPrimitive? at h
  cases hp : p.convention with
  | function operands | procedure operands =>
    simp only [hp, Option.bind_eq_bind, Option.bind_eq_some_iff, Option.some.injEq] at h
    obtain ⟨⟨rest, top⟩, hsplit, _, _, rfl⟩ := h
    obtain ⟨hlength, -⟩ := length_of_split? hsplit
    simp only [Convention.effect, List.length_append, List.length_singleton, and_true]
    omega
  | input =>
    simp only [hp, Option.bind_eq_bind, Option.bind_eq_some_iff, Option.some.injEq] at h
    obtain ⟨⟨rest, top⟩, hsplit, offset, -, _, -, stack, hstack, rfl⟩ := h
    obtain ⟨hlength, -⟩ := length_of_split? hsplit
    have hwritten : stack.length = rest.length := length_of_overwrite? hstack
    simp only [Convention.effect, and_true]
    omega

/-- An instruction does to the height of the stack what its effect says. -/
theorem execute?_height (h : execute? I i c = some d) (heffect : i.effect? = some (taken, given)) :
    d.stack.length + taken = c.stack.length + given ∧ i.LeadsTo c.pc d.pc := by
  obtain ⟨op, register, length, operand⟩ := i
  cases op with
  | loadLiteral =>
    cases heffect
    cases h
    simp [Config.next, Instruction.LeadsTo]
  | loadAddress =>
    -- an effect is known only for the bottom of the stack
    cases register <;> cases heffect
    cases h
    simp [Config.next, Instruction.LeadsTo]
  | load =>
    cases register <;> try cases heffect
    simp only [Instruction.effect?] at heffect
    split at heffect <;> cases heffect
    simp only [execute?, Option.bind_eq_bind, Option.bind_eq_some_iff] at h
    obtain ⟨offset, -, h⟩ := h
    split at h <;> cases h
    simp_all [Config.next, Instruction.LeadsTo]
    omega
  | store =>
    cases register <;> try cases heffect
    simp only [Instruction.effect?] at heffect
    split at heffect <;> cases heffect
    simp only [execute?, Option.bind_eq_bind, Option.bind_eq_some_iff] at h
    obtain ⟨offset, -, ⟨rest, top⟩, hsplit, stack, hstack, h⟩ := h
    cases h
    obtain ⟨hlength, -⟩ := length_of_split? hsplit
    have hwritten : stack.length = rest.length := length_of_overwrite? hstack
    simp_all [Config.next, Instruction.LeadsTo]
  | push =>
    obtain ⟨count, hcount, heq⟩ := Option.map_eq_some_iff.mp heffect
    cases heq
    simp only [execute?, hcount, Option.bind_eq_bind, Option.bind_some] at h
    cases h
    simp [Config.next, Instruction.LeadsTo]
  | pop =>
    simp only [Instruction.effect?] at heffect
    split at heffect
    · rename_i hzero
      obtain ⟨count, hcount, heq⟩ := Option.map_eq_some_iff.mp heffect
      cases heq
      simp only [execute?, hcount, Option.bind_eq_bind, Option.bind_some, Option.bind_eq_some_iff] at h
      obtain ⟨⟨rest, top⟩, hsplit, ⟨rest', top'⟩, hsplit', h⟩ := h
      cases h
      obtain ⟨hlength, hkept⟩ := length_of_split? hsplit
      obtain ⟨hlength', -⟩ := length_of_split? hsplit'
      simp_all [Config.next, Instruction.LeadsTo]
    · cases heffect
  | jump =>
    cases register <;> cases heffect
    simp only [execute?, Option.bind_eq_bind, Option.bind_eq_some_iff] at h
    obtain ⟨b, hb, h⟩ := h
    cases h
    exact ⟨rfl, hb⟩
  | jumpIf =>
    cases register <;> cases heffect
    simp only [execute?, Option.bind_eq_bind, Option.bind_eq_some_iff] at h
    obtain ⟨⟨rest, top⟩, hsplit, h⟩ := h
    obtain ⟨hlength, -⟩ := length_of_split? hsplit
    split at h
    · obtain ⟨b, hb, h⟩ := Option.bind_eq_some_iff.mp h
      cases h
      exact ⟨hlength, Or.inl hb⟩
    · cases h
      exact ⟨hlength, Or.inr rfl⟩
  | call =>
    cases register <;> try cases heffect
    obtain ⟨p, hp, heq⟩ := Option.map_eq_some_iff.mp heffect
    simp only [execute?, Option.bind_eq_bind, hp, Option.bind_some] at h
    have hcall := callPrimitive?_height h
    rw [heq] at hcall
    exact hcall
  | _ => cases register <;> cases heffect

/-- A step from the right height leads to the right height. -/
theorem Balanced.step? {height : Nat → Nat} (h : Balanced code height) (hc : c.stack.length = height c.pc)
    (hstep : step? I code c = some d) : d.stack.length = height d.pc := by
  obtain ⟨i, hi, hexecute⟩ := Option.bind_eq_some_iff.mp hstep
  have hop : i.op ≠ .halt := by
    intro hop
    simp [execute?, hop] at hexecute
  obtain ⟨taken, given, heffect, -, hleads⟩ := h.effect c.pc i hi hop
  obtain ⟨hheight, hto⟩ := execute?_height hexecute heffect
  obtain ⟨-, hnext⟩ := hleads d.pc hto
  omega

/-- In every run the stack has the height that is assigned to the next instruction. -/
theorem Balanced.stack_length {height : Nat → Nat} (h : Balanced code height) {io : σ}
    (hreaches : Reaches I code (.initial io) c) : c.stack.length = height c.pc := by
  obtain ⟨n, hn⟩ := hreaches
  have hrun : ∀ {n : Nat} {b : Config σ}, b.stack.length = height b.pc → steps? I code n b = some c →
      c.stack.length = height c.pc := by
    intro n
    induction n with
    | zero =>
      rintro b hb ⟨⟩
      exact hb
    | succ n ih =>
      intro b hb hsteps
      obtain ⟨d, hd, hsteps⟩ := Option.bind_eq_some_iff.mp hsteps
      exact ih (h.step? hb hd) hsteps
  have hinitial : (Config.initial io).stack.length = height (Config.initial io).pc := h.start.symm
  exact hrun hinitial hn

end Runs

/-! ### The heights of code -/

/-- The height behind instructions that stand one behind the other. -/
def heightAfter : Nat → List Instruction → Nat
  | h, [] => h
  | h, i :: is => heightAfter (h + (i.effect?.getD (0, 0)).2 - (i.effect?.getD (0, 0)).1) is

/-- `Flows P h is h'` says that the stack goes from the height `h` to the height `h'` if the instructions
    `is` are executed one behind the other. Each of them finds what it needs, and `P w n` holds for every
    jump to `w` from which the machine goes on with the height `n`. -/
inductive Flows (P : Word → Nat → Prop) : Nat → List Instruction → Nat → Prop where
  | nil {h : Nat} : Flows P h [] h
  | cons {h h' taken given : Nat} {i : Instruction} {is : List Instruction} :
      i.effect? = some (taken, given) → i.Addresses (h + taken) →
      (i.isJump = true → P i.operand (h + given)) → Flows P (h + given) is h' →
      Flows P (h + taken) (i :: is) h'

/-- The word is an address from `start` on, inside or right behind the instructions `is`, and `n` is the
    height there. -/
def Lands (start h : Nat) (is : List Instruction) (w : Word) (n : Nat) : Prop :=
  ∃ l r, is = l ++ r ∧ w.index? = some (start + l.length) ∧ heightAfter h l = n

section Code
variable {P Q : Word → Nat → Prop} {h h' h'' start n : Nat} {i : Instruction} {is js : List Instruction}
  {w : Word}

theorem heightAfter_append (h : Nat) (is js : List Instruction) :
    heightAfter h (is ++ js) = heightAfter (heightAfter h is) js := by
  induction is generalizing h with
  | nil => rfl
  | cons i is ih => exact ih _

theorem heightAfter_cons {taken given : Nat} (heffect : i.effect? = some (taken, given)) (h : Nat) :
    heightAfter (h + taken) (i :: is) = heightAfter (h + given) is := by
  rw [heightAfter, heffect]
  congr 1
  simp only [Option.getD_some]
  omega

namespace Flows

theorem heightAfter_eq (hf : Flows P h is h') : heightAfter h is = h' := by
  induction hf with
  | nil => rfl
  | cons heffect _ _ _ ih => rw [heightAfter_cons heffect, ih]

theorem append (hf : Flows P h is h') (hf' : Flows P h' js h'') : Flows P h (is ++ js) h'' := by
  induction hf with
  | nil => exact hf'
  | cons heffect haddresses hjump _ ih => exact .cons heffect haddresses hjump (ih hf')

theorem single (h taken given : Nat) (heffect : i.effect? = some (taken, given))
    (haddresses : i.Addresses (h + taken)) (hjump : i.isJump = false) :
    Flows P (h + taken) [i] (h + given) :=
  .cons heffect haddresses (fun hi => by rw [hjump] at hi; cases hi) .nil

theorem mono (hf : Flows P h is h') (himp : ∀ w n, P w n → Q w n) : Flows Q h is h' := by
  induction hf with
  | nil => exact .nil
  | cons heffect haddresses hjump _ ih =>
    exact .cons heffect haddresses (fun hi => himp _ _ (hjump hi)) ih

/-- What is known of an instruction among others. -/
theorem getElem? (hf : Flows P h is h') {j : Nat} (hi : is[j]? = some i) :
    ∃ taken given rest, i.effect? = some (taken, given) ∧ heightAfter h (is.take j) = rest + taken ∧
      heightAfter h (is.take (j + 1)) = rest + given ∧ i.Addresses (rest + taken) ∧
      (i.isJump = true → P i.operand (rest + given)) := by
  induction hf generalizing j with
  | nil => cases hi
  | @cons h h' taken given i' is heffect haddresses hjump _ ih =>
    cases j with
    | zero =>
      cases hi
      refine ⟨taken, given, h, heffect, rfl, ?_, haddresses, hjump⟩
      exact heightAfter_cons heffect h
    | succ j =>
      obtain ⟨taken', given', rest, heffect', hbefore, hafter, hrest⟩ := ih hi
      refine ⟨taken', given', rest, heffect', ?_, ?_, hrest⟩
      · rw [List.take_succ_cons, heightAfter_cons heffect, hbefore]
      · rw [List.take_succ_cons, heightAfter_cons heffect, hafter]

end Flows

/-- What lands in a part lands in the whole. -/
theorem Lands.within {pre post : List Instruction} (hl : Lands (start + pre.length) (heightAfter h pre) is w n) :
    Lands start h (pre ++ (is ++ post)) w n := by
  obtain ⟨l, r, rfl, hindex, hheight⟩ := hl
  refine ⟨pre ++ l, r ++ post, by simp, ?_, by rw [heightAfter_append, hheight]⟩
  rw [hindex, List.length_append, Nat.add_assoc]

theorem Instruction.Addresses.of_contains (hop : [OpCode.load, .loadAddress, .store].contains i.op = false) :
    i.Addresses n := by
  constructor
  · rintro (hload | hload)
    all_goals
      rw [hload] at hop
      cases hop
  · intro hstore
    rw [hstore] at hop
    cases hop

/-- The machine goes on with the next instruction, or an instruction is a jump and it goes to its target. -/
theorem Instruction.LeadsTo.next_or_jump {a b : Nat} (h : i.LeadsTo a b) :
    b = a + 1 ∨ i.isJump = true ∧ i.operand.index? = some b := by
  unfold Instruction.LeadsTo at h
  split at h
  · cases h
  · rename_i hop
    exact .inr ⟨by simp [Instruction.isJump, hop], h⟩
  · rename_i hop
    rcases h with hindex | hb
    · exact .inr ⟨by simp [Instruction.isJump, hop], hindex⟩
    · exact .inl hb
  · exact .inl h

/-- Nothing goes on behind an instruction that halts the machine. -/
theorem Flows.op_ne_halt (hf : Flows P h is h') : ∀ i ∈ is, i.op ≠ .halt := by
  intro i hi hop
  obtain ⟨j, hj⟩ := List.mem_iff_getElem?.mp hi
  obtain ⟨taken, given, rest, heffect, -⟩ := hf.getElem? hj
  simp [Instruction.effect?, hop] at heffect

/-- Every address behind an instruction has the height that the instruction leaves. -/
theorem Flows.leadsTo {given rest a b : Nat} (hleads : i.LeadsTo a b) (hnext : a + 1 ≤ is.length)
    (hafter : heightAfter 0 (is.take (a + 1)) = rest + given)
    (hjump : i.isJump = true → Lands 0 0 is i.operand (rest + given)) :
    b ≤ is.length ∧ heightAfter 0 (is.take b) = rest + given := by
  have hfall : b = a + 1 → b ≤ is.length ∧ heightAfter 0 (is.take b) = rest + given := by
    rintro rfl
    exact ⟨hnext, hafter⟩
  have hland : i.isJump = true → i.operand.index? = some b →
      b ≤ is.length ∧ heightAfter 0 (is.take b) = rest + given := by
    intro hi hindex
    obtain ⟨l, r, rfl, hindex', hheight⟩ := hjump hi
    obtain rfl : l.length = b := by simpa using hindex'.symm.trans hindex
    exact ⟨by simp, by rw [List.take_left, hheight]⟩
  rcases hleads.next_or_jump with hb | ⟨hi, hindex⟩
  · exact hfall hb
  · exact hland hi hindex

/-- Code that keeps the empty stack and whose jumps land in it is balanced, with an instruction behind it
    that halts the machine. -/
theorem Flows.balanced (hf : Flows (Lands 0 0 is) 0 is 0) :
    Balanced (is ++ [Instruction.halt]) fun a => heightAfter 0 (is.take a) := by
  have hget : ∀ {a i}, (is ++ [Instruction.halt])[a]? = some i →
      is[a]? = some i ∨ i = .halt ∧ is.take a = is := by
    intro a i hi
    rw [List.getElem?_append] at hi
    split at hi
    · exact Or.inl hi
    · rename_i hge
      exact Or.inr ⟨(List.mem_singleton.mp (List.mem_of_getElem? hi)), List.take_of_length_le (by omega)⟩
  refine ⟨rfl, fun a i hi hop => ?_, fun a i hi hop => ?_, fun a i hi hjump => ?_, fun a i hi => ?_⟩
  · rcases hget hi with hi | ⟨-, htake⟩
    · exact absurd hop (hf.op_ne_halt i (List.mem_of_getElem? hi))
    · exact htake.symm ▸ hf.heightAfter_eq
  · rcases hget hi with hi | ⟨rfl, -⟩
    · obtain ⟨taken, given, rest, heffect, hbefore, hafter, -, hjump⟩ := hf.getElem? hi
      refine ⟨taken, given, heffect, by omega, fun b hleads => ?_⟩
      obtain ⟨hlt, -⟩ := List.getElem?_eq_some_iff.mp hi
      obtain ⟨hle, hheight⟩ := Flows.leadsTo hleads hlt hafter hjump
      rw [List.length_append, List.length_singleton, hheight, hbefore]
      omega
    · exact absurd rfl hop
  · rcases hget hi with hi | ⟨rfl, -⟩
    · obtain ⟨taken, given, rest, -, -, -, -, hland⟩ := hf.getElem? hi
      obtain ⟨l, r, rfl, hindex, -⟩ := hland hjump
      exact ⟨l.length, by simpa using hindex, by simp⟩
    · cases hjump
  · rcases hget hi with hi | ⟨rfl, -⟩
    · obtain ⟨taken, given, rest, -, hbefore, -, haddresses, -⟩ := hf.getElem? hi
      rwa [← hbefore] at haddresses
    · exact .of_contains rfl

end Code

end TriangleCompiler.Machine
