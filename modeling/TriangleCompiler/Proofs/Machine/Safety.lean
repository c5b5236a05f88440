import TriangleCompiler.Proofs.Machine.Execution

/-! Properties that the machine keeps for as long as it runs. They are kept for a number of steps, so that
    pieces of code are taken one after the other, each with what is known about the code behind it, and
    loops by induction on the number. -/

namespace TriangleCompiler.Machine

variable {σ : Type} {I : Interpretation σ} {code : List Instruction} {P : Config σ → Prop}
  {c d : Config σ} {n : Nat}

/-- The configuration has the property, and so has every one that the machine gets to in `n` steps. -/
def Safe (I : Interpretation σ) (code : List Instruction) (P : Config σ → Prop) : Nat → Config σ → Prop
  | 0, c => P c
  | n + 1, c => P c ∧ ∀ d, step? I code c = some d → Safe I code P n d

namespace Safe

theorem holds (h : Safe I code P n c) : P c := by
  cases n with
  | zero => exact h
  | succ n => exact h.1

theorem of_succ (h : Safe I code P (n + 1) c) : Safe I code P n c := by
  induction n generalizing c with
  | zero => exact h.1
  | succ n ih => exact ⟨h.1, fun d hd => ih (h.2 d hd)⟩

theorem of_next (hc : P c) (h : ∀ d, step? I code c = some d → Safe I code P n d) : Safe I code P n c :=
  of_succ ⟨hc, h⟩

/-- A step that is known about counts. -/
theorem step (hc : P c) (hd : step? I code c = some d) (h : Safe I code P n d) :
    Safe I code P (n + 1) c := by
  refine ⟨hc, fun e he => ?_⟩
  cases hd.symm.trans he
  exact h

theorem of_step (hc : P c) (hd : step? I code c = some d) (h : Safe I code P n d) : Safe I code P n c :=
  of_succ (step hc hd h)

/-- What is kept for any number of steps holds in every run. -/
theorem of_reaches (h : ∀ n, Safe I code P n c) (hd : Reaches I code c d) : P d := by
  obtain ⟨n, hn⟩ := hd
  induction n generalizing c with
  | zero =>
    cases hn
    exact (h 0).holds
  | succ n ih =>
    obtain ⟨e, he, hd⟩ := Option.bind_eq_some_iff.mp hn
    exact ih (fun m => (h (m + 1)).2 e he) hd

end Safe

/-! ### Truth values -/

/-- The word stands for a truth value. -/
def Word.IsTruth (w : Word) : Prop := w = 0 ∨ w = 1

theorem Word.isTruth_ofBool (b : Bool) : (Word.ofBool b).IsTruth := by
  cases b
  · exact Or.inl rfl
  · exact Or.inr rfl

/-- Comparisons lead to truth values, and so do the tests for the end of the input or of a line; negation
    does if it is given a truth value. All other routines may lead to any words. -/
structure Interpretation.Truthful (I : Interpretation σ) : Prop where
  comparison : ∀ p ∈ [Primitive.lt, .gt, .le, .eq], ∀ v w io r, I p [v, w] io = some r → r.1.IsTruth
  negation : ∀ w io r, w.IsTruth → I .not [w] io = some r → r.1.IsTruth
  ending : ∀ p ∈ [Primitive.eof, .eol], ∀ io r, I p [] io = some r → r.1.IsTruth

/-- The instruction pops a word that has to be a truth value. -/
def Instruction.TakesTruth (i : Instruction) : Prop := i.op = .jumpIf ∨ i = .call .not

theorem Instruction.not_takesTruth {i : Instruction} {op : OpCode} (hop : i.op = op) (hjump : op ≠ .jumpIf)
    (hcall : op ≠ .call) : ¬i.TakesTruth := by
  rintro (h | rfl)
  · exact hjump (hop.symm.trans h)
  · exact hcall hop.symm

theorem Instruction.TakesTruth.eq_not {p : Primitive} (h : (Instruction.call p).TakesTruth) : p = .not := by
  rcases h with hop | hcall
  · cases hop
  · have hnumber := congrArg (fun i => Primitive.ofNumber? i.operand.toInt) hcall
    simp only [Instruction.call, ofNumber?_number] at hnumber
    exact Option.some.inj hnumber

/-- There is a truth value on top of the stack. -/
def TruthOnTop (stack : List Word) : Prop := ∃ rest w, stack = rest ++ [w] ∧ w.IsTruth

end TriangleCompiler.Machine
