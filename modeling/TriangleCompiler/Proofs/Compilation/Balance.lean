import TriangleCompiler.Proofs.Compilation.Stages
import TriangleCompiler.Proofs.Generation.Heights

/-! The form of compiled programs: their jumps lead to instructions, and the height of the stack is known at
    every instruction before the program runs. -/

namespace TriangleCompiler

open Machine
open Typing Generation

/-- The code of a well-typed program keeps the empty stack. -/
theorem Program.flows {p : Program} {links : Resolution} {ds : Decoration}
    (h : WellTyped links .empty p.command ds) (hnodup : p.command.ids.Nodup)
    (hlength : (p.command.code links (cappedTarget Word.max) .empty 0).length ≤ Word.max) :
    Flows (Lands 0 0 (p.command.code links (cappedTarget Word.max) .empty 0)) 0
      (p.command.code links (cappedTarget Word.max) .empty 0) 0 :=
  h.flows (fun _ => index?_cappedTarget) 0 (Layout.fits_empty _) hnodup (fun _ _ => rfl) (Nat.le_refl 0)
    (by omega)

/-- Where a source text is compiled without an error, the code ends with the only instruction that halts
    the machine, and its jumps lead to instructions. There is a height of the stack for every address: it
    is 0 at the start and at the end, it agrees with the effects of the instructions along every way that
    the machine may take, and what the instructions read and write is below it. In every run it is the
    height that the stack has. -/
theorem Compilation.run_balances_code {source : String} {c : Compilation} {code : Code}
    (hrun : Compilation.run source = .ok c) (hresult : c.result = .ok code) :
    ∃ before height, code.instructions.toList = before ++ [.halt] ∧ (∀ i ∈ before, i.op ≠ .halt) ∧
      Balanced code.instructions.toList height ∧
      ∀ (σ : Type) (I : Interpretation σ) (io : σ) (d : Config σ),
        Reaches I code.instructions.toList (.initial io) d → d.stack.length = height d.pc := by
  obtain ⟨p, links, types, ds, -, -, hchecked, hcode, hlength⟩ := exists_of_result hrun hresult
  rw [hcode, Program.fullCode, List.length_append] at hlength
  have hflows := Program.flows hchecked.wellTyped hchecked.counted.nodup (by omega)
  have hbalanced := hflows.balanced
  rw [← Program.fullCode, ← hcode] at hbalanced
  exact ⟨_, _, hcode, hflows.op_ne_halt, hbalanced, fun σ I io d => hbalanced.stack_length⟩

/-- A program with a loop in a loop, both kinds of branches and a constant that takes a word is compiled,
    and its code is balanced. -/
theorem Compilation.run_balances_loops :
    let source := "let var a : Integer; const d ~ 2 * 3 in begin getint(var a); " ++
      "while (a > d) do if (a > 9) then a := a - 2 else a := a - 1 endif; " ++
      "for i := 1 to a do if (i > 2) then putint(i) endif next end"
    ∃ c code before height, Compilation.run source = .ok c ∧ c.result = .ok code ∧
      code.instructions.toList = before ++ [.halt] ∧ before.length = 43 ∧
      Balanced code.instructions.toList height := by
  intro source
  have hcompiled : ((Compilation.run source).toOption.any fun c =>
      c.result.toOption.any fun code => decide (code.instructions.size = 44)) = true := by decide +kernel
  cases hrun : Compilation.run source with
  | error fault =>
    rw [hrun] at hcompiled
    cases hcompiled
  | ok c =>
    rw [hrun] at hcompiled
    cases hresult : c.result with
    | error errors =>
      simp only [Except.toOption, Option.any_some, hresult] at hcompiled
      cases hcompiled
    | ok code =>
      simp only [Except.toOption, Option.any_some, hresult] at hcompiled
      obtain ⟨before, height, hcode, -, hbalanced, -⟩ := Compilation.run_balances_code hrun hresult
      refine ⟨c, code, before, height, rfl, hresult, hcode, ?_, hbalanced⟩
      have hsize : code.instructions.toList.length = 44 := of_decide_eq_true hcompiled
      rw [hcode, List.length_append, List.length_singleton] at hsize
      omega

end TriangleCompiler
