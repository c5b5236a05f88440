import TriangleCompiler.Proofs.Compilation.Stages
import TriangleCompiler.Proofs.Generation.Preservation

/-! What compiled programs do. The code of a program ends, gets stuck or goes on forever exactly where the
    evaluation of its tree finishes, fails or goes on forever, and it ends in the same state of input and
    output. -/

namespace TriangleCompiler

open Evaluation Machine
open Typing Generation

variable {σ : Type} {I : Interpretation σ} {p : Program} {links : Resolution} {code : List Instruction}
  {io io' : σ}

/-- The machine has done what the program means: it has halted and the stack is empty again. -/
def Generation.Done (code : List Instruction) (io : σ) (d : Config σ) : Prop :=
  Halted code d ∧ d.io = io ∧ d.stack = []

/-- The machine follows a program from its start. -/
theorem Program.simulates {ds : Decoration} (h : WellTyped links .empty p.command ds)
    (hnodup : p.command.ids.Nodup) (hcode : code = p.fullCode links (cappedTarget Word.max))
    (hlength : code.length ≤ Word.max) (fuel : Nat) (io : σ) :
    Simulates I code fuel (.initial io) (p.eval I links fuel io) (Done code) := by
  have hat : At code 0 (p.command.code links (cappedTarget Word.max) .empty 0 ++ [Instruction.halt]) :=
    ⟨[], [], by rw [hcode, Program.fullCode]; simp, rfl⟩
  have hstart : Matches .empty 0 ⟨fun _ => 0, io⟩ (Config.initial io) :=
    ⟨[], rfl, rfl, fun _ _ hplace => by cases hplace⟩
  rw [Program.eval]
  refine (h.simulates (Layout.fits_empty _) hnodup (fun _ _ => rfl) (Nat.le_refl 0) hlength hat.left
    hstart).bind fun s d hd => ?_
  obtain ⟨stack, rfl, hstack⟩ := hd
  refine .pure ⟨?_, rfl, List.length_eq_zero_iff.mp hstack.length_eq⟩
  rw [Halted, hat.right.head]
  rfl

section Agreement
variable (h : ∀ fuel, Simulates I code fuel (.initial io) (p.eval I links fuel io) (Done code))
include h

/-- Where the machine stops, the evaluation comes to an end as well: there it needs no more fuel than the
    machine makes steps, and one. -/
theorem Program.eval_of_steps? {d : Config σ} {n : Nat} (hd : steps? I code n (.initial io) = some d)
    (hstep : step? I code d = none) :
    (∃ io', p.eval I links (n + 1) io = .finished io' ∧ Done code io' d) ∨
      (p.eval I links (n + 1) io = .failed ∧ Stuck I code d) := by
  have hsim := h (n + 1)
  cases heval : p.eval I links (n + 1) io with
  | finished io' =>
    rw [heval] at hsim
    obtain ⟨e, he, hdone⟩ := hsim
    obtain rfl := Reaches.unique ⟨n, hd⟩ hstep he hdone.1.step?_eq_none
    exact Or.inl ⟨io', rfl, hdone⟩
  | failed =>
    rw [heval] at hsim
    obtain ⟨e, he, hstuck⟩ := hsim
    obtain rfl := Reaches.unique ⟨n, hd⟩ hstep he hstuck.1
    exact Or.inr ⟨rfl, hstuck⟩
  | outOfFuel =>
    -- the machine would make one step more
    rw [heval, Simulates, steps?_eq_none hd hstep (Nat.lt_succ_self n)] at hsim
    cases hsim

theorem Program.terminates_iff : p.Terminates I links io io' ↔ Halts I code io io' := by
  constructor
  · rintro ⟨fuel, heval⟩
    have hsim := h fuel
    rw [heval] at hsim
    obtain ⟨d, hd, hhalted, hio, -⟩ := hsim
    exact ⟨d, hd, hhalted, hio⟩
  · rintro ⟨d, ⟨n, hn⟩, hhalted, rfl⟩
    rcases Program.eval_of_steps? h hn hhalted.step?_eq_none with ⟨io', heval, -, hio, -⟩ | ⟨-, hstuck⟩
    · exact ⟨n + 1, by rw [heval, hio]⟩
    · exact absurd hhalted hstuck.2

theorem Program.fails_iff : p.Fails I links io ↔ GetsStuck I code io := by
  constructor
  · rintro ⟨fuel, heval⟩
    have hsim := h fuel
    rw [heval] at hsim
    exact hsim
  · rintro ⟨d, ⟨n, hn⟩, hstuck⟩
    rcases Program.eval_of_steps? h hn hstuck.1 with ⟨io', -, hdone⟩ | ⟨heval, -⟩
    · exact absurd hdone.1 hstuck.2
    · exact ⟨n + 1, heval⟩

theorem Program.diverges_iff : p.Diverges I links io ↔ RunsOn I code io := by
  constructor
  · intro hdiverges n
    have hsim := h n
    rw [hdiverges n] at hsim
    exact hsim
  · intro hruns fuel
    have hgoes : ∀ d, Reaches I code (.initial io) d → step? I code d ≠ none := by
      rintro d ⟨n, hn⟩ hstep
      have hmore := hruns (n + 1)
      rw [steps?_eq_none hn hstep (Nat.lt_succ_self n)] at hmore
      cases hmore
    have hsim := h fuel
    cases heval : p.eval I links fuel io with
    | finished io' =>
      rw [heval] at hsim
      obtain ⟨d, hd, hdone⟩ := hsim
      exact absurd hdone.1.step?_eq_none (hgoes d hd)
    | failed =>
      rw [heval] at hsim
      obtain ⟨d, hd, hstuck⟩ := hsim
      exact absurd hstuck.1 (hgoes d hd)
    | outOfFuel => rfl

/-- A program leaves nothing on the stack. -/
theorem Program.stack_of_halted {d : Config σ} (hd : Reaches I code (.initial io) d)
    (hhalted : Halted code d) : d.stack = [] := by
  obtain ⟨n, hn⟩ := hd
  rcases Program.eval_of_steps? h hn hhalted.step?_eq_none with ⟨io', -, -, -, hstack⟩ | ⟨-, hstuck⟩
  · exact hstack
  · exact absurd hhalted hstuck.2

end Agreement

/-- Where a source text is compiled without an error, the machine running the code and the evaluation of
    the linked tree agree, whatever the built-in routines do and whatever the input is: the one comes to
    its end if and only if the other does, in the same state of input and output and with nothing left on
    the stack; and they likewise agree on getting stuck and on going on forever. -/
theorem Compilation.run_preserves_meaning {source : String} {c : Compilation} {code : Code}
    (hrun : Compilation.run source = .ok c) (hresult : c.result = .ok code) :
    ∃ p links, c.program = some p ∧ c.resolution = some links ∧
      ∀ (σ : Type) (I : Interpretation σ) (io : σ),
        (∀ io', p.Terminates I links io io' ↔ Halts I code.instructions.toList io io') ∧
        (∀ d, Reaches I code.instructions.toList (.initial io) d → Halted code.instructions.toList d →
          d.stack = []) ∧
        (p.Fails I links io ↔ GetsStuck I code.instructions.toList io) ∧
        (p.Diverges I links io ↔ RunsOn I code.instructions.toList io) := by
  obtain ⟨c', hrun', -, h⟩ := run_ends source
  obtain rfl : c' = c := Except.ok.inj (hrun'.symm.trans hrun)
  rcases h with ⟨stage, hstage, hfailed⟩ | ⟨p, links, types, ds, code', errors, rfl, hchecked, -, hcomplete⟩
  · have hcode := hfailed.isSome_code
    rw [decide_eq_false hstage, Option.isSome_eq_false_iff, Option.isNone_iff_eq_none] at hcode
    simp [result, hcode] at hresult
  · have herrors : errors = [] ∧ code' = code := by
      simp only [result] at hresult
      split at hresult
      · rename_i hnil
        exact ⟨List.isEmpty_iff.mp hnil, Except.ok.inj hresult⟩
      · cases hresult
    obtain ⟨hnil, rfl⟩ := herrors
    obtain ⟨hcode, hlength⟩ := hcomplete hnil
    refine ⟨p, links, rfl, rfl, fun σ I io => ?_⟩
    have hsim := fun fuel =>
      Program.simulates (I := I) hchecked.wellTyped hchecked.counted.nodup hcode hlength fuel io
    exact ⟨fun io' => Program.terminates_iff hsim, fun d => Program.stack_of_halted hsim,
      Program.fails_iff hsim, Program.diverges_iff hsim⟩

/-- A program that reads a number and writes its factorial is compiled, and from the input 4 its code gets
    to the output 24. -/
theorem Compilation.run_factorial_halts :
    let I : Interpretation (List Word × List Word) := fun p operands io =>
      match p, operands, io with
      | .mult, [v, w], io => some (v * w, io)
      | .succ, [w], io => some (w + 1, io)
      | .le, [v, w], io => some (Word.ofBool (decide (v ≤ w)), io)
      | .getInt, [], (w :: input, output) => some (w, input, output)
      | .putInt, [w], (input, output) => some (0, input, output ++ [w])
      | _, _, _ => none
    let source := "let var n : Integer; var r : Integer in begin getint(var n); r := 1; " ++
      "for i := 2 to n do r := r * i next; putint(r) end"
    ∃ c code, Compilation.run source = .ok c ∧ c.result = .ok code ∧
      Halts I code.instructions.toList ([4], []) ([], [24]) := by
  intro I source
  have hcompiled : ((Compilation.run source).toOption.any fun c => c.result.toBool &&
      c.program.any fun p => c.resolution.any fun links =>
        decide (p.eval I links 4 ([4], []) = .finished ([], [24]))) = true := by decide +kernel
  cases hrun : Compilation.run source with
  | error fault =>
    rw [hrun] at hcompiled
    cases hcompiled
  | ok c =>
    rw [hrun] at hcompiled
    obtain ⟨hresult, heval⟩ := Bool.and_eq_true_iff.mp hcompiled
    cases hcode : c.result with
    | error errors =>
      rw [hcode] at hresult
      cases hresult
    | ok code =>
      obtain ⟨p, links, hp, hlinks, hmeaning⟩ := Compilation.run_preserves_meaning hrun hcode
      rw [hp, hlinks] at heval
      exact ⟨c, code, rfl, hcode, ((hmeaning _ I _).1 _).mp ⟨4, of_decide_eq_true heval⟩⟩

end TriangleCompiler
