import TriangleCompiler.Proofs.Compilation.Stages
import TriangleCompiler.Proofs.Generation.TruthValues

/-! Truth values in compiled programs: whatever the built-in routines lead to otherwise, every condition and
    everything that is declared as a Boolean is one of the words 0 and 1. -/

namespace TriangleCompiler

open Generation Machine
open Typing

/-- The machine keeps to the types of a well-typed program for as long as it runs. -/
theorem Program.safe {σ : Type} {I : Interpretation σ} {p : Program} {links : Resolution} {types : Types}
    {ds : Decoration} (h : WellTyped links .empty p.command ds) (hds : Records ⟨links, types⟩ ds)
    (hnodup : p.command.ids.Nodup) (hlength : (p.fullCode links (cappedTarget Word.max)).length ≤ Word.max)
    (hI : I.Truthful) (io : σ) (n : Nat) :
    let l : Listing := ⟨p.fullCode links (cappedTarget Word.max), p.layouts links, types⟩
    Safe I l.code l.Sound n (.initial io) := by
  intro l
  have hat : l.Places 0 (p.command.code links (cappedTarget Word.max) .empty 0 ++ [Instruction.halt])
      (p.command.layouts links .empty ++ [.empty]) :=
    ⟨⟨[], [], (List.append_nil _).symm, rfl⟩, ⟨[], [], (List.append_nil _).symm, rfl⟩⟩
  have hatEnd : l.Stands .empty _ [.halt] := hat.right (p.command.length_layouts .empty 0)
  have hend : SafeAt I l n .empty (0 + (p.command.code links (cappedTarget Word.max) .empty 0).length) := by
    intro store stack io hstack hagrees
    refine .of_next (hatEnd.sound (.of_op .halt rfl (by decide)) hstack.holds hagrees fun ht => ?_)
      fun d hd => ?_
    · exact absurd ht (Instruction.not_takesTruth rfl (by decide) (by decide))
    · rw [Halted.step?_eq_none (by rw [Halted, hatEnd.head]; rfl)] at hd
      cases hd
  have hstart := h.safe hI hlength (Environment.recordedIn_empty types) hds (Layout.fits_empty _) hnodup
    (fun _ _ => rfl) (Nat.le_refl 0) hat.left hend
  have hstore : Agrees types fun _ => 0 := fun _ type _ => type.admits_zero
  exact hstart _ [] io ⟨rfl, fun _ _ hplace => by cases hplace⟩ hstore

/-- Where a source text is compiled without an error, no run of the code takes anything else for a truth
    value than the words 0 and 1, as long as comparisons, negation and the tests for the end of the input
    or of a line lead to these words, whatever all other routines lead to: a conditional jump pops one of
    them, negation pops one of them, and the variables and the stored constants of the type Boolean that
    have a place before the next instruction have one of them in it. The next instruction addresses no word
    of the stack but those of names that have a place. -/
theorem Compilation.run_keeps_truth_values {source : String} {c : Compilation} {code : Code}
    (hrun : Compilation.run source = .ok c) (hresult : c.result = .ok code) :
    ∃ p links types, c.program = some p ∧ c.resolution = some links ∧ c.types = some types ∧
      ∀ (σ : Type) (I : Interpretation σ) (io : σ) (d : Config σ), I.Truthful →
        Reaches I code.instructions.toList (.initial io) d →
        (∀ i, code.instructions.toList[d.pc]? = some i → i.op = .jumpIf → TruthOnTop d.stack) ∧
        (code.instructions.toList[d.pc]? = some (.call .not) → TruthOnTop d.stack) ∧
        ∃ L, (p.layouts links)[d.pc]? = some L ∧
          (∀ id assignable k, L.place? id = some (.slot assignable k) → types.get? id = some .boolean →
            ∃ w, d.stack[k]? = some w ∧ w.IsTruth) ∧
          ∀ i, code.instructions.toList[d.pc]? = some i → L.Covers i := by
  obtain ⟨p, links, types, ds, rfl, hchecked, hcode, hlength⟩ := eq_of_result hrun hresult
  refine ⟨p, links, types, rfl, rfl, rfl, fun σ I io d hI hd => ?_⟩
  rw [hcode] at hlength hd ⊢
  obtain ⟨⟨L, store, hL, hholds, hagrees, hcovers⟩, hpopped⟩ := Safe.of_reaches
    (Program.safe hchecked.wellTyped hchecked.records hchecked.counted.nodup hlength hI io) hd
  refine ⟨fun i hi hop => hpopped i hi (Or.inl hop), fun hi => hpopped _ hi (Or.inr rfl), L, hL, ?_, hcovers⟩
  intro id assignable k hplace htype
  exact ⟨store id, hholds id _ hplace, hagrees id _ htype⟩

/-- In a program with a Boolean variable and a stored Boolean constant the first ten steps lead to the jump at
    the end of a loop. All routines but those for truth values lead to 7, also the one that reads a number;
    the condition and the constant are truth values nevertheless. -/
theorem Compilation.run_keeps_truth_values_loop :
    let source := "let var done : Boolean; const flag ~ 1 < 2; var n : Integer in begin getint(var n); " ++
      "while (!done) do begin done := n < 3; n := n - 1 end; if (!flag) then putint(n) endif end"
    let I : Interpretation Unit := fun p operands io =>
      some (if p ∈ [Primitive.lt, .gt, .le, .eq, .not, .eof, .eol] then Word.ofBool (operands.all (· == 0))
        else 7, io)
    ∃ c code p links types d, Compilation.run source = .ok c ∧ c.result = .ok code ∧ c.program = some p ∧
      c.resolution = some links ∧ c.types = some types ∧ I.Truthful ∧
      steps? I code.instructions.toList 10 (.initial ()) = some d ∧
      (∃ i, code.instructions.toList[d.pc]? = some i ∧ i.op = .jumpIf) ∧ TruthOnTop d.stack ∧
      ∃ L w, (p.layouts links)[d.pc]? = some L ∧ L.place? 4 = some (.slot false 1) ∧
        types.get? 4 = some .boolean ∧ d.stack[1]? = some w ∧ w.IsTruth := by
  intro source I
  have htruth : ∀ p ∈ [Primitive.lt, .gt, .le, .eq, .not, .eof, .eol], ∀ operands io r,
      I p operands io = some r → r.1.IsTruth := by
    intro p hp operands io r hr
    cases hr
    show Word.IsTruth (if _ then _ else _)
    rw [if_pos hp]
    exact Word.isTruth_ofBool _
  have hI : I.Truthful :=
    ⟨fun p hp v w => htruth p (List.mem_append_left [Primitive.not, .eof, .eol] hp) [v, w],
      fun w io r _ => htruth .not (by decide) [w] io r,
      fun p hp => htruth p (List.mem_append_right [Primitive.lt, .gt, .le, .eq, .not] hp) []⟩
  have hcompiled : ((Compilation.run source).toOption.any fun c => c.result.toOption.any fun code =>
      (steps? I code.instructions.toList 10 (.initial ())).any fun d =>
        (code.instructions.toList[d.pc]?.any fun i => i.op = .jumpIf) &&
        c.program.any fun p => c.resolution.any fun links => c.types.any fun types =>
          ((p.layouts links)[d.pc]?.any fun L => L.place? 4 = some (.slot false 1)) &&
          types.get? 4 = some .boolean) = true := by decide +kernel
  simp only [Option.any_eq_true, Bool.and_eq_true, decide_eq_true_eq] at hcompiled
  obtain ⟨c, hc, code, hcode, d, hd, ⟨i, hi, hop⟩, p, hp, links, hlinks, types, htypes, ⟨L, hL, hplace⟩,
    htype⟩ := hcompiled
  have hrun := eq_ok_of_toOption hc
  have hresult := eq_ok_of_toOption hcode
  obtain ⟨p', links', types', hp', hlinks', htypes', hkeeps⟩ :=
    Compilation.run_keeps_truth_values hrun hresult
  cases hp.symm.trans hp'
  cases hlinks.symm.trans hlinks'
  cases htypes.symm.trans htypes'
  obtain ⟨hjump, -, L', hL', hlive, -⟩ := hkeeps Unit I () d hI ⟨10, hd⟩
  cases hL.symm.trans hL'
  obtain ⟨w, hw, htruth⟩ := hlive 4 false 1 hplace htype
  exact ⟨c, code, p, links, types, d, hrun, hresult, hp, hlinks, htypes, hI, hd, ⟨i, hi, hop⟩,
    hjump i hi hop, L, w, hL, hplace, htype, hw, htruth⟩

end TriangleCompiler
