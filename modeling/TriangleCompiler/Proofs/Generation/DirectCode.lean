import TriangleCompiler.Proofs.Generation.Correctness
import TriangleCompiler.Proofs.Generation.Patching
import TriangleCompiler.Proofs.Generation.Targets
import TriangleCompiler.Proofs.Typing.Correctness
import TriangleCompiler.Token.Lexer

/-! Code that is written down at once against code whose jumps are completed later. How long the code of a
    phrase is depends neither on where it starts nor on where its jumps go, so every target is known
    beforehand; and what the generator has at the end is the code with these targets. -/

namespace TriangleCompiler

open Machine (Code Instruction Word)
open Typing Generation

/-- A program that is read, resolved and checked without an error is well-typed, and the types of its nodes
    are recorded. -/
theorem Program.wellTyped_of_check {tokens : List Token} {r : Parser.Result} {s : Resolution.State}
    {t : Typing.State} (hparse : Program.ofTokens tokens = .ok r) (hfindings : r.findings = [])
    (hresolve : r.program.resolve.finalState (.start r.program) = .ok s) (herrors : s.errors = #[])
    (hcheck : (r.program.check s.links).finalState (.start r.program) = .ok t) (htypes : t.errors = #[]) :
    ∃ ds, WellTyped s.links .empty r.program.command ds ∧ Records ⟨s.links, t.types⟩ ds := by
  obtain ⟨ds, hds, hget⟩ := Program.exists_wellTyped hparse hfindings hresolve herrors hcheck htypes
  exact ⟨ds, hds, fun d hd => (hget d.1 d.2).mpr hd⟩

/-- Code is generated for every program that is read, resolved and checked without an error, and an error
    is reported exactly if there is no room for the code that is written down at once. If there is, the
    generator ends with just this code. It gets there by emitting instructions; each of them stays as it is,
    or one patch changes its operand and nothing else. The sizes that the targets are computed from do not
    depend on where the code starts, and the code of a sequence is that of its parts, each of them starting
    where the one before ends. -/
theorem Program.generate_eq_direct {tokens : List Token} {r : Parser.Result} {s : Resolution.State}
    {t : Typing.State} {room : Code} (hparse : Program.ofTokens tokens = .ok r) (hfindings : r.findings = [])
    (hresolve : r.program.resolve.finalState (.start r.program) = .ok s) (herrors : s.errors = #[])
    (hcheck : (r.program.check s.links).finalState (.start r.program) = .ok t) (htypes : t.errors = #[])
    (hroom : room.instructions = #[]) :
    let direct := r.program.fullCode s.links Int16.ofNat
    ∃ u es, (r.program.generate ⟨s.links, t.types⟩).finalState (.start r.program room) = .ok u ∧
      Runs (r.program.generate ⟨s.links, t.types⟩) (.start r.program room) es () u ∧
      (u.errors = #[] ↔ direct.length ≤ room.limit) ∧
      (direct.length ≤ room.limit → u.code.instructions.toList = direct) ∧
      u.code.instructions.toList = replay [] es ∧ (patched es).Nodup ∧
      u.code.instructions.toList.map withoutOperand = (emitted es).map withoutOperand ∧
      (∀ a, a ∉ patched es → u.code.instructions.toList[a]? = (emitted es)[a]?) ∧
      (∀ (c : Command) (L : Layout) (start start' : Nat), (c.code s.links Int16.ofNat L start).length =
        (c.code s.links Int16.ofNat L start').length) ∧
      ∀ (L : Layout) (start : Nat) (cs cs' : List Command),
        commandsCode s.links Int16.ofNat L start (cs ++ cs') =
          commandsCode s.links Int16.ofNat L start cs ++ commandsCode s.links Int16.ofNat L
            (start + (commandsCode s.links Int16.ofNat L start cs).length) cs' := by
  intro direct
  obtain ⟨ds, hds, hrecords⟩ :=
    Program.wellTyped_of_check hparse hfindings hresolve herrors hcheck htypes
  obtain ⟨u, hu, htracks⟩ := Program.generate_ends (Parser.counted_ofTokens hparse) hds hrecords hroom
  obtain ⟨⟨⟩, hok⟩ := Pass.exists_of_finalState hu
  obtain ⟨es, hruns, honce⟩ := Program.tidy _ _ _ _ _ hok
  have hempty : (Generation.State.start r.program room).code.instructions.toList = [] := by
    simp [Generation.State.start, hroom]
  have hreplay := hruns.instructions_eq
  rw [hempty] at hreplay
  have hlength : (r.program.fullCode s.links (cappedTarget room.limit)).length = direct.length :=
    r.program.length_fullCode s.links _ _
  refine ⟨u, es, hu, hruns, ⟨fun hnone => ?_, fun hfits => ?_⟩, fun hfits => ?_, hreplay, ?_, ?_,
    fun a ha => ?_, fun c L => c.length_code s.links _ _ L, commandsCode_append s.links _⟩
  · exact Nat.le_of_not_lt fun hlt => htracks.reported (hlength ▸ hlt) hnone
  · exact htracks.clean (hlength ▸ hfits)
  · rw [htracks.code, Program.fullCode_cappedTarget hfits, List.take_of_length_le hfits]
  · refine List.nodup_iff_count.mpr fun a => Nat.le_trans (honce a) ?_
    rw [List.count_nil, Nat.zero_add]
    split <;> omega
  · rw [hreplay, map_withoutOperand_replay, List.nil_append]
  · rw [hreplay, getElem?_replay_of_not_mem ha, List.nil_append]

/-- A loop in one of two branches: three jumps forward, which are patched, and one back. -/
theorem Program.generate_eq_direct_branches :
    let source := "if (1 > 2) then puteol() else while (1 < 0) do puteol() endif"
    ∃ r s t u es, Program.ofTokens (Token.ofString source) = .ok r ∧ r.findings = [] ∧
      r.program.resolve.finalState (.start r.program) = .ok s ∧ s.errors = #[] ∧
      (r.program.check s.links).finalState (.start r.program) = .ok t ∧ t.errors = #[] ∧
      Runs (r.program.generate ⟨s.links, t.types⟩) (.start r.program .empty) es () u ∧
      u.errors = #[] ∧ (patched es).Nodup ∧
      u.code.instructions.toList = [.loadLiteral 1, .loadLiteral 2, .call .gt, .jumpIf 0 6, .call .putEol,
        .jump 12, .jump 8, .call .putEol, .loadLiteral 1, .loadLiteral 0, .call .lt, .jumpIf 1 7, .halt] := by
  intro source
  have hrun : ((Program.ofTokens (Token.ofString source)).toOption.any fun r => r.findings.isEmpty &&
      (r.program.resolve.finalState (.start r.program)).toOption.any fun s => s.errors.isEmpty &&
        ((r.program.check s.links).finalState (.start r.program)).toOption.any fun t => t.errors.isEmpty &&
          decide (r.program.fullCode s.links Int16.ofNat = [.loadLiteral 1, .loadLiteral 2, .call .gt,
            .jumpIf 0 6, .call .putEol, .jump 12, .jump 8, .call .putEol, .loadLiteral 1, .loadLiteral 0,
            .call .lt, .jumpIf 1 7, .halt])) = true := by
    decide +kernel
  cases hr : Program.ofTokens (Token.ofString source) with
  | error fault =>
    rw [hr] at hrun
    cases hrun
  | ok r =>
    rw [hr] at hrun
    obtain ⟨hf, hrun⟩ := Bool.and_eq_true_iff.mp hrun
    cases hs : r.program.resolve.finalState (.start r.program) with
    | error fault =>
      rw [hs] at hrun
      cases hrun
    | ok s =>
      rw [hs] at hrun
      obtain ⟨he, hrun⟩ := Bool.and_eq_true_iff.mp hrun
      cases ht : (r.program.check s.links).finalState (.start r.program) with
      | error fault =>
        rw [ht] at hrun
        cases hrun
      | ok t =>
        rw [ht] at hrun
        obtain ⟨hn, hrun⟩ := Bool.and_eq_true_iff.mp hrun
        rw [List.isEmpty_iff] at hf
        rw [Array.isEmpty_iff] at he hn
        have hdirect := of_decide_eq_true hrun
        obtain ⟨u, es, -, hruns, hiff, hcode, -, hnodup, -⟩ :=
          Program.generate_eq_direct hr hf hs he ht hn (rfl : Code.empty.instructions = #[])
        rw [hdirect] at hiff hcode
        have hfits : 13 ≤ Code.empty.limit := by decide
        exact ⟨r, s, t, u, es, rfl, hf, hs, he, ht, hn, hruns, hiff.mpr hfits, hnodup, hcode hfits⟩

end TriangleCompiler
