import TriangleCompiler.Proofs.Parser.Correctness
import TriangleCompiler.Proofs.Typing.Soundness

/-! The check against the rules: for a program that is read and resolved without an error, nothing is
    reported exactly if the program is well-typed, and then the types that are recorded are those that the
    rules give. -/

namespace TriangleCompiler

open Typing

/-- The check of any tree whose nodes have different numbers ends, with any links. -/
theorem Program.check_ends {p : Program} (hids : Parser.Counted p.command.ids 0 p.nodeCount)
    (links : Resolution) : ∃ t, (p.check links).finalState (.start p) = .ok t ∧
      Reports .check #[] t.errors ∧
      (t.errors = #[] → Resolution.Realized links (p.command.events .standard) →
        p.command.shape?.isSome → ∃ ds, WellTyped links .empty p.command ds) := by
  have hfree : (NodeTable.empty p.nodeCount : Types).Free p.command.ids :=
    NodeTable.free_empty fun id hid => hids.lt hid
  obtain ⟨_, t, hok, -, hreports, hquiet⟩ :=
    judges_command links p.command (s := .start p) hids.nodup hfree
  refine ⟨t, by rw [Program.check, Pass.finalState, hok], hreports, fun herrors hreal hshape => ?_⟩
  have hsituation : Situation .standard .empty none (State.start p).types :=
    ⟨covers_standard, Environment.recordedIn_empty _⟩
  exact hquiet (by simp [herrors, State.start]) .standard .empty hsituation hreal hshape

/-- A well-typed program passes the check, and gets the types of the rules. -/
theorem Program.check_of_wellTyped {p : Program} (hids : Parser.Counted p.command.ids 0 p.nodeCount)
    {links : Resolution} {ds : Decoration} (h : WellTyped links .empty p.command ds) :
    (p.check links).finalState (.start p) = .ok ⟨(NodeTable.empty p.nodeCount).writeAll ds, #[]⟩ ∧
      ∀ id type, ((NodeTable.empty p.nodeCount).writeAll ds).get? id = some type ↔ (id, type) ∈ ds := by
  have hfree : (NodeTable.empty p.nodeCount : Types).Free p.command.ids :=
    NodeTable.free_empty fun id hid => hids.lt hid
  have hok := h.check_ok (s := .start p) (Environment.recordedIn_empty _) hids.nodup hfree
  refine ⟨by rw [Program.check, Pass.finalState, hok]; rfl, fun id type => ?_⟩
  rw [NodeTable.get?_writeAll (h.within.nodup hids.nodup) (hfree.mono fun _ => h.within.mem)]
  simp

/-- A program that is read, resolved and checked without an error is well-typed, and the types of its nodes
    are those of the rules. -/
theorem Program.exists_wellTyped {tokens : List Token} {r : Parser.Result} {s : Resolution.State}
    {t : Typing.State} (hparse : Program.ofTokens tokens = .ok r) (hfindings : r.findings = [])
    (hresolve : r.program.resolve.finalState (.start r.program) = .ok s) (herrors : s.errors = #[])
    (hcheck : (r.program.check s.links).finalState (.start r.program) = .ok t) (htypes : t.errors = #[]) :
    ∃ ds, WellTyped s.links .empty r.program.command ds ∧
      ∀ id type, t.types.get? id = some type ↔ (id, type) ∈ ds := by
  have hids := Parser.counted_ofTokens hparse
  obtain ⟨x, hx⟩ := Parser.shape?_ofTokens hparse hfindings
  obtain ⟨s', hs', -, hreal⟩ := r.program.resolve_ok hids
  cases hs'.symm.trans hresolve
  obtain ⟨t', ht', -, hsound⟩ := r.program.check_ends hids s.links
  cases ht'.symm.trans hcheck
  obtain ⟨ds, hds⟩ := hsound htypes (hreal herrors) (by simp [hx])
  obtain ⟨hok, hget⟩ := Program.check_of_wellTyped hids hds
  cases hok.symm.trans hcheck
  exact ⟨ds, hds, hget⟩

/-- Of a program that is read and resolved without an error the check reports nothing exactly if the
    program is well-typed, and then what it records is what the rules derive. -/
theorem Program.check_reports_nothing_iff_wellTyped {tokens : List Token} {r : Parser.Result}
    {s : Resolution.State} (hparse : Program.ofTokens tokens = .ok r) (hfindings : r.findings = [])
    (hresolve : r.program.resolve.finalState (.start r.program) = .ok s) (herrors : s.errors = #[]) :
    ∃ t, (r.program.check s.links).finalState (.start r.program) = .ok t ∧
      (t.errors = #[] ↔ ∃ ds, WellTyped s.links .empty r.program.command ds) ∧
      ∀ ds, WellTyped s.links .empty r.program.command ds →
        ∀ id type, t.types.get? id = some type ↔ (id, type) ∈ ds := by
  have hids := Parser.counted_ofTokens hparse
  obtain ⟨x, hx⟩ := Parser.shape?_ofTokens hparse hfindings
  have hreal : Resolution.Realized s.links (r.program.command.events .standard) := by
    obtain ⟨s', hok, -, hreal⟩ := r.program.resolve_ok hids
    cases hok.symm.trans hresolve
    exact hreal herrors
  obtain ⟨t, hok, -, hsound⟩ := r.program.check_ends hids s.links
  refine ⟨t, hok, ⟨fun h => hsound h hreal (by simp [hx]), ?_⟩, ?_⟩
  · rintro ⟨ds, hds⟩
    cases (Program.check_of_wellTyped hids hds).1.symm.trans hok
    rfl
  · intro ds hds
    obtain ⟨hok', hget⟩ := Program.check_of_wellTyped hids hds
    cases hok'.symm.trans hok
    exact hget

/-- The tokens of `let const n ~ 1; var b : Boolean in b := n = 2`: the constant and the operands of `=`
    are integers, and the variable and the comparison are truth values. -/
theorem Program.check_reports_nothing_comparison :
    let token (k : Token.Kind) (spelling : String) : Token := ⟨k, spelling, ⟨1, 1⟩⟩
    let tokens := [token (.keyword .let_) "let", token (.keyword .const) "const", token .identifier "n",
      token .tilde "~", token .intLiteral "1", token .semicolon ";", token (.keyword .var) "var",
      token .identifier "b", token .colon ":", token .identifier "Boolean", token (.keyword .in_) "in",
      token .identifier "b", token .becomes ":=", token .identifier "n", token .operator "=",
      token .intLiteral "2", token .endOfText ""]
    ∃ r s t, Program.ofTokens tokens = .ok r ∧ r.findings = [] ∧
      r.program.resolve.finalState (.start r.program) = .ok s ∧ s.errors = #[] ∧
      (r.program.check s.links).finalState (.start r.program) = .ok t ∧
      ∃ ds, WellTyped s.links .empty r.program.command ds ∧
        [(0, .integer), (3, .boolean), (9, .integer), (11, .integer), (12, .boolean)] ⊆ ds := by
  intro token tokens
  have hrun : ((Program.ofTokens tokens).toOption.any fun r => r.findings.isEmpty &&
      (r.program.resolve.finalState (.start r.program)).toOption.any fun s => s.errors.isEmpty &&
        ((r.program.check s.links).finalState (.start r.program)).toOption.any fun t =>
          t.errors.isEmpty && [0, 3, 9, 11, 12].map t.types.get? =
            [some .integer, some .boolean, some .integer, some .integer, some .boolean]) = true := by
    decide +kernel
  cases hr : Program.ofTokens tokens with
  | error fault =>
    rw [hr] at hrun
    cases hrun
  | ok r =>
    rw [hr] at hrun
    obtain ⟨hf, hrun⟩ := Bool.and_eq_true_iff.mp hrun
    cases hs : r.program.resolve.finalState (.start r.program) with
    | error fault =>
      rw [hs] at hrun
      cases hrun
    | ok s =>
      rw [hs] at hrun
      obtain ⟨he, hrun⟩ := Bool.and_eq_true_iff.mp hrun
      rw [List.isEmpty_iff] at hf
      rw [Array.isEmpty_iff] at he
      obtain ⟨t, ht, hiff, hget⟩ := Program.check_reports_nothing_iff_wellTyped hr hf hs he
      rw [ht] at hrun
      obtain ⟨hnone, htypes⟩ := Bool.and_eq_true_iff.mp hrun
      simp only [decide_eq_true_eq, List.map_cons, List.map_nil, List.cons.injEq, and_true] at htypes
      obtain ⟨h₀, h₃, h₉, h₁₁, h₁₂⟩ := htypes
      obtain ⟨ds, hds⟩ := hiff.mp (Array.isEmpty_iff.mp hnone)
      refine ⟨r, s, t, rfl, hf, hs, he, ht, ds, hds, ?_⟩
      simp only [List.cons_subset, List.nil_subset, ← hget ds hds, h₀, h₃, h₉, h₁₁, h₁₂, and_self]

end TriangleCompiler
