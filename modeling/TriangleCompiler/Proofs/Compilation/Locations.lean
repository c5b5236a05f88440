import TriangleCompiler.Proofs.Compilation.Places
import TriangleCompiler.Proofs.Compilation.Stages
import TriangleCompiler.Proofs.Generation.Locations
import TriangleCompiler.Proofs.Parser.Origins
import TriangleCompiler.Proofs.Resolution.Binders
import TriangleCompiler.Proofs.Resolution.WriteOnce
import TriangleCompiler.Proofs.Typing.Locations

/-! Where the errors of all stages are reported: at tokens of the text. The phrases of a tree stem from
    tokens, and what the later stages report is at the place of a phrase or of a name in one; what the parser
    reports is at the token at hand, and so in the order of the tokens. -/

namespace TriangleCompiler

open Scoping
open Phrase (Placed Throughout)

/-- The error is at a token of the text, and not at the place of what no text declares. -/
structure AtToken (source : String) (d : Diagnostic) : Prop where
  token : ∃ t ∈ Token.ofString source, t.position = d.position
  ne_builtin : d.position ≠ .builtin

section Stages
variable {source : String} {r : Parser.Result}

theorem atToken_of_mem {d : Diagnostic} (h : ∃ t ∈ Token.ofString source, t.position = d.position) :
    AtToken source d := by
  obtain ⟨t, ht, hposition⟩ := h
  exact ⟨⟨t, ht, hposition⟩, hposition ▸ Token.position_ne_builtin ht⟩

theorem Token.position_of_mem_diagnostics {tokens : List Token} {d : Diagnostic}
    (h : d ∈ Token.diagnostics tokens) : ∃ t ∈ tokens, t.position = d.position := by
  obtain ⟨t, ht, herror⟩ := List.mem_filterMap.mp h
  obtain ⟨cause, -, rfl⟩ := Option.map_eq_some_iff.mp herror
  exact ⟨t, ht, rfl⟩

/-- The errors of the parser are at tokens and in their order. -/
theorem Parser.findings_ordered {tokens : List Token} (h : Program.ofTokens tokens = .ok r) :
    r.findings.Pairwise (·.index ≤ ·.index) ∧
      ∀ f ∈ r.findings, ∃ t, tokens[f.index]? = some t ∧ t.position = f.position := by
  obtain ⟨before, last, rfl, -, rfl⟩ := exists_start_of_ofTokens h
  have hreaches := (readsCommand_command (.start before last)).reaches.endOfText
  have hordered := (State.Ordered.start before last).reaches hreaches
  have hlocated := ((State.StandsIn.start before last).reaches hreaches).located
  exact ⟨List.pairwise_reverse.mpr hordered.pairwise, fun f hf => hlocated f (List.mem_reverse.mp hf)⟩

/-- What is wrong with a name is reported at the name. -/
theorem Scoping.Occurrence.position_of_diagnostic? {o : Occurrence} {d : Diagnostic}
    (h : o.diagnostic? = some d) : d.position = o.name.position := by
  cases o with
  | use | declaration =>
    rw [Occurrence.diagnostic?] at h
    split at h
    · cases h
      rfl
    · cases h

theorem Program.position_of_mem_occurrences {tokens : List Token} (h : Program.ofTokens tokens = .ok r)
    {o : Occurrence} (ho : o ∈ r.program.occurrences) : ∃ t ∈ tokens, t.position = o.name.position := by
  have hnamed : ∃ k, (k, o.name) ∈ r.program.names := by
    have hamong := (r.program.command.occur _).among o ho
    cases o with
    | use => exact hamong
    | declaration => exact ⟨_, hamong⟩
  obtain ⟨k, hname⟩ := hnamed
  exact ⟨_, (Parser.names_ofTokens h).subset (List.mem_map_of_mem hname), rfl⟩

/-- The phrases of a program and the names in them stand at tokens. -/
theorem Program.placed_ofTokens {tokens : List Token} (h : Program.ofTokens tokens = .ok r) :
    Throughout (Placed fun position => ∃ t ∈ tokens, t.position = position) [.command r.program.command] := by
  intro x hx
  have hstems := Parser.stems_ofTokens h x hx
  exact ⟨hstems.located, fun w hw => ⟨_, hstems.word w hw, rfl⟩⟩

end Stages

/-- For every text, each error that any stage reports is at a token of the text: the lexer, the parser, the
    pass that links the names and the check with whatever links, all of which end, and the generator with
    whatever it is told of the program and whatever room it has, even if it stops with a fault. The errors of
    the parser are at tokens that follow each other in the order of the text. -/
theorem Compilation.errors_at_tokens (source : String) : ∃ r s,
    Program.ofTokens (Token.ofString source) = .ok r ∧
    r.program.resolve.finalState (.start r.program) = .ok s ∧
    (∀ d ∈ Token.diagnostics (Token.ofString source), AtToken source d) ∧
    (∀ d ∈ r.diagnostics, AtToken source d) ∧
    (∃ indices : List Nat, indices.Pairwise (· ≤ ·) ∧ List.Forall₂
      (fun i d => ∃ t, (Token.ofString source)[i]? = some t ∧ t.position = d.position) indices r.diagnostics) ∧
    (∀ d ∈ s.errors.toList, AtToken source d) ∧
    (∀ links, ∃ t, (r.program.check links).finalState (.start r.program) = .ok t ∧
      ∀ d ∈ t.errors.toList, AtToken source d) ∧
    ∀ cx code, ∀ d ∈ ((r.program.generate cx).stateAfter (.start r.program code)).errors.toList,
      AtToken source d := by
  obtain ⟨r, hr⟩ := Program.ofTokens_ofString source
  have hids := Parser.counted_ofTokens hr
  have hplaced := Program.placed_ofTokens hr
  obtain ⟨hordered, hlocated⟩ := Parser.findings_ordered hr
  obtain ⟨s, hs, herrors, -⟩ := Program.resolve_start hids
  refine ⟨r, s, hr, by rw [Pass.finalState, hs], ?_, ?_, ?_, ?_, fun links => ?_, fun cx code d hd => ?_⟩
  · exact fun d hd => atToken_of_mem (Token.position_of_mem_diagnostics hd)
  · intro d hd
    obtain ⟨f, hf, rfl⟩ := List.mem_map.mp hd
    obtain ⟨t, ht, hposition⟩ := hlocated f hf
    exact atToken_of_mem ⟨t, List.mem_of_getElem? ht, hposition⟩
  · refine ⟨r.findings.map (·.index), List.pairwise_map.mpr hordered, ?_⟩
    rw [Parser.Result.diagnostics, List.forall₂_map_left_iff, List.forall₂_map_right_iff, List.forall₂_same]
    exact hlocated
  · intro d hd
    rw [herrors] at hd
    obtain ⟨o, ho, hdiagnostic⟩ := List.mem_filterMap.mp hd
    obtain ⟨t, ht, hposition⟩ := Program.position_of_mem_occurrences hr ho
    exact atToken_of_mem ⟨t, ht, hposition.trans (Occurrence.position_of_diagnostic? hdiagnostic).symm⟩
  · obtain ⟨t, ht, -⟩ := Program.check_ends hids links
    have hat := Program.errorsAt_check hplaced links
    rw [Pass.stateAfter_of_finalState ht] at hat
    exact ⟨t, ht, fun d hd => atToken_of_mem (hat d hd)⟩
  · exact atToken_of_mem (Program.errorsAt_generate hplaced cx code d hd)

/-- A text with an error for each stage before the generator: a character that starts no token, for which the
    parser has two errors, a name that is not declared and an argument of the wrong type. -/
theorem Compilation.errors_at_tokens_of_all_stages :
    let source := "putint('a');x:=$"
    ∃ r s t, Program.ofTokens (Token.ofString source) = .ok r ∧
      r.program.resolve.finalState (.start r.program) = .ok s ∧
      (r.program.check s.links).finalState (.start r.program) = .ok t ∧
      (Token.diagnostics (Token.ofString source)).map (·.position) = [⟨1, 16⟩] ∧
      r.diagnostics.map (·.position) = [⟨1, 16⟩, ⟨1, 16⟩] ∧
      s.errors.toList.map (·.position) = [⟨1, 13⟩] ∧ t.errors.toList.map (·.position) = [⟨1, 8⟩] ∧
      (∀ d ∈ Token.diagnostics (Token.ofString source), AtToken source d) ∧
      (∀ d ∈ r.diagnostics, AtToken source d) ∧ (∀ d ∈ s.errors.toList, AtToken source d) ∧
      ∀ d ∈ t.errors.toList, AtToken source d := by
  intro source
  obtain ⟨r, s, hr, hs, hlexer, hparser, -, hresolver, hcheck, -⟩ := Compilation.errors_at_tokens source
  obtain ⟨t, ht, hchecker⟩ := hcheck s.links
  have htokens : (Token.diagnostics (Token.ofString source)).map (·.position) = [⟨1, 16⟩] := by
    decide +kernel
  have hrun : ((Program.ofTokens (Token.ofString source)).toOption.bind fun r =>
      (r.program.resolve.finalState (.start r.program)).toOption.bind fun s =>
        ((r.program.check s.links).finalState (.start r.program)).toOption.map fun t =>
          [r.diagnostics, s.errors.toList, t.errors.toList].map (·.map (·.position))) =
      some [[⟨1, 16⟩, ⟨1, 16⟩], [⟨1, 13⟩], [⟨1, 8⟩]] := by
    decide +kernel
  simp only [hr, hs, ht, Except.toOption, Option.bind_some, Option.map_some, Option.some.injEq, List.map_cons,
    List.map_nil, List.cons.injEq, and_true] at hrun
  obtain ⟨hparsed, hresolved, hchecked⟩ := hrun
  exact ⟨r, s, t, hr, hs, ht, htokens, hparsed, hresolved, hchecked, hlexer, hparser, hresolver, hchecker⟩

end TriangleCompiler
