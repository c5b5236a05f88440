import TriangleCompiler.Proofs.Compilation.Stages
import TriangleCompiler.Proofs.Generation.Rewording
import TriangleCompiler.Proofs.Resolution.Rewording
import TriangleCompiler.Proofs.Typing.Rewording

/-! Compilations do not depend on the layout of their texts. What a text is compiled to is a matter of the
    kinds and the spellings of its tokens: texts that have these in common are compiled to the same code, or
    for both the same errors are reported, each at its own place. -/

namespace TriangleCompiler

/-- Everything at one place, in the same words. -/
def Rewording.unplaced : Rewording := ⟨fun _ => .start, fun _ spelling => spelling, rfl⟩

theorem Rewording.keeps_unplaced : unplaced.Keeps := fun _ _ => rfl

namespace Compilation

/-- Compiles tokens. -/
def ofTokens (tokens : List Token) : Except Fault Compilation := do
  let c ← unlessFailed parse ⟨tokens, none, none, none, none, Token.diagnostics tokens⟩
  let c ← unlessFailed resolve c
  let c ← unlessFailed check c
  unlessFailed generate c

theorem run_eq_ofTokens (source : String) : run source = ofTokens (Token.ofString source) := rfl

/-- The one compilation is the other in other words. -/
structure Reworded (w : Rewording) (c c' : Compilation) : Prop where
  tokens_eq : c'.tokens = c.tokens.map (·.reword w)
  program_eq : c'.program = c.program.map (·.reword w)
  resolution_eq : c'.resolution = c.resolution
  types_eq : c'.types = c.types
  code_eq : c'.code = c.code
  errors : List.Forall₂ w.Restates c.errors c'.errors

/-- Both end, one in other words than the other, or both end with the same fault. -/
inductive Alike (w : Rewording) : Except Fault Compilation → Except Fault Compilation → Prop where
  | ok {c c' : Compilation} : Reworded w c c' → Alike w (.ok c) (.ok c')
  | error {fault : Fault} : Alike w (.error fault) (.error fault)

variable {w : Rewording} {c c' : Compilation}

theorem Alike.bind {x x' : Except Fault Compilation} {f : Compilation → Except Fault Compilation}
    (hx : Alike w x x') (hf : ∀ {c c'}, Reworded w c c' → Alike w (f c) (f c')) :
    Alike w (x >>= f) (x' >>= f) := by
  cases hx with
  | ok h => exact hf h
  | error => exact .error

/-! ### The stages one by one -/

theorem Reworded.isEmpty_errors (h : Reworded w c c') : c'.errors.isEmpty = c.errors.isEmpty := by
  rw [Bool.eq_iff_iff, List.isEmpty_iff_length_eq_zero, List.isEmpty_iff_length_eq_zero, h.errors.length_eq]

theorem alike_unlessFailed {stage : Compilation → Except Fault Compilation} (h : Reworded w c c')
    (hstage : Reworded w c c' → Alike w (stage c) (stage c')) :
    Alike w (unlessFailed stage c) (unlessFailed stage c') := by
  unfold unlessFailed
  rw [h.isEmpty_errors]
  split
  · exact hstage h
  · exact .ok h

theorem restates_diagnostics (w : Rewording) (tokens : List Token) :
    List.Forall₂ w.Restates (Token.diagnostics tokens) (Token.diagnostics (tokens.map (·.reword w))) := by
  induction tokens with
  | nil => exact .nil
  | cons t tokens ih =>
    have herror : (t.reword w).lexicalError? = t.lexicalError? := by
      unfold Token.lexicalError? Token.reword
      cases t.kind <;> rfl
    unfold Token.diagnostics at ih ⊢
    rw [List.map_cons, List.filterMap_cons, List.filterMap_cons, herror]
    cases t.lexicalError? with
    | none => exact ih
    | some cause => exact .cons ⟨rfl, fun _ => rfl⟩ ih

theorem alike_parse (h : Reworded w c c') : Alike w (parse c) (parse c') := by
  unfold parse
  rw [h.tokens_eq, Program.ofTokens_reword]
  cases Program.ofTokens c.tokens with
  | error fault => exact .error
  | ok r =>
    have hfindings : List.Forall₂ w.Restates r.diagnostics (r.reword w).diagnostics := by
      simp only [Parser.Result.diagnostics, Parser.Result.reword, List.map_map, List.forall₂_map_left_iff,
        List.forall₂_map_right_iff, List.forall₂_same]
      exact fun f _ => ⟨rfl, fun _ => rfl⟩
    exact .ok ⟨rfl, rfl, h.resolution_eq, h.types_eq, h.code_eq, List.rel_append h.errors hfindings⟩

theorem alike_resolve (hw : w.Keeps) (h : Reworded w c c') : Alike w (resolve c) (resolve c') := by
  unfold resolve
  rw [h.program_eq]
  cases c.program with
  | none => exact .ok h
  | some p =>
    rw [Option.map_some]
    dsimp only
    obtain ⟨s, t, hs, ht, hst⟩ | ⟨fault, hs, ht⟩ :=
      (p.follows_resolve hw).finalState (Resolution.Reworded.start w p)
    · rw [hs, ht]
      exact .ok ⟨h.tokens_eq, rfl, congrArg some hst.links_eq, h.types_eq, h.code_eq,
        List.rel_append h.errors hst.errors⟩
    · rw [hs, ht]
      exact .error

theorem alike_check (h : Reworded w c c') : Alike w (check c) (check c') := by
  unfold check
  rw [h.program_eq, h.resolution_eq]
  cases c.program with
  | none => exact .ok h
  | some p =>
    cases c.resolution with
    | none => exact .ok h
    | some links =>
      rw [Option.map_some]
      dsimp only
      obtain ⟨s, t, hs, ht, hst⟩ | ⟨fault, hs, ht⟩ :=
        (p.follows_check w links).finalState (Typing.Reworded.start w p)
      · rw [hs, ht]
        exact .ok ⟨h.tokens_eq, rfl, rfl, congrArg some hst.types_eq, h.code_eq,
          List.rel_append h.errors hst.errors⟩
      · rw [hs, ht]
        exact .error

theorem alike_generate (h : Reworded w c c') : Alike w (generate c) (generate c') := by
  unfold generate
  rw [h.program_eq, h.resolution_eq, h.types_eq]
  cases c.program with
  | none => exact .ok h
  | some p =>
    cases c.resolution with
    | none => exact .ok h
    | some links =>
      cases c.types with
      | none => exact .ok h
      | some types =>
        rw [Option.map_some]
        dsimp only
        obtain ⟨s, t, hs, ht, hst⟩ | ⟨fault, hs, ht⟩ :=
          (p.follows_generate w ⟨links, types⟩).finalState (Generation.Reworded.start w p .empty)
        · have herrors : List.Forall₂ w.Restates s.errors.toList t.errors.toList := by
            rw [hst]
            simp only [Generation.State.reword, Array.toList_map, List.forall₂_map_right_iff,
              List.forall₂_same]
            exact fun d _ => ⟨rfl, fun _ => rfl⟩
          have hcode : t.code = s.code := by rw [hst]; rfl
          rw [hs, ht]
          exact .ok ⟨h.tokens_eq, rfl, rfl, rfl, congrArg some hcode, List.rel_append h.errors herrors⟩
        · rw [hs, ht]
          exact .error

/-! ### Whole compilations -/

/-- Tokens that are moved to other places are compiled to the same. -/
theorem alike_ofTokens (hw : w.Keeps) (tokens : List Token) :
    Alike w (ofTokens tokens) (ofTokens (tokens.map (·.reword w))) := by
  have hscan : Reworded w ⟨tokens, none, none, none, none, Token.diagnostics tokens⟩
      ⟨tokens.map (·.reword w), none, none, none, none, Token.diagnostics (tokens.map (·.reword w))⟩ :=
    ⟨rfl, rfl, rfl, rfl, rfl, restates_diagnostics w tokens⟩
  refine (alike_unlessFailed hscan alike_parse).bind fun h => ?_
  refine (alike_unlessFailed h (alike_resolve hw)).bind fun h => ?_
  exact (alike_unlessFailed h alike_check).bind fun h => alike_unlessFailed h alike_generate

theorem Reworded.causes_eq (hw : w.Keeps) (h : Reworded w c c') :
    c'.errors.map Located.value = c.errors.map Located.value := by
  have herrors := h.errors
  generalize c.errors = ds at herrors
  generalize c'.errors = ds' at herrors
  induction herrors with
  | nil => rfl
  | cons hd _ ih => rw [List.map_cons, List.map_cons, ih, hd.2 hw]

end Compilation

/-- The kinds and the spellings of tokens. -/
def Token.words (tokens : List Token) : List (Token.Kind × String) := tokens.map fun t => (t.kind, t.spelling)

theorem Token.map_reword_unplaced {tokens tokens' : List Token} (h : words tokens = words tokens') :
    tokens.map (·.reword .unplaced) = tokens'.map (·.reword .unplaced) := by
  have hword : ∀ t : Token, t.reword .unplaced =
      (fun word : Token.Kind × String => (⟨word.1, word.2, .start⟩ : Token)) (t.kind, t.spelling) := by
    intro t
    simp [Token.reword, Rewording.unplaced]
  have hmap : ∀ ts : List Token, ts.map (·.reword .unplaced) =
      (words ts).map fun word => (⟨word.1, word.2, .start⟩ : Token) := by
    intro ts
    rw [words, List.map_map]
    exact List.map_congr_left fun t _ => hword t
  rw [hmap, hmap, h]

namespace Compilation

/-- Two compilations that are the same in other words. -/
theorem alike_of_words {tokens tokens' : List Token} (h : Token.words tokens = Token.words tokens')
    {c : Compilation} (hc : ofTokens tokens = .ok c) : ∃ c' c₀, ofTokens tokens' = .ok c' ∧
      Reworded .unplaced c c₀ ∧ Reworded .unplaced c' c₀ := by
  have hleft := alike_ofTokens Rewording.keeps_unplaced tokens
  have hright := alike_ofTokens Rewording.keeps_unplaced tokens'
  rw [hc, Token.map_reword_unplaced h] at hleft
  generalize ofTokens (tokens'.map (·.reword .unplaced)) = x at hleft hright
  cases hleft with
  | @ok _ c₀ h₀ =>
    generalize hx : ofTokens tokens' = x' at hright
    cases hright with
    | @ok c' _ h' => exact ⟨c', c₀, rfl, h₀, h'⟩

theorem result_of_code {c : Compilation} {code : Machine.Code} (hcode : c.code = some code)
    (hnil : c.errors = []) : c.result = .ok code := by
  rw [result, hcode, hnil]
  rfl

theorem result_of_errors {c : Compilation} (h : c.errors ≠ []) : c.result = .error c.errors := by
  unfold result
  cases c.code with
  | none => rfl
  | some code => exact if_neg (by simpa using h)

/-- Texts whose tokens have the same kinds and the same spellings are compiled to the same: to trees that
    are the same but for places, with the same links and the same types, and to the same code; or the same
    errors are reported for both, in the same order. -/
theorem run_ignores_layout {source source' : String}
    (h : Token.words (Token.ofString source) = Token.words (Token.ofString source')) :
    ∃ c c', run source = .ok c ∧ run source' = .ok c' ∧
      c.program.map (·.reword .unplaced) = c'.program.map (·.reword .unplaced) ∧
      c.resolution = c'.resolution ∧ c.types = c'.types ∧
      ((∃ code, c.result = .ok code ∧ c'.result = .ok code) ∨
        ∃ errors errors', c.result = .error errors ∧ c'.result = .error errors' ∧ errors ≠ [] ∧
          errors.map Located.value = errors'.map Located.value) := by
  obtain ⟨c, hrun, -, hends⟩ := run_ends source
  obtain ⟨c', c₀, hrun', hleft, hright⟩ := alike_of_words h hrun
  refine ⟨c, c', hrun, hrun', hleft.program_eq.symm.trans hright.program_eq,
    hleft.resolution_eq.symm.trans hright.resolution_eq, hleft.types_eq.symm.trans hright.types_eq, ?_⟩
  have hcode : c'.code = c.code := hright.code_eq.symm.trans hleft.code_eq
  have hcauses : c.errors.map Located.value = c'.errors.map Located.value :=
    (hleft.causes_eq Rewording.keeps_unplaced).symm.trans (hright.causes_eq Rewording.keeps_unplaced)
  by_cases hnil : c.errors = []
  · have hnil' : c'.errors = [] := List.map_eq_nil_iff.mp (hcauses.symm.trans (by rw [hnil]; rfl))
    obtain ⟨code, hsome⟩ : ∃ code, c.code = some code := by
      rcases hends with ⟨stage, -, hfailed⟩ | ⟨p, links, types, ds, code, errors, rfl, -⟩
      · exact absurd hnil hfailed.errors_ne_nil
      · exact ⟨code, rfl⟩
    exact Or.inl ⟨code, result_of_code hsome hnil, result_of_code (hcode.trans hsome) hnil'⟩
  · have hne' : c'.errors ≠ [] := by
      intro hnil'
      rw [hnil'] at hcauses
      exact hnil (List.map_eq_nil_iff.mp hcauses)
    exact Or.inr ⟨c.errors, c'.errors, result_of_errors hnil, result_of_errors hne', hnil, hcauses⟩

/-- A loop on one line and the same loop on four, with comments and without most of the blanks. -/
theorem run_ignores_layout_loop :
    let source := "let var n : Integer in for i := 1 to 9 do n := n + i next"
    let source' := "let # total\n  var n:Integer\nin for i:=1 to 9 do # all\n  n:=n+i next"
    Token.words (Token.ofString source) = Token.words (Token.ofString source') ∧
      Token.ofString source ≠ Token.ofString source' ∧
      ∃ c c' code, run source = .ok c ∧ run source' = .ok c' ∧ c.result = .ok code ∧
        c'.result = .ok code ∧ c.resolution = c'.resolution := by
  intro source source'
  have hwords : Token.words (Token.ofString source) = Token.words (Token.ofString source') := by
    decide +kernel
  have hsucceeded : ((run source).toOption.any fun c => c.result.toOption.isSome) = true := by
    decide +kernel
  obtain ⟨c, c', hrun, hrun', -, hlinks, -, ⟨code, hcode, hcode'⟩ | ⟨errors, -, herrors, -⟩⟩ :=
    run_ignores_layout hwords
  · exact ⟨hwords, by decide +kernel, c, c', code, hrun, hrun', hcode, hcode', hlinks⟩
  · rw [hrun] at hsucceeded
    simp [Except.toOption, herrors] at hsucceeded

end Compilation

end TriangleCompiler
