import TriangleCompiler.Compilation
import TriangleCompiler.Proofs.Generation.Correctness
import TriangleCompiler.Proofs.Typing.Correctness

/-! How compilations go: every stage ends without a fault, with what it produces and the errors that it
    reports. A stage that reports nothing leaves what the next one relies on. -/

namespace TriangleCompiler

open Machine (Code Instruction Word)
open Typing Generation

/-! ### The tokens of a text -/

theorem Token.exists_last_scanAll (tokens : Array Token) (c : Text.Cursor) :
    ∃ before last, (Token.scanAll tokens c).toList = before ++ [last] ∧ last.isEnd = true := by
  induction tokens, c using Token.scanAll.induct with
  | case1 tokens c found h =>
    rw [Token.scanAll, if_pos h]
    exact ⟨tokens.toList, found.1, by simp [found], by simpa [Token.isEnd] using h⟩
  | case2 tokens c found h ih =>
    rw [Token.scanAll, if_neg h]
    exact ih

/-- The tokens of a text make up a program, with or without errors. -/
theorem Program.ofTokens_ofString (source : String) :
    ∃ r, Program.ofTokens (Token.ofString source) = .ok r := by
  obtain ⟨before, last, htokens, hlast⟩ := Token.exists_last_scanAll #[] (Text.Cursor.ofString source)
  have hstate : Parser.State.ofTokens (Token.ofString source) = .ok ⟨before, last.position, 0, 0, []⟩ := by
    rw [Token.ofString, htokens, Parser.State.ofTokens]
    simp [hlast]
  exact ⟨_, by rw [Program.ofTokens, hstate]; rfl⟩

namespace Compilation

/-! ### What is there behind a stage -/

/-- The compilation has exactly what the stages up to the given one produce. -/
structure Produced (c : Compilation) (stage : Stage) : Prop where
  isSome_program : c.program.isSome = decide (.parse ≤ stage)
  isSome_resolution : c.resolution.isSome = decide (.resolve ≤ stage)
  isSome_types : c.types.isSome = decide (.check ≤ stage)
  isSome_code : c.code.isSome = decide (.generate ≤ stage)

/-- The stage has reported errors, and it was the last. -/
structure FailedIn (c : Compilation) (stage : Stage) : Prop extends c.Produced stage where
  errors_ne_nil : c.errors ≠ []
  stage_eq : ∀ d ∈ c.errors, d.value.stage = stage

/-- The program was read without an error. -/
structure WellFormed (p : Program) : Prop where
  counted : Parser.Counted p.command.ids 0 p.nodeCount
  shaped : p.command.shape?.isSome

/-- The program was found to be well-typed. -/
structure Checked (p : Program) (links : Resolution) (types : Types) (ds : Decoration) : Prop where
  counted : Parser.Counted p.command.ids 0 p.nodeCount
  wellTyped : WellTyped links .empty p.command ds
  records : Records ⟨links, types⟩ ds

/-- The code is all of the program's. -/
structure Complete (p : Program) (links : Resolution) (code : Code) : Prop where
  instructions_eq : code.instructions.toList = p.fullCode links (cappedTarget Word.max)
  length_le : code.instructions.toList.length ≤ Word.max

/-- No fault ends the computation; it leads to a compilation of the tokens that failed, or to one without
    an error and with the property `P`. -/
def Proceeds (tokens : List Token) (x : Except Fault Compilation) (P : Compilation → Prop) : Prop :=
  ∃ c, x = .ok c ∧ c.tokens = tokens ∧ ((∃ stage, ¬.generate ≤ stage ∧ c.FailedIn stage) ∨ (c.errors = [] ∧ P c))

variable {tokens : List Token} {p : Program} {links : Resolution} {types : Types} {ds : Decoration}

theorem unlessFailed_of_nil {c : Compilation} (h : c.errors = [])
    (stage : Compilation → Except Fault Compilation) : unlessFailed stage c = stage c := by
  rw [unlessFailed, if_pos (by simp [h])]

theorem unlessFailed_of_ne {c : Compilation} (h : c.errors ≠ [])
    (stage : Compilation → Except Fault Compilation) : unlessFailed stage c = .ok c := by
  rw [unlessFailed, if_neg (by simpa using h)]
  rfl

theorem Proceeds.bind {x : Except Fault Compilation} {f : Compilation → Except Fault Compilation}
    {P Q : Compilation → Prop} (hx : Proceeds tokens x P) (hf : ∀ c, P c → Proceeds tokens (f c) Q) :
    Proceeds tokens (x >>= unlessFailed f) Q := by
  obtain ⟨c, rfl, htokens, ⟨stage, hstage, hfailed⟩ | ⟨herrors, hc⟩⟩ := hx
  · exact ⟨c, unlessFailed_of_ne hfailed.errors_ne_nil f, htokens, Or.inl ⟨stage, hstage, hfailed⟩⟩
  · obtain ⟨c', hok, h⟩ := hf c hc
    exact ⟨c', (unlessFailed_of_nil herrors f).trans hok, h⟩

/-- A stage has reported what it found. -/
theorem Proceeds.of_errors (stage : Stage) {c : Compilation} {P : Compilation → Prop}
    (hproduced : c.Produced stage) (hlast : ¬.generate ≤ stage)
    (hstage : ∀ d ∈ c.errors, d.value.stage = stage) (hc : c.errors = [] → P c) :
    Proceeds c.tokens (.ok c) P := by
  refine ⟨c, rfl, rfl, ?_⟩
  by_cases h : c.errors = []
  · exact Or.inr ⟨h, hc h⟩
  · exact Or.inl ⟨stage, hlast, hproduced, h, hstage⟩

/-! ### The stages one by one -/

theorem stage_diagnostics {tokens : List Token} {d : Diagnostic} (h : d ∈ Token.diagnostics tokens) :
    d.value.stage = .scan := by
  obtain ⟨t, -, ht⟩ := List.mem_filterMap.mp h
  obtain ⟨cause, -, rfl⟩ := Option.map_eq_some_iff.mp ht
  rfl

theorem proceeds_scan (source : String) : Proceeds (Token.ofString source) (.ok (scan source)) fun c =>
    c = ⟨Token.ofString source, none, none, none, none, []⟩ := by
  refine Proceeds.of_errors .scan ⟨rfl, rfl, rfl, rfl⟩ (by decide) (fun d hd => stage_diagnostics hd)
    fun herrors => ?_
  rw [scan]
  exact congrArg (Compilation.mk _ none none none none) herrors

theorem proceeds_parse (source : String) :
    Proceeds (Token.ofString source) (parse ⟨Token.ofString source, none, none, none, none, []⟩) fun c =>
      ∃ p, c = ⟨Token.ofString source, some p, none, none, none, []⟩ ∧ WellFormed p := by
  obtain ⟨r, hr⟩ := Program.ofTokens_ofString source
  have hparse : parse ⟨Token.ofString source, none, none, none, none, []⟩ =
      .ok ⟨Token.ofString source, some r.program, none, none, none, r.diagnostics⟩ := by
    rw [parse, hr]
    rfl
  rw [hparse]
  refine Proceeds.of_errors .parse ⟨rfl, rfl, rfl, rfl⟩ (by decide) ?_ fun herrors => ?_
  · intro d hd
    obtain ⟨f, -, rfl⟩ := List.mem_map.mp hd
    rfl
  · have hfindings : r.findings = [] := List.map_eq_nil_iff.mp herrors
    obtain ⟨x, hx⟩ := Parser.shape?_ofTokens hr hfindings
    exact ⟨r.program, congrArg (Compilation.mk _ _ none none none) herrors,
      Parser.counted_ofTokens hr, by simp [hx]⟩

theorem proceeds_resolve (hp : WellFormed p) :
    Proceeds tokens (resolve ⟨tokens, some p, none, none, none, []⟩) fun c =>
      ∃ p links, c = ⟨tokens, some p, some links, none, none, []⟩ ∧ WellFormed p ∧
        Resolution.Realized links (p.command.events .standard) := by
  obtain ⟨s, hs, hreports, hrealized⟩ := p.resolve_ok hp.counted
  have hresolve : resolve ⟨tokens, some p, none, none, none, []⟩ =
      .ok ⟨tokens, some p, some s.links, none, none, s.errors.toList⟩ := by
    simp only [resolve, hs]
    rfl
  rw [hresolve]
  refine Proceeds.of_errors .resolve ⟨rfl, rfl, rfl, rfl⟩ (by decide)
    (fun d hd => hreports.stage_eq hd) fun herrors => ?_
  exact ⟨p, s.links, congrArg (Compilation.mk _ _ _ none none) herrors, hp,
    hrealized (Array.toList_eq_nil_iff.mp herrors)⟩

theorem proceeds_check (hp : WellFormed p)
    (hrealized : Resolution.Realized links (p.command.events .standard)) :
    Proceeds tokens (check ⟨tokens, some p, some links, none, none, []⟩) fun c => ∃ p links types ds,
      c = ⟨tokens, some p, some links, some types, none, []⟩ ∧ Checked p links types ds := by
  obtain ⟨t, ht, hreports, hwell⟩ := p.check_ends hp.counted links
  have hcheck : check ⟨tokens, some p, some links, none, none, []⟩ =
      .ok ⟨tokens, some p, some links, some t.types, none, t.errors.toList⟩ := by
    simp only [check, ht]
    rfl
  rw [hcheck]
  refine Proceeds.of_errors .check ⟨rfl, rfl, rfl, rfl⟩ (by decide) (fun d hd => hreports.stage_eq hd)
    fun herrors => ?_
  obtain ⟨ds, hds⟩ := hwell (Array.toList_eq_nil_iff.mp herrors) hrealized hp.shaped
  refine ⟨p, links, t.types, ds, congrArg (Compilation.mk _ _ _ _ none) herrors, hp.counted, hds,
    fun d hd => ?_⟩
  obtain ⟨hok, hget⟩ := Program.check_of_wellTyped hp.counted hds
  cases hok.symm.trans ht
  exact (hget d.1 d.2).mpr hd

/-- Code is generated for a program that was checked. -/
theorem generate_checked (tokens : List Token) (h : Checked p links types ds) :
    ∃ code errors, generate ⟨tokens, some p, some links, some types, none, []⟩ =
        .ok ⟨tokens, some p, some links, some types, some code, errors⟩ ∧
      (∀ d ∈ errors, d.value.stage = .generate) ∧ (errors = [] → Complete p links code) := by
  obtain ⟨t, ht, htracks⟩ := Program.generate_ends h.counted h.wellTyped h.records (rfl : Code.empty.instructions = #[])
  refine ⟨t.code, t.errors.toList, ?_, fun d hd => htracks.reports.stage_eq hd, fun herrors => ?_⟩
  · simp only [generate, ht]
    rfl
  · have hroom : (p.fullCode links (cappedTarget Word.max)).length ≤ Word.max :=
      Nat.le_of_not_lt fun hlt => htracks.reported hlt (Array.toList_eq_nil_iff.mp herrors)
    have hcode : t.code.instructions.toList = p.fullCode links (cappedTarget Word.max) := by
      rw [htracks.code]
      exact List.take_of_length_le hroom
    exact ⟨hcode, hcode ▸ hroom⟩

/-! ### Whole compilations -/

/-- A text is found to be well-typed, or an error is found before. -/
theorem proceeds_checks (source : String) : Proceeds (Token.ofString source)
    (((.ok (scan source) >>= unlessFailed parse) >>= unlessFailed resolve) >>= unlessFailed check) fun c =>
      ∃ p links types ds, c = ⟨Token.ofString source, some p, some links, some types, none, []⟩ ∧
        Checked p links types ds := by
  have hparse := (proceeds_scan source).bind fun c hc => hc ▸ proceeds_parse source
  have hresolve := hparse.bind fun c ⟨p, hc, hp⟩ => hc ▸ proceeds_resolve hp
  exact hresolve.bind fun c ⟨p, links, hc, hp, hrealized⟩ => hc ▸ proceeds_check hp hrealized

/-- A compilation ends. It failed before code was generated; or its program was checked and has code,
    which is complete if there is no error. -/
theorem run_ends (source : String) : ∃ c, run source = .ok c ∧ c.tokens = Token.ofString source ∧
    ((∃ stage, ¬.generate ≤ stage ∧ c.FailedIn stage) ∨
      ∃ p links types ds code errors,
        c = ⟨Token.ofString source, some p, some links, some types, some code, errors⟩ ∧
        Checked p links types ds ∧ (∀ d ∈ errors, d.value.stage = .generate) ∧
        (errors = [] → Complete p links code)) := by
  obtain ⟨c, hc, htokens, h⟩ := proceeds_checks source
  have hrun : run source = unlessFailed generate c := by
    have hassoc : run source =
        (((.ok (scan source) >>= unlessFailed parse) >>= unlessFailed resolve) >>= unlessFailed check) >>=
          unlessFailed generate := by
      simp only [bind_assoc]
      rfl
    rw [hassoc, hc]
    rfl
  rcases h with ⟨stage, hstage, hfailed⟩ | ⟨herrors, p, links, types, ds, rfl, hchecked⟩
  · exact ⟨c, hrun.trans (unlessFailed_of_ne hfailed.errors_ne_nil _), htokens,
      Or.inl ⟨stage, hstage, hfailed⟩⟩
  · obtain ⟨code, errors, hgenerate, hstage, hcomplete⟩ :=
      generate_checked (Token.ofString source) hchecked
    refine ⟨_, (hrun.trans (unlessFailed_of_nil herrors _)).trans hgenerate, rfl, Or.inr ?_⟩
    exact ⟨p, links, types, ds, code, errors, rfl, hchecked, hstage, hcomplete⟩

/-- A compilation that results in code has everything that the stages produce. -/
theorem eq_of_result {source : String} {c : Compilation} {code : Code} (hrun : run source = .ok c)
    (hresult : c.result = .ok code) : ∃ p links types ds,
      c = ⟨Token.ofString source, some p, some links, some types, some code, []⟩ ∧
      Checked p links types ds ∧ Complete p links code := by
  obtain ⟨c', hrun', -, h⟩ := run_ends source
  obtain rfl : c' = c := Except.ok.inj (hrun'.symm.trans hrun)
  rcases h with ⟨stage, hstage, hfailed⟩ | ⟨p, links, types, ds, code', errors, rfl, hchecked, -, hcomplete⟩
  · have hcode := hfailed.isSome_code
    rw [decide_eq_false hstage, Option.isSome_eq_false_iff, Option.isNone_iff_eq_none] at hcode
    simp [result, hcode] at hresult
  · simp only [result] at hresult
    split at hresult
    · rename_i hnil
      obtain rfl := List.isEmpty_iff.mp hnil
      cases hresult
      exact ⟨p, links, types, ds, rfl, hchecked, hcomplete rfl⟩
    · cases hresult

/-- Code that a compilation results in is the complete code of a program that was checked. -/
theorem exists_of_result {source : String} {c : Compilation} {code : Code} (hrun : run source = .ok c)
    (hresult : c.result = .ok code) : ∃ p links types ds, c.program = some p ∧ c.resolution = some links ∧
      Checked p links types ds ∧ Complete p links code := by
  obtain ⟨p, links, types, ds, rfl, hchecked, hcomplete⟩ := eq_of_result hrun hresult
  exact ⟨p, links, types, ds, rfl, rfl, hchecked, hcomplete⟩

/-- For every text the compilation ends without a fault. There is code and no error; or there are errors,
    all of the same stage, and exactly what the stages up to that one produce. Where code was generated
    at all, none of the promises that generation rests on is broken, however little room there is. -/
theorem run_reports_one_stage (source : String) : ∃ c, run source = .ok c ∧
    Token.fill [] source = .ok c.tokens ∧
    ((∃ code, c.result = .ok code ∧ c.errors = [] ∧ c.Produced .generate) ∨
      (∃ stage, c.result = .error c.errors ∧ c.errors ≠ [] ∧ (∀ d ∈ c.errors, d.value.stage = stage) ∧
        c.Produced stage)) ∧
    ∀ p links types, c.program = some p → c.resolution = some links → c.types = some types →
      c.Produced .generate → ∀ room : Code, room.instructions = #[] →
        ∃ t, (p.generate ⟨links, types⟩).finalState (.start p room) = .ok t := by
  obtain ⟨c, hrun, htokens, h⟩ := run_ends source
  refine ⟨c, hrun, by simp [Token.fill, htokens], ?_, ?_⟩
  · rcases h with ⟨stage, hstage, hfailed⟩ | ⟨p, links, types, ds, code, errors, rfl, -, hstage, -⟩
    · refine Or.inr ⟨stage, ?_, hfailed.errors_ne_nil, hfailed.stage_eq, hfailed.toProduced⟩
      have hcode : c.code = none := by
        have := hfailed.isSome_code
        rw [decide_eq_false hstage] at this
        simpa using this
      simp only [result, hcode]
    · by_cases herrors : errors = []
      · exact Or.inl ⟨code, by simp [result, herrors], herrors, rfl, rfl, rfl, rfl⟩
      · exact Or.inr ⟨.generate, by simp [result, herrors], herrors, hstage, rfl, rfl, rfl, rfl⟩
  · intro p links types hp hlinks htypes hproduced room hroom
    rcases h with ⟨stage, hstage, hfailed⟩ | ⟨p', links', types', ds, code, errors, rfl, hchecked, -⟩
    · have hcode := hproduced.isSome_code
      rw [hfailed.isSome_code, decide_eq_false hstage] at hcode
      cases hcode
    · cases hp
      cases hlinks
      cases htypes
      obtain ⟨t, ht, -⟩ := Program.generate_ends hchecked.counted hchecked.wellTyped hchecked.records hroom
      exact ⟨t, ht⟩

end Compilation

end TriangleCompiler
