import TriangleCompiler.Proofs.Parser.Correctness
import TriangleCompiler.Proofs.Parser.Movement
import TriangleCompiler.Proofs.Parser.Prediction

/-! Where the first error is reported. Up to its first error a reader does what the expectations say, although
    it takes a blank command for whatever starts no command and leaves it to others to find that a token is
    missing. So the first error is at the first token that no program has behind those before it. -/

namespace TriangleCompiler.Parser
open Grammar (Symbol Phrase Leads Stuck Spells)

/-! ### Up to the first error -/

/-- From `s` to `t` what is read is what `σ` expects: all of it, or all before the first error, which is at
    the first token that is not as expected. -/
inductive Follows (σ : List Symbol) (s t : State) : Prop where
  | meets : Reaches s t → t.findings = s.findings → Leads σ s.ahead [] t.ahead → Follows σ s t
  | breaks {f : Finding} {later : List Finding} {x : Symbol} {ρ : List Symbol} {rest : List Token} :
      Reaches s t → t.findings = later ++ f :: s.findings →
      f.index + rest.length = s.cursor + s.ahead.length → Leads σ s.ahead (x :: ρ) rest →
      x.Refuses (firstKind rest) → Follows σ s t

theorem State.kind_ne_of_accept? {s : State} {k : Token.Kind} (h : s.accept? k = none)
    (hne : k ≠ .endOfText) : s.kind ≠ k := by
  intro hk
  obtain ⟨tok, hahead, htok, -⟩ := State.ahead_eq_cons hk hne
  obtain ⟨t, ht, -⟩ := State.exists_accept? hahead htok
  exact absurd (h.symm.trans ht) nofun

theorem State.accept?_of_acceptName? {s : State} {k : Token.Kind} (h : s.acceptName? k = none) :
    s.accept? k = none := Option.map_eq_none_iff.mp h

theorem State.kind_of_acceptName? {s t : State} {k : Token.Kind} {name : Name}
    (h : s.acceptName? k = some (name, t)) : s.kind = k := by
  obtain ⟨tok, hahead, hk, -⟩ := State.of_acceptName? h
  exact (State.kind_eq_of_ahead hahead).trans hk

namespace Follows
variable {σ π : List Symbol} {p : Phrase} {k : Token.Kind} {s s₁ t : State} {name : Name}

theorem reaches (h : Follows σ s t) : Reaches s t := by
  cases h with
  | meets hr => exact hr
  | breaks hr => exact hr

theorem nil : Follows [] s s := .meets .refl rfl .refl

/-- A step that no error is reported in comes first. -/
theorem before (hr : Reaches s s₁) (hf : s₁.findings = s.findings)
    (hleads : ∀ {ρ rest}, Leads σ s₁.ahead ρ rest → Leads π s.ahead ρ rest) (h : Follows σ s₁ t) :
    Follows π s t := by
  cases h with
  | meets hr₁ hf₁ hl => exact .meets (hr.trans hr₁) (hf₁.trans hf) (hleads hl)
  | breaks hr₁ hf₁ hindex hl hrefuses =>
    exact .breaks (hr.trans hr₁) (hf ▸ hf₁) (hindex.trans hr.cursor_add_length) (hleads hl) hrefuses

theorem counted (h : Follows σ s.countNode t) : Follows σ s t :=
  h.before Reaches.refl.countNode rfl id

theorem countNode (h : Follows σ s t) : Follows σ s t.countNode := by
  cases h with
  | meets hr hf hl => exact .meets hr.countNode hf hl
  | breaks hr hf hindex hl hrefuses => exact .breaks hr.countNode hf hindex hl hrefuses

theorem token (hk : s.accept? k = some s₁) (h : Follows σ s₁ t) : Follows (.token k :: σ) s t := by
  obtain ⟨tok, hahead, htok, hf, -⟩ := State.of_accept? hk
  exact h.before (Reaches.refl.accept hk) hf fun hl => hahead ▸ .token htok hl

theorem nameToken (hk : s.acceptName? k = some (name, s₁)) (h : Follows σ s₁ t) :
    Follows (.token k :: σ) s t := by
  obtain ⟨tok, hahead, htok, -, -, hf, -⟩ := State.of_acceptName? hk
  exact h.before (Reaches.refl.acceptName hk) hf fun hl => hahead ▸ .token htok hl

theorem passed (hk : s.kind = k) (hne : k ≠ .endOfText) (h : Follows σ s.advance t) :
    Follows (.token k :: σ) s t := by
  obtain ⟨tok, hahead, htok, -⟩ := State.ahead_eq_cons hk hne
  exact h.before Reaches.refl.advance (s.findings_advance) fun hl => hahead ▸ .token htok hl

theorem expand (hk : s.kind = k) (hp : p.parts? k = some π) (h : Follows (π ++ σ) s t) :
    Follows (.phrase p :: σ) s t := by
  subst hk
  exact h.before .refl rfl fun hl => .phrase hp hl

/-- One phrase behind the other. What is read behind the first error does not matter. -/
theorem phrase (h : Follows [.phrase p] s s₁) (h' : Follows σ s₁ t) : Follows (.phrase p :: σ) s t := by
  cases h with
  | meets hr hf hl => exact h'.before hr hf fun hl' => (hl.append σ).trans hl'
  | breaks hr hf hindex hl hrefuses =>
    obtain ⟨more, hmore⟩ := h'.reaches.findings_suffix
    rw [hf, ← List.append_assoc] at hmore
    exact .breaks (hr.trans h'.reaches) hmore.symm hindex (hl.append σ) hrefuses

/-! The first error. -/

theorem refused {x : Symbol} {cause : SyntaxError} (h : x.Refuses s.kind) :
    Follows (x :: σ) s (s.report cause) :=
  .breaks (Reaches.refl.report cause) (rfl : _ = [] ++ _ :: _) rfl .refl h

theorem missing (hk : s.accept? k = none) (hne : k ≠ .endOfText) :
    Follows (.token k :: σ) s (s.reportMissing k) := refused (State.kind_ne_of_accept? hk hne)

theorem missingName (hk : s.acceptName? k = none) (hne : k ≠ .endOfText) :
    Follows (.token k :: σ) s (s.reportMissing k) := missing (State.accept?_of_acceptName? hk) hne

end Follows

/-! ### Expressions -/

mutual

theorem ReadsExpr.follows {s t : State} {e : Expr} : ReadsExpr s e t → Follows [.phrase .expr] s t
  | .chain hp ho => .expand rfl rfl (.phrase hp.follows ho.follows)

theorem ReadsOperands.follows {lhs e : Expr} {s t : State} :
    ReadsOperands lhs s e t → Follows [.phrase .operands] s t
  | .done hop => by
    have hk := State.kind_ne_of_accept? (State.accept?_of_acceptName? hop) nofun
    exact .expand rfl (Phrase.parts?_operands hk) .nil
  | .more hop hp ho => by
    have hk := State.kind_of_acceptName? hop
    exact .expand hk rfl (.nameToken hop (.phrase hp.follows (.counted ho.follows)))

theorem ReadsPrimary.follows {s t : State} {e : Expr} : ReadsPrimary s e t → Follows [.phrase .primary] s t
  | .int hk => .expand hk rfl (.passed hk nofun (.counted .nil))
  | .char hk => .expand hk rfl (.passed hk nofun (.counted .nil))
  | .name hk hopen => by
    have hne := State.kind_ne_of_accept? hopen nofun
    refine .expand hk rfl (.passed hk nofun (.counted ?_))
    exact .expand rfl (Phrase.parts?_application hne) (.counted .nil)
  | .call hk hopen ha hclose => by
    have hopen' := (State.eq_advance_of_accept? hopen).2
    refine .expand hk rfl (.passed hk nofun (.counted ?_))
    exact .expand hopen' rfl <| .token hopen (.phrase ha.follows (.token hclose (.counted .nil)))
  | .openCall hk hopen ha hclose => by
    have hopen' := (State.eq_advance_of_accept? hopen).2
    refine .expand hk rfl (.passed hk nofun (.counted ?_))
    exact .expand hopen' rfl <| .token hopen (.phrase ha.follows (Follows.missing hclose nofun).countNode)
  | .unary hk hp => .expand hk rfl (.passed hk nofun (.counted hp.follows.countNode))
  | .bracketed hk he hclose =>
    .expand hk rfl (.passed hk nofun (.phrase he.follows (.token hclose .nil)))
  | .openBracket hk he hclose =>
    .expand hk rfl (.passed hk nofun (.phrase he.follows (Follows.missing hclose nofun).countNode))
  | .unexpected hk => (Follows.refused (x := .phrase .primary) (Phrase.parts?_primary hk)).countNode

theorem ReadsArgument.follows {s t : State} {a : Argument} :
    ReadsArgument s a t → Follows [.phrase .argument] s t
  | .blank hk => .expand hk rfl (.counted .nil)
  | .var hk hname => .expand hk rfl (.counted (.passed hk nofun (.nameToken hname .nil)))
  | .openVar hk hname => .expand hk rfl (.counted (.passed hk nofun (.missingName hname nofun)))
  | .value hblank hvar he => .expand rfl (Phrase.parts?_argument hblank hvar) (.counted he.follows)

end

/-! ### Declarations -/

theorem ReadsSingleDeclaration.follows {s t : State} {d : SingleDeclaration}
    (h : ReadsSingleDeclaration s d t) : Follows [.phrase .singleDeclaration] s t := by
  cases h with
  | const hk hname htilde he =>
    refine .expand hk rfl (.passed hk nofun (.counted ?_))
    exact .nameToken hname (.token htilde he.follows)
  | constWithoutName hk hname =>
    exact .expand hk rfl (.passed hk nofun (.counted (.missingName hname nofun)))
  | constWithoutTilde hk hname htilde =>
    refine .expand hk rfl (.passed hk nofun (.counted ?_))
    exact .nameToken hname (.missing htilde nofun)
  | var hk hname hcolon htype =>
    refine .expand hk rfl (.passed hk nofun (.counted ?_))
    exact .nameToken hname (.token hcolon (.counted (.nameToken htype .nil)))
  | varWithoutName hk hname =>
    exact .expand hk rfl (.passed hk nofun (.counted (.missingName hname nofun)))
  | varWithoutColon hk hname hcolon =>
    refine .expand hk rfl (.passed hk nofun (.counted ?_))
    exact .nameToken hname (.missing hcolon nofun)
  | varWithoutType hk hname hcolon htype =>
    refine .expand hk rfl (.passed hk nofun (.counted ?_))
    exact .nameToken hname (.token hcolon (.counted (.missingName htype nofun)))
  | unexpected hconst hvar => exact .refused (Phrase.parts?_singleDeclaration hconst hvar)

theorem ReadsMoreDeclarations.follows {s t : State} {ds : List SingleDeclaration}
    (h : ReadsMoreDeclarations s ds t) : Follows [.phrase .moreDeclarations] s t := by
  induction h with
  | done hsep =>
    have hk := State.kind_ne_of_accept? hsep nofun
    exact .expand rfl (Phrase.parts?_moreDeclarations hk) .nil
  | more hsep hd _ ih =>
    have hk := (State.eq_advance_of_accept? hsep).2
    exact .expand hk rfl (.token hsep (.phrase hd.follows ih))

theorem ReadsDeclaration.follows {s t : State} {d : Declaration} (h : ReadsDeclaration s d t) :
    Follows [.phrase .declaration] s t := by
  cases h with
  | chain hd hds => exact .expand rfl rfl (.phrase hd.follows hds.follows)

/-! ### Parts of commands

Where a part is given up, an error has been reported, so nothing more of the command needs to be read. -/

section
variable {σ : List Symbol} {s s₁ t : State}

theorem ReadsEnd.follows {k : Token.Kind} {c d : Command} (h : ReadsEnd k c s d t) (hne : k ≠ .endOfText) :
    Follows [.token k] s t := by
  cases h with
  | closed hk => exact .token hk .nil
  | unclosed hk => exact .missing hk hne

theorem ReadsAssignmentOrCall.follows {c : Command} (h : ReadsAssignmentOrCall s c t)
    (hk : s.kind = .identifier) : Follows [.phrase .singleCommand] s t := by
  refine .expand hk rfl (.passed hk nofun (.counted ?_))
  cases h with
  | call hopen ha hend =>
    refine .expand (State.eq_advance_of_accept? hopen).2 rfl ?_
    exact .token hopen (.phrase ha.follows (hend.follows nofun))
  | assign hopen hbecomes he =>
    refine .expand rfl (Phrase.parts?_action (State.kind_ne_of_accept? hopen nofun)) ?_
    exact .token hbecomes he.follows
  | neither hopen hbecomes =>
    refine .expand rfl (Phrase.parts?_action (State.kind_ne_of_accept? hopen nofun)) ?_
    exact .missing hbecomes nofun

theorem ReadsCondition.follows {k : Keyword} {e : Expr} (h : ReadsCondition k s (some e) s₁)
    (hrest : Follows σ s₁ t) :
    Follows (.token .leftBracket :: .phrase .expr :: .token .rightBracket :: .token (.keyword k) :: σ) s t := by
  cases h with
  | whole hopen he hclose hk => exact .token hopen (.phrase he.follows (.token hclose (.token hk hrest)))

theorem ReadsCondition.follows_none {k : Keyword} (h : ReadsCondition k s none t) :
    Follows (.token .leftBracket :: .phrase .expr :: .token .rightBracket :: .token (.keyword k) :: σ) s t := by
  cases h with
  | withoutOpening hopen => exact .missing hopen nofun
  | withoutClosing hopen he hclose => exact .token hopen (.phrase he.follows (.missing hclose nofun))
  | withoutKeyword hopen he hclose hk =>
    exact .token hopen (.phrase he.follows (.token hclose (.missing hk nofun)))

theorem ReadsBindings.follows {d : Declaration} (h : ReadsBindings s (some d) s₁)
    (hrest : Follows σ s₁ t) : Follows (.phrase .declaration :: .token (.keyword .in_) :: σ) s t := by
  cases h with
  | whole hd hin => exact .phrase hd.follows (.token hin hrest)

theorem ReadsBindings.follows_none (h : ReadsBindings s none t) :
    Follows (.phrase .declaration :: .token (.keyword .in_) :: σ) s t := by
  cases h with
  | withoutIn hd hin => exact .phrase hd.follows (.missing hin nofun)

theorem ReadsCount.follows {x : Count} (h : ReadsCount s (some x) s₁) (hrest : Follows σ s₁ t) :
    Follows (.token .identifier :: .token .becomes :: .phrase .expr :: .token (.keyword .to_) ::
      .phrase .expr :: .token (.keyword .do_) :: σ) s t := by
  cases h with
  | whole hname hbecomes hfirst hto hlast hdo =>
    refine .nameToken hname (.counted (.token hbecomes (.phrase hfirst.follows (.token hto ?_))))
    exact .phrase hlast.follows (.token hdo hrest)

theorem ReadsCount.follows_none (h : ReadsCount s none t) :
    Follows (.token .identifier :: .token .becomes :: .phrase .expr :: .token (.keyword .to_) ::
      .phrase .expr :: .token (.keyword .do_) :: σ) s t := by
  cases h with
  | withoutName hname => exact .missingName hname nofun
  | withoutBecomes hname hbecomes => exact .nameToken hname (.counted (.missing hbecomes nofun))
  | withoutTo hname hbecomes hfirst hto =>
    refine .nameToken hname (.counted (.token hbecomes ?_))
    exact .phrase hfirst.follows (.missing hto nofun)
  | withoutDo hname hbecomes hfirst hto hlast hdo =>
    refine .nameToken hname (.counted (.token hbecomes (.phrase hfirst.follows (.token hto ?_))))
    exact .phrase hlast.follows (.missing hdo nofun)

end

/-! ### Commands -/

mutual

theorem ReadsCommand.follows {s t : State} {c : Command} :
    ReadsCommand s c t → Follows [.phrase .command] s t
  | .chain hc hcs => .expand rfl rfl (.phrase hc.follows hcs.follows)

theorem ReadsMoreCommands.follows {s t : State} {cs : List Command} :
    ReadsMoreCommands s cs t → Follows [.phrase .moreCommands] s t
  | .done hsep => .expand rfl (Phrase.parts?_moreCommands (State.kind_ne_of_accept? hsep nofun)) .nil
  | .more hsep hc hcs =>
    .expand (State.eq_advance_of_accept? hsep).2 rfl (.token hsep (.phrase hc.follows hcs.follows))

theorem ReadsSingleCommand.follows {s t : State} {c : Command} :
    ReadsSingleCommand s c t → Follows [.phrase .singleCommand] s t
  | .simple hk hc => hc.follows hk
  | .brokenIf hk hcond => .expand hk rfl (.passed hk nofun hcond.follows_none)
  | .ifThen hk hcond hc helse hend => by
    refine .expand hk rfl (.passed hk nofun (hcond.follows (.phrase hc.follows ?_)))
    exact .expand rfl (Phrase.parts?_alternative (State.kind_ne_of_accept? helse nofun)) (hend.follows nofun)
  | .ifElse hk hcond hc helse hd hend => by
    refine .expand hk rfl (.passed hk nofun (hcond.follows (.phrase hc.follows ?_)))
    refine .expand (State.eq_advance_of_accept? helse).2 rfl ?_
    exact .token helse (.phrase hd.follows (hend.follows nofun))
  | .brokenWhile hk hcond => .expand hk rfl (.passed hk nofun hcond.follows_none)
  | .while_ hk hcond hc => .expand hk rfl (.passed hk nofun (hcond.follows hc.follows))
  | .brokenLet hk hd => .expand hk rfl (.passed hk nofun hd.follows_none)
  | .let_ hk hd hc => .expand hk rfl (.passed hk nofun (hd.follows hc.follows))
  | .brokenFor hk hx => .expand hk rfl (.passed hk nofun hx.follows_none)
  | .for_ hk hx hc hend =>
    .expand hk rfl (.passed hk nofun (hx.follows (.phrase hc.follows (hend.follows nofun))))
  | .begin_ hk hc hend => .expand hk rfl (.passed hk nofun (.phrase hc.follows (hend.follows nofun)))
  | .blank hk => .expand rfl (Phrase.parts?_singleCommand hk) .nil

end

/-! ### Programs -/

/-- A program is read from the tokens without an error. -/
def Accepts (tokens : List Token) : Prop :=
  ∃ r, Program.ofTokens tokens = .ok r ∧ r.findings = []

theorem suffix_findings_endOfText (s : State) : s.findings <:+ (endOfText s).findings :=
  (Reaches.refl (s := s)).endOfText.findings_suffix

/-- At the first error there is no way on. -/
theorem stuck_of_head? {s : State} {f : Finding} (hs : s.findings = [])
    (hf : (program s).findings.head? = some f) : ∃ ρ rest, Leads [.phrase .command] s.ahead ρ rest ∧
      Stuck (firstKind rest) ρ ∧ f.index + rest.length = s.cursor + s.ahead.length := by
  have hfindings : (program s).findings = (endOfText (command s).1.2).findings.reverse := rfl
  rw [hfindings, List.head?_reverse] at hf
  cases (readsCommand_command s).follows with
  | meets hr hf₁ hl =>
    rw [hs] at hf₁
    unfold endOfText at hf
    split at hf
    · rw [hf₁] at hf
      cases hf
    · have hone : ((command s).1.2.reportMissing .endOfText).findings =
          [⟨(command s).1.2.cursor, (command s).1.2.position, _⟩] := congrArg (_ :: ·) hf₁
      rw [hone] at hf
      cases hf
      exact ⟨[], _, hl, ‹_›, hr.cursor_add_length⟩
  | @breaks f' later x ρ rest hr hf₁ hindex hl hrefuses =>
    obtain ⟨more, hmore⟩ := suffix_findings_endOfText (command s).1.2
    rw [← hmore, hf₁, hs, ← List.append_assoc, List.getLast?_concat] at hf
    cases hf
    exact ⟨x :: ρ, rest, hl, hrefuses, hindex⟩

theorem kind_of_ofTokens {before : List Token} {last : Token} {r : Result}
    (h : Program.ofTokens (before ++ [last]) = .ok r) : last.kind = .endOfText := by
  by_cases hlast : last.kind = .endOfText
  · exact hlast
  · rw [Program.ofTokens, State.ofTokens, List.getLast?_concat] at h
    simp only [Token.isEnd, hlast, decide_false] at h
    cases h

/-- Where a program is read without an error, all that is expected is met. -/
theorem Accepts.leads {tokens : List Token} (h : Accepts tokens) : ∃ before last rest,
    tokens = before ++ [last] ∧ last.kind = .endOfText ∧ Leads [.phrase .command] before [] rest ∧
      firstKind rest = .endOfText := by
  obtain ⟨r, hr, hnil⟩ := h
  rcases List.eq_nil_or_concat tokens with rfl | ⟨before, last, rfl⟩
  · cases hr
  · rw [List.concat_eq_append] at hr ⊢
    have hlast := kind_of_ofTokens hr
    rw [ofTokens_concat hlast] at hr
    cases hr
    obtain ⟨hf, hend⟩ := findings_program_eq_nil.mp hnil
    refine ⟨before, last, _, rfl, hlast, ?_, hend⟩
    cases (readsCommand_command (.start before last)).follows with
    | meets _ _ hl => exact hl
    | breaks _ hf' => exact absurd (hf'.symm.trans hf) (by simp)

theorem accepts_of_derives {tokens : List Token} {last : Token} (hlast : last.kind = .endOfText)
    (h : Phrase.command.Derives tokens) : Accepts (tokens ++ [last]) := by
  obtain ⟨x, hx⟩ := h
  exact ⟨_, ofTokens_concat hlast, (program_of_derives (s := .start tokens last) rfl hx).1⟩

/-- What is passed before there is no way on can be completed. -/
theorem exists_accepts {ts rest : List Token} {ρ : List Symbol} {last : Token}
    (hlast : last.kind = .endOfText) (h : Leads [.phrase .command] (ts ++ rest) ρ rest) :
    ∃ more, (∀ t ∈ more, t.kind ≠ .endOfText) ∧ Accepts (ts ++ more ++ [last]) := by
  obtain ⟨more, hmore, hne⟩ := Grammar.exists_spells (h.endOfText_notMem (by simp))
  obtain ⟨ts', heq, hspells⟩ := h.spells hmore
  cases List.append_cancel_right heq
  simp only [Spells, Grammar.exists_append_nil] at hspells
  exact ⟨more, hne, accepts_of_derives hlast hspells⟩

/-- With a token there that there is no way on with, nothing can be completed. -/
theorem not_accepts {ts rest more : List Token} {ρ : List Symbol} {tok : Token}
    (h : Leads [.phrase .command] (ts ++ rest) ρ rest) (hstuck : Stuck (firstKind rest) ρ)
    (htok : tok.kind = firstKind rest) : ¬ Accepts (ts ++ tok :: more) := by
  intro haccepts
  obtain ⟨before, last, rest', heq, hlast, hl, hend⟩ := haccepts.leads
  obtain ⟨ts', heq', hpasses⟩ := h.passes
  cases List.append_cancel_right heq'
  -- The token is the first behind those passed, or it is the last of all and ends the text.
  have hbefore : ∃ rest', before = ts ++ rest' ∧ firstKind rest' = firstKind rest := by
    rcases List.eq_nil_or_concat more with rfl | ⟨more', last', rfl⟩
    · obtain ⟨rfl, hsame⟩ := List.append_inj' heq rfl
      cases hsame
      exact ⟨[], (List.append_nil _).symm, hlast.symm.trans htok⟩
    · rw [List.concat_eq_append, ← List.cons_append, ← List.append_assoc] at heq
      obtain ⟨rfl, -⟩ := List.append_inj' heq rfl
      exact ⟨tok :: more', rfl, htok⟩
  obtain ⟨rest', rfl, hrest⟩ := hbefore
  exact hl.not_stuck hend (hpasses hrest) (hrest ▸ hstuck)

/-- The first of the tokens behind those passed. -/
theorem exists_take_succ {ts rest : List Token} {last : Token} (hlast : last.kind = .endOfText) :
    ∃ tok, (ts ++ rest ++ [last]).take (ts.length + 1) = ts ++ [tok] ∧ tok.kind = firstKind rest := by
  rw [List.append_assoc, List.take_length_add_append]
  cases rest with
  | nil => exact ⟨last, rfl, hlast⟩
  | cons tok rest => exact ⟨tok, rfl, rfl⟩

end Parser

/-- The first error is reported at the earliest token possible, for all tokens with an `endOfText` behind
    them: the tokens before it can be completed to ones that a program is read from without an error, and no
    such tokens begin with those before it and itself. -/
theorem Program.ofTokens_detects_at_once {tokens : List Token} {last : Token}
    (hlast : last.kind = .endOfText) :
    ∃ r, Program.ofTokens (tokens ++ [last]) = .ok r ∧ ∀ f, r.findings.head? = some f →
      (∃ t, (tokens ++ [last])[f.index]? = some t ∧ t.position = f.position) ∧
      (∃ more, (∀ t ∈ more, t.kind ≠ .endOfText) ∧
        Parser.Accepts ((tokens ++ [last]).take f.index ++ more ++ [last])) ∧
      ∀ v, Parser.Accepts v → ¬ (tokens ++ [last]).take (f.index + 1) <+: v := by
  refine ⟨_, Parser.ofTokens_concat hlast, fun f hf => ?_⟩
  obtain ⟨ρ, rest, hl, hstuck, hindex⟩ := Parser.stuck_of_head? (s := .start tokens last) rfl hf
  obtain ⟨ts, hts, -⟩ := hl.passes
  obtain rfl : tokens = ts ++ rest := hts
  have hindex : f.index = ts.length := by
    have : f.index + rest.length = 0 + (ts ++ rest).length := hindex
    rw [List.length_append] at this
    omega
  obtain ⟨tok, htake, htok⟩ := @Parser.exists_take_succ ts rest _ hlast
  rw [hindex]
  refine ⟨?_, ?_, ?_⟩
  · have hin := (Parser.State.StandsIn.start (ts ++ rest) last).reaches
      (Parser.readsCommand_command _).reaches.endOfText
    rw [← hindex]
    exact hin.located f (List.mem_reverse.mp (List.mem_of_head? hf))
  · rw [List.append_assoc, List.take_left]
    exact Parser.exists_accepts hlast hl
  · rintro v haccepts ⟨more, rfl⟩
    rw [htake, List.append_assoc, List.singleton_append] at haccepts
    exact Parser.not_accepts hl hstuck htok haccepts

/-- In `begin x ( ) y := 1` the first error is at the second name: `begin x ( )` can be completed, and
    nothing that begins with `begin x ( ) y` is read without an error. -/
theorem Program.ofTokens_detects_missing_semicolon :
    let token (k : Token.Kind) (spelling : String) : Token := ⟨k, spelling, ⟨1, 1⟩⟩
    let tokens := [token (.keyword .begin_) "begin", token .identifier "x", token .leftBracket "(",
      token .rightBracket ")", token .identifier "y", token .becomes ":=", token .intLiteral "1"]
    let last := token .endOfText ""
    ∃ r f, Program.ofTokens (tokens ++ [last]) = .ok r ∧ r.findings.head? = some f ∧ f.index = 4 ∧
      (∃ more, Parser.Accepts (tokens.take 4 ++ more ++ [last])) ∧
      ∀ v, Parser.Accepts v → ¬ tokens.take 5 <+: v := by
  intro token tokens last
  obtain ⟨r, hr, hfirst⟩ := @Program.ofTokens_detects_at_once tokens last rfl
  have hindex : ((Program.ofTokens (tokens ++ [last])).toOption.any fun r =>
      r.findings.head?.any fun f => f.index == 4) = true := by
    decide +kernel
  rw [hr] at hindex
  simp only [Except.toOption, Option.any_some, Option.any_eq_true, beq_iff_eq] at hindex
  obtain ⟨f, hf, hindex⟩ := hindex
  obtain ⟨-, ⟨more, -, hmore⟩, hnone⟩ := hfirst f hf
  rw [hindex] at hmore hnone
  exact ⟨r, f, hr, hf, hindex, ⟨more, hmore⟩, hnone⟩

end TriangleCompiler
