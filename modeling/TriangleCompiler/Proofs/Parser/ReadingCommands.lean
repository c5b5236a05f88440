import TriangleCompiler.Program.Parser.Command
import TriangleCompiler.Proofs.Parser.ReadingExpressions

/-! What reading declarations and commands does, in the same way as for expressions: rules that the
    readers follow and that determine what they read. -/

namespace TriangleCompiler.Parser

/-! ### Declarations -/

/-- From `s` on one declaration is read as `d`. -/
inductive ReadsSingleDeclaration : State → SingleDeclaration → State → Prop where
  | const {s s₁ s₂ t : State} {name : Name} {e : Expr} : s.kind = .keyword .const →
      s.advance.countNode.acceptName? .identifier = some (name, s₁) → s₁.accept? .tilde = some s₂ →
      ReadsExpr s₂ e t → ReadsSingleDeclaration s (.const s.tag name e) t
  | constWithoutName {s : State} : s.kind = .keyword .const →
      s.advance.countNode.acceptName? .identifier = none →
      ReadsSingleDeclaration s (.error s.advance.countNode.position)
        (s.advance.countNode.reportMissing .identifier)
  | constWithoutTilde {s s₁ : State} {name : Name} : s.kind = .keyword .const →
      s.advance.countNode.acceptName? .identifier = some (name, s₁) → s₁.accept? .tilde = none →
      ReadsSingleDeclaration s (.error s₁.position) (s₁.reportMissing .tilde)
  | var {s s₁ s₂ t : State} {name type : Name} : s.kind = .keyword .var →
      s.advance.countNode.acceptName? .identifier = some (name, s₁) → s₁.accept? .colon = some s₂ →
      s₂.countNode.acceptName? .identifier = some (type, t) →
      ReadsSingleDeclaration s (.var s.tag name ⟨s₂.nextId, type⟩) t
  | varWithoutName {s : State} : s.kind = .keyword .var →
      s.advance.countNode.acceptName? .identifier = none →
      ReadsSingleDeclaration s (.error s.advance.countNode.position)
        (s.advance.countNode.reportMissing .identifier)
  | varWithoutColon {s s₁ : State} {name : Name} : s.kind = .keyword .var →
      s.advance.countNode.acceptName? .identifier = some (name, s₁) → s₁.accept? .colon = none →
      ReadsSingleDeclaration s (.error s₁.position) (s₁.reportMissing .colon)
  | varWithoutType {s s₁ s₂ : State} {name : Name} : s.kind = .keyword .var →
      s.advance.countNode.acceptName? .identifier = some (name, s₁) → s₁.accept? .colon = some s₂ →
      s₂.countNode.acceptName? .identifier = none →
      ReadsSingleDeclaration s (.error s₂.countNode.position) (s₂.countNode.reportMissing .identifier)
  | unexpected {s : State} : s.kind ≠ .keyword .const → s.kind ≠ .keyword .var →
      ReadsSingleDeclaration s (.error s.position) (s.report (.unexpectedInDeclaration s.kind))

/-- From `s` on the declarations behind a first one are read as `ds`. -/
inductive ReadsMoreDeclarations : State → List SingleDeclaration → State → Prop where
  | done {s : State} : s.accept? .semicolon = none → ReadsMoreDeclarations s [] s
  | more {s s₁ s₂ t : State} {d : SingleDeclaration} {ds : List SingleDeclaration} :
      s.accept? .semicolon = some s₁ → ReadsSingleDeclaration s₁ d s₂ →
      ReadsMoreDeclarations s₂ ds t → ReadsMoreDeclarations s (d :: ds) t

/-- From `s` on what stands between `let` and `in` is read as `d`. -/
inductive ReadsDeclaration : State → Declaration → State → Prop where
  | chain {s s₁ t : State} {first : SingleDeclaration} {rest : List SingleDeclaration} :
      ReadsSingleDeclaration s first s₁ → ReadsMoreDeclarations s₁ rest t →
      ReadsDeclaration s (joinDeclarations first rest) t

theorem readsSingleDeclaration_const {s : State} (hk : s.kind = .keyword .const) :
    ReadsSingleDeclaration s (constDeclaration s).1.1 (constDeclaration s).1.2 := by
  unfold constDeclaration
  dsimp only
  split
  · exact .constWithoutName hk ‹_›
  · rename_i hname
    split
    · exact .constWithoutTilde hk hname ‹_›
    · exact .const hk hname ‹_› (readsExpr_expr _)

theorem readsSingleDeclaration_var {s : State} (hk : s.kind = .keyword .var) :
    ReadsSingleDeclaration s (varDeclaration s).1.1 (varDeclaration s).1.2 := by
  unfold varDeclaration
  dsimp only
  split
  · exact .varWithoutName hk ‹_›
  · rename_i hname
    split
    · exact .varWithoutColon hk hname ‹_›
    · rename_i hcolon
      split
      · exact .varWithoutType hk hname hcolon ‹_›
      · exact .var hk hname hcolon ‹_›

theorem readsSingleDeclaration_singleDeclaration (s : State) :
    ReadsSingleDeclaration s (singleDeclaration s).1.1 (singleDeclaration s).1.2 := by
  unfold singleDeclaration
  split
  · exact readsSingleDeclaration_const ‹_›
  · exact readsSingleDeclaration_var ‹_›
  · exact .unexpected (by assumption) (by assumption)

theorem readsMoreDeclarations_moreDeclarations (before : List SingleDeclaration) (s : State) :
    ∃ ds, (moreDeclarations before s).1.1 = before.reverse ++ ds ∧
      ReadsMoreDeclarations s ds (moreDeclarations before s).1.2 := by
  rw [moreDeclarations]
  split
  · exact ⟨[], by simp, .done ‹_›⟩
  · rename_i s₁ hsep
    have hlen := State.length_ahead_accept? hsep
    have hle := (singleDeclaration s₁).2
    obtain ⟨ds, heq, hds⟩ := readsMoreDeclarations_moreDeclarations ((singleDeclaration s₁).1.1 :: before)
      (singleDeclaration s₁).1.2
    exact ⟨_ :: ds, by simpa using heq, .more hsep (readsSingleDeclaration_singleDeclaration s₁) hds⟩
termination_by s.ahead.length
decreasing_by omega

theorem readsDeclaration_declaration (s : State) :
    ReadsDeclaration s (declaration s).1.1 (declaration s).1.2 := by
  obtain ⟨ds, heq, hds⟩ := readsMoreDeclarations_moreDeclarations [] (singleDeclaration s).1.2
  have := ReadsDeclaration.chain (readsSingleDeclaration_singleDeclaration s) hds
  unfold declaration
  rw [List.reverse_nil, List.nil_append] at heq
  rw [← heq] at this
  exact this

theorem ReadsSingleDeclaration.unique {s t t' : State} {d d' : SingleDeclaration}
    (h : ReadsSingleDeclaration s d t) (h' : ReadsSingleDeclaration s d' t') : d = d' ∧ t = t' := by
  cases h <;> cases h' <;> grind [→ ReadsExpr.unique]

theorem ReadsMoreDeclarations.unique {s t t' : State} {ds ds' : List SingleDeclaration}
    (h : ReadsMoreDeclarations s ds t) (h' : ReadsMoreDeclarations s ds' t') : ds = ds' ∧ t = t' := by
  induction h generalizing ds' t' with
  | done hsep =>
    cases h' with
    | done => exact ⟨rfl, rfl⟩
    | more hsep' => simp [hsep] at hsep'
  | more hsep hd hds ih =>
    cases h' with
    | done hsep' => simp [hsep] at hsep'
    | more hsep' hd' hds' =>
      rw [hsep] at hsep'
      cases hsep'
      obtain ⟨rfl, rfl⟩ := hd.unique hd'
      obtain ⟨rfl, rfl⟩ := ih hds'
      exact ⟨rfl, rfl⟩

theorem ReadsDeclaration.unique {s t t' : State} {d d' : Declaration} :
    ReadsDeclaration s d t → ReadsDeclaration s d' t' → d = d' ∧ t = t'
  | .chain h₁ h₂, .chain h₁' h₂' => by
    obtain ⟨rfl, rfl⟩ := h₁.unique h₁'
    obtain ⟨rfl, rfl⟩ := h₂.unique h₂'
    exact ⟨rfl, rfl⟩

/-! ### Parts of commands -/

/-- From `s` on the token of kind `k` that ends the command `c` is read, which leaves `c'`. -/
inductive ReadsEnd (k : Token.Kind) (c : Command) : State → Command → State → Prop where
  | closed {s t : State} : s.accept? k = some t → ReadsEnd k c s c t
  | unclosed {s : State} : s.accept? k = none → ReadsEnd k c s (.error s.position) (s.reportMissing k)

/-- From `s` on, where a name is at hand, an assignment or a call is read as `c`. -/
inductive ReadsAssignmentOrCall : State → Command → State → Prop where
  | call {s s₁ s₂ t : State} {a : Argument} {c : Command} :
      s.advance.countNode.accept? .leftBracket = some s₁ → ReadsArgument s₁ a s₂ →
      ReadsEnd .rightBracket (.call s.position s.name a) s₂ c t → ReadsAssignmentOrCall s c t
  | assign {s s₁ t : State} {e : Expr} : s.advance.countNode.accept? .leftBracket = none →
      s.advance.countNode.accept? .becomes = some s₁ → ReadsExpr s₁ e t →
      ReadsAssignmentOrCall s (.assign s.position s.name e) t
  | neither {s : State} : s.advance.countNode.accept? .leftBracket = none →
      s.advance.countNode.accept? .becomes = none →
      ReadsAssignmentOrCall s (.error s.advance.countNode.position)
        (s.advance.countNode.reportMissing .becomes)

/-- From `s` on a condition and the keyword `k` behind it are read; nothing is found if a token is
    missing. -/
inductive ReadsCondition (k : Keyword) : State → Option Expr → State → Prop where
  | whole {s s₁ s₂ s₃ t : State} {e : Expr} : s.accept? .leftBracket = some s₁ → ReadsExpr s₁ e s₂ →
      s₂.accept? .rightBracket = some s₃ → s₃.accept? (.keyword k) = some t →
      ReadsCondition k s (some e) t
  | withoutOpening {s : State} : s.accept? .leftBracket = none →
      ReadsCondition k s none (s.reportMissing .leftBracket)
  | withoutClosing {s s₁ s₂ : State} {e : Expr} : s.accept? .leftBracket = some s₁ →
      ReadsExpr s₁ e s₂ → s₂.accept? .rightBracket = none →
      ReadsCondition k s none (s₂.reportMissing .rightBracket)
  | withoutKeyword {s s₁ s₂ s₃ : State} {e : Expr} : s.accept? .leftBracket = some s₁ →
      ReadsExpr s₁ e s₂ → s₂.accept? .rightBracket = some s₃ → s₃.accept? (.keyword k) = none →
      ReadsCondition k s none (s₃.reportMissing (.keyword k))

/-- From `s` on a declaration and the `in` behind it are read. -/
inductive ReadsBindings : State → Option Declaration → State → Prop where
  | whole {s s₁ t : State} {d : Declaration} : ReadsDeclaration s d s₁ →
      s₁.accept? (.keyword .in_) = some t → ReadsBindings s (some d) t
  | withoutIn {s s₁ : State} {d : Declaration} : ReadsDeclaration s d s₁ →
      s₁.accept? (.keyword .in_) = none → ReadsBindings s none (s₁.reportMissing (.keyword .in_))

/-- From `s` on the variable and the bounds of a counting loop and the `do` behind them are read. -/
inductive ReadsCount : State → Option Count → State → Prop where
  | whole {s s₁ s₂ s₃ s₄ s₅ t : State} {name : Name} {first last : Expr} :
      s.acceptName? .identifier = some (name, s₁) → s₁.countNode.accept? .becomes = some s₂ →
      ReadsExpr s₂ first s₃ → s₃.accept? (.keyword .to_) = some s₄ → ReadsExpr s₄ last s₅ →
      s₅.accept? (.keyword .do_) = some t →
      ReadsCount s (some ⟨⟨s₁.nextId, name⟩, first, last⟩) t
  | withoutName {s : State} : s.acceptName? .identifier = none →
      ReadsCount s none (s.reportMissing .identifier)
  | withoutBecomes {s s₁ : State} {name : Name} : s.acceptName? .identifier = some (name, s₁) →
      s₁.countNode.accept? .becomes = none → ReadsCount s none (s₁.countNode.reportMissing .becomes)
  | withoutTo {s s₁ s₂ s₃ : State} {name : Name} {first : Expr} :
      s.acceptName? .identifier = some (name, s₁) → s₁.countNode.accept? .becomes = some s₂ →
      ReadsExpr s₂ first s₃ → s₃.accept? (.keyword .to_) = none →
      ReadsCount s none (s₃.reportMissing (.keyword .to_))
  | withoutDo {s s₁ s₂ s₃ s₄ s₅ : State} {name : Name} {first last : Expr} :
      s.acceptName? .identifier = some (name, s₁) → s₁.countNode.accept? .becomes = some s₂ →
      ReadsExpr s₂ first s₃ → s₃.accept? (.keyword .to_) = some s₄ → ReadsExpr s₄ last s₅ →
      s₅.accept? (.keyword .do_) = none → ReadsCount s none (s₅.reportMissing (.keyword .do_))

theorem readsEnd_finish (k : Token.Kind) (c : Command) (s : State) :
    ReadsEnd k c s (finish k c s).1.1 (finish k c s).1.2 := by
  unfold finish
  split
  · exact .closed ‹_›
  · exact .unclosed ‹_›

theorem readsAssignmentOrCall_assignmentOrCall (s : State) :
    ReadsAssignmentOrCall s (assignmentOrCall s).1.1 (assignmentOrCall s).1.2 := by
  unfold assignmentOrCall
  dsimp only
  split
  · exact .call ‹_› (readsArgument_argument _) (readsEnd_finish _ _ _)
  · rename_i hopen
    split
    · exact .assign hopen ‹_› (readsExpr_expr _)
    · exact .neither hopen ‹_›

theorem readsCondition_condition (k : Keyword) (s : State) :
    ReadsCondition k s (condition k s).1.1 (condition k s).1.2 := by
  unfold condition
  split
  · exact .withoutOpening ‹_›
  · rename_i s₁ hopen
    have he := readsExpr_expr s₁
    dsimp only
    split
    · exact .withoutClosing hopen he ‹_›
    · rename_i hclose
      split
      · exact .withoutKeyword hopen he hclose ‹_›
      · exact .whole hopen he hclose ‹_›

theorem readsBindings_bindings (s : State) : ReadsBindings s (bindings s).1.1 (bindings s).1.2 := by
  have hd := readsDeclaration_declaration s
  unfold bindings
  dsimp only
  split
  · exact .withoutIn hd ‹_›
  · exact .whole hd ‹_›

theorem readsCount_count (s : State) : ReadsCount s (count s).1.1 (count s).1.2 := by
  unfold count
  split
  · exact .withoutName ‹_›
  · rename_i name s₁ hname
    split
    · exact .withoutBecomes hname ‹_›
    · rename_i s₂ hbecomes
      have hfirst := readsExpr_expr s₂
      dsimp only
      split
      · exact .withoutTo hname hbecomes hfirst ‹_›
      · rename_i s₄ hto
        have hlast := readsExpr_expr s₄
        split
        · exact .withoutDo hname hbecomes hfirst hto hlast ‹_›
        · exact .whole hname hbecomes hfirst hto hlast ‹_›

theorem ReadsEnd.unique {k : Token.Kind} {c d d' : Command} {s t t' : State} (h : ReadsEnd k c s d t)
    (h' : ReadsEnd k c s d' t') : d = d' ∧ t = t' := by
  cases h <;> cases h' <;> simp_all

theorem ReadsAssignmentOrCall.unique {s t t' : State} {c c' : Command} (h : ReadsAssignmentOrCall s c t)
    (h' : ReadsAssignmentOrCall s c' t') : c = c' ∧ t = t' := by
  cases h <;> cases h' <;> simp_all [readsExpr_iff, readsArgument_iff]
  exact ReadsEnd.unique ‹_› ‹_›

theorem ReadsCondition.unique {k : Keyword} {s t t' : State} {e e' : Option Expr}
    (h : ReadsCondition k s e t) (h' : ReadsCondition k s e' t') : e = e' ∧ t = t' := by
  cases h <;> cases h' <;> grind [→ ReadsExpr.unique]

theorem ReadsBindings.unique {s t t' : State} {d d' : Option Declaration} (h : ReadsBindings s d t)
    (h' : ReadsBindings s d' t') : d = d' ∧ t = t' := by
  cases h <;> cases h' <;> rename_i hd hin _ _ hd' hin' <;> obtain ⟨rfl, rfl⟩ := hd.unique hd' <;> simp_all

theorem ReadsCount.unique {s t t' : State} {x x' : Option Count} (h : ReadsCount s x t)
    (h' : ReadsCount s x' t') : x = x' ∧ t = t' := by
  cases h <;> cases h' <;> grind [→ ReadsExpr.unique]

/-! ### Commands -/

/-- Whether a token of this kind starts a command that is not blank. -/
def startsCommand : Token.Kind → Bool
  | .identifier | .keyword .if_ | .keyword .while_ | .keyword .let_ | .keyword .for_
  | .keyword .begin_ => true
  | _ => false

mutual

/-- From `s` on a command and those that semicolons divide from it are read as `c`. -/
inductive ReadsCommand : State → Command → State → Prop where
  | chain {s s₁ t : State} {first : Command} {rest : List Command} : ReadsSingleCommand s first s₁ →
      ReadsMoreCommands s₁ rest t → ReadsCommand s (joinCommands first rest) t

/-- From `s` on the commands behind a first one are read as `cs`. -/
inductive ReadsMoreCommands : State → List Command → State → Prop where
  | done {s : State} : s.accept? .semicolon = none → ReadsMoreCommands s [] s
  | more {s s₁ s₂ t : State} {c : Command} {cs : List Command} : s.accept? .semicolon = some s₁ →
      ReadsSingleCommand s₁ c s₂ → ReadsMoreCommands s₂ cs t → ReadsMoreCommands s (c :: cs) t

/-- From `s` on one command is read as `c`. -/
inductive ReadsSingleCommand : State → Command → State → Prop where
  | simple {s t : State} {c : Command} : s.kind = .identifier → ReadsAssignmentOrCall s c t →
      ReadsSingleCommand s c t
  | brokenIf {s t : State} : s.kind = .keyword .if_ → ReadsCondition .then_ s.advance none t →
      ReadsSingleCommand s (.error t.position) t
  | ifThen {s s₁ s₂ t : State} {e : Expr} {positive c : Command} : s.kind = .keyword .if_ →
      ReadsCondition .then_ s.advance (some e) s₁ → ReadsSingleCommand s₁ positive s₂ →
      s₂.accept? (.keyword .else_) = none →
      ReadsEnd (.keyword .endif) (.ifThen s.position e positive) s₂ c t → ReadsSingleCommand s c t
  | ifElse {s s₁ s₂ s₃ s₄ t : State} {e : Expr} {positive negative c : Command} :
      s.kind = .keyword .if_ → ReadsCondition .then_ s.advance (some e) s₁ →
      ReadsSingleCommand s₁ positive s₂ → s₂.accept? (.keyword .else_) = some s₃ →
      ReadsSingleCommand s₃ negative s₄ →
      ReadsEnd (.keyword .endif) (.ifElse s.position e positive negative) s₄ c t →
      ReadsSingleCommand s c t
  | brokenWhile {s t : State} : s.kind = .keyword .while_ → ReadsCondition .do_ s.advance none t →
      ReadsSingleCommand s (.error t.position) t
  | while_ {s s₁ t : State} {e : Expr} {body : Command} : s.kind = .keyword .while_ →
      ReadsCondition .do_ s.advance (some e) s₁ → ReadsSingleCommand s₁ body t →
      ReadsSingleCommand s (.while_ s.position e body) t
  | brokenLet {s t : State} : s.kind = .keyword .let_ → ReadsBindings s.advance none t →
      ReadsSingleCommand s (.error t.position) t
  | let_ {s s₁ t : State} {d : Declaration} {body : Command} : s.kind = .keyword .let_ →
      ReadsBindings s.advance (some d) s₁ → ReadsSingleCommand s₁ body t →
      ReadsSingleCommand s (.let_ s.position d body) t
  | brokenFor {s t : State} : s.kind = .keyword .for_ → ReadsCount s.advance none t →
      ReadsSingleCommand s (.error t.position) t
  | for_ {s s₁ s₂ t : State} {x : Count} {body c : Command} : s.kind = .keyword .for_ →
      ReadsCount s.advance (some x) s₁ → ReadsSingleCommand s₁ body s₂ →
      ReadsEnd (.keyword .next) (.for_ s.position x.counter x.first x.last body) s₂ c t →
      ReadsSingleCommand s c t
  | begin_ {s s₁ t : State} {body c : Command} : s.kind = .keyword .begin_ →
      ReadsCommand s.advance body s₁ → ReadsEnd (.keyword .end_) body s₁ c t → ReadsSingleCommand s c t
  | blank {s : State} : startsCommand s.kind = false → ReadsSingleCommand s (.blank s.position) s

end

mutual

theorem readsCommand_command (s : State) : ReadsCommand s (command s).1.1 (command s).1.2 := by
  have hle := (singleCommand s).2
  obtain ⟨cs, heq, hcs⟩ := readsMoreCommands_moreCommands [] (singleCommand s).1.2
  have := ReadsCommand.chain (readsSingleCommand_singleCommand s) hcs
  rw [command]
  rw [List.reverse_nil, List.nil_append] at heq
  rw [← heq] at this
  exact this
termination_by 2 * s.ahead.length + 1
decreasing_by all_goals omega

theorem readsMoreCommands_moreCommands (before : List Command) (s : State) :
    ∃ cs, (moreCommands before s).1.1 = before.reverse ++ cs ∧
      ReadsMoreCommands s cs (moreCommands before s).1.2 := by
  rw [moreCommands]
  split
  · exact ⟨[], by simp, .done ‹_›⟩
  · rename_i s₁ hsep
    have hlen := State.length_ahead_accept? hsep
    have hle := (singleCommand s₁).2
    obtain ⟨cs, heq, hcs⟩ :=
      readsMoreCommands_moreCommands ((singleCommand s₁).1.1 :: before) (singleCommand s₁).1.2
    exact ⟨_ :: cs, by simpa using heq, .more hsep (readsSingleCommand_singleCommand s₁) hcs⟩
termination_by 2 * s.ahead.length
decreasing_by all_goals omega

theorem readsSingleCommand_singleCommand (s : State) :
    ReadsSingleCommand s (singleCommand s).1.1 (singleCommand s).1.2 := by
  rw [singleCommand]
  dsimp only
  split
  · exact .simple ‹_› (readsAssignmentOrCall_assignmentOrCall s)
  · rename_i hk
    have hlen := State.length_ahead_advance (s := s) (by simp [hk])
    have hc := readsCondition_condition .then_ s.advance
    split
    · rename_i s₁ h₁ heq
      rw [heq] at hc
      exact .brokenIf hk hc
    · rename_i e s₁ h₁ heq
      rw [heq] at hc
      have hle : s₁.ahead.length ≤ s.advance.ahead.length := h₁
      have hp := readsSingleCommand_singleCommand s₁
      have hle' := (singleCommand s₁).2
      split
      · rename_i s₃ helse
        have hlen' : s₃.ahead.length + 1 = (singleCommand s₁).1.2.ahead.length :=
          State.length_ahead_accept? helse
        exact .ifElse hk hc hp helse (readsSingleCommand_singleCommand s₃) (readsEnd_finish _ _ _)
      · exact .ifThen hk hc hp ‹_› (readsEnd_finish _ _ _)
  · rename_i hk
    have hlen := State.length_ahead_advance (s := s) (by simp [hk])
    have hc := readsCondition_condition .do_ s.advance
    split
    · rename_i s₁ h₁ heq
      rw [heq] at hc
      exact .brokenWhile hk hc
    · rename_i e s₁ h₁ heq
      rw [heq] at hc
      have hle : s₁.ahead.length ≤ s.advance.ahead.length := h₁
      exact .while_ hk hc (readsSingleCommand_singleCommand s₁)
  · rename_i hk
    have hlen := State.length_ahead_advance (s := s) (by simp [hk])
    have hd := readsBindings_bindings s.advance
    split
    · rename_i s₁ h₁ heq
      rw [heq] at hd
      exact .brokenLet hk hd
    · rename_i d s₁ h₁ heq
      rw [heq] at hd
      have hle : s₁.ahead.length ≤ s.advance.ahead.length := h₁
      exact .let_ hk hd (readsSingleCommand_singleCommand s₁)
  · rename_i hk
    have hlen := State.length_ahead_advance (s := s) (by simp [hk])
    have hx := readsCount_count s.advance
    split
    · rename_i s₁ h₁ heq
      rw [heq] at hx
      exact .brokenFor hk hx
    · rename_i x s₁ h₁ heq
      rw [heq] at hx
      have hle : s₁.ahead.length ≤ s.advance.ahead.length := h₁
      exact .for_ hk hx (readsSingleCommand_singleCommand s₁) (readsEnd_finish _ _ _)
  · rename_i hk
    have hlen := State.length_ahead_advance (s := s) (by simp [hk])
    exact .begin_ hk (readsCommand_command s.advance) (readsEnd_finish _ _ _)
  · refine .blank (s := s) ?_
    unfold startsCommand
    split <;> first | contradiction | rfl
termination_by 2 * s.ahead.length
decreasing_by all_goals omega

end

mutual

theorem ReadsCommand.unique {s t t' : State} {c c' : Command} :
    ReadsCommand s c t → ReadsCommand s c' t' → c = c' ∧ t = t'
  | .chain h₁ h₂, .chain h₁' h₂' => by
    obtain ⟨rfl, rfl⟩ := h₁.unique h₁'
    obtain ⟨rfl, rfl⟩ := h₂.unique h₂'
    exact ⟨rfl, rfl⟩
termination_by structural h => h

theorem ReadsMoreCommands.unique {s t t' : State} {cs cs' : List Command} :
    ReadsMoreCommands s cs t → ReadsMoreCommands s cs' t' → cs = cs' ∧ t = t'
  | .done hsep, h' => by
    cases h' with
    | done => exact ⟨rfl, rfl⟩
    | more hsep' => simp [hsep] at hsep'
  | .more hsep hc hcs, h' => by
    cases h' with
    | done hsep' => simp [hsep] at hsep'
    | more hsep' hc' hcs' =>
      rw [hsep] at hsep'
      cases hsep'
      obtain ⟨rfl, rfl⟩ := hc.unique hc'
      obtain ⟨rfl, rfl⟩ := hcs.unique hcs'
      exact ⟨rfl, rfl⟩
termination_by structural h => h

theorem ReadsSingleCommand.unique {s t t' : State} {c c' : Command} :
    ReadsSingleCommand s c t → ReadsSingleCommand s c' t' → c = c' ∧ t = t'
  | .simple hk h, h' => by
    cases h' with
    | simple _ h₁ => exact h.unique h₁
    | _ => simp_all [startsCommand]
  | .brokenIf hk h, h' => by
    cases h' with
    | brokenIf _ h₁ =>
      obtain ⟨-, rfl⟩ := h.unique h₁
      exact ⟨rfl, rfl⟩
    | ifThen _ hc' => cases (h.unique hc').1
    | ifElse _ hc' => cases (h.unique hc').1
    | _ => simp_all [startsCommand]
  | .ifThen hk hc hp helse hend, h' => by
    cases h' with
    | brokenIf _ h₁ => cases (hc.unique h₁).1
    | ifThen _ hc' hp' _ hend' =>
      obtain ⟨⟨⟩, rfl⟩ := hc.unique hc'
      obtain ⟨rfl, rfl⟩ := hp.unique hp'
      exact hend.unique hend'
    | ifElse _ hc' hp' helse' =>
      obtain ⟨⟨⟩, rfl⟩ := hc.unique hc'
      obtain ⟨rfl, rfl⟩ := hp.unique hp'
      simp [helse] at helse'
    | _ => simp_all [startsCommand]
  | .ifElse hk hc hp helse hn hend, h' => by
    cases h' with
    | brokenIf _ h₁ => cases (hc.unique h₁).1
    | ifThen _ hc' hp' helse' =>
      obtain ⟨⟨⟩, rfl⟩ := hc.unique hc'
      obtain ⟨rfl, rfl⟩ := hp.unique hp'
      simp [helse] at helse'
    | ifElse _ hc' hp' helse' hn' hend' =>
      obtain ⟨⟨⟩, rfl⟩ := hc.unique hc'
      obtain ⟨rfl, rfl⟩ := hp.unique hp'
      rw [helse] at helse'
      cases helse'
      obtain ⟨rfl, rfl⟩ := hn.unique hn'
      exact hend.unique hend'
    | _ => simp_all [startsCommand]
  | .brokenWhile hk h, h' => by
    cases h' with
    | brokenWhile _ h₁ =>
      obtain ⟨-, rfl⟩ := h.unique h₁
      exact ⟨rfl, rfl⟩
    | while_ _ hc' => cases (h.unique hc').1
    | _ => simp_all [startsCommand]
  | .while_ hk hc hb, h' => by
    cases h' with
    | brokenWhile _ h₁ => cases (hc.unique h₁).1
    | while_ _ hc' hb' =>
      obtain ⟨⟨⟩, rfl⟩ := hc.unique hc'
      obtain ⟨rfl, rfl⟩ := hb.unique hb'
      exact ⟨rfl, rfl⟩
    | _ => simp_all [startsCommand]
  | .brokenLet hk h, h' => by
    cases h' with
    | brokenLet _ h₁ =>
      obtain ⟨-, rfl⟩ := h.unique h₁
      exact ⟨rfl, rfl⟩
    | let_ _ hd' => cases (h.unique hd').1
    | _ => simp_all [startsCommand]
  | .let_ hk hd hb, h' => by
    cases h' with
    | brokenLet _ h₁ => cases (hd.unique h₁).1
    | let_ _ hd' hb' =>
      obtain ⟨⟨⟩, rfl⟩ := hd.unique hd'
      obtain ⟨rfl, rfl⟩ := hb.unique hb'
      exact ⟨rfl, rfl⟩
    | _ => simp_all [startsCommand]
  | .brokenFor hk h, h' => by
    cases h' with
    | brokenFor _ h₁ =>
      obtain ⟨-, rfl⟩ := h.unique h₁
      exact ⟨rfl, rfl⟩
    | for_ _ hx' => cases (h.unique hx').1
    | _ => simp_all [startsCommand]
  | .for_ hk hx hb hend, h' => by
    cases h' with
    | brokenFor _ h₁ => cases (hx.unique h₁).1
    | for_ _ hx' hb' hend' =>
      obtain ⟨⟨⟩, rfl⟩ := hx.unique hx'
      obtain ⟨rfl, rfl⟩ := hb.unique hb'
      exact hend.unique hend'
    | _ => simp_all [startsCommand]
  | .begin_ hk hb hend, h' => by
    cases h' with
    | begin_ _ hb' hend' =>
      obtain ⟨rfl, rfl⟩ := hb.unique hb'
      exact hend.unique hend'
    | _ => simp_all [startsCommand]
  | .blank hk, h' => by
    cases h' with
    | blank => exact ⟨rfl, rfl⟩
    | _ => simp_all [startsCommand]
termination_by structural h => h

end

/-- The rules say exactly what the reader does. -/
theorem readsCommand_iff {s t : State} {c : Command} : ReadsCommand s c t ↔ (command s).1 = (c, t) := by
  constructor
  · intro h
    obtain ⟨hc, ht⟩ := (readsCommand_command s).unique h
    exact Prod.ext hc ht
  · intro h
    have := readsCommand_command s
    rwa [h] at this

end TriangleCompiler.Parser
