import TriangleCompiler.Program.Parser.Expression

/-! What reading an expression does: one rule for each way in which the reader can go on. The rules say
    everything that the reader does, with and without errors, so a fact about all that is read is proved
    by induction on them and never unfolds the reader. -/

namespace TriangleCompiler.Parser

/-- Whether a token of this kind starts an operand. -/
def startsOperand : Token.Kind → Bool
  | .intLiteral | .charLiteral | .identifier | .operator | .leftBracket => true
  | _ => false

mutual

/-- From `s` on an expression is read as `e`, and reading goes on at `t`. -/
inductive ReadsExpr : State → Expr → State → Prop where
  | chain {s s₁ t : State} {lhs e : Expr} :
      ReadsPrimary s lhs s₁ → ReadsOperands lhs s₁ e t → ReadsExpr s e t

/-- From `s` on, behind the operand `lhs`, the rest of an expression is read, which makes it `e`. -/
inductive ReadsOperands : Expr → State → Expr → State → Prop where
  | done {lhs : Expr} {s : State} : s.acceptName? .operator = none → ReadsOperands lhs s lhs s
  | more {lhs rhs e : Expr} {s s₁ s₂ t : State} {op : Name} :
      s.acceptName? .operator = some (op, s₁) → ReadsPrimary s₁ rhs s₂ →
      ReadsOperands (.binary ⟨s₂.nextId, lhs.tag.position⟩ op lhs rhs) s₂.countNode e t →
      ReadsOperands lhs s e t

/-- From `s` on an operand is read as `e`. -/
inductive ReadsPrimary : State → Expr → State → Prop where
  | int {s : State} : s.kind = .intLiteral →
      ReadsPrimary s (.int s.tag s.spelling) s.advance.countNode
  | char {s : State} : s.kind = .charLiteral →
      ReadsPrimary s (.char s.tag s.spelling) s.advance.countNode
  | name {s : State} : s.kind = .identifier → s.advance.countNode.accept? .leftBracket = none →
      ReadsPrimary s (.name ⟨s.advance.countNode.nextId, s.position⟩ s.name) s.advance.countNode.countNode
  | call {s s₁ s₂ s₃ : State} {a : Argument} : s.kind = .identifier →
      s.advance.countNode.accept? .leftBracket = some s₁ → ReadsArgument s₁ a s₂ →
      s₂.accept? .rightBracket = some s₃ →
      ReadsPrimary s (.call ⟨s₃.nextId, s.position⟩ s.name a) s₃.countNode
  | openCall {s s₁ s₂ : State} {a : Argument} : s.kind = .identifier →
      s.advance.countNode.accept? .leftBracket = some s₁ → ReadsArgument s₁ a s₂ →
      s₂.accept? .rightBracket = none →
      ReadsPrimary s (.error s₂.tag) (s₂.reportMissing .rightBracket).countNode
  | unary {s s₁ : State} {e : Expr} : s.kind = .operator → ReadsPrimary s.advance.countNode e s₁ →
      ReadsPrimary s (.unary ⟨s₁.nextId, s.position⟩ s.name e) s₁.countNode
  | bracketed {s s₁ s₂ : State} {e : Expr} : s.kind = .leftBracket → ReadsExpr s.advance e s₁ →
      s₁.accept? .rightBracket = some s₂ → ReadsPrimary s e s₂
  | openBracket {s s₁ : State} {e : Expr} : s.kind = .leftBracket → ReadsExpr s.advance e s₁ →
      s₁.accept? .rightBracket = none →
      ReadsPrimary s (.error s₁.tag) (s₁.reportMissing .rightBracket).countNode
  | unexpected {s : State} : startsOperand s.kind = false →
      ReadsPrimary s (.error s.tag) (s.report (.unexpectedInExpression s.kind)).countNode

/-- From `s` on an argument is read as `a`. -/
inductive ReadsArgument : State → Argument → State → Prop where
  | blank {s : State} : s.kind = .rightBracket → ReadsArgument s (.blank s.tag) s.countNode
  | var {s t : State} {name : Name} : s.kind = .keyword .var →
      s.countNode.advance.acceptName? .identifier = some (name, t) → ReadsArgument s (.var s.tag name) t
  | openVar {s : State} : s.kind = .keyword .var → s.countNode.advance.acceptName? .identifier = none →
      ReadsArgument s (.error s.tag) (s.countNode.advance.reportMissing .identifier)
  | value {s t : State} {e : Expr} : s.kind ≠ .rightBracket → s.kind ≠ .keyword .var →
      ReadsExpr s.countNode e t → ReadsArgument s (.value s.tag e) t

end

/-! ### The reader follows the rules

Each of the four parts below goes through the branches of one reader; the measure is that of the reader. -/

mutual

theorem readsExpr_expr (s : State) : ReadsExpr s (expr s).1.1 (expr s).1.2 := by
  have hle := (primary s).2
  rw [expr]
  exact .chain (readsPrimary_primary s) (readsOperands_operands _ _)
termination_by 3 * s.ahead.length + 1
decreasing_by all_goals omega

theorem readsOperands_operands (lhs : Expr) (s : State) :
    ReadsOperands lhs s (operands lhs s).1.1 (operands lhs s).1.2 := by
  rw [operands]
  split
  · exact .done ‹_›
  · rename_i op s₁ hop
    have hlen := State.length_ahead_acceptName? hop
    have hle := (primary s₁).2
    exact .more hop (readsPrimary_primary s₁) (readsOperands_operands _ _)
termination_by 3 * s.ahead.length
decreasing_by all_goals simp only [State.length_ahead_countNode] at *; omega

theorem readsPrimary_primary (s : State) : ReadsPrimary s (primary s).1.1 (primary s).1.2 := by
  have hadv := State.length_ahead_advance_le s
  rw [primary]
  split
  · exact .int ‹_›
  · exact .char ‹_›
  · rename_i hk
    split
    · exact .name hk ‹_›
    · rename_i s₁ hopen
      have hlen := State.length_ahead_accept? hopen
      have harg := readsArgument_argument s₁
      dsimp only
      split
      · exact .call hk hopen harg ‹_›
      · exact .openCall hk hopen harg ‹_›
  · rename_i hk
    have hlen := State.length_ahead_advance (s := s) (by simp [hk])
    exact .unary hk (readsPrimary_primary s.advance.countNode)
  · rename_i hk
    have hlen := State.length_ahead_advance (s := s) (by simp [hk])
    have he := readsExpr_expr s.advance
    dsimp only
    split
    · exact .bracketed hk he ‹_›
    · exact .openBracket hk he ‹_›
  · refine .unexpected (s := s) ?_
    unfold startsOperand
    split <;> first | contradiction | rfl
termination_by 3 * s.ahead.length
decreasing_by all_goals simp only [State.length_ahead_countNode] at *; omega

theorem readsArgument_argument (s : State) : ReadsArgument s (argument s).1.1 (argument s).1.2 := by
  rw [argument]
  split
  · exact .blank ‹_›
  · split
    · exact .var ‹_› ‹_›
    · exact .openVar ‹_› ‹_›
  · exact .value (by assumption) (by assumption) (readsExpr_expr s.countNode)
termination_by 3 * s.ahead.length + 2
decreasing_by all_goals simp only [State.length_ahead_countNode]; omega

end

/-! ### The rules determine what is read

So the rules describe the reader exactly, and a derivation by the rules is a run of the reader. -/

mutual

theorem ReadsExpr.unique {s t t' : State} {e e' : Expr} :
    ReadsExpr s e t → ReadsExpr s e' t' → e = e' ∧ t = t'
  | .chain hp ho, .chain hp' ho' => by
    obtain ⟨rfl, rfl⟩ := hp.unique hp'
    exact ho.unique ho'
termination_by structural h => h

theorem ReadsOperands.unique {lhs e e' : Expr} {s t t' : State} :
    ReadsOperands lhs s e t → ReadsOperands lhs s e' t' → e = e' ∧ t = t'
  | .done hop, h' => by
    cases h' with
    | done => exact ⟨rfl, rfl⟩
    | more hop' => simp [hop] at hop'
  | .more hop hp ho, h' => by
    cases h' with
    | done hop' => simp [hop] at hop'
    | more hop' hp' ho' =>
      rw [hop] at hop'
      cases hop'
      obtain ⟨rfl, rfl⟩ := hp.unique hp'
      exact ho.unique ho'
termination_by structural h => h

theorem ReadsPrimary.unique {s t t' : State} {e e' : Expr} :
    ReadsPrimary s e t → ReadsPrimary s e' t' → e = e' ∧ t = t'
  | .int hk, h' => by cases h' <;> simp_all [startsOperand]
  | .char hk, h' => by cases h' <;> simp_all [startsOperand]
  | .name hk hopen, h' => by cases h' <;> simp_all [startsOperand]
  | .call hk hopen ha hclose, h' => by
    cases h' <;> simp_all [startsOperand]
    all_goals
      obtain ⟨rfl, rfl⟩ := ha.unique ‹_›
      simp_all
  | .openCall hk hopen ha hclose, h' => by
    cases h' <;> simp_all [startsOperand]
    all_goals
      obtain ⟨rfl, rfl⟩ := ha.unique ‹_›
      simp_all
  | .unary hk hp, h' => by
    cases h' <;> simp_all [startsOperand]
    obtain ⟨rfl, rfl⟩ := hp.unique ‹_›
    exact ⟨⟨rfl, rfl⟩, rfl⟩
  | .bracketed hk he hclose, h' => by
    cases h' <;> simp_all [startsOperand]
    all_goals
      obtain ⟨rfl, rfl⟩ := he.unique ‹_›
      simp_all
  | .openBracket hk he hclose, h' => by
    cases h' <;> simp_all [startsOperand]
    all_goals
      obtain ⟨rfl, rfl⟩ := he.unique ‹_›
      simp_all
  | .unexpected hk, h' => by cases h' <;> simp_all [startsOperand]
termination_by structural h => h

theorem ReadsArgument.unique {s t t' : State} {a a' : Argument} :
    ReadsArgument s a t → ReadsArgument s a' t' → a = a' ∧ t = t'
  | .blank hk, h' => by cases h' <;> simp_all
  | .var hk hname, h' => by cases h' <;> simp_all
  | .openVar hk hname, h' => by cases h' <;> simp_all
  | .value hblank hvar he, h' => by
    cases h' <;> simp_all
    exact he.unique ‹_›
termination_by structural h => h

end

theorem readsExpr_iff {s t : State} {e : Expr} : ReadsExpr s e t ↔ (expr s).1 = (e, t) := by
  constructor
  · intro h
    obtain ⟨he, ht⟩ := (readsExpr_expr s).unique h
    exact Prod.ext he ht
  · intro h
    have := readsExpr_expr s
    rwa [h] at this

theorem readsArgument_iff {s t : State} {a : Argument} : ReadsArgument s a t ↔ (argument s).1 = (a, t) := by
  constructor
  · intro h
    obtain ⟨ha, ht⟩ := (readsArgument_argument s).unique h
    exact Prod.ext ha ht
  · intro h
    have := readsArgument_argument s
    rwa [h] at this

end TriangleCompiler.Parser
