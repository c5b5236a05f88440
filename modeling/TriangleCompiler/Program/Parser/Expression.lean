import TriangleCompiler.Program.Parser.State

/-! Reading expressions. Operators have no ranks: a chain of operands groups from the left. What cannot
    be read becomes an error node, and reading goes on at the token that was not expected. -/

namespace TriangleCompiler.Parser

/-- An error expression at the token at hand. -/
def errorExpr (s : State) : Parsed Expr s :=
  ⟨(.error s.tag, s.countNode), Nat.le_refl _⟩

mutual

/-- Reads an operand and the operators and operands behind it. -/
def expr (s : State) : Parsed Expr s :=
  match primary s with
  | ⟨(lhs, s₁), h₁⟩ =>
    match operands lhs s₁ with
    | ⟨r, h₂⟩ => ⟨r, Nat.le_trans h₂ h₁⟩
termination_by 3 * s.ahead.length + 1
decreasing_by
  · omega
  · simp at h₁; omega

/-- Reads the operators and operands behind the operand `lhs`. -/
def operands (lhs : Expr) (s : State) : Parsed Expr s :=
  match h : s.acceptName? .operator with
  | none => ⟨(lhs, s), Nat.le_refl _⟩
  | some (op, s₁) =>
    match primary s₁ with
    | ⟨(rhs, s₂), h₂⟩ =>
      match operands (.binary ⟨s₂.nextId, lhs.tag.position⟩ op lhs rhs) s₂.countNode with
      | ⟨r, h₃⟩ => ⟨r, by have := State.length_ahead_acceptName? h; simp at h₂ h₃; omega⟩
termination_by 3 * s.ahead.length
decreasing_by
  · have := State.length_ahead_acceptName? h; omega
  · have := State.length_ahead_acceptName? h; simp at h₂ ⊢; omega

/-- Reads an operand. -/
def primary (s : State) : Parsed Expr s :=
  match hk : s.kind with
  | .intLiteral => ⟨(.int s.tag s.spelling, s.advance.countNode), State.length_ahead_advance_le s⟩
  | .charLiteral => ⟨(.char s.tag s.spelling, s.advance.countNode), State.length_ahead_advance_le s⟩
  | .identifier =>
    match h₁ : s.advance.countNode.accept? .leftBracket with
    | none =>
      ⟨(.name ⟨s.advance.countNode.nextId, s.position⟩ s.name, s.advance.countNode.countNode),
        State.length_ahead_advance_le s⟩
    | some s₁ =>
      match argument s₁ with
      | ⟨(a, s₂), h₂⟩ =>
        match h₃ : s₂.accept? .rightBracket with
        | some s₃ =>
          ⟨(.call ⟨s₃.nextId, s.position⟩ s.name a, s₃.countNode), by
            have := State.length_ahead_accept? h₁
            have := State.length_ahead_accept? h₃
            have := State.length_ahead_advance_le s
            simp at *; omega⟩
        | none =>
          match errorExpr (s₂.reportMissing .rightBracket) with
          | ⟨r, h₄⟩ => ⟨r, by
              have := State.length_ahead_accept? h₁
              have := State.length_ahead_advance_le s
              simp at *; omega⟩
  | .operator =>
    match primary s.advance.countNode with
    | ⟨(e, s₁), h₁⟩ =>
      ⟨(.unary ⟨s₁.nextId, s.position⟩ s.name e, s₁.countNode), by
        have := State.length_ahead_advance_le s
        simp at *; omega⟩
  | .leftBracket =>
    match expr s.advance with
    | ⟨(e, s₁), h₁⟩ =>
      match h₂ : s₁.accept? .rightBracket with
      | some s₂ =>
        ⟨(e, s₂), by
          have := State.length_ahead_accept? h₂
          have := State.length_ahead_advance_le s
          simp at *; omega⟩
      | none =>
        match errorExpr (s₁.reportMissing .rightBracket) with
        | ⟨r, h₃⟩ => ⟨r, by
            have := State.length_ahead_advance_le s
            simp at *; omega⟩
  | kind =>
    match errorExpr (s.report (.unexpectedInExpression kind)) with
    | ⟨r, h₁⟩ => ⟨r, h₁⟩
termination_by 3 * s.ahead.length
decreasing_by
  · have := State.length_ahead_accept? h₁
    have := State.length_ahead_advance (s := s) (by simp [hk])
    simp at *; omega
  · have := State.length_ahead_advance (s := s) (by simp [hk])
    simp at *; omega
  · have := State.length_ahead_advance (s := s) (by simp [hk])
    simp at *; omega

/-- Reads what stands between the brackets of a call. -/
def argument (s : State) : Parsed Argument s :=
  match s.kind with
  | .rightBracket => ⟨(.blank s.tag, s.countNode), Nat.le_refl _⟩
  | .keyword .var =>
    match h₁ : s.countNode.advance.acceptName? .identifier with
    | some (name, s₁) =>
      ⟨(.var s.tag name, s₁), by
        have := State.length_ahead_acceptName? h₁
        have := State.length_ahead_advance_le s.countNode
        simp at *; omega⟩
    | none =>
      ⟨(.error s.tag, s.countNode.advance.reportMissing .identifier),
        State.length_ahead_advance_le s.countNode⟩
  | _ =>
    match expr s.countNode with
    | ⟨(e, s₁), h₁⟩ => ⟨(.value s.tag e, s₁), h₁⟩
termination_by 3 * s.ahead.length + 2
decreasing_by
  simp

end

end TriangleCompiler.Parser
