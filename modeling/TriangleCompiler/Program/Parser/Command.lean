import TriangleCompiler.Program.Parser.Declaration

/-! Reading commands. A command that cannot be read to its end becomes an error node. -/

namespace TriangleCompiler.Parser

/-- Reads the token of kind `k` that ends the command `c`. -/
def finish (k : Token.Kind) (c : Command) (s : State) : Parsed Command s :=
  match h : s.accept? k with
  | some s₁ => ⟨(c, s₁), State.le_of_accept? h⟩
  | none => ⟨(.error s.position, s.reportMissing k), Nat.le_refl _⟩

/-- Reads an assignment or a call, whose name is at hand. -/
def assignmentOrCall (s : State) : Parsed Command s :=
  have hs := State.length_ahead_advance_le s
  match h₁ : s.advance.countNode.accept? .leftBracket with
  | some s₁ =>
    have hs₁ := Nat.le_trans (State.le_of_accept? h₁) hs
    match argument s₁ with
    | ⟨(a, s₂), h₂⟩ =>
      match finish .rightBracket (.call s.position s.name a) s₂ with
      | ⟨r, h₃⟩ => ⟨r, Nat.le_trans h₃ (Nat.le_trans h₂ hs₁)⟩
  | none =>
    match h₂ : s.advance.countNode.accept? .becomes with
    | some s₁ =>
      have hs₁ := Nat.le_trans (State.le_of_accept? h₂) hs
      match expr s₁ with
      | ⟨(e, s₂), h₃⟩ => ⟨(.assign s.position s.name e, s₂), Nat.le_trans h₃ hs₁⟩
    | none =>
      ⟨(.error s.advance.countNode.position, s.advance.countNode.reportMissing .becomes), hs⟩

/-! ### What stands before the body of a compound command

Each of these gives nothing if something was missing, which is then reported. -/

/-- Reads a condition between brackets and the keyword behind it. -/
def condition (k : Keyword) (s : State) : Parsed (Option Expr) s :=
  match h₁ : s.accept? .leftBracket with
  | none => ⟨(none, s.reportMissing .leftBracket), Nat.le_refl _⟩
  | some s₁ =>
    match expr s₁ with
    | ⟨(e, s₂), h₂⟩ =>
      have hs₂ := Nat.le_trans h₂ (State.le_of_accept? h₁)
      match h₃ : s₂.accept? .rightBracket with
      | none => ⟨(none, s₂.reportMissing .rightBracket), hs₂⟩
      | some s₃ =>
        have hs₃ := Nat.le_trans (State.le_of_accept? h₃) hs₂
        match h₄ : s₃.accept? (.keyword k) with
        | none => ⟨(none, s₃.reportMissing (.keyword k)), hs₃⟩
        | some s₄ => ⟨(some e, s₄), Nat.le_trans (State.le_of_accept? h₄) hs₃⟩

/-- Reads a declaration and the `in` behind it. -/
def bindings (s : State) : Parsed (Option Declaration) s :=
  match declaration s with
  | ⟨(d, s₁), h₁⟩ =>
    match h₂ : s₁.accept? (.keyword .in_) with
    | none => ⟨(none, s₁.reportMissing (.keyword .in_)), by simp at *; omega⟩
    | some s₂ =>
      have := State.length_ahead_accept? h₂
      ⟨(some d, s₂), by simp at *; omega⟩

/-- The variable and the bounds of a counting loop. -/
structure Count where
  counter : LoopVariable
  first : Expr
  last : Expr

/-- Reads the variable and the bounds of a counting loop and the `do` behind them. -/
def count (s : State) : Parsed (Option Count) s :=
  match h₁ : s.acceptName? .identifier with
  | none => ⟨(none, s.reportMissing .identifier), Nat.le_refl _⟩
  | some (name, s₁) =>
    have hs₁ := State.le_of_acceptName? h₁
    match h₂ : s₁.countNode.accept? .becomes with
    | none => ⟨(none, s₁.countNode.reportMissing .becomes), hs₁⟩
    | some s₂ =>
      match expr s₂ with
      | ⟨(first, s₃), h₃⟩ =>
        have hs₃ := Nat.le_trans h₃ (Nat.le_trans (State.le_of_accept? h₂) hs₁)
        match h₄ : s₃.accept? (.keyword .to_) with
        | none => ⟨(none, s₃.reportMissing (.keyword .to_)), hs₃⟩
        | some s₄ =>
          match expr s₄ with
          | ⟨(last, s₅), h₅⟩ =>
            have hs₅ := Nat.le_trans h₅ (Nat.le_trans (State.le_of_accept? h₄) hs₃)
            match h₆ : s₅.accept? (.keyword .do_) with
            | none => ⟨(none, s₅.reportMissing (.keyword .do_)), hs₅⟩
            | some s₆ =>
              ⟨(some ⟨⟨s₁.nextId, name⟩, first, last⟩, s₆), Nat.le_trans (State.le_of_accept? h₆) hs₅⟩

/-! ### Commands -/

/-- The command that consists of `first` and the parts behind it. -/
def joinCommands (first : Command) : List Command → Command
  | [] => first
  | rest => .sequential first.position (first :: rest)

mutual

/-- Reads a command and those behind it that semicolons divide from it. -/
def command (s : State) : Parsed Command s :=
  match singleCommand s with
  | ⟨(first, s₁), h₁⟩ =>
    match moreCommands [] s₁ with
    | ⟨(rest, s₂), h₂⟩ => ⟨(joinCommands first rest, s₂), Nat.le_trans h₂ h₁⟩
termination_by 2 * s.ahead.length + 1
decreasing_by
  · omega
  · simp at h₁; omega

/-- Reads the commands behind those of `before`, which are in reverse order. -/
def moreCommands (before : List Command) (s : State) : Parsed (List Command) s :=
  match h₁ : s.accept? .semicolon with
  | none => ⟨(before.reverse, s), Nat.le_refl _⟩
  | some s₁ =>
    have := State.length_ahead_accept? h₁
    match singleCommand s₁ with
    | ⟨(c, s₂), h₂⟩ =>
      match moreCommands (c :: before) s₂ with
      | ⟨r, h₃⟩ => ⟨r, by simp at h₂; omega⟩
termination_by 2 * s.ahead.length
decreasing_by
  · omega
  · simp at h₂; omega

/-- Reads one command. What starts none leaves the command blank. -/
def singleCommand (s : State) : Parsed Command s :=
  have hle := State.length_ahead_advance_le s
  match hk : s.kind with
  | .identifier => assignmentOrCall s
  | .keyword .if_ =>
    have hs := State.length_ahead_advance (s := s) (by simp [hk])
    match condition .then_ s.advance with
    | ⟨(none, s₁), h₁⟩ => ⟨(.error s₁.position, s₁), Nat.le_trans h₁ hle⟩
    | ⟨(some e, s₁), h₁⟩ =>
      match singleCommand s₁ with
      | ⟨(positive, s₂), h₂⟩ =>
        match h₃ : s₂.accept? (.keyword .else_) with
        | some s₃ =>
          have := State.length_ahead_accept? h₃
          match singleCommand s₃ with
          | ⟨(negative, s₄), h₄⟩ =>
            match finish (.keyword .endif) (.ifElse s.position e positive negative) s₄ with
            | ⟨r, h₅⟩ => ⟨r, by simp at h₁ h₂ h₄; omega⟩
        | none =>
          match finish (.keyword .endif) (.ifThen s.position e positive) s₂ with
          | ⟨r, h₄⟩ => ⟨r, by simp at h₁ h₂; omega⟩
  | .keyword .while_ =>
    have hs := State.length_ahead_advance (s := s) (by simp [hk])
    match condition .do_ s.advance with
    | ⟨(none, s₁), h₁⟩ => ⟨(.error s₁.position, s₁), Nat.le_trans h₁ hle⟩
    | ⟨(some e, s₁), h₁⟩ =>
      match singleCommand s₁ with
      | ⟨(body, s₂), h₂⟩ => ⟨(.while_ s.position e body, s₂), by simp at h₁ h₂ ⊢; omega⟩
  | .keyword .let_ =>
    have hs := State.length_ahead_advance (s := s) (by simp [hk])
    match bindings s.advance with
    | ⟨(none, s₁), h₁⟩ => ⟨(.error s₁.position, s₁), Nat.le_trans h₁ hle⟩
    | ⟨(some d, s₁), h₁⟩ =>
      match singleCommand s₁ with
      | ⟨(body, s₂), h₂⟩ => ⟨(.let_ s.position d body, s₂), by simp at h₁ h₂ ⊢; omega⟩
  | .keyword .for_ =>
    have hs := State.length_ahead_advance (s := s) (by simp [hk])
    match count s.advance with
    | ⟨(none, s₁), h₁⟩ => ⟨(.error s₁.position, s₁), Nat.le_trans h₁ hle⟩
    | ⟨(some c, s₁), h₁⟩ =>
      match singleCommand s₁ with
      | ⟨(body, s₂), h₂⟩ =>
        match finish (.keyword .next) (.for_ s.position c.counter c.first c.last body) s₂ with
        | ⟨r, h₃⟩ => ⟨r, by simp at h₁ h₂; omega⟩
  | .keyword .begin_ =>
    have hs := State.length_ahead_advance (s := s) (by simp [hk])
    match command s.advance with
    | ⟨(c, s₁), h₁⟩ =>
      match finish (.keyword .end_) c s₁ with
      | ⟨r, h₂⟩ => ⟨r, by simp at h₁; omega⟩
  | _ => ⟨(.blank s.position, s), Nat.le_refl _⟩
termination_by 2 * s.ahead.length
decreasing_by
  all_goals try simp only at *
  all_goals omega

end

end TriangleCompiler.Parser
