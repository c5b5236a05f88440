import TriangleCompiler.Program.Parser.Expression

/-! Reading declarations. -/

namespace TriangleCompiler.Parser

/-- Gives up on a declaration, because no token of kind `expected` is at hand. -/
def missingInDeclaration (s : State) (expected : Token.Kind) : Parsed SingleDeclaration s :=
  ⟨(.error s.position, s.reportMissing expected), Nat.le_refl _⟩

/-- Reads the declaration of a constant, whose keyword is at hand. -/
def constDeclaration (s : State) : Parsed SingleDeclaration s :=
  have hs := State.length_ahead_advance_le s
  match h₁ : s.advance.countNode.acceptName? .identifier with
  | none =>
    match missingInDeclaration s.advance.countNode .identifier with
    | ⟨r, h⟩ => ⟨r, by simp at *; omega⟩
  | some (name, s₁) =>
    have := State.length_ahead_acceptName? h₁
    match h₂ : s₁.accept? .tilde with
    | none =>
      match missingInDeclaration s₁ .tilde with
      | ⟨r, h⟩ => ⟨r, by simp at *; omega⟩
    | some s₂ =>
      have := State.length_ahead_accept? h₂
      match expr s₂ with
      | ⟨(e, s₃), h₃⟩ => ⟨(.const s.tag name e, s₃), by simp at *; omega⟩

/-- Reads the declaration of a variable, whose keyword is at hand. -/
def varDeclaration (s : State) : Parsed SingleDeclaration s :=
  have hs := State.length_ahead_advance_le s
  match h₁ : s.advance.countNode.acceptName? .identifier with
  | none =>
    match missingInDeclaration s.advance.countNode .identifier with
    | ⟨r, h⟩ => ⟨r, by simp at *; omega⟩
  | some (name, s₁) =>
    have := State.length_ahead_acceptName? h₁
    match h₂ : s₁.accept? .colon with
    | none =>
      match missingInDeclaration s₁ .colon with
      | ⟨r, h⟩ => ⟨r, by simp at *; omega⟩
    | some s₂ =>
      have := State.length_ahead_accept? h₂
      match h₃ : s₂.countNode.acceptName? .identifier with
      | none =>
        match missingInDeclaration s₂.countNode .identifier with
        | ⟨r, h⟩ => ⟨r, by simp at *; omega⟩
      | some (type, s₃) =>
        have := State.length_ahead_acceptName? h₃
        ⟨(.var s.tag name ⟨s₂.nextId, type⟩, s₃), by simp at *; omega⟩

/-- Reads one declaration. -/
def singleDeclaration (s : State) : Parsed SingleDeclaration s :=
  match s.kind with
  | .keyword .const => constDeclaration s
  | .keyword .var => varDeclaration s
  | kind => ⟨(.error s.position, s.report (.unexpectedInDeclaration kind)), Nat.le_refl _⟩

/-- Reads the declarations behind those of `before`, which are in reverse order. -/
def moreDeclarations (before : List SingleDeclaration) (s : State) :
    Parsed (List SingleDeclaration) s :=
  match h₁ : s.accept? .semicolon with
  | none => ⟨(before.reverse, s), Nat.le_refl _⟩
  | some s₁ =>
    have := State.length_ahead_accept? h₁
    match singleDeclaration s₁ with
    | ⟨(d, s₂), h₂⟩ =>
      match moreDeclarations (d :: before) s₂ with
      | ⟨r, h₃⟩ => ⟨r, by simp at h₂; omega⟩
termination_by s.ahead.length
decreasing_by
  simp at h₂; omega

/-- The declaration that consists of `first` and the parts behind it. -/
def joinDeclarations (first : SingleDeclaration) : List SingleDeclaration → Declaration
  | [] => .single first
  | rest => .sequential first.position (first :: rest)

/-- Reads what stands between `let` and `in`. -/
def declaration (s : State) : Parsed Declaration s :=
  match singleDeclaration s with
  | ⟨(first, s₁), h₁⟩ =>
    match moreDeclarations [] s₁ with
    | ⟨(rest, s₂), h₂⟩ => ⟨(joinDeclarations first rest, s₂), Nat.le_trans h₂ h₁⟩

end TriangleCompiler.Parser
