import TriangleCompiler.Diagnostic
import TriangleCompiler.Fault
import TriangleCompiler.Program

/-! What a parser reads from and what it has found so far. The last token of a stream marks the end of
    the text and is never passed, so only its place is kept, and every step that takes a token leaves
    fewer tokens ahead. -/

namespace TriangleCompiler.Parser

/-- A syntax error together with the number of tokens before the one it is about. -/
structure Finding where
  index : Nat
  position : Position
  cause : SyntaxError
deriving DecidableEq, Repr

/-- The diagnostic of a finding. -/
def Finding.diagnostic (f : Finding) : Diagnostic :=
  ⟨f.position, .syntactic f.cause⟩

/-- The tokens ahead, without the last one; the place of the last one; the number of tokens passed; the
    next node number; and the errors so far, the latest first. -/
structure State where
  ahead : List Token
  finish : Position
  cursor : Nat
  nextId : NodeId
  findings : List Finding
deriving DecidableEq, Repr

namespace State

/-- The start of a stream of tokens, which must end with the end of the text. -/
def ofTokens (tokens : List Token) : Except Fault State :=
  match tokens.getLast? with
  | some last =>
    if last.isEnd then .ok ⟨tokens.dropLast, last.position, 0, 0, []⟩ else .error .unterminated
  | none => .error .unterminated

/-- The kind of the token at hand. -/
def kind (s : State) : Token.Kind :=
  match s.ahead with
  | [] => .endOfText
  | t :: _ => t.kind

/-- The place of the token at hand. -/
def position (s : State) : Position :=
  match s.ahead with
  | [] => s.finish
  | t :: _ => t.position

/-- How the token at hand is written. -/
def spelling (s : State) : String :=
  match s.ahead with
  | [] => ""
  | t :: _ => t.spelling

/-- The number and the place of a node that starts at the token at hand. -/
def tag (s : State) : Tag :=
  ⟨s.nextId, s.position⟩

/-- The token at hand as a name. -/
def name (s : State) : Name :=
  ⟨s.tag, s.spelling⟩

/-- Passes the token at hand. -/
def advance (s : State) : State :=
  match s.ahead with
  | [] => s
  | _ :: rest => { s with ahead := rest, cursor := s.cursor + 1 }

/-- Hands out the next node number, which is `s.nextId`. -/
def countNode (s : State) : State :=
  { s with nextId := s.nextId + 1 }

/-- Reports an error at the token at hand. -/
def report (s : State) (cause : SyntaxError) : State :=
  { s with findings := ⟨s.cursor, s.position, cause⟩ :: s.findings }

/-- Reports that a token of kind `expected` was to be here. -/
def reportMissing (s : State) (expected : Token.Kind) : State :=
  s.report (.unexpected expected s.kind)

/-- Passes the token at hand if it is of kind `k`. -/
def accept? (k : Token.Kind) (s : State) : Option State :=
  match s.ahead with
  | [] => none
  | t :: rest => if t.kind = k then some { s with ahead := rest, cursor := s.cursor + 1 } else none

/-- Passes the token at hand if it is of kind `k`, and hands out a node number for the name that it
    is. -/
def acceptName? (k : Token.Kind) (s : State) : Option (Name × State) :=
  (s.accept? k).map fun t => (s.name, t.countNode)

@[simp] theorem length_ahead_countNode (s : State) : s.countNode.ahead.length = s.ahead.length := rfl

@[simp] theorem length_ahead_report (s : State) (cause : SyntaxError) :
    (s.report cause).ahead.length = s.ahead.length := rfl

@[simp] theorem length_ahead_reportMissing (s : State) (k : Token.Kind) :
    (s.reportMissing k).ahead.length = s.ahead.length := rfl

theorem length_ahead_advance_le (s : State) : s.advance.ahead.length ≤ s.ahead.length := by
  unfold advance
  split <;> simp_all

theorem length_ahead_advance {s : State} (h : s.kind ≠ .endOfText) :
    s.advance.ahead.length + 1 = s.ahead.length := by
  unfold advance kind at *
  split <;> simp_all

theorem length_ahead_accept? {k : Token.Kind} {s t : State} (h : s.accept? k = some t) :
    t.ahead.length + 1 = s.ahead.length := by
  unfold accept? at h
  split at h
  · cases h
  · split at h
    · cases h
      simp_all
    · cases h

theorem length_ahead_acceptName? {k : Token.Kind} {s t : State} {n : Name}
    (h : s.acceptName? k = some (n, t)) : t.ahead.length + 1 = s.ahead.length := by
  obtain ⟨u, hu, hr⟩ := Option.map_eq_some_iff.mp h
  cases hr
  rw [length_ahead_countNode]
  exact length_ahead_accept? hu

theorem le_of_accept? {k : Token.Kind} {s t : State} (h : s.accept? k = some t) :
    t.ahead.length ≤ s.ahead.length :=
  Nat.le_of_succ_le (Nat.le_of_eq (length_ahead_accept? h))

theorem le_of_acceptName? {k : Token.Kind} {s t : State} {n : Name}
    (h : s.acceptName? k = some (n, t)) : t.ahead.length ≤ s.ahead.length :=
  Nat.le_of_succ_le (Nat.le_of_eq (length_ahead_acceptName? h))

end State

/-- What was read from `s` on, and the state behind it. Nothing that was passed comes back. -/
abbrev Parsed (α : Type) (s : State) : Type :=
  { r : α × State // r.2.ahead.length ≤ s.ahead.length }

end TriangleCompiler.Parser
