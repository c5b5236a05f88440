import TriangleCompiler.Position

/-! A place in a text together with what is left of the text from there on. The text ends with its last
    character, or before its first null character, whichever comes first. -/

namespace TriangleCompiler.Text

/-- The character that stands for the end of a text. -/
def endOfInput : Char := '\x00'

/-- What is left of a text, and the place where it starts. -/
structure Cursor where
  rest : List Char
  position : Position
deriving DecidableEq, Repr

namespace Cursor

/-- The start of a text. -/
def ofString (s : String) : Cursor := ⟨s.toList, .start⟩

/-- The character at the cursor, or the one that stands for the end of the text. -/
def current (c : Cursor) : Char :=
  c.rest.headD endOfInput

/-- The cursor `n` characters further on. -/
def drop (c : Cursor) (n : Nat) : Cursor :=
  ⟨c.rest.drop n, c.position.afterAll (c.rest.take n)⟩

/-- The cursor one character further on; it stays where it is at the end of the text. -/
def advance (c : Cursor) : Cursor :=
  if c.current = endOfInput then c else c.drop 1

/-- The cursor at the first character of the next line, or at the end of the text. -/
def skipLine (c : Cursor) : Cursor :=
  (c.drop (c.rest.takeWhile fun ch => ch ≠ '\n' ∧ ch ≠ endOfInput).length).advance

theorem advance_lt {c : Cursor} (h : c.current ≠ endOfInput) : c.advance.rest.length < c.rest.length := by
  obtain ⟨rest, p⟩ := c
  cases rest with
  | nil => exact absurd rfl h
  | cons ch rest =>
    rw [advance, if_neg h]
    exact Nat.lt_succ_self _

theorem advance_le (c : Cursor) : c.advance.rest.length ≤ c.rest.length := by
  by_cases h : c.current = endOfInput
  · exact Nat.le_of_eq (by rw [advance, if_pos h])
  · exact Nat.le_of_lt (advance_lt h)

theorem skipLine_lt {c : Cursor} (hline : c.current ≠ '\n') (hend : c.current ≠ endOfInput) :
    c.skipLine.rest.length < c.rest.length := by
  obtain ⟨rest, p⟩ := c
  cases rest with
  | nil => exact absurd rfl hend
  | cons ch rest =>
    have hstop : decide (ch ≠ '\n' ∧ ch ≠ endOfInput) = true := decide_eq_true ⟨hline, hend⟩
    refine Nat.lt_of_le_of_lt (advance_le _) ?_
    simp only [drop, List.takeWhile_cons, hstop, if_true, List.length_cons, List.drop_succ_cons, List.length_drop]
    omega

end Cursor

end TriangleCompiler.Text
