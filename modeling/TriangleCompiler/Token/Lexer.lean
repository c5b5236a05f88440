import TriangleCompiler.Fault
import TriangleCompiler.Text.Alphabetic
import TriangleCompiler.Text.Cursor
import TriangleCompiler.Token

/-! From characters to tokens: separators are skipped, and each token is the longest lexeme that starts
    where the one before it ended. -/

namespace TriangleCompiler

open Text (Cursor endOfInput isAlphabetic)

namespace Token

/-! ### Character classes -/

/-- The characters that only separate tokens. -/
def isBlank (c : Char) : Bool :=
  c = ' ' || c = '\t' || c = '\n' || c = '\r'

/-- The characters that start a word. -/
def isLetter (c : Char) : Bool :=
  c = '_' || isAlphabetic c

/-- The characters that go on with a word. -/
def isWordPart (c : Char) : Bool :=
  c.isDigit || isLetter c

/-- The characters that may stand in a character literal. -/
def isGraphic (c : Char) : Bool :=
  c.isDigit || c = '.' || c = '?' || isBlank c || isAlphabetic c

/-- The characters that are operators. -/
def isOperator (c : Char) : Bool :=
  c ∈ ['+', '-', '*', '/', '<', '>', '=', '!']

/-! ### Separators -/

/-- Skips blanks and comments. A comment starts with `#` and ends with its line. -/
def skipSeparators (c : Cursor) : Cursor :=
  if c.current = '#' then skipSeparators c.skipLine
  else if isBlank c.current then skipSeparators c.advance
  else c
termination_by c.rest.length
decreasing_by
  · rename_i h
    exact Cursor.skipLine_lt (by rw [h]; decide) (by rw [h]; decide)
  · rename_i h
    refine Cursor.advance_lt fun hend => ?_
    rw [hend] at h
    exact absurd h (by decide)

theorem skipSeparators_le (c : Cursor) : (skipSeparators c).rest.length ≤ c.rest.length := by
  fun_induction skipSeparators c with
  | case1 c h ih => exact Nat.le_trans ih (Nat.le_of_lt (Cursor.skipLine_lt (by rw [h]; decide) (by rw [h]; decide)))
  | case2 c _ _ ih => exact Nat.le_trans ih c.advance_le
  | case3 => exact Nat.le_refl _

/-! ### Lexemes -/

/-- The kind of a word: a keyword or an identifier. -/
def wordKind (word : String) : Kind :=
  match Keyword.ofSpelling? word with
  | some keyword => .keyword keyword
  | none => .identifier

/-- The kind and the length of a lexeme that starts with a quote before `cs`. -/
def quoteLexeme : List Char → Kind × Nat
  | [] => (.unacceptableSequence, 1)
  | c :: cs =>
    if isGraphic c then
      if cs.head? = some '\x27' then (.charLiteral, 3) else (.unacceptableSequence, 2)
    else (.unacceptableSequence, 1)

/-- The kind of a character that is a token wherever it starts one. -/
def symbol? (c : Char) : Option Kind :=
  if isOperator c then some .operator
  else if c = ';' then some .semicolon
  else if c = '~' then some .tilde
  else if c = '(' then some .leftBracket
  else if c = ')' then some .rightBracket
  else none

/-- The kind and the length of an integer literal that starts with `c` before `cs`. A zero is a whole
    literal, so no longer literal starts with one. -/
def digitLexeme (c : Char) (cs : List Char) : Kind × Nat :=
  (.intLiteral, if c = '0' then 1 else 1 + (cs.takeWhile Char.isDigit).length)

/-- The kind and the length of a word that starts with `c` before `cs`. -/
def wordLexeme (c : Char) (cs : List Char) : Kind × Nat :=
  let word := c :: cs.takeWhile isWordPart
  (wordKind (String.ofList word), word.length)

/-- The kind and the length of the lexeme at the start of a text. -/
def lexeme : List Char → Kind × Nat
  | [] => (.endOfText, 0)
  | c :: cs =>
    if c = endOfInput then (.endOfText, 0)
    else match symbol? c with
      | some kind => (kind, 1)
      | none =>
        if c = ':' then if cs.head? = some '=' then (.becomes, 2) else (.colon, 1)
        else if c = '\x27' then quoteLexeme cs
        else if isLetter c then wordLexeme c cs
        else if c.isDigit then digitLexeme c cs
        else (.unknownInput, 1)

theorem lexeme_nil : lexeme [] = (.endOfText, 0) := rfl

theorem quoteLexeme_pos (cs : List Char) : 0 < (quoteLexeme cs).2 := by
  unfold quoteLexeme
  repeat' split
  all_goals exact Nat.zero_lt_succ _

theorem digitLexeme_pos (c : Char) (cs : List Char) : 0 < (digitLexeme c cs).2 := by
  unfold digitLexeme
  dsimp only
  split <;> omega

theorem wordLexeme_pos (c : Char) (cs : List Char) : 0 < (wordLexeme c cs).2 :=
  Nat.zero_lt_succ _

/-- Only the end of the text takes no character. -/
theorem lexeme_pos {cs : List Char} (h : (lexeme cs).1 ≠ .endOfText) : 0 < (lexeme cs).2 := by
  suffices (lexeme cs).1 = .endOfText ∨ 0 < (lexeme cs).2 from this.resolve_left h
  clear h
  unfold lexeme
  repeat' split
  all_goals first
    | exact .inl rfl
    | exact .inr (quoteLexeme_pos _)
    | exact .inr (wordLexeme_pos _ _)
    | exact .inr (digitLexeme_pos _ _)
    | exact .inr (Nat.zero_lt_succ _)

/-! ### The token list -/

/-- The token at the cursor, and the cursor after it. -/
def scan (c : Cursor) : Token × Cursor :=
  let (kind, length) := lexeme c.rest
  (⟨kind, String.ofList (c.rest.take length), c.position⟩, c.drop length)

theorem scan_lt {c : Cursor} (h : (scan c).1.kind ≠ .endOfText) :
    (scan c).2.rest.length < c.rest.length := by
  have hpos : 0 < (lexeme c.rest).2 := lexeme_pos h
  have hne : c.rest ≠ [] := by
    intro hnil
    exact h (by simp [scan, hnil, lexeme_nil])
  have hlen : 0 < c.rest.length := List.length_pos_iff.mpr hne
  simp only [scan, Cursor.drop, List.length_drop]
  omega

/-- The tokens from the cursor on, behind those of `tokens`. -/
def scanAll (tokens : Array Token) (c : Cursor) : Array Token :=
  let found := scan (skipSeparators c)
  if found.1.kind = .endOfText then tokens.push found.1
  else scanAll (tokens.push found.1) found.2
termination_by c.rest.length
decreasing_by
  rename_i h
  exact Nat.lt_of_lt_of_le (scan_lt h) (skipSeparators_le c)

/-- The tokens of a text. The last one, and no other, marks the end of the text. -/
def ofString (source : String) : List Token :=
  (scanAll #[] (Cursor.ofString source)).toList

/-- Puts the tokens of a text into a buffer, which must be empty. -/
def fill (buffer : List Token) (source : String) : Except Fault (List Token) :=
  if buffer = [] then .ok (ofString source) else .error (.dirtyBuffer buffer.length)

end Token

end TriangleCompiler
