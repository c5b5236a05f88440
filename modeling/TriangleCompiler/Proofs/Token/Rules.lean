import TriangleCompiler.Token.Lexer

/-! The lexical rules. A word is said by the characters that it is made of and by those that may not follow
    it, so each rule takes as much of the text as it can. Every text that starts with no separator starts
    with a word of the rules, and with one only: the one that the lexer finds. -/

namespace TriangleCompiler

namespace Lexical

open Text (Ranges alphabetic isAlphabetic endOfInput)
open Token (Kind)

/-! ### Characters -/

def Blank (c : Char) : Prop := c ∈ [' ', '\t', '\n', '\r']

def Digit (c : Char) : Prop := '0' ≤ c ∧ c ≤ '9'

def Letter (c : Char) : Prop := isAlphabetic c = true ∨ c = '_'

def WordPart (c : Char) : Prop := Letter c ∨ Digit c

/-- The characters that a character literal may hold. -/
def Graphic (c : Char) : Prop := isAlphabetic c = true ∨ Digit c ∨ c ∈ ['.', '?'] ∨ Blank c

/-- The characters that are operators. -/
def operators : List Char := ['+', '-', '*', '/', '<', '>', '=', '!']

/-- The characters that have a rule of their own, the start of a comment among them. -/
def marks : List Char := operators ++ [':', ';', '~', '(', ')', '\x27', '#']

instance : DecidablePred Blank := fun c => inferInstanceAs (Decidable (c ∈ [' ', '\t', '\n', '\r']))

instance : DecidablePred Digit := fun c => inferInstanceAs (Decidable ('0' ≤ c ∧ c ≤ '9'))

instance : DecidablePred Letter := fun c => inferInstanceAs (Decidable (isAlphabetic c = true ∨ c = '_'))

instance : DecidablePred WordPart := fun c => inferInstanceAs (Decidable (Letter c ∨ Digit c))

instance : DecidablePred Graphic := fun c =>
  inferInstanceAs (Decidable (isAlphabetic c = true ∨ Digit c ∨ c ∈ ['.', '?'] ∨ Blank c))

/-- What follows does not start with a character that has the property. -/
def Stops (P : Char → Prop) (rest : List Char) : Prop := ∀ c ∈ rest.head?, ¬P c

/-! ### Words and separators -/

/-- `Lexeme kind spelling rest` says that a text that goes on with `rest` behind `spelling` starts with a
    word of this kind and this spelling. -/
inductive Lexeme : Kind → List Char → List Char → Prop where
  | operator {c : Char} {rest : List Char} : c ∈ operators → Lexeme .operator [c] rest
  | semicolon {rest : List Char} : Lexeme .semicolon [';'] rest
  | tilde {rest : List Char} : Lexeme .tilde ['~'] rest
  | leftBracket {rest : List Char} : Lexeme .leftBracket ['('] rest
  | rightBracket {rest : List Char} : Lexeme .rightBracket [')'] rest
  | becomes {rest : List Char} : Lexeme .becomes [':', '='] rest
  | colon {rest : List Char} : Stops (· = '=') rest → Lexeme .colon [':'] rest
  | zero {rest : List Char} : Lexeme .intLiteral ['0'] rest
  | integer {d : Char} {ds rest : List Char} : Digit d → d ≠ '0' → (∀ c ∈ ds, Digit c) → Stops Digit rest →
      Lexeme .intLiteral (d :: ds) rest
  | keyword {word : Keyword} {rest : List Char} : Stops WordPart rest →
      Lexeme (.keyword word) word.spelling.toList rest
  | identifier {c : Char} {cs rest : List Char} : Letter c → (∀ d ∈ cs, WordPart d) → Stops WordPart rest →
      (∀ word : Keyword, word.spelling.toList ≠ c :: cs) → Lexeme .identifier (c :: cs) rest
  | charLiteral {c : Char} {rest : List Char} : Graphic c → Lexeme .charLiteral ['\x27', c, '\x27'] rest
  -- a quote with one graphic character and no closing quote, and a quote with no graphic character
  | unclosed {c : Char} {rest : List Char} : Graphic c → Stops (· = '\x27') rest →
      Lexeme .unacceptableSequence ['\x27', c] rest
  | bareQuote {rest : List Char} : Stops Graphic rest → Lexeme .unacceptableSequence ['\x27'] rest
  | unknown {c : Char} {rest : List Char} : c ∉ marks → ¬Blank c → ¬Digit c → ¬Letter c →
      Lexeme .unknownInput [c] rest

/-- `Separator gap rest` says that `gap` is made of blanks and comments. A comment takes its line with the
    line feed; without one it takes all of the text. -/
inductive Separator : List Char → List Char → Prop where
  | nil {rest : List Char} : Separator [] rest
  | blank {c : Char} {gap rest : List Char} : Blank c → Separator gap rest → Separator (c :: gap) rest
  | comment {body gap rest : List Char} : '\n' ∉ body → Separator gap rest →
      Separator ('#' :: body ++ '\n' :: gap) rest
  | lastComment {body : List Char} : '\n' ∉ body → Separator ('#' :: body) []

/-! ### The classes of the lexer -/

theorem isBlank_iff {c : Char} : Token.isBlank c = true ↔ Blank c := by
  simp [Token.isBlank, Blank, or_assoc]

theorem isDigit_iff {c : Char} : c.isDigit = true ↔ Digit c := by
  simp [Char.isDigit, Digit, Char.le_def]

theorem isLetter_iff {c : Char} : Token.isLetter c = true ↔ Letter c := by
  simp [Token.isLetter, Letter, or_comm]

theorem isWordPart_iff {c : Char} : Token.isWordPart c = true ↔ WordPart c := by
  rw [Token.isWordPart, Bool.or_eq_true, isDigit_iff, isLetter_iff, or_comm]
  rfl

theorem isGraphic_iff {c : Char} : Token.isGraphic c = true ↔ Graphic c := by
  simp only [Token.isGraphic, Graphic, Bool.or_eq_true, decide_eq_true_eq, isDigit_iff, isBlank_iff,
    List.mem_cons, List.not_mem_nil, or_false]
  grind

theorem isOperator_iff {c : Char} : Token.isOperator c = true ↔ c ∈ operators := by
  simp [Token.isOperator, operators]

theorem not_letter_of_mem_marks {c : Char} (h : c ∈ marks) : ¬Letter c := by
  have hall : (marks.all fun c => !Token.isLetter c) = true := rfl
  have hnot := List.all_eq_true.mp hall c h
  rw [← isLetter_iff]
  simpa using hnot

theorem not_digit_of_mem_marks {c : Char} (h : c ∈ marks) : ¬Digit c := by
  have hall : (marks.all fun c => !c.isDigit) = true := rfl
  have hnot := List.all_eq_true.mp hall c h
  rw [← isDigit_iff]
  simpa using hnot

theorem Digit.not_letter {c : Char} (h : Digit c) : ¬Letter c := by
  obtain ⟨-, hle⟩ := h
  have hlt : c.toNat < 0x41 := Nat.lt_of_le_of_lt hle (by decide)
  rintro (halpha | rfl)
  · rw [isAlphabetic, alphabetic, Ranges.covers, if_pos hlt] at halpha
    cases halpha
  · exact absurd hle (by decide)

/-! ### The longest run of a class -/

theorem exists_longest (P : Char → Prop) [DecidablePred P] (cs : List Char) :
    ∃ ds rest, cs = ds ++ rest ∧ (∀ d ∈ ds, P d) ∧ Stops P rest := by
  refine ⟨cs.takeWhile (decide <| P ·), cs.dropWhile (decide <| P ·),
    List.takeWhile_append_dropWhile.symm, fun d hd => ?_, fun d hd hP => ?_⟩
  · exact of_decide_eq_true (List.all_eq_true.mp List.all_takeWhile d hd)
  · have hnot := List.head?_dropWhile_not (decide <| P ·) cs
    rw [Option.mem_def.mp hd] at hnot
    simp [hP] at hnot

theorem takeWhile_eq {P : Char → Prop} {p : Char → Bool} (hp : ∀ {c}, p c = true ↔ P c) {ds rest : List Char}
    (hds : ∀ d ∈ ds, P d) (hrest : Stops P rest) : (ds ++ rest).takeWhile p = ds := by
  have hstop : rest.takeWhile p = [] := by
    cases rest with
    | nil => rfl
    | cons c rest =>
      have hc : ¬p c = true := fun h => hrest c rfl (hp.mp h)
      rw [List.takeWhile_cons_of_neg hc]
  rw [List.takeWhile_append_of_pos fun d hd => hp.mpr (hds d hd), hstop, List.append_nil]

/-! ### The lexer follows the rules -/

theorem wordKind_keyword (word : Keyword) : Token.wordKind word.spelling = .keyword word := by
  cases word <;> rfl

theorem wordKind_identifier {word : String} (h : ∀ w : Keyword, w.spelling ≠ word) :
    Token.wordKind word = .identifier := by
  have hnone : Keyword.ofSpelling? word = none := by
    simp [Keyword.ofSpelling?, h]
  rw [Token.wordKind, hnone]

theorem wordPart_keyword (word : Keyword) :
    ∃ c cs, word.spelling.toList = c :: cs ∧ Letter c ∧ ∀ d ∈ cs, WordPart d := by
  have hall : ∀ {cs : List Char}, cs.all Token.isWordPart = true → ∀ d ∈ cs, WordPart d :=
    fun h d hd => isWordPart_iff.mp (List.all_eq_true.mp h d hd)
  cases word <;> exact ⟨_, _, rfl, isLetter_iff.mp rfl, hall rfl⟩

/-- The lexer on a character that has no rule of its own. -/
theorem lexeme_cons {c : Char} (cs : List Char) (hend : c ≠ endOfInput) (hmark : c ∉ marks) :
    Token.lexeme (c :: cs) = if Token.isLetter c then Token.wordLexeme c cs
      else if c.isDigit then Token.digitLexeme c cs else (.unknownInput, 1) := by
  simp only [marks, operators, List.mem_append, List.mem_cons, List.not_mem_nil, or_false, not_or] at hmark
  have hsymbol : Token.symbol? c = none := by
    simp [Token.symbol?, Token.isOperator, hmark]
  simp [Token.lexeme, hend, hsymbol, hmark]

theorem lexeme_word {c : Char} {cs rest : List Char} (hend : c ≠ endOfInput) (hc : Letter c)
    (hcs : ∀ d ∈ cs, WordPart d) (hrest : Stops WordPart rest) :
    Token.lexeme (c :: cs ++ rest) = (Token.wordKind (String.ofList (c :: cs)), (c :: cs).length) := by
  have hmark : c ∉ marks := fun h => not_letter_of_mem_marks h hc
  rw [List.cons_append, lexeme_cons _ hend hmark, if_pos (isLetter_iff.mpr hc), Token.wordLexeme,
    takeWhile_eq isWordPart_iff hcs hrest]

theorem lexeme_digit {d : Char} (hd : Digit d) (cs : List Char) :
    Token.lexeme (d :: cs) = Token.digitLexeme d cs := by
  have hend : d ≠ endOfInput := by
    rintro rfl
    exact absurd hd (by decide)
  have hmark : d ∉ marks := fun h => not_digit_of_mem_marks h hd
  have hletter : ¬Token.isLetter d = true := fun h => hd.not_letter (isLetter_iff.mp h)
  rw [lexeme_cons _ hend hmark, if_neg hletter, if_pos (isDigit_iff.mpr hd)]

theorem Stops.head?_ne {c : Char} {rest : List Char} (h : Stops (· = c) rest) : rest.head? ≠ some c :=
  fun heq => h c heq rfl

/-- The lexer finds the word of the rules. -/
theorem Lexeme.lexeme_eq {kind : Kind} {spelling rest : List Char} (h : Lexeme kind spelling rest)
    (hend : endOfInput ∉ spelling) : Token.lexeme (spelling ++ rest) = (kind, spelling.length) := by
  cases h with
  | @operator c _ hc =>
    simp only [List.mem_singleton] at hend
    simp [Token.lexeme, Ne.symm hend, Token.symbol?, isOperator_iff.mpr hc]
  | semicolon | tilde | leftBracket | rightBracket | becomes => rfl
  | colon hrest =>
    have hsymbol : Token.symbol? ':' = none := rfl
    simp [Token.lexeme, hsymbol, hrest.head?_ne, endOfInput]
  | zero => rw [List.singleton_append, lexeme_digit (by decide)]; rfl
  | @integer d ds _ hd hzero hds hrest =>
    rw [List.cons_append, lexeme_digit hd, Token.digitLexeme, if_neg hzero,
      takeWhile_eq isDigit_iff hds hrest, List.length_cons, Nat.add_comm]
  | @keyword word _ hrest =>
    obtain ⟨c, cs, hspelling, hc, hcs⟩ := wordPart_keyword word
    rw [hspelling] at hend
    have hword := lexeme_word (fun heq => hend (by simp [heq])) hc hcs hrest
    rw [← hspelling, String.ofList_toList, wordKind_keyword] at hword
    exact hword
  | @identifier c cs _ hc hcs hrest hnone =>
    rw [lexeme_word (fun heq => hend (by simp [heq])) hc hcs hrest, wordKind_identifier]
    intro word heq
    exact hnone word (by rw [heq, String.toList_ofList])
  | charLiteral hc => simp [Token.lexeme, Token.symbol?, Token.isOperator, endOfInput, Token.quoteLexeme,
      isGraphic_iff.mpr hc]
  | unclosed hc hrest => simp [Token.lexeme, Token.symbol?, Token.isOperator, endOfInput, Token.quoteLexeme,
      isGraphic_iff.mpr hc, hrest.head?_ne]
  | bareQuote hrest =>
    have hquote : Token.quoteLexeme rest = (.unacceptableSequence, 1) := by
      cases rest with
      | nil => rfl
      | cons c cs =>
        have hc : ¬Token.isGraphic c = true := fun h => hrest c rfl (isGraphic_iff.mp h)
        rw [Token.quoteLexeme, if_neg hc]
    simp [Token.lexeme, Token.symbol?, Token.isOperator, endOfInput, hquote]
  | @unknown c _ hmark _ hdigit hletter =>
    rw [List.singleton_append, lexeme_cons _ (fun heq => hend (by simp [heq])) hmark,
      if_neg fun h => hletter (isLetter_iff.mp h), if_neg fun h => hdigit (isDigit_iff.mp h)]
    rfl

/-- A text starts with one word at most. -/
theorem Lexeme.unique {kind kind' : Kind} {spelling spelling' rest rest' : List Char}
    (h : Lexeme kind spelling rest) (h' : Lexeme kind' spelling' rest')
    (heq : spelling' ++ rest' = spelling ++ rest) (hend : endOfInput ∉ spelling ++ rest) :
    kind' = kind ∧ spelling' = spelling := by
  have hend' : endOfInput ∉ spelling' ++ rest' := by rwa [heq]
  have hword := h.lexeme_eq fun hmem => hend (List.mem_append_left _ hmem)
  have hword' := h'.lexeme_eq fun hmem => hend' (List.mem_append_left _ hmem)
  rw [heq, hword] at hword'
  obtain ⟨hkind, hlength⟩ := Prod.mk.inj hword'
  exact ⟨hkind.symm, (List.append_inj heq hlength.symm).1⟩

/-! ### The rules leave nothing out -/

theorem exists_word {c : Char} (cs : List Char) (hc : Letter c) :
    ∃ kind spelling rest, c :: cs = spelling ++ rest ∧ Lexeme kind spelling rest := by
  obtain ⟨ds, rest, rfl, hds, hrest⟩ := exists_longest WordPart cs
  by_cases hword : ∃ word : Keyword, word.spelling.toList = c :: ds
  · obtain ⟨word, hword⟩ := hword
    exact ⟨_, word.spelling.toList, rest, by rw [hword]; rfl, .keyword hrest⟩
  · exact ⟨_, c :: ds, rest, rfl, .identifier hc hds hrest fun word heq => hword ⟨word, heq⟩⟩

theorem exists_integer {d : Char} (cs : List Char) (hd : Digit d) :
    ∃ kind spelling rest, d :: cs = spelling ++ rest ∧ Lexeme kind spelling rest := by
  by_cases hzero : d = '0'
  · exact ⟨_, ['0'], cs, by rw [hzero]; rfl, .zero⟩
  · obtain ⟨ds, rest, rfl, hds, hrest⟩ := exists_longest Digit cs
    exact ⟨_, d :: ds, rest, rfl, .integer hd hzero hds hrest⟩

theorem exists_quoted (cs : List Char) :
    ∃ kind spelling rest, '\x27' :: cs = spelling ++ rest ∧ Lexeme kind spelling rest := by
  by_cases hbare : Stops Graphic cs
  · exact ⟨_, ['\x27'], cs, rfl, .bareQuote hbare⟩
  · cases cs with
    | nil => exact absurd (fun c hc => nomatch hc) hbare
    | cons c cs =>
      have hc : Graphic c := Decidable.byContradiction fun hnot =>
        hbare fun d hd => Option.some.inj hd ▸ hnot
      by_cases hclosed : cs.head? = some '\x27'
      · obtain ⟨rest, rfl⟩ := List.head?_eq_some_iff.mp hclosed
        exact ⟨_, ['\x27', c, '\x27'], rest, rfl, .charLiteral hc⟩
      · exact ⟨_, ['\x27', c], cs, rfl, .unclosed hc fun d hd heq => hclosed (heq ▸ hd)⟩

theorem exists_mark {c : Char} (cs : List Char) (hmark : c ∈ marks) (hcomment : c ≠ '#') :
    ∃ kind spelling rest, c :: cs = spelling ++ rest ∧ Lexeme kind spelling rest := by
  rcases List.mem_append.mp hmark with hop | hmark
  · exact ⟨_, [c], cs, rfl, .operator hop⟩
  · simp only [List.mem_cons, List.not_mem_nil, or_false, hcomment] at hmark
    rcases hmark with rfl | rfl | rfl | rfl | rfl | rfl
    · by_cases hbecomes : cs.head? = some '='
      · obtain ⟨rest, rfl⟩ := List.head?_eq_some_iff.mp hbecomes
        exact ⟨_, [':', '='], rest, rfl, .becomes⟩
      · exact ⟨_, [':'], cs, rfl, .colon fun d hd heq => hbecomes (heq ▸ hd)⟩
    · exact ⟨_, [';'], cs, rfl, .semicolon⟩
    · exact ⟨_, ['~'], cs, rfl, .tilde⟩
    · exact ⟨_, ['('], cs, rfl, .leftBracket⟩
    · exact ⟨_, [')'], cs, rfl, .rightBracket⟩
    · exact exists_quoted cs

/-- A text that starts with no separator starts with a word. -/
theorem exists_lexeme {c : Char} (cs : List Char) (hblank : ¬Blank c) (hcomment : c ≠ '#') :
    ∃ kind spelling rest, c :: cs = spelling ++ rest ∧ Lexeme kind spelling rest := by
  by_cases hmark : c ∈ marks
  · exact exists_mark cs hmark hcomment
  by_cases hletter : Letter c
  · exact exists_word cs hletter
  by_cases hdigit : Digit c
  · exact exists_integer cs hdigit
  · exact ⟨_, [c], cs, rfl, .unknown hmark hblank hdigit hletter⟩

end Lexical

end TriangleCompiler
