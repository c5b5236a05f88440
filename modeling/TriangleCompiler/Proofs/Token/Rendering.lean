import TriangleCompiler.Proofs.Token.Respelling

/-! Writing words down and reading them back. Here it is said for a word alone which spellings it may have:
    where a separator stands behind it, or the text ends, no rule of the lexer takes more of the text. So
    words that are written with separators between them are read as these words; and the words of any text
    can be written again with nothing but spaces between them. -/

namespace TriangleCompiler

namespace Lexical

open Text (endOfInput)
open Token (Kind)

/-- The spellings of the words of each kind. -/
inductive WellFormed : Kind → List Char → Prop where
  | keyword {word : Keyword} : WellFormed (.keyword word) word.spelling.toList
  | identifier {c : Char} {cs : List Char} : Letter c → (∀ d ∈ cs, WordPart d) →
      (∀ word : Keyword, word.spelling.toList ≠ c :: cs) → WellFormed .identifier (c :: cs)
  | zero : WellFormed .intLiteral ['0']
  | integer {d : Char} {ds : List Char} : Digit d → d ≠ '0' → (∀ c ∈ ds, Digit c) →
      WellFormed .intLiteral (d :: ds)
  | operator {c : Char} : c ∈ operators → WellFormed .operator [c]
  | colon : WellFormed .colon [':']
  | becomes : WellFormed .becomes [':', '=']
  | semicolon : WellFormed .semicolon [';']
  | tilde : WellFormed .tilde ['~']
  | leftBracket : WellFormed .leftBracket ['(']
  | rightBracket : WellFormed .rightBracket [')']
  | charLiteral {c : Char} : Graphic c → WellFormed .charLiteral ['\x27', c, '\x27']

/-- Words that are written with a separator between any two of them, and maybe one at both ends. The places
    of the tokens do not matter. -/
structure Written (pieces : List Piece) (gap : List Char) : Prop where
  words : ∀ p ∈ pieces, WellFormed p.token.kind p.token.spelling.toList
  gaps : ∀ p ∈ pieces, Layout p.gap
  apart : ∀ p ∈ pieces.tail, p.gap ≠ []
  last : Layout gap

/-! ### What follows a word -/

/-- A text that starts with a separator, or is at its end. -/
def Breaks (rest : List Char) : Prop := ∀ c ∈ rest.head?, Blank c ∨ c = '#'

theorem Breaks.stops {P : Char → Prop} {rest : List Char} (h : Breaks rest) (hblank : ∀ c, Blank c → ¬P c)
    (hcomment : ¬P '#') : Stops P rest := by
  intro c hc
  rcases h c hc with hc | rfl
  · exact hblank c hc
  · exact hcomment

theorem Layout.breaks {gap : List Char} (h : Layout gap) (rest : List Char) (hrest : gap ≠ [] ∨ Breaks rest) :
    Breaks (gap ++ rest) := by
  intro c hc
  cases h with
  | nil => exact (hrest.resolve_left fun hne => hne rfl) c hc
  | blank hblank _ =>
    cases hc
    exact Or.inl hblank
  | comment =>
    cases hc
    exact Or.inr rfl

/-- Before a separator the lexer reads a word to its end, and no further. -/
theorem WellFormed.lexeme {kind : Kind} {spelling rest : List Char} (h : WellFormed kind spelling)
    (hrest : Breaks rest) : Lexeme kind spelling rest := by
  have hdigit : Stops Digit rest := hrest.stops (fun c hc hdigit => hdigit.not_blank hc) (by decide)
  have hword : Stops WordPart rest := by
    refine hrest.stops (fun c hc hpart => ?_) (by decide)
    rcases hpart with hletter | hdigit
    · exact hletter.not_blank hc
    · exact hdigit.not_blank hc
  cases h with
  | keyword => exact .keyword hword
  | identifier hc hcs hnone => exact .identifier hc hcs hword hnone
  | zero => exact .zero
  | integer hd hzero hds => exact .integer hd hzero hds hdigit
  | operator hc => exact .operator hc
  | colon =>
    refine .colon (hrest.stops ?_ (by decide))
    rintro c hc rfl
    exact absurd hc (by decide)
  | becomes => exact .becomes
  | semicolon => exact .semicolon
  | tilde => exact .tilde
  | leftBracket => exact .leftBracket
  | rightBracket => exact .rightBracket
  | charLiteral hc => exact .charLiteral hc

/-- What the lexer reads is well formed, if it is a word of the language at all. -/
theorem Lexeme.wellFormed {kind : Kind} {spelling rest : List Char} (h : Lexeme kind spelling rest)
    (hkind : kind.isError = false) : WellFormed kind spelling := by
  cases h with
  | operator hc => exact .operator hc
  | semicolon => exact .semicolon
  | tilde => exact .tilde
  | leftBracket => exact .leftBracket
  | rightBracket => exact .rightBracket
  | becomes => exact .becomes
  | colon => exact .colon
  | zero => exact .zero
  | integer hd hzero hds => exact .integer hd hzero hds
  | keyword => exact .keyword
  | identifier hc hcs _ hnone => exact .identifier hc hcs hnone
  | charLiteral hc => exact .charLiteral hc
  | unclosed | bareQuote | unknown => cases hkind

theorem WellFormed.isError_eq {kind : Kind} {spelling : List Char} (h : WellFormed kind spelling) :
    kind.isError = false := by
  cases h <;> rfl

/-! ### No word and no separator ends the text -/

/-- The characters of words: those of names and integers, those in quotes, and the marks. -/
theorem WellFormed.not_mem {kind : Kind} {spelling : List Char} (h : WellFormed kind spelling) {x : Char}
    (hpart : ¬WordPart x) (hgraphic : kind = .charLiteral → ¬Graphic x)
    (hmark : x ∉ operators ++ [':', ';', '~', '(', ')', '\x27']) : x ∉ spelling := by
  simp only [List.mem_append, List.mem_cons, List.not_mem_nil, or_false, not_or] at hmark
  obtain ⟨hoperator, hmark⟩ := hmark
  have hparts : ∀ {c : Char} {cs : List Char}, WordPart c → (∀ d ∈ cs, WordPart d) → x ∉ c :: cs := by
    intro c cs hc hcs hmem
    rcases List.mem_cons.mp hmem with rfl | hmem
    · exact hpart hc
    · exact hpart (hcs x hmem)
  cases h with
  | @keyword word =>
    obtain ⟨c, cs, hspelling, hc, hcs⟩ := wordPart_keyword word
    rw [hspelling]
    exact hparts (.inl hc) hcs
  | identifier hc hcs => exact hparts (.inl hc) hcs
  | zero => exact hparts (.inr (by decide)) (by simp)
  | integer hd _ hds => exact hparts (.inr hd) fun c hc => .inr (hds c hc)
  | operator hc =>
    intro hmem
    rw [← List.mem_singleton.mp hmem] at hc
    exact hoperator hc
  | @charLiteral c hc =>
    have hne : x ≠ c := by
      rintro rfl
      exact hgraphic rfl hc
    simp [hmark, hne]
  | becomes =>
    have hne : x ≠ '=' := by
      rintro rfl
      exact hoperator (by decide)
    simp [hmark, hne]
  | colon | semicolon | tilde | leftBracket | rightBracket => simp [hmark]

theorem WellFormed.endOfInput_not_mem {kind : Kind} {spelling : List Char} (h : WellFormed kind spelling) :
    endOfInput ∉ spelling :=
  h.not_mem (by decide) (fun _ => by decide) (by decide)

theorem Layout.endOfInput_not_mem {gap : List Char} (h : Layout gap) : endOfInput ∉ gap := by
  induction h with
  | nil => exact List.not_mem_nil
  | blank hc _ ih =>
    rw [List.mem_cons, not_or]
    refine ⟨?_, ih⟩
    rintro rfl
    exact absurd hc (by decide)
  | comment _ hend _ ih =>
    have hmarks : endOfInput ≠ '#' ∧ endOfInput ≠ '\n' := by decide
    simp [hend, ih, hmarks]

theorem Layout.separator {gap : List Char} (h : Layout gap) (rest : List Char) : Separator gap rest := by
  induction h with
  | nil => exact .nil
  | blank hc _ ih => exact .blank hc ih
  | comment hbody _ _ ih => exact .comment hbody ih

/-! ### Reading what was written -/

theorem Written.tail {p : Piece} {ps : List Piece} {gap : List Char} (h : Written (p :: ps) gap) :
    Written ps gap where
  words q hq := h.words q (List.mem_cons_of_mem _ hq)
  gaps q hq := h.gaps q (List.mem_cons_of_mem _ hq)
  apart q hq := h.apart q (List.mem_of_mem_tail hq)
  last := h.last

/-- Behind a word there is a separator, or the end of the text. -/
theorem Written.breaks {p : Piece} {ps : List Piece} {gap : List Char} (h : Written (p :: ps) gap) :
    Breaks (textOf ps ++ gap) := by
  cases ps with
  | nil =>
    have hgap := h.last.breaks [] (.inr fun c hc => nomatch hc)
    rwa [List.append_nil] at hgap
  | cons q qs =>
    have hne : q.gap ≠ [] := h.apart q List.mem_cons_self
    have hq := (h.gaps q (by simp)).breaks (q.token.spelling.toList ++ (textOf qs ++ gap)) (.inl hne)
    simpa [Piece.text] using hq

theorem Written.endOfInput_not_mem {pieces : List Piece} {gap : List Char} (h : Written pieces gap) :
    endOfInput ∉ textOf pieces ++ gap := by
  rw [List.mem_append, not_or]
  refine ⟨fun hmem => ?_, h.last.endOfInput_not_mem⟩
  obtain ⟨p, hp, hmem⟩ := List.mem_flatMap.mp hmem
  rcases List.mem_append.mp hmem with hmem | hmem
  · exact (h.gaps p hp).endOfInput_not_mem hmem
  · exact (h.words p hp).endOfInput_not_mem hmem

theorem textOf_replaced (before : List Char) (pieces : List Piece) :
    textOf (respellPieces Token.spelling before pieces) = textOf pieces :=
  textOf_respellPieces before pieces

/-- Put at their places, the words are those of the lexical rules. -/
theorem Written.tiling {pieces : List Piece} {gap : List Char} (h : Written pieces gap) (before : List Char) :
    Tiling before (respellPieces Token.spelling before pieces) gap := by
  induction pieces generalizing before with
  | nil => exact .nil (h.last.separator [])
  | cons p ps ih =>
    refine .cons ⟨(h.gaps p List.mem_cons_self).separator _, rfl, ?_⟩ (ih h.tail _)
    rw [textOf_replaced]
    exact (h.words p List.mem_cons_self).lexeme h.breaks

/-- The tokens of a text that is made of words and separators are its words. -/
theorem Tiling.ofString {pieces : List Piece} {gap : List Char} (h : Tiling [] pieces gap)
    (hend : endOfInput ∉ textOf pieces ++ gap) : Token.ofString (String.ofList (textOf pieces ++ gap)) =
      pieces.map Piece.token ++ [⟨.endOfText, "", placeAfter (textOf pieces ++ gap)⟩] := by
  have hscan := @Tiling.scanAll [] gap [] pieces h hend (fun c hc => nomatch hc) #[]
  rw [List.append_nil] at hscan
  rw [Token.ofString, Text.Cursor.ofString, String.toList_ofList]
  exact hscan

/-- The tokens of words that were written are these words. -/
theorem Written.ofString {pieces : List Piece} {gap : List Char} (h : Written pieces gap) :
    (Token.ofString (String.ofList (textOf pieces ++ gap))).map (fun t => (t.kind, t.spelling)) =
      pieces.map (fun p => (p.token.kind, p.token.spelling)) ++ [(.endOfText, "")] := by
  have hend := h.endOfInput_not_mem
  rw [← textOf_replaced [] pieces] at hend ⊢
  rw [(h.tiling []).ofString hend, List.map_append, map_respellPieces]
  rfl

/-! ### Tokens without an error -/

theorem diagnostics_eq_nil_iff {tokens : List Token} :
    Token.diagnostics tokens = [] ↔ ∀ t ∈ tokens, t.kind.isError = false := by
  rw [Token.diagnostics, List.filterMap_eq_nil_iff]
  refine forall₂_congr fun t _ => ?_
  rw [Option.map_eq_none_iff, Token.lexicalError?]
  cases t.kind <;> simp [Kind.isError]

/-- Every token but the end of the text is a word of the rules. -/
theorem exists_lexeme_of_mem {source : String} {t : Token} (ht : t ∈ Token.ofString source) :
    (t.kind = .endOfText ∧ t.spelling = "") ∨ ∃ rest, Lexeme t.kind t.spelling.toList rest := by
  obtain ⟨pieces, gap, -, -, -, -, htiling, htokens⟩ := exists_tiling source
  rw [htokens] at ht
  rcases List.mem_append.mp ht with ht | ht
  · obtain ⟨p, hp, rfl⟩ := List.mem_map.mp ht
    obtain ⟨l, r, rfl⟩ := List.append_of_mem hp
    exact Or.inr ⟨_, (htiling.2 l p r rfl).lexeme⟩
  · cases List.mem_singleton.mp ht
    exact Or.inl ⟨rfl, rfl⟩

/-- Words with single spaces between them. -/
def spaced : List Token → List Piece
  | [] => []
  | t :: ts => ⟨[], t⟩ :: ts.map (Piece.mk [' '])

theorem textOf_spaced (ts : List Token) :
    textOf (spaced ts) = (" ".intercalate (ts.map Token.spelling)).toList := by
  rw [String.toList_intercalate, List.map_map]
  cases ts with
  | nil => rfl
  | cons t ts =>
    rw [spaced, textOf_cons, Piece.text, List.nil_append]
    induction ts generalizing t with
    | nil => simp
    | cons u us ih =>
      have hrest := ih u
      simp only [List.map_cons, List.intercalate_cons_cons, textOf_cons, Piece.text] at hrest ⊢
      simp [hrest]

theorem map_spaced (ts : List Token) :
    (spaced ts).map (fun p => (p.token.kind, p.token.spelling)) = ts.map fun t => (t.kind, t.spelling) := by
  cases ts with
  | nil => rfl
  | cons t ts => simp [spaced]

theorem written_spaced {ts : List Token} (h : ∀ t ∈ ts, WellFormed t.kind t.spelling.toList) :
    Written (spaced ts) [] := by
  cases ts with
  | nil => exact ⟨by simp [spaced], by simp [spaced], by simp [spaced], .nil⟩
  | cons t ts =>
    refine ⟨fun p hp => ?_, fun p hp => ?_, fun p hp => ?_, .nil⟩
    · rcases List.mem_cons.mp hp with rfl | hp
      · exact h t List.mem_cons_self
      · obtain ⟨u, hu, rfl⟩ := List.mem_map.mp hp
        exact h u (List.mem_cons_of_mem _ hu)
    · rcases List.mem_cons.mp hp with rfl | hp
      · exact .nil
      · obtain ⟨u, -, rfl⟩ := List.mem_map.mp hp
        exact .blank (by decide) .nil
    · obtain ⟨u, -, rfl⟩ := List.mem_map.mp hp
      exact List.cons_ne_nil _ _

end Lexical

open Lexical

/-- Words that are written with separators between them are read again as these words, and no error is
    reported. What is read from any text is well formed, errors and the end of the text apart; so the words
    of a text without an error may be written with single spaces between them. -/
theorem Token.ofString_undoes_writing :
    (∀ pieces gap, Written pieces gap →
      let tokens := ofString (String.ofList (textOf pieces ++ gap))
      diagnostics tokens = [] ∧
      tokens.map (fun t => (t.kind, t.spelling)) =
        pieces.map (fun p => (p.token.kind, p.token.spelling)) ++ [(.endOfText, "")]) ∧
    (∀ source, ∀ t ∈ ofString source, t.kind.isError = false →
      (t.kind = .endOfText ∧ t.spelling = "") ∨ WellFormed t.kind t.spelling.toList) ∧
    (∀ source, diagnostics (ofString source) = [] →
      (ofString (" ".intercalate ((ofString source).dropLast.map Token.spelling))).map
          (fun t => (t.kind, t.spelling)) =
        (ofString source).map fun t => (t.kind, t.spelling)) := by
  have hwellFormed : ∀ source, ∀ t ∈ ofString source, t.kind.isError = false →
      (t.kind = .endOfText ∧ t.spelling = "") ∨ WellFormed t.kind t.spelling.toList := by
    intro source t ht hkind
    rcases exists_lexeme_of_mem ht with hend | ⟨rest, hword⟩
    · exact Or.inl hend
    · exact Or.inr (hword.wellFormed hkind)
  refine ⟨fun pieces gap h => ⟨?_, h.ofString⟩, hwellFormed, fun source hclean => ?_⟩
  · rw [diagnostics_eq_nil_iff]
    intro t ht
    have hword : (t.kind, t.spelling) ∈
        pieces.map (fun p => (p.token.kind, p.token.spelling)) ++ [(.endOfText, "")] := by
      rw [← h.ofString]
      exact List.mem_map_of_mem ht
    rcases List.mem_append.mp hword with hmem | hmem
    · obtain ⟨p, hp, heq⟩ := List.mem_map.mp hmem
      rw [← (Prod.mk.inj heq).1]
      exact (h.words p hp).isError_eq
    · rw [(Prod.mk.inj (List.mem_singleton.mp hmem)).1]
      rfl
  · obtain ⟨pieces, gap, -, -, -, -, htiling, htokens⟩ := exists_tiling source
    have hwords : ∀ t ∈ pieces.map Piece.token, WellFormed t.kind t.spelling.toList := by
      intro t ht
      have hmem : t ∈ ofString source := by
        rw [htokens]
        exact List.mem_append_left _ ht
      rcases hwellFormed source t hmem (diagnostics_eq_nil_iff.mp hclean t hmem) with ⟨hend, -⟩ | hword
      · obtain ⟨p, hp, rfl⟩ := List.mem_map.mp ht
        obtain ⟨l, r, rfl⟩ := List.append_of_mem hp
        exact absurd hend (htiling.2 l p r rfl).lexeme.ne_endOfText
      · exact hword
    have hread := (written_spaced hwords).ofString
    rw [List.append_nil, textOf_spaced, String.ofList_toList, map_spaced] at hread
    rw [htokens, List.dropLast_concat, hread, List.map_append]
    rfl

/-- A colon with a comment behind it and an equals sign in the next line, two zeros with a space between them,
    and a line feed in quotes. -/
theorem Token.ofString_undoes_writing_colon :
    let word (gap : String) (kind : Kind) (spelling : String) : Piece := ⟨gap.toList, kind, spelling, .start⟩
    let pieces := [word "" (.keyword .if_) "if", word "\t" .colon ":", word "#:\n" .operator "=",
      word " " .intLiteral "0", word " " .intLiteral "0", word "#\n#0\n" .charLiteral "'\n'"]
    let source := "if\t:#:\n= 0 0#\n#0\n'\n'\r"
    let words := [(.keyword .if_, "if"), (.colon, ":"), (.operator, "="), (.intLiteral, "0"), (.intLiteral, "0"),
      (.charLiteral, "'\n'"), (.endOfText, "")]
    Written pieces ['\r'] ∧ String.ofList (textOf pieces ++ ['\r']) = source ∧ diagnostics (ofString source) = [] ∧
      (ofString source).map (fun t => (t.kind, t.spelling)) = words ∧
      (ofString "if : = 0 0 '\n'").map (fun t => (t.kind, t.spelling)) = words := by
  intro word pieces source words
  have hwritten : Written pieces ['\r'] := by
    refine ⟨?_, ?_, ?_, .blank (by decide) .nil⟩
    · simp only [pieces, word, List.forall_mem_cons, List.not_mem_nil, false_imp_iff, implies_true, and_true]
      exact ⟨.keyword, .colon, .operator (by decide), .zero, .zero, .charLiteral (by decide)⟩
    · have hspace : Layout [' '] := .blank (by decide) .nil
      simp only [pieces, word, List.forall_mem_cons, List.not_mem_nil, false_imp_iff, implies_true, and_true]
      refine ⟨.nil, .blank (by decide) .nil, ?_, hspace, hspace, ?_⟩
      · exact @Layout.comment [':'] [] (by decide) (by decide) .nil
      · exact @Layout.comment [] _ (by decide) (by decide)
          (@Layout.comment ['0'] [] (by decide) (by decide) .nil)
    · decide
  obtain ⟨hclean, hwords⟩ := Token.ofString_undoes_writing.1 pieces ['\r'] hwritten
  have htext : String.ofList (textOf pieces ++ ['\r']) = source := by decide
  have hlist : pieces.map (fun p => (p.token.kind, p.token.spelling)) ++ [(.endOfText, "")] = words := rfl
  rw [htext] at hclean hwords
  rw [hlist] at hwords
  have hspaced := Token.ofString_undoes_writing.2.2 source hclean
  have hspellings : (ofString source).map Token.spelling = words.map Prod.snd := by
    rw [← hwords, List.map_map]
    rfl
  have hjoined : " ".intercalate (words.map Prod.snd).dropLast = "if : = 0 0 '\n'" := by decide
  rw [List.map_dropLast, hspellings, hjoined, hwords] at hspaced
  exact ⟨hwritten, htext, hclean, hwords, hspaced⟩

end TriangleCompiler
