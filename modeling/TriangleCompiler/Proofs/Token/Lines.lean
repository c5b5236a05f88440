import TriangleCompiler.Proofs.Token.Rendering

/-! Texts line by line. A line feed that is not in quotes ends the word or the comment before it. So what
    stands before it is read as if the text ended there, and what stands behind it is read as a text of its
    own, some lines further down. -/

namespace TriangleCompiler

/-- The place `n` lines further down. -/
def Position.below (n : Nat) (p : Position) : Position := ⟨p.line + n, p.column⟩

def Token.below (n : Nat) (t : Token) : Token := { t with position := t.position.below n }

def Diagnostic.below (n : Nat) (d : Diagnostic) : Diagnostic := { d with position := d.position.below n }

theorem Token.diagnostics_append (ts us : List Token) :
    diagnostics (ts ++ us) = diagnostics ts ++ diagnostics us :=
  List.filterMap_append

theorem Token.diagnostics_below (n : Nat) (ts : List Token) :
    diagnostics (ts.map (below n)) = (diagnostics ts).map (Diagnostic.below n) := by
  rw [diagnostics, diagnostics, List.filterMap_map, List.map_filterMap]
  refine List.filterMap_congr fun t _ => ?_
  have hsame : (t.below n).lexicalError? = t.lexicalError? := rfl
  rw [Function.comp_apply, hsame, Option.map_map]
  rfl

namespace Lexical

open Text (endOfInput)
open Token (Kind)

/-! ### Further down -/

theorem placeAfter_line (lead before : List Char) :
    placeAfter (lead ++ '\n' :: before) = (placeAfter before).below (1 + lead.count '\n') := by
  have hcolumn : (lead ++ '\n' :: before).reverse.takeWhile (· ≠ '\n') =
      before.reverse.takeWhile (· ≠ '\n') := by
    have hstop : (['\n'] ++ lead.reverse).takeWhile (· ≠ '\n') = [] := rfl
    rw [List.reverse_append, List.reverse_cons, List.append_assoc, List.takeWhile_append, hstop, List.append_nil]
    split
    · exact ((List.takeWhile_prefix _).eq_of_length ‹_›).symm
    · rfl
  have hcount : (lead ++ '\n' :: before).count '\n' = before.count '\n' + (1 + lead.count '\n') := by
    rw [List.count_append, List.count_cons_self]
    omega
  rw [placeAfter, placeAfter, hcolumn, hcount, Position.below]
  simp [Int.add_assoc]

def Piece.below (n : Nat) (p : Piece) : Piece := ⟨p.gap, p.token.below n⟩

@[simp] theorem Piece.text_below (n : Nat) (p : Piece) : (p.below n).text = p.text := rfl

theorem textOf_below (n : Nat) (pieces : List Piece) : textOf (pieces.map (Piece.below n)) = textOf pieces :=
  List.flatMap_map ..

/-- Words stay words further down. -/
theorem Tiling.below {before gap : List Char} {pieces : List Piece} (h : Tiling before pieces gap)
    (lead : List Char) :
    Tiling (lead ++ '\n' :: before) (pieces.map (Piece.below (1 + lead.count '\n'))) gap := by
  induction pieces generalizing before with
  | nil => exact .nil h.1
  | cons p ps ih =>
    have hp := h.head
    have hrest := ih h.tail
    refine .cons ⟨?_, ?_, ?_⟩ ?_
    · rw [textOf_below]
      exact hp.separator
    · have hplace := placeAfter_line lead (before ++ p.gap)
      rw [← hp.position_eq, ← List.cons_append, ← List.append_assoc] at hplace
      exact hplace.symm
    · rw [textOf_below]
      exact hp.lexeme
    · simpa using hrest

/-! ### Up to a line feed -/

theorem Layout.append {gap gap' : List Char} (h : Layout gap) (h' : Layout gap') : Layout (gap ++ gap') := by
  induction h with
  | nil => exact h'
  | blank hc _ ih => exact .blank hc ih
  | @comment body gap hbody hend _ ih =>
    have hcomment := Layout.comment hbody hend ih
    simpa using hcomment

/-- A line feed ends a separator. -/
theorem Separator.layout_line {gap rest : List Char} (h : Separator gap rest) (hend : endOfInput ∉ gap) :
    Layout (gap ++ ['\n']) := by
  rcases h.layout hend with hgap | ⟨lead, body, rfl, hlead, hbody, -⟩
  · exact hgap.append (.blank (by decide) .nil)
  · have hfree : endOfInput ∉ body := fun hmem => hend (by simp [hmem])
    have hcomment := hlead.append (.comment hbody hfree .nil)
    simpa using hcomment

/-- A line feed ends a word. -/
theorem Lexeme.append_line {kind : Kind} {spelling rest : List Char} (h : Lexeme kind spelling rest)
    (hkind : kind.isError = false) (more : List Char) : Lexeme kind spelling (rest ++ '\n' :: more) := by
  cases rest with
  | nil =>
    refine (h.wellFormed hkind).lexeme fun c hc => Or.inl ?_
    cases hc
    decide
  | cons c rest => exact h.akin hkind (Or.inl rfl)

theorem Piece.Fits.append_line {p : Piece} {before after : List Char} (h : p.Fits before after)
    (hkind : p.token.kind.isError = false) (more : List Char) : p.Fits before (after ++ '\n' :: more) where
  separator := h.separator.replace (by simp [h.lexeme.ne_nil])
  position_eq := h.position_eq
  lexeme := h.lexeme.append_line hkind more

/-- Only what stands behind the separators matters. -/
theorem scanAll_eq_of_skipSeparators {c c' : Text.Cursor}
    (h : Token.skipSeparators c = Token.skipSeparators c')
    (tokens : Array Token) : Token.scanAll tokens c = Token.scanAll tokens c' := by
  rw [Token.scanAll, Token.scanAll.eq_def tokens c', h]

/-- The words before a line feed are read, and nothing behind it. -/
theorem Tiling.scanAll_line {before gap : List Char} {pieces : List Piece} (h : Tiling before pieces gap)
    (hend : endOfInput ∉ textOf pieces ++ gap) (hkinds : ∀ p ∈ pieces, p.token.kind.isError = false)
    (more : List Char) (tokens : Array Token) :
    Token.scanAll tokens ⟨textOf pieces ++ (gap ++ '\n' :: more), placeAfter before⟩ =
      Token.scanAll (tokens ++ (pieces.map Piece.token).toArray)
        ⟨more, placeAfter (before ++ (textOf pieces ++ gap) ++ ['\n'])⟩ := by
  induction pieces generalizing before tokens with
  | nil =>
    have hskip := (h.1.layout_line hend).skipSeparators more (placeAfter before)
    rw [afterAll_placeAfter, List.append_assoc, ← List.append_assoc before] at hskip
    rw [textOf_nil, List.nil_append, List.nil_append, List.map_nil, Array.append_empty]
    exact scanAll_eq_of_skipSeparators hskip tokens
  | cons p ps ih =>
    have hp := h.head.append_line (hkinds p List.mem_cons_self) more
    obtain ⟨hend, hrest⟩ : endOfInput ∉ p.text ∧ endOfInput ∉ textOf ps ++ gap := by
      rw [textOf_cons, List.append_assoc, List.mem_append, not_or] at hend
      exact hend
    obtain ⟨hskip, hscan⟩ := @Piece.Fits.scan p before _ [] hp hend fun c hc => nomatch hc
    have htext : textOf (p :: ps) ++ (gap ++ '\n' :: more) =
        p.text ++ (textOf ps ++ gap ++ '\n' :: more ++ []) := by simp
    rw [Token.scanAll, htext, hskip, hscan]
    dsimp only
    rw [if_neg hp.lexeme.ne_endOfText, List.append_nil, List.append_assoc,
      ih h.tail hrest fun q hq => hkinds q (List.mem_cons_of_mem _ hq)]
    simp

end Lexical

open Lexical

/-- A text without an error and without a null character, a line feed, and any other text: the tokens are
    those of the first text, but for the one that marks its end, and those of the other text, as many lines
    further down as the first text has and with the same columns. The errors are those of the other text, as
    many lines further down. -/
theorem Token.ofString_append_line (a b : String) (hend : '\x00' ∉ a.toList)
    (hclean : diagnostics (ofString a) = []) :
    let lines := 1 + a.toList.count '\n'
    ∃ words last, ofString a = words ++ [last] ∧ last.kind = .endOfText ∧
      ofString (a ++ "\n" ++ b) = words ++ (ofString b).map (below lines) ∧
      diagnostics (ofString (a ++ "\n" ++ b)) = (diagnostics (ofString b)).map (Diagnostic.below lines) := by
  intro lines
  obtain ⟨pieces, gap, tail, htext, hfree, htail, htiling, htokens⟩ := exists_tiling a
  obtain ⟨pieces', gap', tail', htext', hfree', htail', htiling', htokens'⟩ := exists_tiling b
  -- nothing of the first text is left out
  obtain rfl : tail = [] := by
    cases tail with
    | nil => rfl
    | cons c tail =>
      obtain rfl := htail c rfl
      exact absurd (by simp [htext, Text.endOfInput]) hend
  rw [List.append_nil] at htext
  have hkinds : ∀ p ∈ pieces, p.token.kind.isError = false := by
    intro p hp
    refine diagnostics_eq_nil_iff.mp hclean _ ?_
    rw [htokens]
    exact List.mem_append_left _ (List.mem_map_of_mem hp)
  have hwords : diagnostics (pieces.map Piece.token) = [] := by
    rw [diagnostics_eq_nil_iff]
    simpa using hkinds
  have hsource : (a ++ "\n" ++ b).toList =
      textOf pieces ++ (gap ++ '\n' :: (textOf pieces' ++ (gap' ++ tail'))) := by
    simp [htext, htext']
  have hfirst := htiling.scanAll_line hfree hkinds (textOf pieces' ++ (gap' ++ tail')) #[]
  have hsecond := (htiling'.below a.toList).scanAll (by rwa [textOf_below]) htail'
    (#[] ++ (pieces.map Piece.token).toArray)
  rw [textOf_below] at hsecond
  rw [List.nil_append, ← htext] at hfirst
  have hall : ofString (a ++ "\n" ++ b) = pieces.map Piece.token ++ (ofString b).map (below lines) := by
    have hplace := placeAfter_line a.toList (textOf pieces' ++ gap')
    rw [ofString, Text.Cursor.ofString, hsource]
    refine (congrArg Array.toList hfirst).trans (hsecond.trans ?_)
    rw [htokens', List.append_assoc a.toList, List.singleton_append, hplace]
    simp [below, Piece.below, Function.comp_def, lines]
  refine ⟨_, _, htokens, rfl, hall, ?_⟩
  rw [hall, diagnostics_append, hwords, List.nil_append, diagnostics_below]

/-- A line feed in quotes, a comment, and a colon at the end of the first text; the other text starts with an
    equals sign and has two errors, one of them a quote at its end. -/
theorem Token.ofString_append_line_colon :
    let a := "'\n'#\n:"
    let b := "=$\n'"
    '\x00' ∉ a.toList ∧ diagnostics (ofString a) = [] ∧
      ofString (a ++ "\n" ++ b) = [⟨.charLiteral, "'\n'", ⟨1, 1⟩⟩, ⟨.colon, ":", ⟨3, 1⟩⟩, ⟨.operator, "=", ⟨4, 1⟩⟩,
        ⟨.unknownInput, "$", ⟨4, 2⟩⟩, ⟨.unacceptableSequence, "'", ⟨5, 1⟩⟩, ⟨.endOfText, "", ⟨5, 2⟩⟩] ∧
      diagnostics (ofString (a ++ "\n" ++ b)) = [⟨⟨4, 2⟩, .lexical (.unknownInput '$')⟩,
        ⟨⟨5, 1⟩, .lexical (.unacceptableSequence "'")⟩] := by
  intro a b
  have hfirst : ofString a = [⟨.charLiteral, "'\n'", ⟨1, 1⟩⟩, ⟨.colon, ":", ⟨3, 1⟩⟩] ++
      [⟨.endOfText, "", ⟨3, 2⟩⟩] := by decide +kernel
  have hsecond : ofString b = [⟨.operator, "=", ⟨1, 1⟩⟩, ⟨.unknownInput, "$", ⟨1, 2⟩⟩,
      ⟨.unacceptableSequence, "'", ⟨2, 1⟩⟩, ⟨.endOfText, "", ⟨2, 2⟩⟩] := by decide +kernel
  have hend : '\x00' ∉ a.toList := by decide
  have hclean : diagnostics (ofString a) = [] := by
    rw [hfirst]
    rfl
  obtain ⟨words, last, heq, -, htokens, herrors⟩ := Token.ofString_append_line a b hend hclean
  rw [hfirst] at heq
  rw [← (List.append_inj' heq rfl).1, hsecond] at htokens
  rw [hsecond] at herrors
  exact ⟨hend, hclean, htokens.trans (by decide), herrors.trans (by decide)⟩

end TriangleCompiler
