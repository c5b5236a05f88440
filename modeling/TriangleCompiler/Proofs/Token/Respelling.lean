import TriangleCompiler.Proofs.Token.Tiling

/-! Texts in which words are spelled in another way. A text that is made of words and separators by the
    lexical rules has just these words as its tokens; so where names take the places of names, and all else
    stays as it was, the tokens are those of the old text with the new names. -/

namespace TriangleCompiler

namespace Lexical

open Text (Cursor endOfInput)
open Token (Kind)

/-! ### A text made of words and separators -/

theorem Letter.not_blank {c : Char} (h : Letter c) : ¬Blank c := by
  have hall : ([' ', '\t', '\n', '\r'].all fun c => !Token.isLetter c) = true := rfl
  intro hblank
  have hnot := List.all_eq_true.mp hall c hblank
  rw [isLetter_iff.mpr h] at hnot
  cases hnot

theorem Letter.not_mark {c : Char} (h : Letter c) : c ∉ marks := fun hmark => not_letter_of_mem_marks hmark h

theorem Digit.not_blank {c : Char} (h : Digit c) : ¬Blank c := by
  rintro hblank
  simp only [Blank, List.mem_cons, List.not_mem_nil, or_false] at hblank
  rcases hblank with rfl | rfl | rfl | rfl <;> exact absurd h (by decide)

theorem not_blank_of_mem_marks {c : Char} (h : c ∈ marks) : ¬Blank c := by
  have hall : (marks.all fun c => !Token.isBlank c) = true := rfl
  have hnot := List.all_eq_true.mp hall c h
  rw [← isBlank_iff]
  simpa using hnot

/-- No separator starts with the first character of a word. -/
theorem Lexeme.stops {kind : Kind} {spelling rest : List Char} (h : Lexeme kind spelling rest) :
    Stops (fun c => Blank c ∨ c = '#') spelling := by
  intro c hc
  rw [not_or]
  cases h with
  | @operator d _ hd =>
    cases hc
    refine ⟨not_blank_of_mem_marks (List.mem_append_left _ hd), ?_⟩
    rintro rfl
    exact absurd hd (by decide)
  | semicolon | tilde | leftBracket | rightBracket | becomes | colon | zero | charLiteral | unclosed
  | bareQuote =>
    cases hc
    decide
  | integer hd =>
    cases hc
    refine ⟨hd.not_blank, ?_⟩
    rintro rfl
    exact absurd hd (by decide)
  | @keyword word =>
    obtain ⟨d, ds, hspelling, hd, -⟩ := wordPart_keyword word
    rw [hspelling] at hc
    cases hc
    refine ⟨hd.not_blank, ?_⟩
    rintro rfl
    exact hd.not_mark (by decide)
  | identifier hd =>
    cases hc
    refine ⟨hd.not_blank, ?_⟩
    rintro rfl
    exact hd.not_mark (by decide)
  | unknown hmark hblank =>
    cases hc
    refine ⟨hblank, ?_⟩
    rintro rfl
    exact hmark (by decide)

/-- Separators that end by themselves, whatever follows: blanks, and comments with their line feeds. -/
inductive Layout : List Char → Prop where
  | nil : Layout []
  | blank {c : Char} {gap : List Char} : Blank c → Layout gap → Layout (c :: gap)
  | comment {body gap : List Char} : '\n' ∉ body → endOfInput ∉ body → Layout gap →
      Layout ('#' :: body ++ '\n' :: gap)

theorem Layout.skipSeparators {gap : List Char} (h : Layout gap) (cs : List Char) (p : Position) :
    Token.skipSeparators ⟨gap ++ cs, p⟩ = Token.skipSeparators ⟨cs, p.afterAll gap⟩ := by
  induction h generalizing p with
  | nil => rfl
  | blank hc _ ih =>
    rw [List.cons_append, skipSeparators_blank hc, ih]
    rfl
  | @comment body gap hbody hend _ ih =>
    have htext : '#' :: body ++ '\n' :: gap ++ cs = '#' :: body ++ '\n' :: (gap ++ cs) := by simp
    rw [htext, skipSeparators_comment hbody hend, ih, ← afterAll_append, List.append_assoc]
    rfl

/-- Only a comment at the end of a text may lack its line feed. -/
theorem Separator.layout {gap rest : List Char} (h : Separator gap rest) (hend : endOfInput ∉ gap) :
    Layout gap ∨ ∃ lead body, gap = lead ++ '#' :: body ∧ Layout lead ∧ '\n' ∉ body ∧ rest = [] := by
  induction h with
  | nil => exact Or.inl .nil
  | @blank c gap rest hc _ ih =>
    rcases ih fun hmem => hend (List.mem_cons_of_mem _ hmem) with hgap | ⟨lead, body, rfl, hlead, hlast⟩
    · exact Or.inl (.blank hc hgap)
    · exact Or.inr ⟨c :: lead, body, rfl, .blank hc hlead, hlast⟩
  | @comment body gap rest hbody _ ih =>
    have hfree : endOfInput ∉ body := fun hmem => hend (by simp [hmem])
    rcases ih fun hmem => hend (by simp [hmem]) with hgap | ⟨lead, body', rfl, hlead, hlast⟩
    · exact Or.inl (.comment hbody hfree hgap)
    · exact Or.inr ⟨'#' :: body ++ '\n' :: lead, body', by simp, .comment hbody hfree hlead, hlast⟩
  | @lastComment body hbody => exact Or.inr ⟨[], body, rfl, .nil, hbody, rfl⟩

/-- A separator is skipped. -/
theorem Separator.skipSeparators {gap rest tail : List Char} (h : Separator gap rest)
    (hend : endOfInput ∉ gap) (hrest : Stops (fun c => Blank c ∨ c = '#') rest) (htail : Hidden tail)
    (p : Position) : Token.skipSeparators ⟨gap ++ (rest ++ tail), p⟩ = ⟨rest ++ tail, p.afterAll gap⟩ := by
  rcases h.layout hend with hgap | ⟨lead, body, rfl, hlead, hbody, rfl⟩
  · rw [hgap.skipSeparators, skipSeparators_stops hrest htail]
  · have hfree : endOfInput ∉ body := fun hmem => hend (by simp [hmem])
    rw [List.nil_append, List.append_assoc, hlead.skipSeparators, skipSeparators_lastComment hbody hfree htail,
      ← afterAll_append]

/-- From a piece on, which fits, its separator is skipped and its token is read. -/
theorem Piece.Fits.scan {p : Piece} {before after tail : List Char} (h : p.Fits before after)
    (hend : endOfInput ∉ p.text) (htail : Hidden tail) :
    Token.skipSeparators ⟨p.text ++ (after ++ tail), placeAfter before⟩ =
        ⟨p.token.spelling.toList ++ (after ++ tail), placeAfter (before ++ p.gap)⟩ ∧
      Token.scan ⟨p.token.spelling.toList ++ (after ++ tail), placeAfter (before ++ p.gap)⟩ =
        (p.token, ⟨after ++ tail, placeAfter (before ++ p.text)⟩) := by
  obtain ⟨hgap, hspelling⟩ := not_or.mp (mt List.mem_append.mpr hend)
  obtain ⟨c, cs, hcons⟩ := List.exists_cons_of_ne_nil h.lexeme.ne_nil
  have hstops : Stops (fun c => Blank c ∨ c = '#') (p.token.spelling.toList ++ after) := by
    have := h.lexeme.stops
    rw [hcons] at this ⊢
    exact this
  constructor
  · have hskip := h.separator.skipSeparators hgap hstops htail (placeAfter before)
    rw [afterAll_placeAfter, List.append_assoc] at hskip
    rw [Piece.text, List.append_assoc, hskip]
  · have hlexeme := (h.lexeme.append htail).lexeme_eq hspelling
    have hposition := h.position_eq
    obtain ⟨gap, kind, spelling, position⟩ := p
    simp only at hlexeme hposition ⊢
    simp [Token.scan, hlexeme, Cursor.drop, afterAll_placeAfter, hposition, Piece.text]

theorem Tiling.head {before gap : List Char} {p : Piece} {ps : List Piece} (h : Tiling before (p :: ps) gap) :
    p.Fits before (textOf ps ++ gap) := by
  simpa using h.2 [] p ps rfl

theorem Tiling.tail {before gap : List Char} {p : Piece} {ps : List Piece} (h : Tiling before (p :: ps) gap) :
    Tiling (before ++ p.text) ps gap := by
  refine ⟨h.1, fun l q r heq => ?_⟩
  have hq := h.2 (p :: l) q r (by rw [heq]; rfl)
  simpa using hq

/-- The tokens of a text that is made of words and separators are its words. -/
theorem Tiling.scanAll {before gap tail : List Char} {pieces : List Piece} (h : Tiling before pieces gap)
    (hend : endOfInput ∉ textOf pieces ++ gap) (htail : Hidden tail) (tokens : Array Token) :
    (Token.scanAll tokens ⟨textOf pieces ++ (gap ++ tail), placeAfter before⟩).toList =
      tokens.toList ++ (pieces.map Piece.token ++
        [⟨.endOfText, "", placeAfter (before ++ (textOf pieces ++ gap))⟩]) := by
  induction pieces generalizing before tokens with
  | nil =>
    have hskip := h.1.skipSeparators (by simpa using hend) .nil htail (placeAfter before)
    rw [List.nil_append, afterAll_placeAfter] at hskip
    rw [Token.scanAll, textOf_nil, List.nil_append]
    simp [hskip, scan_hidden htail]
  | cons p ps ih =>
    have hp := h.head
    obtain ⟨hend, hrest⟩ : endOfInput ∉ p.text ∧ endOfInput ∉ textOf ps ++ gap := by
      rw [textOf_cons, List.append_assoc, List.mem_append, not_or] at hend
      exact hend
    obtain ⟨hskip, hscan⟩ := hp.scan hend htail
    have htext : textOf (p :: ps) ++ (gap ++ tail) = p.text ++ (textOf ps ++ gap ++ tail) := by simp
    rw [Token.scanAll, htext, hskip, hscan]
    dsimp only
    rw [if_neg hp.lexeme.ne_endOfText, List.append_assoc, ih h.tail hrest]
    simp

/-! ### New spellings -/

/-- The text from a cursor on, with the tokens in it spelled in the way that `new` says. -/
def respell (new : Token → String) (c : Cursor) : List Char :=
  let start := Token.skipSeparators c
  let found := Token.scan start
  if found.1.kind = .endOfText then c.rest
  else c.rest.take (c.rest.length - start.rest.length) ++ ((new found.1).toList ++ respell new found.2)
termination_by c.rest.length
decreasing_by
  rename_i h
  exact Nat.lt_of_lt_of_le (Token.scan_lt h) (Token.skipSeparators_le c)

/-- Pieces with the new spellings of their tokens, from `before` on. -/
def respellPieces (new : Token → String) : List Char → List Piece → List Piece
  | _, [] => []
  | before, p :: ps =>
    ⟨p.gap, ⟨p.token.kind, new p.token, placeAfter (before ++ p.gap)⟩⟩ ::
      respellPieces new (before ++ (p.gap ++ (new p.token).toList)) ps

variable {new : Token → String}

theorem textOf_respellPieces (before : List Char) (pieces : List Piece) :
    textOf (respellPieces new before pieces) = pieces.flatMap fun p => p.gap ++ (new p.token).toList := by
  induction pieces generalizing before with
  | nil => rfl
  | cons p ps ih => simp [respellPieces, Piece.text, ih]

theorem map_respellPieces (before : List Char) (pieces : List Piece) :
    ((respellPieces new before pieces).map Piece.token).map (fun t => (t.kind, t.spelling)) =
      pieces.map fun p => (p.token.kind, new p.token) := by
  induction pieces generalizing before with
  | nil => rfl
  | cons p ps ih => simp only [respellPieces, List.map_cons, ih]

theorem Tiling.respell {before gap tail : List Char} {pieces : List Piece} (h : Tiling before pieces gap)
    (hend : endOfInput ∉ textOf pieces ++ gap) (htail : Hidden tail) :
    respell new ⟨textOf pieces ++ (gap ++ tail), placeAfter before⟩ =
      (pieces.flatMap fun p => p.gap ++ (new p.token).toList) ++ (gap ++ tail) := by
  induction pieces generalizing before with
  | nil =>
    have hskip := h.1.skipSeparators (by simpa using hend) .nil htail (placeAfter before)
    rw [List.nil_append] at hskip
    rw [Lexical.respell, textOf_nil, List.nil_append]
    simp [hskip, scan_hidden htail]
  | cons p ps ih =>
    have hp := h.head
    obtain ⟨hend, hrest⟩ : endOfInput ∉ p.text ∧ endOfInput ∉ textOf ps ++ gap := by
      rw [textOf_cons, List.append_assoc, List.mem_append, not_or] at hend
      exact hend
    obtain ⟨hskip, hscan⟩ := hp.scan hend htail
    have htext : textOf (p :: ps) ++ (gap ++ tail) = p.text ++ (textOf ps ++ gap ++ tail) := by simp
    -- what is left of the text before the token is the separator
    have hgap : (p.text ++ (textOf ps ++ gap ++ tail)).take
        ((p.text ++ (textOf ps ++ gap ++ tail)).length -
          (p.token.spelling.toList ++ (textOf ps ++ gap ++ tail)).length) = p.gap := by
      have hlength : (p.text ++ (textOf ps ++ gap ++ tail)).length -
          (p.token.spelling.toList ++ (textOf ps ++ gap ++ tail)).length = p.gap.length := by
        simp only [Piece.text, List.length_append]
        omega
      rw [hlength, Piece.text, List.append_assoc, List.take_left]
    rw [Lexical.respell, htext]
    dsimp only
    rw [hskip, hscan]
    dsimp only
    rw [if_neg hp.lexeme.ne_endOfText, hgap, List.append_assoc, ih h.tail hrest]
    simp

/-! ### Names in the places of names -/

/-- Two texts that start with the same character, or both with a letter. -/
def Akin (cs ds : List Char) : Prop :=
  cs.head? = ds.head? ∨ ∃ c d, cs.head? = some c ∧ ds.head? = some d ∧ Letter c ∧ Letter d

theorem Stops.akin {P : Char → Prop} {cs ds : List Char} (h : Stops P cs) (hakin : Akin cs ds)
    (hP : ∀ c d, Letter c → Letter d → P d → P c) : Stops P ds := by
  intro d hd hPd
  rcases hakin with hsame | ⟨c, d', hc, hd', hletter, hletter'⟩
  · exact h d (by rw [hsame]; exact hd) hPd
  · obtain rfl : d' = d := Option.some.inj (hd'.symm.trans hd)
    exact h c hc (hP c d' hletter hletter' hPd)

/-- A word may be followed by any text that starts in the same way. -/
theorem Lexeme.akin {kind : Kind} {spelling cs ds : List Char} (h : Lexeme kind spelling cs)
    (hkind : kind.isError = false) (hakin : Akin cs ds) : Lexeme kind spelling ds := by
  have hword : ∀ c d, Letter c → Letter d → WordPart d → WordPart c := fun c _ hc _ _ => Or.inl hc
  cases h with
  | operator hc => exact .operator hc
  | semicolon => exact .semicolon
  | tilde => exact .tilde
  | leftBracket => exact .leftBracket
  | rightBracket => exact .rightBracket
  | becomes => exact .becomes
  | colon hrest =>
    refine .colon (hrest.akin hakin fun _ d _ hd heq => ?_)
    exact absurd (heq ▸ by decide) hd.not_mark
  | zero => exact .zero
  | integer hd hzero hds hrest =>
    exact .integer hd hzero hds (hrest.akin hakin fun _ d _ hletter hdigit => absurd hletter hdigit.not_letter)
  | keyword hrest => exact .keyword (hrest.akin hakin hword)
  | identifier hc hcs hrest hnone => exact .identifier hc hcs (hrest.akin hakin hword) hnone
  | charLiteral hc => exact .charLiteral hc
  | unclosed | bareQuote | unknown => cases hkind

theorem Lexeme.exists_letter {spelling rest : List Char} (h : Lexeme .identifier spelling rest) :
    ∃ c cs, spelling = c :: cs ∧ Letter c := by
  cases h with
  | identifier hc => exact ⟨_, _, rfl, hc⟩

/-- A name may take the place of another name. -/
theorem Lexeme.replace {spelling spelling' rest : List Char} (h : Lexeme .identifier spelling rest)
    (h' : Lexeme .identifier spelling' []) : Lexeme .identifier spelling' rest := by
  cases h with
  | identifier _ _ hrest _ =>
    cases h' with
    | identifier hc hcs _ hnone => exact .identifier hc hcs hrest hnone

theorem Separator.replace {gap rest rest' : List Char} (h : Separator gap rest) (hne : rest ≠ []) :
    Separator gap rest' := by
  induction h with
  | nil => exact .nil
  | blank hc _ ih => exact .blank hc (ih hne)
  | comment hbody _ ih => exact .comment hbody (ih hne)
  | lastComment => exact absurd rfl hne

/-- Names are spelled as names, and all other tokens as they were. -/
def Renames (new : Token → String) : Prop :=
  ∀ t : Token, (t.kind = .identifier ∧ Lexeme .identifier (new t).toList []) ∨ new t = t.spelling

theorem Renames.lexeme (hnew : Renames new) {t : Token} {rest : List Char}
    (h : Lexeme t.kind t.spelling.toList rest) : Lexeme t.kind (new t).toList rest := by
  rcases hnew t with ⟨hkind, hname⟩ | hsame
  · rw [hkind] at h ⊢
    exact h.replace hname
  · rwa [hsame]

/-- What follows a piece starts in the same way under the new spellings. -/
theorem Renames.akin (hnew : Renames new) {before gap : List Char} {pieces : List Piece}
    (h : Tiling before pieces gap) (before' : List Char) :
    Akin (textOf pieces ++ gap) (textOf (respellPieces new before' pieces) ++ gap) := by
  cases pieces with
  | nil => exact Or.inl rfl
  | cons p ps =>
    rw [textOf_respellPieces, List.flatMap_cons, textOf_cons, Piece.text]
    cases hgap : p.gap with
    | cons c cs => exact Or.inl rfl
    | nil =>
      rcases hnew p.token with ⟨hkind, hname⟩ | hsame
      · have hword := h.head.lexeme
        rw [hkind] at hword
        obtain ⟨c, cs, hspelling, hc⟩ := hword.exists_letter
        obtain ⟨d, ds, hnew, hd⟩ := hname.exists_letter
        rw [hspelling, hnew]
        exact Or.inr ⟨c, d, rfl, rfl, hc, hd⟩
      · obtain ⟨c, cs, hspelling⟩ := List.exists_cons_of_ne_nil h.head.lexeme.ne_nil
        rw [hsame, hspelling]
        exact Or.inl rfl

theorem Renames.tiling (hnew : Renames new) {before gap : List Char} {pieces : List Piece}
    (h : Tiling before pieces gap) (hkinds : ∀ p ∈ pieces, p.token.kind.isError = false)
    (before' : List Char) : Tiling before' (respellPieces new before' pieces) gap := by
  induction pieces generalizing before before' with
  | nil => exact .nil h.1
  | cons p ps ih =>
    have hakin := hnew.akin h.tail (before' ++ (p.gap ++ (new p.token).toList))
    have hword := hnew.lexeme (h.head.lexeme.akin (hkinds p List.mem_cons_self) hakin)
    have hrest := ih h.tail (fun q hq => hkinds q (List.mem_cons_of_mem _ hq))
      (before' ++ (p.gap ++ (new p.token).toList))
    have hne : p.token.spelling.toList ++ (textOf ps ++ gap) ≠ [] := by
      simp [h.head.lexeme.ne_nil]
    refine .cons ⟨h.head.separator.replace hne, rfl, ?_⟩ ?_
    · simpa using hword
    · simpa [Piece.text] using hrest

theorem Renames.endOfInput_not_mem (hnew : Renames new) {pieces : List Piece}
    (hend : endOfInput ∉ textOf pieces) :
    endOfInput ∉ pieces.flatMap fun p => p.gap ++ (new p.token).toList := by
  intro hmem
  obtain ⟨p, hp, hmem⟩ := List.mem_flatMap.mp hmem
  have hold : endOfInput ∉ p.text := fun h => hend (List.mem_flatMap.mpr ⟨p, hp, h⟩)
  rcases List.mem_append.mp hmem with hgap | hspelling
  · exact hold (List.mem_append_left _ hgap)
  · rcases hnew p.token with ⟨-, hname⟩ | hsame
    · generalize (new p.token).toList = spelling at hname hspelling
      cases hname with
      | @identifier c cs _ hc hcs =>
        have hword : WordPart endOfInput := by
          rcases List.mem_cons.mp hspelling with heq | hmem
          · exact heq ▸ Or.inl hc
          · exact hcs _ hmem
        exact absurd hword (by decide)
    · rw [hsame] at hspelling
      exact hold (List.mem_append_right _ hspelling)

/-! ### Places -/

/-- Every character has a place of its own. -/
theorem eq_nil_of_placeAfter {before cs : List Char} (h : placeAfter (before ++ cs) = placeAfter before) :
    cs = [] := by
  obtain ⟨hline, hcolumn⟩ := Position.mk.inj h
  have hcount : cs.count '\n' = 0 := by
    rw [List.count_append] at hline
    omega
  have hnot : '\n' ∉ cs.reverse := by
    rw [List.mem_reverse]
    exact List.count_eq_zero.mp hcount
  have htake : (cs.reverse ++ before.reverse).takeWhile (· ≠ '\n') =
      cs.reverse ++ before.reverse.takeWhile (· ≠ '\n') := by
    refine List.takeWhile_append_of_pos fun c hc => ?_
    simp only [decide_eq_true_eq]
    rintro rfl
    exact hnot hc
  rw [List.reverse_append, htake, List.length_append, List.length_reverse] at hcolumn
  exact List.eq_nil_of_length_eq_zero (by omega)

/-- The places of tokens, and the end of the text, are different. -/
theorem Tiling.nodup_positions {before gap : List Char} {pieces : List Piece} (h : Tiling before pieces gap) :
    (∀ q ∈ pieces.map (·.token.position) ++ [placeAfter (before ++ (textOf pieces ++ gap))],
      ∃ cs, q = placeAfter (before ++ cs)) ∧
    (pieces.map (·.token.position) ++ [placeAfter (before ++ (textOf pieces ++ gap))]).Nodup := by
  induction pieces generalizing before with
  | nil => exact ⟨fun q hq => ⟨gap, by simpa using hq⟩, by simp⟩
  | cons p ps ih =>
    obtain ⟨hlater, hnodup⟩ := ih h.tail
    have hend : before ++ p.text ++ (textOf ps ++ gap) = before ++ (textOf (p :: ps) ++ gap) := by simp
    rw [hend] at hlater hnodup
    refine ⟨fun q hq => ?_, List.nodup_cons.mpr ⟨fun hmem => ?_, hnodup⟩⟩
    · rcases List.mem_cons.mp hq with rfl | hq
      · exact ⟨p.gap, h.head.position_eq⟩
      · obtain ⟨cs, rfl⟩ := hlater q hq
        exact ⟨p.text ++ cs, by rw [List.append_assoc]⟩
    · obtain ⟨cs, hcs⟩ : ∃ cs, p.token.position = placeAfter (before ++ p.text ++ cs) := hlater _ hmem
      have hshift : before ++ p.text ++ cs = before ++ p.gap ++ (p.token.spelling.toList ++ cs) := by
        simp [Piece.text]
      rw [h.head.position_eq, hshift] at hcs
      have hnil := eq_nil_of_placeAfter hcs.symm
      exact h.head.lexeme.ne_nil (List.append_eq_nil_iff.mp hnil).1

/-- A text and its tokens. -/
theorem exists_tiling (source : String) : ∃ pieces gap tail,
    source.toList = textOf pieces ++ (gap ++ tail) ∧ endOfInput ∉ textOf pieces ++ gap ∧ Hidden tail ∧
      Tiling [] pieces gap ∧
      Token.ofString source = pieces.map Piece.token ++ [⟨.endOfText, "", placeAfter (textOf pieces ++ gap)⟩] := by
  have hend := endOfInput_not_mem_takeWhile source.toList
  have htail := hidden_dropWhile source.toList
  obtain ⟨pieces, gap, htokens, htext, htiling⟩ := scanAll_tiles #[] [] hend htail
  rw [List.takeWhile_append_dropWhile, List.nil_append, htext] at htokens
  rw [htext] at hend
  refine ⟨pieces, gap, _, ?_, hend, htail, htiling, htokens⟩
  rw [← List.append_assoc, ← htext, List.takeWhile_append_dropWhile]

end Lexical

open Lexical

/-- A text with its tokens spelled in the way that `new` says. -/
def Token.respellAll (new : Token → String) (source : String) : String :=
  String.ofList (respell new (Text.Cursor.ofString source))

/-- If names take the places of names in a text, its tokens are the old ones with the new names. -/
theorem Token.ofString_respellAll {new : Token → String} (hnew : Renames new) {source : String}
    (hkinds : ∀ t ∈ ofString source, t.kind.isError = false) :
    (ofString (respellAll new source)).map (fun t => (t.kind, t.spelling)) =
      (ofString source).map fun t => (t.kind, new t) := by
  obtain ⟨pieces, gap, tail, htext, hend, htail, htiling, htokens⟩ := exists_tiling source
  have hrespelled : (respellAll new source).toList =
      textOf (respellPieces new [] pieces) ++ (gap ++ tail) := by
    have hresp := @Tiling.respell new [] gap tail pieces htiling hend htail
    rw [respellAll, String.toList_ofList, textOf_respellPieces, Text.Cursor.ofString, htext]
    exact hresp
  have hpieces : ∀ p ∈ pieces, p.token.kind.isError = false := by
    intro p hp
    refine hkinds _ ?_
    rw [htokens]
    exact List.mem_append_left _ (List.mem_map_of_mem hp)
  have htiling' : Tiling [] (respellPieces new [] pieces) gap := hnew.tiling htiling hpieces []
  have hend' : Text.endOfInput ∉ textOf (respellPieces new [] pieces) ++ gap := by
    rw [List.mem_append, not_or] at hend ⊢
    rw [textOf_respellPieces]
    exact ⟨hnew.endOfInput_not_mem hend.1, hend.2⟩
  have htokens' : ofString (respellAll new source) = (respellPieces new [] pieces).map Piece.token ++
      [⟨.endOfText, "", placeAfter (textOf (respellPieces new [] pieces) ++ gap)⟩] := by
    have hscan := htiling'.scanAll hend' htail #[]
    rw [ofString, Text.Cursor.ofString, hrespelled]
    exact hscan
  have hend_eq : new ⟨.endOfText, "", placeAfter (textOf pieces ++ gap)⟩ = "" := by
    rcases hnew ⟨.endOfText, "", placeAfter (textOf pieces ++ gap)⟩ with ⟨hkind, -⟩ | hsame
    · cases hkind
    · exact hsame
  rw [htokens', htokens, List.map_append, List.map_append, map_respellPieces, List.map_map]
  simp [hend_eq]

/-- No two tokens of a text are at the same place. -/
theorem Token.nodup_positions (source : String) : ((ofString source).map Token.position).Nodup := by
  obtain ⟨pieces, gap, -, -, -, -, htiling, htokens⟩ := exists_tiling source
  have hnodup := htiling.nodup_positions.2
  rw [htokens, List.map_append, List.map_map]
  exact hnodup

/-- An operator is no identifier. -/
theorem Token.spelling_ne {source : String} {t t' : Token} (ht : t ∈ ofString source) (ht' : t' ∈ ofString source)
    (hkind : t.kind = .identifier) (hkind' : t'.kind = .operator) : t.spelling ≠ t'.spelling := by
  have hlexeme : ∀ t ∈ ofString source, t.kind ≠ .endOfText → ∃ rest, Lexeme t.kind t.spelling.toList rest := by
    obtain ⟨pieces, gap, -, -, -, -, htiling, htokens⟩ := exists_tiling source
    intro t ht hne
    rw [htokens] at ht
    rcases List.mem_append.mp ht with ht | ht
    · obtain ⟨p, hp, rfl⟩ := List.mem_map.mp ht
      obtain ⟨l, r, rfl⟩ := List.append_of_mem hp
      exact ⟨_, (htiling.2 l p r rfl).lexeme⟩
    · cases List.mem_singleton.mp ht
      exact absurd rfl hne
  obtain ⟨rest, hword⟩ := hlexeme t ht (by rw [hkind]; decide)
  obtain ⟨rest', hsign⟩ := hlexeme t' ht' (by rw [hkind']; decide)
  intro hsame
  rw [hkind, hsame] at hword
  rw [hkind'] at hsign
  generalize t'.spelling.toList = spelling at hword hsign
  cases hsign with
  | operator hc =>
    cases hword with
    | identifier hletter _ _ _ => exact hletter.not_mark (List.mem_append_left _ hc)

end TriangleCompiler
