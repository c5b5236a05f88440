import Mathlib.Data.List.Forall2
import TriangleCompiler.Diagnostic
import TriangleCompiler.Proofs.Token.Rules

/-! The tokens of a text cover it. Between the start of the text and its end nothing is left out and
    nothing is read twice: what is in no token is a separator, and every token stands where the lines and
    the columns of the text before it say. -/

namespace TriangleCompiler

namespace Lexical

open Text (Cursor endOfInput)
open Token (Kind)

/-! ### Places -/

/-- The place of a character that stands behind `before`. -/
def placeAfter (before : List Char) : Position :=
  ⟨1 + before.count '\n', 1 + (before.reverse.takeWhile (· ≠ '\n')).length⟩

theorem after_placeAfter (before : List Char) (c : Char) :
    (placeAfter before).after c = placeAfter (before ++ [c]) := by
  by_cases hc : c = '\n'
  · simp [placeAfter, Position.after, hc, Int.add_assoc]
  · simp [placeAfter, Position.after, hc, Int.add_assoc]

theorem afterAll_placeAfter (before cs : List Char) :
    (placeAfter before).afterAll cs = placeAfter (before ++ cs) := by
  induction cs generalizing before with
  | nil => rw [List.append_nil]; rfl
  | cons c cs ih =>
    have hrest := ih (before ++ [c])
    rw [List.append_assoc, List.singleton_append] at hrest
    rw [Position.afterAll, List.foldl_cons, after_placeAfter]
    exact hrest

theorem afterAll_append (p : Position) (cs ds : List Char) :
    p.afterAll (cs ++ ds) = (p.afterAll cs).afterAll ds := List.foldl_append

/-! ### The part of a text that is never read -/

/-- A text that is not read: it is empty or starts with the character that marks the end. -/
def Hidden (tail : List Char) : Prop := ∀ c ∈ tail.head?, c = endOfInput

theorem endOfInput_not_mem_takeWhile (cs : List Char) : endOfInput ∉ cs.takeWhile (· ≠ '\x00') := by
  intro hmem
  have hvisible := List.all_eq_true.mp List.all_takeWhile _ hmem
  simp [endOfInput] at hvisible

theorem hidden_dropWhile (cs : List Char) : Hidden (cs.dropWhile (· ≠ '\x00')) := by
  intro c hc
  have hnot := List.head?_dropWhile_not (fun c => decide (c ≠ '\x00')) cs
  rw [Option.mem_def.mp hc] at hnot
  simpa [endOfInput] using hnot

theorem Stops.nil {P : Char → Prop} : Stops P [] := fun _ hc => nomatch hc

theorem Stops.append {P : Char → Prop} {rest tail : List Char} (h : Stops P rest) (htail : Hidden tail)
    (hend : ¬P endOfInput) : Stops P (rest ++ tail) := by
  cases rest with
  | nil =>
    intro c hc
    rwa [htail c hc]
  | cons d rest => exact h

/-- Whether a word may be followed by a text shows before the end of the text. -/
theorem Lexeme.append {kind : Kind} {spelling rest tail : List Char} (h : Lexeme kind spelling rest)
    (htail : Hidden tail) : Lexeme kind spelling (rest ++ tail) := by
  cases h with
  | operator hc => exact .operator hc
  | semicolon => exact .semicolon
  | tilde => exact .tilde
  | leftBracket => exact .leftBracket
  | rightBracket => exact .rightBracket
  | becomes => exact .becomes
  | colon hrest => exact .colon (hrest.append htail (by decide))
  | zero => exact .zero
  | integer hd hzero hds hrest => exact .integer hd hzero hds (hrest.append htail (by decide))
  | keyword hrest => exact .keyword (hrest.append htail (by decide))
  | identifier hc hcs hrest hnone => exact .identifier hc hcs (hrest.append htail (by decide)) hnone
  | charLiteral hc => exact .charLiteral hc
  | unclosed hc hrest => exact .unclosed hc (hrest.append htail (by decide))
  | bareQuote hrest => exact .bareQuote (hrest.append htail (by decide))
  | unknown hmark hblank hdigit hletter => exact .unknown hmark hblank hdigit hletter

/-! ### Separators -/

theorem skipSeparators_blank {c : Char} (hc : Blank c) (cs : List Char) (p : Position) :
    Token.skipSeparators ⟨c :: cs, p⟩ = Token.skipSeparators ⟨cs, p.after c⟩ := by
  have hcomment : c ≠ '#' := by
    rintro rfl
    exact absurd hc (by decide)
  have hend : c ≠ endOfInput := by
    rintro rfl
    exact absurd hc (by decide)
  have hadvance : Cursor.advance ⟨c :: cs, p⟩ = ⟨cs, p.after c⟩ := if_neg hend
  rw [Token.skipSeparators, if_neg (show Cursor.current ⟨c :: cs, p⟩ ≠ '#' from hcomment),
    if_pos (show Token.isBlank (Cursor.current ⟨c :: cs, p⟩) = true from isBlank_iff.mpr hc), hadvance]

theorem skipSeparators_stops {cs tail : List Char} (h : Stops (fun c => Blank c ∨ c = '#') cs)
    (htail : Hidden tail) (p : Position) : Token.skipSeparators ⟨cs ++ tail, p⟩ = ⟨cs ++ tail, p⟩ := by
  have hstop : ¬(Blank (Cursor.current ⟨cs ++ tail, p⟩) ∨ Cursor.current ⟨cs ++ tail, p⟩ = '#') := by
    cases hall : cs ++ tail with
    | nil =>
      show ¬(Blank endOfInput ∨ endOfInput = '#')
      decide
    | cons c rest =>
      have hstops := h.append htail (by decide)
      rw [hall] at hstops
      exact hstops c rfl
  obtain ⟨hblank, hcomment⟩ := not_or.mp hstop
  rw [Token.skipSeparators, if_neg hcomment, if_neg (mt isBlank_iff.mp hblank)]

/-- At the start of a comment its line is skipped up to the end. -/
theorem skipSeparators_line {body rest : List Char} (hline : '\n' ∉ body) (hend : endOfInput ∉ body)
    (hrest : Stops (fun c => c ≠ '\n' ∧ c ≠ endOfInput) rest) (p : Position) :
    Token.skipSeparators ⟨'#' :: body ++ rest, p⟩ =
      Token.skipSeparators (Cursor.advance ⟨rest, p.afterAll ('#' :: body)⟩) := by
  have hbody : ∀ c ∈ '#' :: body, decide (c ≠ '\n' ∧ c ≠ endOfInput) = true := by
    intro c hc
    rcases List.mem_cons.mp hc with rfl | hc
    · decide
    · exact decide_eq_true ⟨fun h => hline (h ▸ hc), fun h => hend (h ▸ hc)⟩
  have htake : ('#' :: body ++ rest).takeWhile (fun c => decide (c ≠ '\n' ∧ c ≠ endOfInput)) = '#' :: body := by
    rw [List.takeWhile_append_of_pos hbody]
    cases rest with
    | nil => rw [List.takeWhile_nil, List.append_nil]
    | cons c rest =>
      have hc : ¬decide (c ≠ '\n' ∧ c ≠ endOfInput) = true := fun h => hrest c rfl (of_decide_eq_true h)
      rw [List.takeWhile_cons, if_neg hc, List.append_nil]
  have hskip : Cursor.skipLine ⟨'#' :: body ++ rest, p⟩ = Cursor.advance ⟨rest, p.afterAll ('#' :: body)⟩ := by
    rw [Cursor.skipLine, htake, Cursor.drop, List.drop_left, List.take_left]
  rw [← hskip, Token.skipSeparators]
  exact if_pos rfl

/-- A comment is skipped together with its line feed. -/
theorem skipSeparators_comment {body : List Char} (hline : '\n' ∉ body) (hend : endOfInput ∉ body)
    (cs : List Char) (p : Position) : Token.skipSeparators ⟨'#' :: body ++ '\n' :: cs, p⟩ =
      Token.skipSeparators ⟨cs, p.afterAll ('#' :: body ++ ['\n'])⟩ := by
  rw [skipSeparators_line hline hend (by simp [Stops]), afterAll_append]
  rfl

/-- A comment may also end with the text. -/
theorem skipSeparators_lastComment {body tail : List Char} (hline : '\n' ∉ body) (hend : endOfInput ∉ body)
    (htail : Hidden tail) (p : Position) :
    Token.skipSeparators ⟨'#' :: body ++ tail, p⟩ = ⟨tail, p.afterAll ('#' :: body)⟩ := by
  have hcurrent : Cursor.current ⟨tail, p.afterAll ('#' :: body)⟩ = endOfInput := by
    cases tail with
    | nil => rfl
    | cons c tail => exact htail c rfl
  rw [skipSeparators_line hline hend fun c hc => by simp [htail c hc], Cursor.advance, if_pos hcurrent]
  exact @skipSeparators_stops [] tail .nil htail _

/-- The characters before the first line feed of a text. -/
theorem exists_line (cs : List Char) : ∃ line more, cs = line ++ more ∧ '\n' ∉ line ∧
    (more = [] ∨ ∃ rest, more = '\n' :: rest) := by
  induction cs with
  | nil => exact ⟨[], [], rfl, List.not_mem_nil, .inl rfl⟩
  | cons c cs ih =>
    by_cases hc : c = '\n'
    · exact ⟨[], c :: cs, rfl, List.not_mem_nil, .inr ⟨cs, by rw [hc]⟩⟩
    · obtain ⟨line, more, rfl, hline, hmore⟩ := ih
      exact ⟨c :: line, more, rfl, by simp [Ne.symm hc, hline], hmore⟩

/-- All of a separator is skipped, and nothing else. -/
theorem skipSeparators_eq {cs tail : List Char} (hcs : endOfInput ∉ cs) (htail : Hidden tail) (p : Position) :
    ∃ gap rest, cs = gap ++ rest ∧ Token.skipSeparators ⟨cs ++ tail, p⟩ = ⟨rest ++ tail, p.afterAll gap⟩ ∧
      Separator gap rest ∧ Stops (fun c => Blank c ∨ c = '#') rest := by
  -- A comment is skipped as a whole, so the induction is on the length of what is left.
  induction hlength : cs.length using Nat.strongRecOn generalizing cs p with
  | ind n ih =>
    subst hlength
    cases cs with
    | nil => exact ⟨[], [], rfl, skipSeparators_stops .nil htail p, .nil, .nil⟩
    | cons c cs =>
      obtain ⟨-, hvisible⟩ := not_or.mp (mt List.mem_cons.mpr hcs)
      by_cases hcomment : c = '#'
      · subst hcomment
        obtain ⟨body, more, rfl, hbody, hmore⟩ := exists_line cs
        obtain ⟨hend, hvisible⟩ := not_or.mp (mt List.mem_append.mpr hvisible)
        rcases hmore with rfl | ⟨more, rfl⟩
        · refine ⟨'#' :: body, [], rfl, ?_, .lastComment hbody, .nil⟩
          rw [List.append_nil]
          exact skipSeparators_lastComment hbody hend htail p
        · obtain ⟨gap, rest, rfl, hskip, hgap, hrest⟩ := ih more.length (by simp; omega)
            (fun h => hvisible (List.mem_cons_of_mem _ h)) (p.afterAll ('#' :: body ++ ['\n'])) rfl
          refine ⟨'#' :: body ++ '\n' :: gap, rest, by simp, ?_, .comment hbody hgap, hrest⟩
          have htext : '#' :: (body ++ '\n' :: (gap ++ rest)) ++ tail =
              '#' :: body ++ '\n' :: (gap ++ rest ++ tail) := by simp
          rw [htext, skipSeparators_comment hbody hend, hskip, ← afterAll_append]
          simp
      by_cases hblank : Blank c
      · obtain ⟨gap, rest, rfl, hskip, hgap, hrest⟩ := ih cs.length (by simp) hvisible (p.after c) rfl
        exact ⟨c :: gap, rest, rfl, (skipSeparators_blank hblank _ p).trans hskip, .blank hblank hgap, hrest⟩
      · have hstops : Stops (fun c => Blank c ∨ c = '#') (c :: cs) := by
          intro d hd
          cases hd
          exact not_or.mpr ⟨hblank, hcomment⟩
        exact ⟨[], c :: cs, rfl, skipSeparators_stops hstops htail p, .nil, hstops⟩

/-! ### Tokens -/

theorem scan_hidden {tail : List Char} (htail : Hidden tail) (p : Position) :
    (Token.scan ⟨tail, p⟩).1 = ⟨.endOfText, "", p⟩ := by
  cases tail with
  | nil => rfl
  | cons c tail =>
    obtain rfl := htail c rfl
    rfl

/-- Where no separator stands the lexer reads a word of the rules. -/
theorem scan_eq {cs tail : List Char} (hcs : endOfInput ∉ cs) (htail : Hidden tail) (hne : cs ≠ [])
    (hstop : Stops (fun c => Blank c ∨ c = '#') cs) (p : Position) :
    ∃ kind spelling rest, cs = spelling ++ rest ∧ Lexeme kind spelling rest ∧
      Token.scan ⟨cs ++ tail, p⟩ =
        (⟨kind, String.ofList spelling, p⟩, ⟨rest ++ tail, p.afterAll spelling⟩) := by
  obtain ⟨c, cs, rfl⟩ := List.exists_cons_of_ne_nil hne
  obtain ⟨hblank, hcomment⟩ := not_or.mp (hstop c rfl)
  obtain ⟨kind, spelling, rest, heq, hword⟩ := exists_lexeme cs hblank hcomment
  refine ⟨kind, spelling, rest, heq, hword, ?_⟩
  rw [heq] at hcs
  have hlexeme := (hword.append htail).lexeme_eq fun hmem => hcs (List.mem_append_left _ hmem)
  rw [heq, List.append_assoc]
  simp [Token.scan, hlexeme, Cursor.drop]

theorem Lexeme.ne_endOfText {kind : Kind} {spelling rest : List Char} (h : Lexeme kind spelling rest) :
    kind ≠ .endOfText := by
  rintro rfl
  cases h

theorem Lexeme.ne_nil {kind : Kind} {spelling rest : List Char} (h : Lexeme kind spelling rest) :
    spelling ≠ [] := by
  rintro rfl
  generalize hnil : ([] : List Char) = spelling at h
  cases h with
  | @keyword word =>
    obtain ⟨c, cs, hcons, -⟩ := wordPart_keyword word
    rw [hcons] at hnil
    cases hnil
  | _ => cases hnil

theorem Lexeme.eq_singleton {spelling rest : List Char} (h : Lexeme .unknownInput spelling rest) :
    ∃ c, spelling = [c] := by
  cases h with
  | @unknown c => exact ⟨c, rfl⟩

/-! ### Tilings -/

/-- A token with the separator before it. -/
structure Piece where
  gap : List Char
  token : Token

def Piece.text (p : Piece) : List Char := p.gap ++ p.token.spelling.toList

def textOf (pieces : List Piece) : List Char := pieces.flatMap Piece.text

@[simp] theorem textOf_nil : textOf [] = [] := rfl

@[simp] theorem textOf_cons (p : Piece) (ps : List Piece) : textOf (p :: ps) = p.text ++ textOf ps := rfl

/-- The piece is right where it stands: between the texts `before` and `after`. -/
structure Piece.Fits (p : Piece) (before after : List Char) : Prop where
  separator : Separator p.gap (p.token.spelling.toList ++ after)
  position_eq : p.token.position = placeAfter (before ++ p.gap)
  lexeme : Lexeme p.token.kind p.token.spelling.toList after

/-- Pieces that fit one behind the other from `before` on, and the separator behind the last of them. -/
def Tiling (before : List Char) (pieces : List Piece) (gap : List Char) : Prop :=
  Separator gap [] ∧
    ∀ l p r, pieces = l ++ p :: r → p.Fits (before ++ textOf l) (textOf r ++ gap)

theorem Tiling.nil {before gap : List Char} (h : Separator gap []) : Tiling before [] gap :=
  ⟨h, fun l p r heq => by simp at heq⟩

theorem Tiling.cons {before gap : List Char} {p : Piece} {ps : List Piece} (hp : p.Fits before (textOf ps ++ gap))
    (h : Tiling (before ++ p.text) ps gap) : Tiling before (p :: ps) gap := by
  refine ⟨h.1, fun l q r heq => ?_⟩
  cases l with
  | nil =>
    obtain ⟨rfl, rfl⟩ := List.cons.inj heq
    simpa using hp
  | cons q' l =>
    obtain ⟨rfl, rfl⟩ := List.cons.inj heq
    simpa using h.2 l q r rfl

/-- The tokens from a cursor on tile what is left of the text. -/
theorem scanAll_tiles (tokens : Array Token) (before : List Char) {cs tail : List Char}
    (hcs : endOfInput ∉ cs) (htail : Hidden tail) :
    ∃ pieces gap, (Token.scanAll tokens ⟨cs ++ tail, placeAfter before⟩).toList =
        tokens.toList ++ (pieces.map Piece.token ++ [⟨.endOfText, "", placeAfter (before ++ cs)⟩]) ∧
      cs = textOf pieces ++ gap ∧ Tiling before pieces gap := by
  obtain ⟨gap, rest, rfl, hskip, hgap, hstop⟩ := skipSeparators_eq hcs htail (placeAfter before)
  rw [afterAll_placeAfter] at hskip
  rw [Token.scanAll, hskip]
  by_cases hrest : rest = []
  · subst hrest
    have hscan := scan_hidden htail (placeAfter (before ++ gap))
    refine ⟨[], gap, ?_, by simp, .nil hgap⟩
    simp [hscan]
  · have hend : endOfInput ∉ rest := fun hmem => hcs (List.mem_append_right _ hmem)
    obtain ⟨kind, spelling, rest, rfl, hword, hscan⟩ := scan_eq hend htail hrest hstop (placeAfter (before ++ gap))
    rw [afterAll_placeAfter] at hscan
    -- the word takes a character at least, so less of the text is left
    have hlength : rest.length < (gap ++ (spelling ++ rest)).length := by
      have := List.length_pos_iff.mpr hword.ne_nil
      simp only [List.length_append]
      omega
    obtain ⟨pieces, gap', htokens, rfl, htiling⟩ := scanAll_tiles
      (tokens.push ⟨kind, String.ofList spelling, placeAfter (before ++ gap)⟩) (before ++ gap ++ spelling)
      (fun hmem => hend (List.mem_append_right _ hmem)) htail
    let p : Piece := ⟨gap, ⟨kind, String.ofList spelling, placeAfter (before ++ gap)⟩⟩
    have htext : p.text = gap ++ spelling := by simp [p, Piece.text]
    refine ⟨p :: pieces, gap', ?_, by simp [htext], .cons ⟨?_, rfl, ?_⟩ ?_⟩
    · rw [hscan, if_neg hword.ne_endOfText, htokens]
      simp [p]
    · simpa [p] using hgap
    · simpa [p] using hword
    · simpa [htext] using htiling
termination_by cs.length

/-! ### Errors -/

/-- What is reported about a token that is no word of the language. -/
inductive Blames : Token → Diagnostic → Prop where
  | unknown {spelling : String} {position : Position} {c : Char} : spelling.toList = [c] →
      Blames ⟨.unknownInput, spelling, position⟩ ⟨position, .lexical (.unknownInput c)⟩
  | unacceptable {spelling : String} {position : Position} :
      Blames ⟨.unacceptableSequence, spelling, position⟩ ⟨position, .lexical (.unacceptableSequence spelling)⟩

theorem diagnostics_blame {tokens : List Token}
    (h : ∀ t ∈ tokens, t.kind = .unknownInput → ∃ c, t.spelling.toList = [c]) :
    List.Forall₂ Blames (tokens.filter (·.kind.isError)) (Token.diagnostics tokens) := by
  induction tokens with
  | nil => exact .nil
  | cons t tokens ih =>
    have htail := ih fun u hu => h u (List.mem_cons_of_mem _ hu)
    obtain ⟨kind, spelling, position⟩ := t
    cases kind with
    | unknownInput =>
      obtain ⟨c, hc⟩ := h _ List.mem_cons_self rfl
      have hhead : spelling.toList.headD '\x00' = c := by rw [hc]; rfl
      have hd : Token.diagnostics (⟨.unknownInput, spelling, position⟩ :: tokens) =
          ⟨position, .lexical (.unknownInput c)⟩ :: Token.diagnostics tokens := by rw [← hhead]; rfl
      rw [hd]
      exact .cons (.unknown hc) htail
    | unacceptableSequence => exact .cons .unacceptable htail
    | _ => exact htail

end Lexical

open Lexical

/-- The tokens of a text and the separators between them make up the text, as far as its first null
    character. The token for the end of the text is the last one; every other token is a word of the
    lexical rules, the only one that the text has there, and its line and column are those of its first
    character in the whole text. The errors are those of the tokens that are no words of the language, each
    at the place of its token. -/
theorem Token.ofString_tiles (source : String) :
    let text := source.toList.takeWhile (· ≠ '\x00')
    ∃ pieces gap,
      ofString source = pieces.map Piece.token ++ [⟨.endOfText, "", placeAfter text⟩] ∧
      text = textOf pieces ++ gap ∧ Separator gap [] ∧
      (∀ before p after, pieces = before ++ p :: after →
        p.token.kind ≠ .endOfText ∧ p.Fits (textOf before) (textOf after ++ gap) ∧
        ∀ kind spelling rest, Lexeme kind spelling rest →
          spelling ++ rest = p.token.spelling.toList ++ (textOf after ++ gap) →
          kind = p.token.kind ∧ spelling = p.token.spelling.toList) ∧
      List.Forall₂ Blames ((ofString source).filter (·.kind.isError)) (diagnostics (ofString source)) := by
  intro text
  have hcs : Text.endOfInput ∉ text := endOfInput_not_mem_takeWhile source.toList
  obtain ⟨pieces, gap, htokens, htext, hgap, hfits⟩ :=
    scanAll_tiles #[] [] hcs (hidden_dropWhile source.toList)
  have hsource : ofString source = pieces.map Piece.token ++ [⟨.endOfText, "", placeAfter text⟩] := by
    rw [List.takeWhile_append_dropWhile] at htokens
    exact htokens
  refine ⟨pieces, gap, hsource, htext, hgap, fun before p after hpieces => ?_, diagnostics_blame ?_⟩
  · have hp := hfits before p after hpieces
    rw [List.nil_append] at hp
    refine ⟨hp.lexeme.ne_endOfText, hp, fun kind spelling rest hword heq => hp.lexeme.unique hword heq ?_⟩
    intro hmem
    refine hcs ?_
    rw [htext, hpieces]
    simp only [textOf, List.flatMap_append, List.flatMap_cons, Piece.text, List.mem_append] at hmem ⊢
    tauto
  · intro t ht hkind
    rw [hsource, List.mem_append, List.mem_map, List.mem_singleton] at ht
    rcases ht with ⟨p, hp, rfl⟩ | rfl
    · obtain ⟨before, after, hpieces⟩ := List.append_of_mem hp
      have hword := (hfits before p after hpieces).lexeme
      rw [hkind] at hword
      exact hword.eq_singleton
    · cases hkind

end TriangleCompiler
