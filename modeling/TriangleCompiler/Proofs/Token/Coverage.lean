import TriangleCompiler.Proofs.Token.Rendering

/-! Which characters of a text count for something. Every character up to the first null character stands in
    a word, separates words or stands in a comment, or else an error is reported for it. A null character is
    taken for the end of the text wherever it stands, so nothing is ever reported about what follows it. -/

namespace TriangleCompiler

namespace Lexical

open Text (endOfInput)
open Token (Kind)

/-- The character `c` between `before` and `after` belongs to the spelling of the token. -/
def Covers (t : Token) (before : List Char) (c : Char) (after : List Char) : Prop :=
  ∃ start left right rest, before = start ++ left ∧ after = right ++ rest ∧
    t.position = placeAfter start ∧ t.spelling.toList = left ++ c :: right

/-- The character `c` behind `before` is a number sign, or there is one before it in the same line. No word
    has a number sign in it, so there is a comment wherever one stands. -/
def InComment (before : List Char) (c : Char) : Prop :=
  ∃ start body, before ++ [c] = start ++ '#' :: body ∧ '\n' ∉ body

/-- The character `c` between `before` and `after` belongs to a word, is a blank or stands in a comment. -/
inductive Accounted (tokens : List Token) (before : List Char) (c : Char) (after : List Char) : Prop where
  | word {t : Token} : t ∈ tokens → t.kind.isError = false → Covers t before c after →
      Accounted tokens before c after
  | blank : Blank c → Accounted tokens before c after
  | comment : InComment before c → Accounted tokens before c after

/-! ### Characters of separators -/

/-- A character of two texts behind one another is in the first or in the second. -/
theorem split_append {l r before after : List Char} {c : Char} (h : l ++ r = before ++ c :: after) :
    (∃ m, l = before ++ c :: m ∧ after = m ++ r) ∨ ∃ m, before = l ++ m ∧ r = m ++ c :: after := by
  rcases List.append_eq_append_iff.mp h with ⟨m, rfl, hr⟩ | ⟨m, rfl, hm⟩
  · exact Or.inr ⟨m, rfl, hr⟩
  · cases m with
    | nil => exact Or.inr ⟨[], by simp, by simpa using hm.symm⟩
    | cons d m =>
      obtain ⟨rfl, rfl⟩ := List.cons.inj hm
      exact Or.inl ⟨m, rfl, rfl⟩

theorem InComment.behind {before : List Char} {c : Char} (h : InComment before c) (lead : List Char) :
    InComment (lead ++ before) c := by
  obtain ⟨start, body, heq, hbody⟩ := h
  exact ⟨lead ++ start, body, by rw [List.append_assoc, heq, List.append_assoc], hbody⟩

theorem inComment_of_body {body before after : List Char} {c : Char} (h : '#' :: body = before ++ c :: after)
    (hbody : '\n' ∉ body) : InComment before c := by
  cases before with
  | nil =>
    obtain ⟨rfl, -⟩ := List.cons.inj h
    exact ⟨[], [], rfl, List.not_mem_nil⟩
  | cons d before =>
    obtain ⟨rfl, htail⟩ := List.cons.inj h
    refine ⟨[], before ++ [c], rfl, fun hmem => hbody ?_⟩
    rw [List.mem_append, List.mem_singleton] at hmem
    rw [htail, List.append_eq, List.mem_append, List.mem_cons]
    exact hmem.imp_right Or.inl

/-- The characters of a separator are blanks, or they stand in comments. -/
theorem Separator.blank_or_inComment {gap rest : List Char} (h : Separator gap rest) {before after : List Char}
    {c : Char} (heq : gap = before ++ c :: after) : Blank c ∨ InComment before c := by
  induction h generalizing before with
  | nil => simp at heq
  | @blank d gap rest hd _ ih =>
    cases before with
    | nil =>
      obtain ⟨rfl, -⟩ := List.cons.inj heq
      exact Or.inl hd
    | cons d' before =>
      obtain ⟨-, heq⟩ := List.cons.inj heq
      exact (ih heq).imp_right fun hin => hin.behind [d']
  | @comment body gap rest hbody _ ih =>
    rcases split_append heq with ⟨m, hm, -⟩ | ⟨m, rfl, hm⟩
    · exact Or.inr (inComment_of_body hm hbody)
    -- behind the comment comes its line feed, which is a blank, and then the rest of the separator
    · cases m with
      | nil =>
        obtain ⟨rfl, -⟩ := List.cons.inj hm
        exact Or.inl (by decide)
      | cons d m =>
        obtain ⟨rfl, hgap⟩ := List.cons.inj hm
        refine (ih hgap).imp_right fun hin => ?_
        have hbehind := hin.behind ('#' :: body ++ ['\n'])
        simpa using hbehind
  | lastComment hbody => exact Or.inr (inComment_of_body heq hbody)

/-! ### Characters of texts -/

theorem Lexeme.numberSign_not_mem {kind : Kind} {spelling rest : List Char} (h : Lexeme kind spelling rest) :
    '#' ∉ spelling := by
  cases hkind : kind.isError with
  | false => exact (h.wellFormed hkind).not_mem (by decide) (fun _ => by decide) (by decide)
  | true =>
    cases h with
    | @unclosed c _ hc =>
      have hne : '#' ≠ c := by
        rintro rfl
        exact absurd hc (by decide)
      simp [hne]
    | bareQuote => decide
    | @unknown c _ hmark =>
      have hne : '#' ≠ c := by
        rintro rfl
        exact hmark (by decide)
      simp [hne]
    | _ => cases hkind

/-- The characters of a text stand in its words or in its separators. -/
theorem Tiling.covers {lead gap : List Char} {pieces : List Piece} (h : Tiling lead pieces gap)
    {before after : List Char} {c : Char} (heq : textOf pieces ++ gap = before ++ c :: after) :
    (∃ p ∈ pieces, Covers p.token (lead ++ before) c after) ∨ Blank c ∨ InComment (lead ++ before) c := by
  induction pieces generalizing lead before with
  | nil => exact Or.inr ((h.1.blank_or_inComment heq).imp_right fun hin => hin.behind lead)
  | cons p ps ih =>
    rw [textOf_cons, Piece.text, List.append_assoc, List.append_assoc] at heq
    rcases split_append heq with ⟨m, hgap, -⟩ | ⟨left, rfl, hword⟩
    · exact Or.inr ((h.head.separator.blank_or_inComment hgap).imp_right fun hin => hin.behind lead)
    rcases split_append hword with ⟨right, hspelling, hafter⟩ | ⟨left, rfl, hrest⟩
    · refine Or.inl ⟨p, List.mem_cons_self, lead ++ p.gap, left, right, _, ?_, hafter, h.head.position_eq,
        hspelling⟩
      rw [List.append_assoc]
    · have hrest := ih h.tail hrest
      rw [Piece.text, List.append_assoc, List.append_assoc] at hrest
      refine hrest.imp_left ?_
      rintro ⟨q, hq, hcovers⟩
      exact ⟨q, List.mem_cons_of_mem _ hq, hcovers⟩

end Lexical

open Lexical

/-- An error is reported at the place of every token that is no word of the language. -/
theorem Token.exists_diagnostic {tokens : List Token} {t : Token} (ht : t ∈ tokens) (hkind : t.kind.isError = true) :
    ∃ d ∈ diagnostics tokens, d.position = t.position := by
  have hcause : ∃ cause, t.lexicalError? = some cause := by
    unfold lexicalError?
    cases h : t.kind with
    | unknownInput | unacceptableSequence => exact ⟨_, rfl⟩
    | _ => simp [h, Kind.isError] at hkind
  obtain ⟨cause, hcause⟩ := hcause
  exact ⟨⟨t.position, .lexical cause⟩, List.mem_filterMap.mpr ⟨t, ht, by rw [hcause]; rfl⟩, rfl⟩

/-- Every character before the first null character belongs to a word, is a blank or stands in a comment, or
    it belongs to a token that an error is reported for; so if no error is reported all of them are accounted
    for. No token has a number sign in it, so every number sign belongs to a comment. The rest of the text is
    not read: the tokens are those of the text before it. -/
theorem Token.ofString_accounts (source : String) :
    let text := source.toList.takeWhile (· ≠ '\x00')
    (∀ before c after, text = before ++ c :: after → Accounted (ofString source) before c after ∨
      ∃ t ∈ ofString source, Covers t before c after ∧
        ∃ d ∈ diagnostics (ofString source), d.position = t.position) ∧
    (diagnostics (ofString source) = [] → ∀ before c after, text = before ++ c :: after →
      Accounted (ofString source) before c after) ∧
    (∀ t ∈ ofString source, '#' ∉ t.spelling.toList) ∧
    ofString source = ofString (String.ofList text) := by
  intro text
  have hcs : Text.endOfInput ∉ text := endOfInput_not_mem_takeWhile source.toList
  obtain ⟨pieces, gap, htokens, htext, htiling⟩ := scanAll_tiles #[] [] hcs (hidden_dropWhile source.toList)
  have hsource : ofString source = pieces.map Piece.token ++ [⟨.endOfText, "", placeAfter text⟩] := by
    rw [List.takeWhile_append_dropWhile] at htokens
    exact htokens
  have hall : ∀ before c after, text = before ++ c :: after → Accounted (ofString source) before c after ∨
      ∃ t ∈ ofString source, Covers t before c after ∧
        ∃ d ∈ diagnostics (ofString source), d.position = t.position := by
    intro before c after heq
    rcases htiling.covers (htext.symm.trans heq) with ⟨p, hp, hcovers⟩ | hblank | hcomment
    · have hmem : p.token ∈ ofString source := by
        rw [hsource]
        exact List.mem_append_left _ (List.mem_map_of_mem hp)
      cases hkind : p.token.kind.isError with
      | false => exact Or.inl (.word hmem hkind hcovers)
      | true => exact Or.inr ⟨p.token, hmem, hcovers, Token.exists_diagnostic hmem hkind⟩
    · exact Or.inl (.blank hblank)
    · exact Or.inl (.comment hcomment)
  refine ⟨hall, fun hclean before c after heq => (hall before c after heq).resolve_right ?_, fun t ht => ?_, ?_⟩
  · rintro ⟨t, -, -, d, hd, -⟩
    rw [hclean] at hd
    cases hd
  · rcases exists_lexeme_of_mem ht with ⟨-, hspelling⟩ | ⟨rest, hword⟩
    · rw [hspelling]
      exact List.not_mem_nil
    · exact hword.numberSign_not_mem
  · rw [hsource, htext, htiling.ofString (htext ▸ hcs)]

/-- A word, and a comment that a null character breaks off. -/
theorem Token.ofString_accounts_comment :
    let source := "a#b\x00$"
    diagnostics (ofString source) = [] ∧ Accounted (ofString source) ['a', '#'] 'b' [] ∧
      ofString source = ofString "a#b" := by
  intro source
  have hclean : diagnostics (ofString source) = [] := by decide +kernel
  have htext : source.toList.takeWhile (· ≠ '\x00') = ['a', '#', 'b'] := by decide
  have hcutText : String.ofList ['a', '#', 'b'] = "a#b" := by decide
  obtain ⟨-, haccounts, -, hcut⟩ := Token.ofString_accounts source
  rw [htext] at haccounts hcut
  rw [hcutText] at hcut
  exact ⟨hclean, haccounts hclean ['a', '#'] 'b' [] rfl, hcut⟩

/-- Not every character is accounted for where no error is reported: a dollar sign is in no word and in no
    comment, and behind a null character it goes without an error. -/
theorem Token.ofString_ignores_rest :
    let source := "x\x00$"
    source.toList = ['x', '\x00'] ++ '$' :: [] ∧ diagnostics (ofString source) = [] ∧
      ¬Accounted (ofString source) ['x', '\x00'] '$' [] := by
  intro source
  have htokens : ofString source = [⟨.identifier, "x", ⟨1, 1⟩⟩, ⟨.endOfText, "", ⟨1, 2⟩⟩] := by decide +kernel
  refine ⟨by decide, by rw [htokens]; rfl, fun haccounted => ?_⟩
  cases haccounted with
  | @word t ht _ hcovers =>
    obtain ⟨start, left, right, rest, -, -, -, hspelling⟩ := hcovers
    have hmem : '$' ∈ t.spelling.toList := by simp [hspelling]
    rw [htokens] at ht
    rcases List.mem_pair.mp ht with rfl | rfl <;> exact absurd hmem (by decide)
  | blank hblank => exact absurd hblank (by decide)
  | comment hcomment =>
    obtain ⟨start, body, heq, -⟩ := hcomment
    have hmem : '#' ∈ ['x', '\x00'] ++ ['$'] := by simp [heq]
    exact absurd hmem (by decide)

end TriangleCompiler
