import TriangleCompiler.Proofs.Compilation.Stages
import TriangleCompiler.Proofs.Machine.Formats
import TriangleCompiler.Proofs.Outline.Sites
import TriangleCompiler.Proofs.Parser.Origins
import TriangleCompiler.Proofs.Token.Rendering

/-! The lines of printed trees. Names and literals are printed as they are written, so a phrase has one line
    unless there is a line feed in its own words. Of all words that can stand in a tree only the literal of
    the line feed has one: it takes two lines, and nothing else does. -/

namespace TriangleCompiler

open Outline
open Phrase (Visits Inside Throughout)

namespace Outline

/-- The lines of a text, which its line feeds divide. -/
def linesOf (text : String) : List (List Char) := text.toList.splitOn '\n'

/-- The line starts with two spaces for each level of the depth, and with no more. -/
def Indented (depth : Nat) (line : List Char) : Prop :=
  ∃ c cs, line = List.replicate (2 * depth) ' ' ++ c :: cs ∧ c ≠ ' '

/-- The lines that a phrase has at its depth. -/
inductive Occupies (d : Decoration) : Nat × Phrase → List (List Char) → Prop where
  | one {depth : Nat} {x : Phrase} : (∀ tag, x ≠ .expr (.char tag "'\n'")) →
      Indented depth (List.replicate (2 * depth) ' ' ++ (x.text d).toList) →
      Occupies d (depth, x) [List.replicate (2 * depth) ' ' ++ (x.text d).toList]
  /-- The literal of the line feed, whose second quote stands at the start of a line. -/
  | two {depth : Nat} {tag : Tag} : Occupies d (depth, .expr (.char tag "'\n'"))
      [List.replicate (2 * depth) ' ' ++ "char '".toList,
        ("' (" ++ tag.position.text ++ ")" ++ d.type tag.id).toList]

/-! ### Texts made of lines -/

/-- The text is made of these lines, each with its line feed. -/
structure MadeOf (rows : List (List Char)) (text : String) : Prop where
  toList_eq : text.toList = rows.flatMap (· ++ ['\n'])
  not_mem : ∀ row ∈ rows, '\n' ∉ row

namespace MadeOf
variable {rows rows' : List (List Char)} {s t : String}

theorem nil : MadeOf [] "" := ⟨rfl, List.forall_mem_nil _⟩

theorem append (h : MadeOf rows s) (h' : MadeOf rows' t) : MadeOf (rows ++ rows') (s ++ t) := by
  refine ⟨?_, List.forall_mem_append.mpr ⟨h.not_mem, h'.not_mem⟩⟩
  rw [String.toList_append, h.toList_eq, h'.toList_eq, List.flatMap_append]

theorem linesOf_eq (h : MadeOf rows s) : linesOf s = rows ++ [[]] := by
  obtain ⟨heq, hrows⟩ := h
  rw [linesOf, heq]
  clear heq
  induction rows with
  | nil => rfl
  | cons row rows ih =>
    obtain ⟨hrow, hrest⟩ := List.forall_mem_cons.mp hrows
    have hfirst : ∀ c ∈ row, (c == '\n') = false := fun c hc => beq_eq_false_iff_ne.mpr fun heq => hrow (heq ▸ hc)
    have hsplit := List.splitOnP_append_cons_of_forall_mem hfirst '\n' rfl (rows.flatMap (· ++ ['\n']))
    rw [List.flatMap_cons, List.append_assoc, List.singleton_append, List.splitOn_eq_splitOnP, hsplit,
      ← List.splitOn_eq_splitOnP, ih hrest]
    rfl

end MadeOf

/-! ### Texts without line feeds -/

/-- The text has no line feed. -/
def OneLine (text : String) : Prop := '\n' ∉ text.toList

instance : DecidablePred OneLine := fun text => inferInstanceAs (Decidable ('\n' ∉ text.toList))

@[simp] theorem oneLine_append {s t : String} : OneLine (s ++ t) ↔ OneLine s ∧ OneLine t := by
  simp only [OneLine, String.toList_append, List.mem_append, not_or]

theorem oneLine_toString (n : Int) : OneLine (toString n) := by
  intro hmem
  exact absurd (Machine.inNumeral_of_mem_toString hmem) (by decide)

theorem oneLine_text (p : Position) : OneLine p.text := by
  rw [Position.text]
  split
  · decide
  · simp only [Machine.toString_self, oneLine_append, oneLine_toString, true_and, and_true]
    decide

theorem oneLine_nodeId (id : NodeId) : OneLine (NodeId.text id) := by
  simp only [NodeId.text, Machine.toString_self, oneLine_append]
  exact ⟨by decide, oneLine_toString id⟩

theorem oneLine_head {what : String} (hwhat : OneLine what) (position : Position) :
    OneLine (head what position) := by
  simp only [head, Machine.toString_self, oneLine_append, oneLine_text, hwhat, true_and]
  decide

theorem oneLine_namedHead {what name : String} (hwhat : OneLine what) (hname : OneLine name)
    (position : Position) : OneLine (namedHead what name position) := by
  simp only [namedHead, Machine.toString_self, oneLine_append, oneLine_text, hwhat, hname, true_and]
  decide

theorem oneLine_name (b : Builtin) : OneLine b.name := by
  cases b <;> decide

/-- Where the declared names have no line feed there is none in what is shown next to a node. -/
theorem Decoration.oneLine_link {d : Decoration}
    (hsites : ∀ (id : NodeId) (site : Site), d.sites[id]? = some site → OneLine site.name) (id : NodeId) :
    OneLine (d.link id) := by
  have hsite : ∀ target, OneLine (d.siteText target) := by
    intro target
    rw [Decoration.siteText]
    split
    · rename_i site hget
      simp only [Machine.toString_self, oneLine_append, oneLine_text, hsites target site hget, and_true]
      decide
    · simp only [Machine.toString_self, oneLine_append, oneLine_nodeId, and_true]
      decide
  rw [Decoration.link]
  split
  · decide
  · simp only [Machine.toString_self, oneLine_append, oneLine_name, and_true]
    decide
  · exact oneLine_append.mpr ⟨by decide, hsite _⟩
  · exact oneLine_append.mpr ⟨by decide, hsite _⟩

theorem Decoration.oneLine_type (d : Decoration) (id : NodeId) : OneLine (d.type id) := by
  rw [Decoration.type]
  split
  · decide
  · rename_i type _
    cases type <;> decide

end Outline

namespace Phrase

theorem oneLine_what (x : Phrase) : OneLine x.what := by
  cases x with
  | command c => cases c <;> simp [OneLine, what]
  | declaration d => cases d <;> simp [OneLine, what]
  | expr e => cases e <;> simp [OneLine, what]
  | argument a => cases a <;> simp [OneLine, what]
  | declarations | target | counter | type => simp [OneLine, what]

theorem exists_what (x : Phrase) : ∃ c cs, x.what.toList = c :: cs ∧ c ≠ ' ' := by
  cases x with
  | command c => cases c <;> simp [what]
  | declaration d => cases d <;> simp [what]
  | expr e => cases e <;> simp [what]
  | argument a => cases a <;> simp [what]
  | declarations | target | counter | type => simp [what]

/-- What is printed for a phrase starts with the word that says what it is. -/
theorem exists_text (d : Decoration) (x : Phrase) : ∃ rest, x.text d = x.what ++ rest := by
  rw [text, label]
  split
  · simp only [head, Machine.toString_self, String.append_assoc]
    exact ⟨_, rfl⟩
  · simp only [namedHead, Machine.toString_self, String.append_assoc]
    exact ⟨_, rfl⟩

theorem indented_text (d : Decoration) (depth : Nat) (x : Phrase) :
    Indented depth (List.replicate (2 * depth) ' ' ++ (x.text d).toList) := by
  obtain ⟨rest, htext⟩ := x.exists_text d
  obtain ⟨c, cs, hwhat, hc⟩ := x.exists_what
  rw [htext, String.toList_append, hwhat]
  exact ⟨c, cs ++ rest.toList, rfl, hc⟩

theorem oneLine_text {d : Decoration}
    (hsites : ∀ (id : NodeId) (site : Site), d.sites[id]? = some site → OneLine site.name)
    {x : Phrase} (hword : ∀ w ∈ x.word?, OneLine w.2.spelling) : OneLine (x.text d) := by
  have hlabel : OneLine x.label := by
    rw [label]
    split
    · exact oneLine_head x.oneLine_what x.position
    · rename_i w hw
      exact oneLine_namedHead x.oneLine_what (hword w hw) x.position
  have hlink : OneLine (x.use?.elim "" (d.link ·.id)) := by
    cases x.use? with
    | none => exact List.not_mem_nil
    | some name => exact d.oneLine_link hsites name.id
  have htype : OneLine (x.typeText d) := by
    rw [typeText]
    cases x.typed? with
    | none => exact List.not_mem_nil
    | some id => exact d.oneLine_type id
  exact oneLine_append.mpr ⟨oneLine_append.mpr ⟨hlabel, hlink⟩, htype⟩

end Phrase

/-! ### Words with line feeds -/

/-- The only word with a line feed is the literal of the line feed. -/
theorem Lexical.WellFormed.oneLine {kind : Token.Kind} {spelling : String} (h : WellFormed kind spelling.toList)
    (hne : kind = .charLiteral → spelling ≠ "'\n'") : OneLine spelling := by
  by_cases hkind : kind = .charLiteral
  · subst hkind
    generalize hchars : spelling.toList = chars at h
    cases h with
    | @charLiteral c _ =>
      have hc : '\n' ≠ c := by
        rintro rfl
        exact hne rfl (String.toList_inj.mp hchars)
      rw [OneLine, hchars]
      simp [hc]
  · exact h.not_mem (by decide) (fun heq => absurd heq hkind) (by decide)

namespace Phrase
variable {source : String} {x : Phrase}

theorem kind_word {w : Token.Kind × Name} (h : x.word? = some w) : w.1.isError = false ∧
    (w.1 = .charLiteral → x = .expr (.char w.2.toTag w.2.spelling)) := by
  unfold word? at h
  split at h
  case h_2 =>
    cases h
    exact ⟨rfl, fun _ => rfl⟩
  all_goals cases h <;> exact ⟨rfl, fun heq => by cases heq⟩

theorem Stems.oneLine_word (h : Stems (Token.ofString source) x)
    (hne : ∀ tag, x ≠ .expr (.char tag "'\n'")) : ∀ w ∈ x.word?, OneLine w.2.spelling := by
  intro w hw
  obtain ⟨hkind, hchar⟩ := kind_word hw
  rcases Lexical.exists_lexeme_of_mem (h.word w hw) with ⟨-, hempty⟩ | ⟨rest, hlexeme⟩
  · have hempty : w.2.spelling = "" := hempty
    rw [hempty]
    decide
  · refine (hlexeme.wellFormed hkind).oneLine fun heq hspelling => ?_
    have hspelling : w.2.spelling = "'\n'" := hspelling
    exact hne w.2.toTag (hspelling ▸ hchar heq)

theorem word?_of_site? {link : Link} {site : Site} (h : x.site? = some (link, site)) :
    ∃ w, x.word? = some w ∧ w.1 = .identifier ∧ w.2.spelling = site.name := by
  unfold site? at h
  split at h
  all_goals cases h <;> exact ⟨_, rfl, rfl, rfl⟩

theorem Stems.oneLine_site (h : Stems (Token.ofString source) x) {link : Link} {site : Site}
    (hsite : x.site? = some (link, site)) : OneLine site.name := by
  obtain ⟨w, hw, hkind, hname⟩ := word?_of_site? hsite
  rw [← hname]
  refine h.oneLine_word (fun tag hx => ?_) w hw
  rw [hx] at hsite
  cases hsite

/-- A phrase has its lines, and each of them ends with a line feed of its own. -/
theorem Stems.exists_row {d : Decoration}
    (hsites : ∀ (id : NodeId) (site : Site), d.sites[id]? = some site → OneLine site.name)
    (h : Stems (Token.ofString source) x) (depth : Nat) :
    ∃ row, Occupies d (depth, x) row ∧ MadeOf row (line d (depth, x)).render := by
  have hspaces : '\n' ∉ List.replicate (2 * depth) ' ' := by simp
  by_cases hx : ∃ tag, x = .expr (.char tag "'\n'")
  · obtain ⟨tag, rfl⟩ := hx
    refine ⟨_, .two, ?_, ?_⟩
    · simp [line, Line.render, toList_spaces, text, label, word?, use?, typeText, typed?, what, namedHead,
        Machine.toString_self, position, Expr.tag]
    · have hbehind : OneLine ("' (" ++ tag.position.text ++ ")" ++ d.type tag.id) := by
        simp only [oneLine_append, Outline.oneLine_text, d.oneLine_type, and_true]
        decide
      simp only [List.forall_mem_cons, List.mem_append, not_or, List.not_mem_nil, false_imp_iff, implies_true,
        and_true]
      exact ⟨⟨hspaces, by decide⟩, hbehind⟩
  · have hne : ∀ tag, x ≠ .expr (.char tag "'\n'") := fun tag heq => hx ⟨tag, heq⟩
    have htext := oneLine_text hsites (h.oneLine_word hne)
    refine ⟨_, .one hne (x.indented_text d depth), ?_, ?_⟩
    · simp [line, Line.render, toList_spaces]
    · simp only [List.forall_mem_singleton, List.mem_append, not_or]
      exact ⟨hspaces, htext⟩

end Phrase

/-! ### Trees -/

/-- The lines of phrases that are printed one after the other. -/
theorem exists_rows {d : Decoration} {visits : List (Nat × Phrase)}
    (h : ∀ visit ∈ visits, ∃ row, Occupies d visit row ∧ MadeOf row (Phrase.line d visit).render) :
    ∃ rows, List.Forall₂ (Occupies d) visits rows ∧
      MadeOf rows.flatten (String.join ((visits.map (Phrase.line d)).map Line.render)) := by
  induction visits with
  | nil => exact ⟨[], .nil, .nil⟩
  | cons visit visits ih =>
    obtain ⟨⟨row, hoccupies, hrow⟩, hrest⟩ := List.forall_mem_cons.mp h
    obtain ⟨rows, hall, hrows⟩ := ih hrest
    refine ⟨row :: rows, .cons hoccupies hall, ?_⟩
    rw [List.map_cons, List.map_cons, String.join_cons]
    exact hrow.append hrows

theorem length_rows {d : Decoration} {visits : List (Nat × Phrase)} {rows : List (List (List Char))}
    (h : List.Forall₂ (Occupies d) visits rows)
    (hne : ∀ visit ∈ visits, ∀ tag, visit.2 ≠ .expr (.char tag "'\n'")) : ∀ row ∈ rows, row.length = 1 := by
  induction h with
  | nil => exact List.forall_mem_nil _
  | cons hrow _ ih =>
    obtain ⟨hfirst, hrest⟩ := List.forall_mem_cons.mp hne
    refine List.forall_mem_cons.mpr ⟨?_, ih hrest⟩
    cases hrow with
    | one => rfl
    | two => exact absurd rfl (hfirst _)

/-- For every text and whatever is shown next to the nodes, the lines of the printed tree are those of its
    phrases, in the order in which these are visited. A phrase has one line, which starts with two spaces for
    each level of its depth and with no more; only the literal of the line feed has two, and the second of
    these starts with its second quote. So there is one line for each phrase if the text has no such literal. -/
theorem Program.render_gives_lines (source : String) (links : Option Resolution) (types : Option Types) :
    ∃ r visits rows, Program.ofTokens (Token.ofString source) = .ok r ∧
      Visits 0 [.command r.program.command] visits ∧
      linesOf (r.program.render links types) = rows.flatten ++ [[]] ∧
      List.Forall₂ (Occupies ⟨links, types, r.program.sites⟩) visits rows ∧
      ((∀ t ∈ Token.ofString source, t.spelling ≠ "'\n'") → ∀ row ∈ rows, row.length = 1) := by
  obtain ⟨r, hr⟩ := Program.ofTokens_ofString source
  have hstems := Parser.stems_ofTokens hr
  have hsites : ∀ (id : NodeId) (site : Site), r.program.sites[id]? = some site → OneLine site.name := by
    intro id site hget
    obtain ⟨x, link, hx, hsite⟩ := Program.exists_of_mem_sites (Parser.counted_ofTokens hr) hget
    exact (hstems x hx).oneLine_site hsite
  obtain ⟨visits, hvisits, houtline⟩ := r.program.outline_eq links types
  have hinside : ∀ visit ∈ visits, Inside visit.2 [.command r.program.command] :=
    fun visit hvisit => hvisits.inside_iff.mpr ⟨visit.1, hvisit⟩
  obtain ⟨rows, hall, hrows⟩ := exists_rows (d := ⟨links, types, r.program.sites⟩)
    fun visit hvisit => (hstems visit.2 (hinside visit hvisit)).exists_row hsites visit.1
  refine ⟨r, visits, rows, hr, hvisits, ?_, hall, fun hnone => length_rows hall fun visit hvisit tag hx => ?_⟩
  · rw [Program.render, houtline]
    exact hrows.linesOf_eq
  · have hword : (Token.Kind.charLiteral, ⟨tag, "'\n'"⟩) ∈ visit.2.word? := by
      rw [hx]
      rfl
    exact hnone _ ((hstems visit.2 (hinside visit hvisit)).word _ hword) rfl

/-- The tree of a call has three phrases and three lines. -/
theorem Program.render_gives_lines_call :
    (∀ t ∈ Token.ofString "put('a')", t.spelling ≠ "'\n'") ∧
    ∃ r visits rows, Program.ofTokens (Token.ofString "put('a')") = .ok r ∧
      Visits 0 [.command r.program.command] visits ∧
      linesOf (r.program.render none none) = rows.flatten ++ [[]] ∧
      List.Forall₂ (Occupies ⟨none, none, r.program.sites⟩) visits rows ∧
      (∀ row ∈ rows, row.length = 1) ∧
      rows.flatten = ["call put (1:1)".toList, "  param (1:5)".toList, "    char 'a' (1:5)".toList] := by
  have htokens : Token.ofString "put('a')" = [⟨.identifier, "put", ⟨1, 1⟩⟩, ⟨.leftBracket, "(", ⟨1, 4⟩⟩,
      ⟨.charLiteral, "'a'", ⟨1, 5⟩⟩, ⟨.rightBracket, ")", ⟨1, 8⟩⟩, ⟨.endOfText, "", ⟨1, 9⟩⟩] := by
    decide +kernel
  have hnone : ∀ t ∈ Token.ofString "put('a')", t.spelling ≠ "'\n'" := by
    rw [htokens]
    decide
  have hlines : ((Program.ofTokens (Token.ofString "put('a')")).toOption.any fun r => decide
      (linesOf (r.program.render none none) = ["call put (1:1)".toList, "  param (1:5)".toList,
        "    char 'a' (1:5)".toList] ++ [[]])) = true := by
    decide +kernel
  obtain ⟨r, visits, rows, hr, hvisits, hrows, hall, hone⟩ := Program.render_gives_lines "put('a')" none none
  rw [hr] at hlines
  have hflatten := hrows.symm.trans (of_decide_eq_true hlines)
  exact ⟨hnone, r, visits, rows, hr, hvisits, hrows, hall, hone hnone, List.append_cancel_right hflatten⟩

/-- Not every phrase has a line of its own: of the three phrases of `put('⏎')` the literal has two. -/
theorem Program.render_splits_line_feed :
    ¬∀ (source : String) (links : Option Resolution) (types : Option Types) (r : Parser.Result),
      Program.ofTokens (Token.ofString source) = .ok r → ∃ visits lines,
        Visits 0 [.command r.program.command] visits ∧
        linesOf (r.program.render links types) = lines ++ [[]] ∧
        List.Forall₂ (fun visit line => Indented visit.1 line) visits lines := by
  intro hall
  have hcounts : ((Program.ofTokens (Token.ofString "put('\n')")).toOption.any fun r => decide
      ((r.program.outline none none).length = 3 ∧ (linesOf (r.program.render none none)).length = 5)) = true := by
    decide +kernel
  obtain ⟨r, hr⟩ := Program.ofTokens_ofString "put('\n')"
  obtain ⟨visits, lines, hvisits, hlines, hindented⟩ := hall _ none none r hr
  obtain ⟨visits', hvisits', houtline⟩ := r.program.outline_eq none none
  rw [hr] at hcounts
  obtain ⟨hphrases, hcount⟩ := of_decide_eq_true hcounts
  rw [houtline, List.length_map, ← hvisits.unique hvisits', hindented.length_eq] at hphrases
  rw [hlines, List.length_append, hphrases] at hcount
  cases hcount

end TriangleCompiler
