import TriangleCompiler.Proofs.Compilation.Independence
import TriangleCompiler.Proofs.Resolution.Renaming
import TriangleCompiler.Proofs.Token.Respelling

/-! Renaming a declaration. The new name is written into the text of the program where the declaration is
    made and where it is used, and nowhere else; if the name is new to the text it is compiled to the same
    code. -/

namespace TriangleCompiler

open Machine (Code)
open Lexical (Lexeme)
open Scoping (Linked Replaces)

/-- The new name at these places, and the old ones at all others. -/
def Rewording.renameAt (places : List Position) (new : String) : Rewording :=
  ⟨id, fun position spelling => if position ∈ places then new else spelling, rfl⟩

/-- The spelling of a token after identifiers at these places were renamed. -/
def Token.renameAt (places : List Position) (new : String) (t : Token) : String :=
  if t.kind = .identifier ∧ t.position ∈ places then new else t.spelling

/-- The places where a declaration is named: its own, and those of the names that are linked to it. -/
def Program.placesOf (p : Program) (links : Resolution) (b : Binder) : List Position :=
  (p.names.filter fun entry => entry.2.StandsFor links b).map fun entry => entry.2.position

namespace Compilation

/-! ### Compilations without an error -/

/-- Every stage ends without an error, and this is what they lead to. -/
structure Succeeds (tokens : List Token) (p : Program) (links : Resolution) (types : Types) (code : Code) :
    Prop where
  scanned : Token.diagnostics tokens = []
  parsed : Program.ofTokens tokens = .ok ⟨p, []⟩
  resolved : p.resolve.finalState (.start p) = .ok ⟨links, #[]⟩
  checked : (p.check links).finalState (.start p) = .ok ⟨types, #[]⟩
  generated : ∃ s, (p.generate ⟨links, types⟩).finalState (.start p .empty) = .ok s ∧ s.code = code ∧
    s.errors = #[]

variable {tokens : List Token} {p : Program} {links : Resolution} {types : Types} {code : Code}

/-- A stage without an error was entered without one. -/
theorem unlessFailed_eq_ok {stage : Compilation → Except Fault Compilation} {c c' : Compilation}
    (h : unlessFailed stage c = .ok c') (hnil : c'.errors = []) : c.errors = [] ∧ stage c = .ok c' := by
  by_cases herrors : c.errors = []
  · exact ⟨herrors, (unlessFailed_of_nil herrors stage).symm.trans h⟩
  · rw [unlessFailed_of_ne herrors] at h
    cases h
    exact absurd hnil herrors

theorem unlessFailed_bind {stage rest : Compilation → Except Fault Compilation} {c c' : Compilation}
    (hnil : c.errors = []) (h : stage c = .ok c') : unlessFailed stage c >>= rest = rest c' := by
  rw [unlessFailed_of_nil hnil, h]
  rfl

theorem bind_eq_ok {α : Type} {x : Except Fault α} {rest : α → Except Fault Compilation} {c : Compilation}
    (h : x >>= rest = .ok c) : ∃ a, x = .ok a ∧ rest a = .ok c := by
  cases x with
  | error fault => cases h
  | ok a => exact ⟨a, rfl, h⟩

theorem Succeeds.ofTokens_eq (h : Succeeds tokens p links types code) :
    ofTokens tokens = .ok ⟨tokens, some p, some links, some types, some code, []⟩ := by
  obtain ⟨s, hfinal, rfl, herrors⟩ := h.generated
  have hparse : parse ⟨tokens, none, none, none, none, []⟩ = .ok ⟨tokens, some p, none, none, none, []⟩ := by
    simp only [parse, h.parsed]
    rfl
  have hresolve : resolve ⟨tokens, some p, none, none, none, []⟩ =
      .ok ⟨tokens, some p, some links, none, none, []⟩ := by
    simp only [resolve, h.resolved]
    rfl
  have hcheck : check ⟨tokens, some p, some links, none, none, []⟩ =
      .ok ⟨tokens, some p, some links, some types, none, []⟩ := by
    simp only [check, h.checked]
    rfl
  have hgenerate : generate ⟨tokens, some p, some links, some types, none, []⟩ =
      .ok ⟨tokens, some p, some links, some types, some s.code, []⟩ := by
    simp only [generate, hfinal]
    exact congrArg (fun errors => Except.ok (Compilation.mk tokens _ _ _ _ errors.toList)) herrors
  unfold ofTokens
  rw [h.scanned, unlessFailed_bind rfl hparse, unlessFailed_bind rfl hresolve, unlessFailed_bind rfl hcheck,
    unlessFailed_of_nil rfl, hgenerate]

theorem of_parse_eq_ok {c : Compilation} (h : parse ⟨tokens, none, none, none, none, []⟩ = .ok c)
    (hnil : c.errors = []) : ∃ p, c = ⟨tokens, some p, none, none, none, []⟩ ∧
      Program.ofTokens tokens = .ok ⟨p, []⟩ := by
  obtain ⟨⟨p, findings⟩, hparsed, hc⟩ := bind_eq_ok h
  cases hc
  obtain rfl : findings = [] := List.map_eq_nil_iff.mp hnil
  exact ⟨p, rfl, hparsed⟩

theorem of_resolve_eq_ok {c : Compilation} (h : resolve ⟨tokens, some p, none, none, none, []⟩ = .ok c)
    (hnil : c.errors = []) : ∃ links, c = ⟨tokens, some p, some links, none, none, []⟩ ∧
      p.resolve.finalState (.start p) = .ok ⟨links, #[]⟩ := by
  obtain ⟨⟨links, errors⟩, hfinal, hc⟩ := bind_eq_ok h
  cases hc
  obtain rfl : errors = #[] := Array.toList_eq_nil_iff.mp hnil
  exact ⟨links, rfl, hfinal⟩

theorem of_check_eq_ok {c : Compilation} (h : check ⟨tokens, some p, some links, none, none, []⟩ = .ok c)
    (hnil : c.errors = []) : ∃ types, c = ⟨tokens, some p, some links, some types, none, []⟩ ∧
      (p.check links).finalState (.start p) = .ok ⟨types, #[]⟩ := by
  obtain ⟨⟨types, errors⟩, hfinal, hc⟩ := bind_eq_ok h
  cases hc
  obtain rfl : errors = #[] := Array.toList_eq_nil_iff.mp hnil
  exact ⟨types, rfl, hfinal⟩

theorem of_generate_eq_ok {c : Compilation}
    (h : generate ⟨tokens, some p, some links, some types, none, []⟩ = .ok c) (hnil : c.errors = []) :
    ∃ s, c = ⟨tokens, some p, some links, some types, some s.code, []⟩ ∧
      (p.generate ⟨links, types⟩).finalState (.start p .empty) = .ok s ∧ s.errors = #[] := by
  obtain ⟨s, hfinal, hc⟩ := bind_eq_ok h
  cases hc
  have herrors : s.errors = #[] := Array.toList_eq_nil_iff.mp hnil
  exact ⟨s, congrArg (fun errors => Compilation.mk tokens _ _ _ _ errors.toList) herrors, hfinal, herrors⟩

theorem succeeds_of_result {c : Compilation} (h : ofTokens tokens = .ok c) (hresult : c.result = .ok code) :
    ∃ p links types, c = ⟨tokens, some p, some links, some types, some code, []⟩ ∧
      Succeeds tokens p links types code := by
  have hend : c.code = some code ∧ c.errors = [] := by
    unfold result at hresult
    split at hresult
    · split at hresult
      · cases hresult
        exact ⟨‹_›, List.isEmpty_iff.mp ‹_›⟩
      · cases hresult
    · cases hresult
  obtain ⟨c₁, h₁, h⟩ := bind_eq_ok h
  obtain ⟨c₂, h₂, h⟩ := bind_eq_ok h
  obtain ⟨c₃, h₃, h⟩ := bind_eq_ok h
  -- the stages from the last to the first: each of them was entered
  obtain ⟨hnil₃, hgenerate⟩ := unlessFailed_eq_ok h hend.2
  obtain ⟨hnil₂, hcheck⟩ := unlessFailed_eq_ok h₃ hnil₃
  obtain ⟨hnil₁, hresolve⟩ := unlessFailed_eq_ok h₂ hnil₂
  obtain ⟨hscanned, hparse⟩ := unlessFailed_eq_ok h₁ hnil₁
  have hscanned : Token.diagnostics tokens = [] := hscanned
  rw [hscanned] at hparse
  -- and from the first to the last: what each of them found
  obtain ⟨p, rfl, hparsed⟩ := of_parse_eq_ok hparse hnil₁
  obtain ⟨links, rfl, hresolved⟩ := of_resolve_eq_ok hresolve hnil₂
  obtain ⟨types, rfl, hchecked⟩ := of_check_eq_ok hcheck hnil₃
  obtain ⟨s, rfl, hfinal, herrors⟩ := of_generate_eq_ok hgenerate hend.2
  cases hend.1
  exact ⟨p, links, types, rfl, hscanned, hparsed, hresolved, hchecked, s, hfinal, rfl, herrors⟩

/-- Tokens in other words are compiled to the same code if their names keep their links. -/
theorem Succeeds.reword (h : Succeeds tokens p links types code) (w : Rewording)
    (hresolve : (p.reword w).resolve = p.resolve) :
    Succeeds (tokens.map (·.reword w)) (p.reword w) links types code where
  scanned := by
    have hrestates := restates_diagnostics w tokens
    rw [h.scanned] at hrestates
    exact List.forall₂_nil_left_iff.mp hrestates
  parsed := by
    rw [Program.ofTokens_reword, h.parsed]
    rfl
  resolved := by
    rw [hresolve]
    exact h.resolved
  checked := by
    obtain ⟨s, t, hs, ht, hst⟩ | ⟨fault, hs, -⟩ :=
      (p.follows_check w links).finalState (Typing.Reworded.start w p)
    · cases hs.symm.trans h.checked
      obtain ⟨types', errors⟩ := t
      obtain rfl : types' = types := hst.types_eq
      obtain rfl : errors = #[] := Array.toList_eq_nil_iff.mp (List.forall₂_nil_left_iff.mp hst.errors)
      exact ht
    · cases hs.symm.trans h.checked
  generated := by
    obtain ⟨s₀, hs₀, hcode, herrors⟩ := h.generated
    obtain ⟨s, t, hs, ht, hst⟩ | ⟨fault, hs, -⟩ :=
      (p.follows_generate w ⟨links, types⟩).finalState (Generation.Reworded.start w p .empty)
    · cases hs.symm.trans hs₀
      refine ⟨t, ht, ?_, ?_⟩
      · rw [hst]
        exact hcode
      · rw [hst, Generation.State.reword, herrors, Array.map_empty]
    · cases hs.symm.trans hs₀

/-! ### The places of names -/

section Places
variable {source new : String} {b : Binder} (h : Succeeds (Token.ofString source) p links types code)
include h

theorem Succeeds.linked : Linked p links :=
  Program.linked_of_resolve (Parser.counted_ofTokens h.parsed) h.resolved rfl

theorem Succeeds.token_mem {entry : Token.Kind × Name} (hentry : entry ∈ p.names) :
    Name.token entry ∈ Token.ofString source :=
  (Parser.names_ofTokens h.parsed).subset (List.mem_map_of_mem hentry)

/-- No two tokens of a text are at the same place, so a name is known by its place. -/
theorem Succeeds.eq_of_position {entry entry' : Token.Kind × Name} (hentry : entry ∈ p.names)
    (hentry' : entry' ∈ p.names) (hposition : entry.2.position = entry'.2.position) : entry = entry' := by
  have hsub := (Parser.names_ofTokens h.parsed).map Token.position
  rw [List.map_map] at hsub
  exact List.inj_on_of_nodup_map (hsub.nodup (Token.nodup_positions source)) hentry hentry' hposition

theorem Succeeds.mem_placesOf {entry : Token.Kind × Name} (hentry : entry ∈ p.names) :
    entry.2.position ∈ p.placesOf links b ↔ entry.2.StandsFor links b := by
  rw [Program.placesOf, List.mem_map]
  constructor
  · rintro ⟨entry', hmem, hposition⟩
    obtain ⟨hentry', hstands⟩ := List.mem_filter.mp hmem
    rw [h.eq_of_position hentry hentry' hposition.symm]
    exact of_decide_eq_true hstands
  · intro hstands
    exact ⟨entry, List.mem_filter.mpr ⟨hentry, decide_eq_true hstands⟩, rfl⟩

/-- The rewording replaces exactly the names that stand for the declaration. -/
theorem Succeeds.replaces : Replaces (.renameAt (p.placesOf links b) new) p links b new := by
  intro entry hentry
  simp only [Name.reword, Rewording.renameAt, h.mem_placesOf hentry]

theorem Succeeds.name_ne (hnew : ∀ t ∈ Token.ofString source, t.spelling ≠ new) :
    ∀ entry ∈ p.names, entry.2.spelling ≠ new :=
  fun _ hentry => hnew _ (h.token_mem hentry)

variable (hb : b ∈ p.binders) (hnew : ∀ t ∈ Token.ofString source, t.spelling ≠ new)
include hb hnew

/-- What stands at the places of a declaration is an identifier. -/
theorem Succeeds.kind_of_mem_placesOf {t : Token} (ht : t ∈ Token.ofString source)
    (hposition : t.position ∈ p.placesOf links b) : t.kind ≠ .operator := by
  obtain ⟨entry, hmem, hentry⟩ := List.mem_map.mp hposition
  obtain ⟨hmem, hstands⟩ := List.mem_filter.mp hmem
  have htoken : Name.token entry = t :=
    List.inj_on_of_nodup_map (Token.nodup_positions source) (h.token_mem hmem) ht hentry
  have hspelling : entry.2.spelling = b.name.spelling :=
    h.linked.spelling_eq hb (h.name_ne hnew) hmem (of_decide_eq_true hstands)
  -- the declaration is read from an identifier of the same spelling
  obtain ⟨scope, ho⟩ := p.command.exists_declaration [] hb
  have hdeclared := h.token_mem ((p.command.occur []).among _ ho)
  intro hkind
  refine Token.spelling_ne hdeclared ht rfl hkind ?_
  rw [← htoken]
  exact hspelling.symm

/-- Renaming in the text and renaming in the tokens come to the same words. -/
theorem Succeeds.words_renameAt (hname : Lexeme .identifier new.toList []) :
    Token.words (Token.ofString (Token.respellAll (Token.renameAt (p.placesOf links b) new) source)) =
      Token.words ((Token.ofString source).map (·.reword (.renameAt (p.placesOf links b) new))) := by
  have hrenames : Lexical.Renames (Token.renameAt (p.placesOf links b) new) := by
    intro t
    unfold Token.renameAt
    split
    · exact Or.inl ⟨(‹_ ∧ _› : _ ∧ _).1, hname⟩
    · exact Or.inr rfl
  have hkinds : ∀ t ∈ Token.ofString source, t.kind.isError = false := by
    intro t ht
    have hnone := List.filterMap_eq_nil_iff.mp h.scanned t ht
    rw [Option.map_eq_none_iff, Token.lexicalError?] at hnone
    cases hkind : t.kind with
    | unknownInput | unacceptableSequence => simp [hkind] at hnone
    | _ => rfl
  have hwords := Token.ofString_respellAll hrenames hkinds
  rw [Token.words, hwords, Token.words, List.map_map]
  refine List.map_congr_left fun t ht => congrArg (Prod.mk t.kind) ?_
  simp only [Token.renameAt, Token.reword, Rewording.renameAt]
  by_cases hplace : t.position ∈ p.placesOf links b
  · have hoperator := h.kind_of_mem_placesOf hb hnew ht hplace
    cases hkind : t.kind with
    | operator => exact absurd hkind hoperator
    | identifier => simp [hplace, Token.Kind.isName]
    | _ => simp [Token.Kind.isName]
  · simp [hplace]

end Places

/-- A declaration of a program that is compiled without an error may be renamed: if the new name is an
    identifier that the text does not have yet, and the text gets it where the declaration is made and where
    it is used, then this text is compiled without an error as well. Its tree is the renamed one, its nodes
    have the same links and the same types, and its code is the same. It does not matter whether there is
    something of the new name in the standard environment. -/
theorem run_renames_declaration {source new : String} {c : Compilation} {code : Code} {p : Program}
    {links : Resolution} {b : Binder} (hrun : run source = .ok c) (hresult : c.result = .ok code)
    (hp : c.program = some p) (hlinks : c.resolution = some links) (hb : b ∈ p.binders)
    (hname : Lexeme .identifier new.toList []) (hnew : ∀ t ∈ c.tokens, t.spelling ≠ new) :
    ∃ c' p', run (Token.respellAll (Token.renameAt (p.placesOf links b) new) source) = .ok c' ∧
      c'.result = .ok code ∧ c'.program = some p' ∧ c'.resolution = some links ∧ c'.types = c.types ∧
      p'.reword .unplaced = (p.reword (.renameAt (p.placesOf links b) new)).reword .unplaced ∧
      p'.names.map (fun entry => (entry.2.id, entry.2.spelling)) =
        p.names.map fun entry =>
          (entry.2.id, if entry.2.StandsFor links b then new else entry.2.spelling) := by
  obtain ⟨p, links, types, rfl, h⟩ := succeeds_of_result (run_eq_ofTokens source ▸ hrun) hresult
  cases hp
  cases hlinks
  have hreplaces := @Succeeds.replaces p links types code source new b h
  have hresolve := h.linked.resolve_reword hb (h.name_ne hnew) hreplaces
  have hrenamed := (h.reword _ hresolve).ofTokens_eq
  obtain ⟨c', c₀, hrun', hleft, hright⟩ := alike_of_words (h.words_renameAt hb hnew hname).symm hrenamed
  have hprogram := hright.program_eq.symm.trans hleft.program_eq
  obtain ⟨p', hp', htree⟩ := Option.map_eq_some_iff.mp hprogram
  have hcode : c'.code = some code := hright.code_eq.symm.trans hleft.code_eq
  have hnil : c'.errors = [] := by
    have hcauses := hright.causes_eq Rewording.keeps_unplaced
    rw [hleft.causes_eq Rewording.keeps_unplaced] at hcauses
    exact List.map_eq_nil_iff.mp hcauses.symm
  have hlinks : c'.resolution = some links := hright.resolution_eq.symm.trans hleft.resolution_eq
  have htypes : c'.types = some types := hright.types_eq.symm.trans hleft.types_eq
  refine ⟨c', p', hrun', result_of_code hcode hnil, hp', hlinks, htypes, htree, ?_⟩
  · have hunplaced : ∀ names : List (Token.Kind × Name),
        (names.map (Name.rewordEntry .unplaced)).map (fun entry => (entry.2.id, entry.2.spelling)) =
          names.map fun entry => (entry.2.id, entry.2.spelling) := by
      intro names
      rw [List.map_map]
      rfl
    have hnames := congrArg (fun p => p.names.map fun entry => (entry.2.id, entry.2.spelling)) htree
    simp only [Program.names_reword, hunplaced, List.map_map] at hnames
    rw [hnames]
    exact List.map_congr_left fun entry hentry => congrArg (Prod.mk entry.2.id) (hreplaces entry hentry)

/-- The variable of a loop, which hides a variable of the same name and is in sight in its own bounds. -/
theorem run_renames_loop_variable :
    let source := "let var x: Integer in begin x := 1; for x := x to 9 do putint(x) next; putint(x) end"
    let renamed := "let var x: Integer in begin x := 1; for i := i to 9 do putint(i) next; putint(x) end"
    ∃ c p links b code, run source = .ok c ∧ c.result = .ok code ∧ c.program = some p ∧
      c.resolution = some links ∧ b ∈ p.binders ∧ Lexeme .identifier "i".toList [] ∧
      (∀ t ∈ c.tokens, t.spelling ≠ "i") ∧
      Token.respellAll (Token.renameAt (p.placesOf links b) "i") source = renamed ∧
      ∃ c', run renamed = .ok c' ∧ c'.result = .ok code ∧ c'.resolution = some links := by
  intro source renamed
  have hcheck : ((run source).toOption.any fun c => c.result.toOption.isSome &&
      c.tokens.all (fun t => t.spelling != "i") && c.program.any fun p => c.resolution.any fun links =>
        p.binders[1]?.any fun b =>
          Token.respellAll (Token.renameAt (p.placesOf links b) "i") source == renamed) = true := by
    decide +kernel
  have hname : Lexeme .identifier "i".toList [] := by
    have hletter : Lexical.Letter 'i' := by decide
    have hkeywords : ∀ word : Keyword, word.spelling.toList ≠ ['i'] := by
      intro word
      cases word <;> decide
    exact .identifier hletter (List.forall_mem_nil _) (fun _ h => by cases h) hkeywords
  obtain ⟨c, hrun, -⟩ := run_ends source
  rw [hrun] at hcheck
  simp only [Except.toOption, Option.any_some, Bool.and_eq_true] at hcheck
  obtain ⟨⟨hsome, hall⟩, hcheck⟩ := hcheck
  obtain ⟨p, hp, hcheck⟩ := (Option.any_eq_true _ _).mp hcheck
  obtain ⟨links, hlinks, hcheck⟩ := (Option.any_eq_true _ _).mp hcheck
  obtain ⟨b, hb, hcheck⟩ := (Option.any_eq_true _ _).mp hcheck
  have hmem := List.mem_of_getElem? hb
  have hrenamed := eq_of_beq hcheck
  have hnew : ∀ t ∈ c.tokens, t.spelling ≠ "i" := by simpa using hall
  cases hresult : c.result with
  | error errors => simp [hresult] at hsome
  | ok code =>
    obtain ⟨c', -, hrun', hresult', -, hlinks', -⟩ :=
      run_renames_declaration hrun hresult hp hlinks hmem hname hnew
    rw [hrenamed] at hrun'
    exact ⟨c, p, links, b, code, hrun, hresult, hp, hlinks, hmem, hname, hnew, hrenamed, c', hrun', hresult',
      hlinks'⟩

end Compilation

end TriangleCompiler
