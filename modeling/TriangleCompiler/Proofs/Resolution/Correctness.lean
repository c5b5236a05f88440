import Mathlib.Data.List.Nodup
import TriangleCompiler.Proofs.Resolution.Links

/-! The links of programs against lexical scoping: whatever tokens a program is read from, its names have
    the links that the declarations around them give, and what is reported is what is wrong with its
    names, in the order in which they are visited. -/

namespace TriangleCompiler

open Resolution Scoping

/-- A program is read from every list of tokens that ends with the end of the text, and its names are
    linked without a fault. Every scope that is opened on the way is closed again: behind the program the
    table of names is what it was before it. A name that is used has the link that lexical scoping gives
    it, or none; no other node has one, and no name where it is declared. The errors are those of the names
    that stand for nothing and of those that are declared once more, in their order. -/
theorem Program.resolve_links_lexically (tokens : List Token) (last : Token)
    (hlast : last.kind = .endOfText) : ∃ r s, Program.ofTokens (tokens ++ [last]) = .ok r ∧
      r.program.resolve.finalState (.start r.program) = .ok s ∧
      (∃ table, SymbolTable.ofBuiltins Builtin.all = .ok table ∧
        r.program.command.resolve ⟨table, .start r.program⟩ = .ok () ⟨table, s⟩) ∧
      (∀ name scopes, .use name scopes ∈ r.program.occurrences →
        s.links.get? name.id = target? scopes name.spelling) ∧
      (∀ id, s.links.get? id ≠ none →
        ∃ name scopes, .use name scopes ∈ r.program.occurrences ∧ name.id = id) ∧
      (∀ name scope, .declaration name scope ∈ r.program.occurrences → s.links.get? name.id = none) ∧
      s.errors.toList = r.program.occurrences.filterMap Occurrence.diagnostic? := by
  obtain ⟨r, hr, hids⟩ := Program.exists_ofTokens tokens last hlast
  obtain ⟨s, hs, herrors, hget⟩ := Program.resolve_eq hids
  have hevents : r.program.command.events .standard = eventsOf r.program.occurrences :=
    r.program.command.events_eq mirrors_standard
  have hlinked : ∀ id link, s.links.get? id = some link ↔
      ∃ o ∈ r.program.occurrences, o.id = id ∧ o.link? = some link := by
    intro id link
    rw [hget, hevents]
    exact mem_bindings_eventsOf
  have hnames : (nameIds r.program.occurrences).Nodup :=
    Within.nodup (r.program.command.within_occurrences []) hids.nodup
  have hlink : ∀ o ∈ r.program.occurrences, s.links.get? o.id = o.link? := by
    intro o ho
    refine Option.ext fun link => ⟨fun hsome => ?_, fun hsome => (hlinked _ _).mpr ⟨o, ho, rfl, hsome⟩⟩
    -- the link is one of this occurrence, as every name occurs once
    obtain ⟨o', ho', hid, hlink⟩ := (hlinked _ _).mp hsome
    rwa [List.inj_on_of_nodup_map hnames ho' ho hid] at hlink
  refine ⟨r, s, hr, hs, ⟨.standard, SymbolTable.ofBuiltins_all, r.program.resolve_restores hs⟩,
    fun name scopes => hlink _, fun id hne => ?_, fun name scope => hlink _, ?_⟩
  · obtain ⟨link, hsome⟩ := Option.ne_none_iff_exists'.mp hne
    obtain ⟨o, ho, hid, ho'⟩ := (hlinked _ _).mp hsome
    cases o with
    | use name scopes => exact ⟨name, scopes, ho, hid⟩
    | declaration => cases ho'
  · rw [herrors, hevents, diagnostics_eventsOf]

/-- The tokens of `let const x ~ x; var x : Char in for x := x to y do putint(x) next`: the constant is in
    sight in its own value, the second `x` is not declared, the variable of the loop is in sight in its
    bounds and hides the constant, and `y` stands for nothing. -/
theorem Program.resolve_links_shadowed :
    let token (k : Token.Kind) (spelling : String) (column : Int) : Token := ⟨k, spelling, ⟨1, column⟩⟩
    let tokens := [token (.keyword .let_) "let" 1, token (.keyword .const) "const" 5, token .identifier "x" 11,
      token .tilde "~" 13, token .identifier "x" 15, token .semicolon ";" 16, token (.keyword .var) "var" 18,
      token .identifier "x" 22, token .colon ":" 24, token .identifier "Char" 26, token (.keyword .in_) "in" 31,
      token (.keyword .for_) "for" 34, token .identifier "x" 38, token .becomes ":=" 40,
      token .identifier "x" 43, token (.keyword .to_) "to" 45, token .identifier "y" 48,
      token (.keyword .do_) "do" 50, token .identifier "putint" 53, token .leftBracket "(" 59,
      token .identifier "x" 60, token .rightBracket ")" 61, token (.keyword .next) "next" 63]
    let last := token .endOfText "" 67
    let links : List (NodeId × Option Link) := [(2, some (.const 0)), (7, some (.builtin .charType)),
      (10, some (.var 9)), (12, none), (14, some (.builtin .putint)), (16, some (.var 9))]
    let errors : Diagnostics :=
      [⟨⟨1, 22⟩, .scope (.duplicateDeclaration "x")⟩, ⟨⟨1, 48⟩, .scope (.undeclared "y")⟩]
    last.kind = .endOfText ∧ ∃ r s, Program.ofTokens (tokens ++ [last]) = .ok r ∧
      r.program.resolve.finalState (.start r.program) = .ok s ∧
      (∀ p ∈ links, s.links.get? p.1 = p.2) ∧ s.errors.toList = errors := by
  intro token tokens last links errors
  obtain ⟨r, s, hr, hs, -, huse, -, hdeclared, herrors⟩ := Program.resolve_links_lexically tokens last rfl
  have hlink : ∀ o ∈ r.program.occurrences, s.links.get? o.id = o.link? := by
    intro o ho
    cases o with
    | use name scopes => exact huse name scopes ho
    | declaration name scope => exact hdeclared name scope ho
  have hrun : ((Program.ofTokens (tokens ++ [last])).toOption.any fun r => decide
      ((∀ p ∈ links, ∃ o ∈ r.program.occurrences, o.id = p.1 ∧ o.link? = p.2) ∧
        r.program.occurrences.filterMap Occurrence.diagnostic? = errors)) = true := by
    decide +kernel
  rw [hr] at hrun
  obtain ⟨hlinks, hdiagnostics⟩ := of_decide_eq_true hrun
  refine ⟨rfl, r, s, hr, hs, fun p hp => ?_, herrors.trans hdiagnostics⟩
  obtain ⟨o, ho, hid, hlink'⟩ := hlinks p hp
  rw [← hid, hlink o ho, hlink']

end TriangleCompiler
