import TriangleCompiler.Proofs.Parser.Nodes
import TriangleCompiler.Proofs.Typing.Correctness

/-! Programs with mistakes. Whatever the tokens are, the nodes of the tree that is read from them have
    different numbers; this alone keeps the two passes behind it from a fault. Both write at most once into
    the place of a node, and the check asks no more of the links than to be looked up in. -/

namespace TriangleCompiler

/-- Only nodes of the program have a value. -/
def NodeTable.BelongsTo {α : Type} (t : NodeTable α) (p : Program) : Prop :=
  ∀ id, t.get? id ≠ none → ∃ n ∈ p.nodes, n.id = id

theorem Program.exists_node {p : Program} {id : NodeId} (h : id ∈ p.command.ids) : ∃ n ∈ p.nodes, n.id = id :=
  List.mem_map.mp (p.nodes_perm.mem_iff.mpr h)

open Resolution Scoping in
/-- The names of any tree whose nodes have different numbers are resolved. -/
theorem Program.resolve_tolerates {p : Program} (hids : Parser.Counted p.command.ids 0 p.nodeCount) :
    ∃ s, p.resolve.finalState (.start p) = .ok s ∧ Reports .resolve #[] s.errors ∧ s.links.BelongsTo p := by
  obtain ⟨s, hok, herrors, hget⟩ := Program.resolve_eq hids
  refine ⟨s, hok, ⟨_, herrors, fun d => stage_diagnostics⟩, fun id hid => ?_⟩
  obtain ⟨target, htarget⟩ := Option.ne_none_iff_exists'.mp hid
  have hbound : (id, target) ∈ bindings (eventsOf p.occurrences) :=
    p.command.events_eq mirrors_standard ▸ (hget id target).mp htarget
  obtain ⟨o, ho, rfl, -⟩ := mem_bindings_eventsOf.mp hbound
  exact Program.exists_node ((p.command.within_occurrences []).mem (List.mem_map_of_mem ho))

open Typing in
/-- Such a tree is checked, with any links. -/
theorem Program.check_tolerates {p : Program} (hids : Parser.Counted p.command.ids 0 p.nodeCount)
    (links : Resolution) : ∃ t, (p.check links).finalState (.start p) = .ok t ∧
      Reports .check #[] t.errors ∧ t.types.BelongsTo p := by
  have hfree : (NodeTable.empty p.nodeCount : Types).Free p.command.ids :=
    NodeTable.free_empty fun id hid => hids.lt hid
  obtain ⟨_, t, hok, hgrows, hreports, -⟩ :=
    judges_command links p.command (s := .start p) hids.nodup hfree
  refine ⟨t, by rw [Program.check, Pass.finalState, hok], hreports, fun id hid => ?_⟩
  refine Program.exists_node (Decidable.byContradiction fun hnode => hid ?_)
  rw [hgrows.frame id hnode]
  exact NodeTable.get?_empty _ _

/-- Any tokens with the end of the text behind them make up a program whose names are resolved, and which
    is checked with its own links or any others: nothing comes of this but reports, and decorations of the
    program's own nodes. -/
theorem Program.passes_tolerate_mistakes (tokens : List Token) (last : Token)
    (hlast : last.kind = .endOfText) :
    ∃ r s, Program.ofTokens (tokens ++ [last]) = .ok r ∧
      r.program.resolve.finalState (.start r.program) = .ok s ∧
      Reports .resolve #[] s.errors ∧ s.links.BelongsTo r.program ∧
      ∀ links : Resolution, ∃ t, (r.program.check links).finalState (.start r.program) = .ok t ∧
        Reports .check #[] t.errors ∧ t.types.BelongsTo r.program := by
  obtain ⟨r, hr, hids⟩ := Program.exists_ofTokens tokens last hlast
  obtain ⟨s, hs, hreports, hlinks⟩ := Program.resolve_tolerates hids
  exact ⟨r, s, hr, hs, hreports, hlinks, Program.check_tolerates hids⟩

/-- The tokens of `begin x; y := 1; p(z) end (`: no command begins with `x;` and nothing may follow the
    last `end`, nothing is declared, and the links are those to a constant of some other program. -/
theorem Program.passes_tolerate_unreadable_command :
    let token (k : Token.Kind) (spelling : String) : Token := ⟨k, spelling, ⟨1, 1⟩⟩
    let tokens := [token (.keyword .begin_) "begin", token .identifier "x", token .semicolon ";",
      token .identifier "y", token .becomes ":=", token .intLiteral "1", token .semicolon ";",
      token .identifier "p", token .leftBracket "(", token .identifier "z", token .rightBracket ")",
      token (.keyword .end_) "end", token .leftBracket "("]
    let foreign : Resolution := ⟨Array.replicate 40 (some (.const 1000))⟩
    ∃ r s t, Program.ofTokens (tokens ++ [token .endOfText ""]) = .ok r ∧ r.findings ≠ [] ∧
      r.program.resolve.finalState (.start r.program) = .ok s ∧ s.errors ≠ #[] ∧
      Reports .resolve #[] s.errors ∧
      (r.program.check foreign).finalState (.start r.program) = .ok t ∧ t.errors ≠ #[] ∧
      Reports .check #[] t.errors := by
  intro token tokens foreign
  have hrun : ((Program.ofTokens (tokens ++ [token .endOfText ""])).toOption.any fun r =>
      !r.findings.isEmpty &&
      ((r.program.resolve.finalState (.start r.program)).toOption.any fun s => !s.errors.isEmpty) &&
      ((r.program.check foreign).finalState (.start r.program)).toOption.any fun t =>
        !t.errors.isEmpty) = true := by
    decide +kernel
  obtain ⟨r, s, hr, hs, hreports, -, hcheck⟩ :=
    Program.passes_tolerate_mistakes tokens (token .endOfText "") rfl
  obtain ⟨t, ht, htypes, -⟩ := hcheck foreign
  rw [hr] at hrun
  simp only [Except.toOption, Option.any_some, hs, ht, Bool.and_eq_true, Bool.not_eq_true',
    List.isEmpty_eq_false_iff] at hrun
  obtain ⟨⟨hfindings, herrors⟩, hchecked⟩ := hrun
  exact ⟨r, s, t, hr, hfindings, hs, by simpa using herrors, hreports, ht, by simpa using hchecked, htypes⟩

end TriangleCompiler
