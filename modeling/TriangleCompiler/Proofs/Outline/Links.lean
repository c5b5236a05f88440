import TriangleCompiler.Proofs.Compilation.Stages
import TriangleCompiler.Proofs.Outline.Sites
import TriangleCompiler.Proofs.Resolution.Renaming
import TriangleCompiler.Proofs.Resolution.WriteOnce

/-! The links in printed trees. What a name is linked to is a declaration of the same name in the same tree,
    and the printer knows all of these; so every link is shown by a name and a place, in trees with errors as
    well. -/

namespace TriangleCompiler

open Outline Scoping
open Phrase (Visits Inside)

/-! ### The uses of names -/

namespace Phrase

/-- The names that these phrases use, and those below them, are the ones that occur as used. -/
structure Uses (xs : List Phrase) (os : List Occurrence) : Prop where
  used_iff : ∀ name, (∃ x, Inside x xs ∧ x.use? = some name) ↔ ∃ scopes, .use name scopes ∈ os

namespace Uses
variable {x : Phrase} {xs ys : List Phrase} {os os' : List Occurrence}

theorem nil : Uses [] [] := by
  refine ⟨fun name => ?_⟩
  simp only [inside_nil, List.not_mem_nil, false_and, exists_false]

theorem append (h : Uses xs os) (h' : Uses ys os') : Uses (xs ++ ys) (os ++ os') := by
  refine ⟨fun name => ?_⟩
  simp only [inside_append, or_and_right, exists_or, h.used_iff, h'.used_iff, List.mem_append]

theorem perm (h : Uses xs os) (hperm : os.Perm os') : Uses xs os' := by
  refine ⟨fun name => ?_⟩
  simp only [h.used_iff, hperm.mem_iff]

theorem node (hx : x.use? = none) (h : Uses x.children os) : Uses [x] os := by
  refine ⟨fun name => ?_⟩
  simp only [inside_cons, inside_nil, or_false, or_and_right, exists_or, exists_eq_left, hx, reduceCtorEq,
    false_or, h.used_iff]

theorem use {name : Name} {scopes : List Declared} (hx : x.use? = some name) (h : Uses x.children os) :
    Uses [x] (.use name scopes :: os) := by
  refine ⟨fun other => ?_⟩
  simp only [inside_cons, inside_nil, or_false, or_and_right, exists_or, exists_eq_left, hx, Option.some.injEq,
    h.used_iff, List.mem_cons, Occurrence.use.injEq, exists_and_left, exists_eq, and_true, @eq_comm _ other]

theorem declaration {name : Name} {scope : Declared} (h : Uses xs os) :
    Uses xs (.declaration name scope :: os) := by
  refine ⟨fun other => ?_⟩
  simp only [h.used_iff, List.mem_cons, reduceCtorEq, false_or]

end Uses

end Phrase

open Phrase (Uses)

mutual

theorem Expr.uses (scopes : List Declared) : ∀ e : Expr, Uses [.expr e] (e.occurrences scopes)
  | .int _ _ | .char _ _ | .error _ => by
    rw [Expr.occurrences]
    exact .node rfl .nil
  | .name _ _ => by
    rw [Expr.occurrences]
    exact .use rfl .nil
  | .call _ _ argument => by
    rw [Expr.occurrences]
    exact .use rfl (argument.uses scopes)
  | .unary _ _ operand => by
    rw [Expr.occurrences]
    exact .use rfl (operand.uses scopes)
  | .binary _ _ lhs rhs => by
    rw [Expr.occurrences]
    exact .perm (.use rfl ((lhs.uses scopes).append (rhs.uses scopes))) List.perm_middle.symm

theorem Argument.uses (scopes : List Declared) : ∀ a : Argument, Uses [.argument a] (a.occurrences scopes)
  | .blank _ | .error _ => by
    rw [Argument.occurrences]
    exact .node rfl .nil
  | .value _ expr => by
    rw [Argument.occurrences]
    exact .node rfl (expr.uses scopes)
  | .var _ _ => by
    rw [Argument.occurrences]
    exact .use rfl .nil

end

theorem SingleDeclaration.uses (outer : List Declared) (scope : Declared) (d : SingleDeclaration) :
    Uses [.declaration d] (d.occurrences outer scope) := by
  cases d with
  | const _ _ value => exact .declaration (.node rfl (value.uses _))
  | var => exact .declaration (.node rfl (.use rfl .nil))
  | error => exact .node rfl .nil

theorem uses_declarations (outer : List Declared) (scope : Declared) (ds : List SingleDeclaration) :
    Uses (ds.map .declaration) (declarationOccurrences outer scope ds) := by
  induction ds generalizing scope with
  | nil => exact .nil
  | cons d ds ih => exact (d.uses outer scope).append (ih _)

theorem Declaration.uses (outer : List Declared) (d : Declaration) :
    Uses [d.phrase] (declarationOccurrences outer [] d.parts) := by
  cases d with
  | single declaration => exact uses_declarations outer [] [declaration]
  | sequential _ parts => exact .node rfl (uses_declarations outer [] parts)

mutual

theorem Command.uses (scopes : List Declared) : ∀ c : Command, Uses [.command c] (c.occurrences scopes)
  | .assign _ target value => by
    rw [Command.occurrences]
    have htarget : Uses [.target target] [.use target scopes] := .use rfl .nil
    exact .perm (.node rfl (htarget.append (value.uses scopes))) List.perm_append_comm
  | .blank _ | .error _ => by
    rw [Command.occurrences]
    exact .node rfl .nil
  | .call _ _ argument => by
    rw [Command.occurrences]
    exact .perm (.use rfl (argument.uses scopes)) (List.perm_append_singleton _ _).symm
  | .ifThen _ condition body | .while_ _ condition body => by
    rw [Command.occurrences]
    exact .node rfl ((condition.uses scopes).append (body.uses scopes))
  | .ifElse _ condition positive negative => by
    rw [Command.occurrences]
    exact .node rfl ((condition.uses scopes).append ((positive.uses scopes).append (negative.uses scopes)))
  | .for_ _ counter first last body => by
    rw [Command.occurrences]
    have hcounter : Uses [.counter counter] [.declaration counter.name []] := .declaration (.node rfl .nil)
    exact .node rfl (hcounter.append ((first.uses _).append ((last.uses _).append (body.uses _))))
  | .let_ _ declaration body => by
    rw [Command.occurrences]
    exact .node rfl ((declaration.uses scopes).append (body.uses _))
  | .sequential _ parts => by
    rw [Command.occurrences]
    exact .node rfl (uses_commands scopes parts)

theorem uses_commands (scopes : List Declared) :
    ∀ cs : List Command, Uses (cs.map .command) (commandOccurrences scopes cs)
  | [] => by
    rw [commandOccurrences]
    exact .nil
  | c :: rest => by
    rw [commandOccurrences]
    exact (c.uses scopes).append (uses_commands scopes rest)

end

/-! ### What a use is linked to -/

/-- What a scope in sight has under a name is declared under it somewhere in the program. -/
theorem Program.allSee_binders (p : Program) :
    AllSee (fun scope => ∀ entry ∈ scope, ∃ b ∈ p.binders, entry = (b.name.spelling, b.link)) p.occurrences := by
  refine p.command.allSee (List.forall_mem_nil _) (List.forall_mem_nil _) ?_
  intro b scope hb _ hscope
  refine List.forall_mem_append.mpr ⟨hscope, ?_⟩
  exact List.forall_mem_singleton.mpr ⟨b, hb, rfl⟩

theorem Scoping.exists_binder_of_target? {bs : List Binder} {scopes : List Declared} {spelling : String}
    {link : Link} (h : target? scopes spelling = some link) (hnodes : link.nodes ≠ [])
    (hscopes : ∀ scope ∈ scopes, ∀ entry ∈ scope, ∃ b ∈ bs, entry = (b.name.spelling, b.link)) :
    ∃ b ∈ bs, b.name.spelling = spelling ∧ b.link = link := by
  induction scopes with
  | nil => exact absurd h (target?_nil_ne hnodes spelling)
  | cons scope scopes ih =>
    obtain ⟨hscope, hrest⟩ := List.forall_mem_cons.mp hscopes
    rw [target?_cons] at h
    rcases Option.or_eq_some_iff.mp h with hlookup | ⟨-, h⟩
    · obtain ⟨b, hb, heq⟩ := hscope _ (mem_of_lookup hlookup)
      obtain ⟨rfl, rfl⟩ := Prod.mk.inj heq
      exact ⟨b, hb, rfl, rfl⟩
    · exact ih h hrest

namespace Outline

/-- What is printed where a name is linked: an arrow to a name of the standard environment, or to a
    declaration in the program's own tree that has the name of the use. -/
inductive Refers (p : Program) (used : Name) : Link → String → Prop where
  | builtin (b : Builtin) : Refers p used (.builtin b) (" -> builtin " ++ b.name)
  | const {tag : Tag} {name : Name} {value : Expr} :
      Inside (.declaration (.const tag name value)) [.command p.command] → name.spelling = used.spelling →
      Refers p used (.const tag.id) (" -> const " ++ used.spelling ++ "@" ++ tag.position.text)
  | var {tag : Tag} {name : Name} {type : TypeDenoter} :
      Inside (.declaration (.var tag name type)) [.command p.command] → name.spelling = used.spelling →
      Refers p used (.var tag.id) (" -> var " ++ used.spelling ++ "@" ++ tag.position.text)
  | counter {i : LoopVariable} : Inside (.counter i) [.command p.command] → i.name.spelling = used.spelling →
      Refers p used (.var i.id) (" -> var " ++ used.spelling ++ "@" ++ i.name.position.text)

/-- What stands behind the label of a phrase for the links of a program. -/
structure Arrow (p : Program) (links : Resolution) (x : Phrase) (arrow : String) : Prop where
  linked : ∀ name link, x.use? = some name → links.get? name.id = some link → Refers p name link arrow
  unlinked : (∀ name, x.use? = some name → links.get? name.id = none) → arrow = ""

theorem Decoration.siteText_eq {d : Decoration} {id : NodeId} {site : Site} (h : d.sites[id]? = some site)
    (word : String) : word ++ d.siteText id = word ++ " " ++ site.name ++ "@" ++ site.position.text := by
  rw [siteText, h]
  simp only [toString, String.append_assoc]

/-- A declaration that is known under its number is shown by its name and its place. -/
theorem refers_of_site {p : Program} {used : Name} {x : Phrase} {link : Link} {site : Site} {d : Decoration}
    (hx : Inside x [.command p.command]) (hsite : x.site? = some (link, site))
    (hname : site.name = used.spelling) (hget : ∀ id ∈ link.nodes, d.sites[id]? = some site)
    (hlink : d.links.bind (·.get? used.id) = some link) : Refers p used link (d.link used.id) := by
  rw [Decoration.link, hlink]
  unfold Phrase.site? at hsite
  split at hsite
  all_goals cases hsite
  all_goals
    dsimp only
    rw [Decoration.siteText_eq (hget _ List.mem_cons_self), hname]
  · exact .const hx hname
  · exact .var hx hname
  · exact .counter hx hname

/-- The links of a program are printed as what they are, and nothing is printed where there is none. -/
theorem arrow_link {p : Program} (hids : Parser.Counted p.command.ids 0 p.nodeCount) {links : Resolution}
    (hlinks : ∀ id link, links.get? id = some link → ∃ o ∈ p.occurrences, o.id = id ∧ o.link? = some link)
    (types : Option Types) {x : Phrase} (hx : Inside x [.command p.command]) :
    Arrow p links x (x.use?.elim "" ((⟨some links, types, p.sites⟩ : Decoration).link ·.id)) := by
  refine ⟨fun name link huse hget => ?_, fun hnone => ?_⟩
  · obtain ⟨o, ho, hid, htarget⟩ := hlinks name.id link hget
    obtain ⟨scopes, hmem⟩ := ((p.command.uses []).used_iff name).mp ⟨x, hx, huse⟩
    -- every name occurs once, so the occurrence that has the link is this use
    obtain rfl := List.inj_on_of_nodup_map ((p.command.within_occurrences []).nodup hids.nodup) ho hmem hid
    rw [huse]
    cases link with
    | builtin b =>
      simp only [Option.elim_some, Decoration.link, Option.bind_some, hget]
      exact .builtin b
    | const | var =>
      obtain ⟨b, hb, hname, hlink⟩ :=
        exists_binder_of_target? htarget (List.cons_ne_nil _ _) (p.allSee_binders _ hmem)
      obtain ⟨y, position, hy, hsite, hsites⟩ := Program.exists_site_of_binder hids hb
      rw [hlink] at hsite hsites
      exact refers_of_site hy hsite hname hsites hget
  · cases huse : x.use? with
    | none => rfl
    | some name => simp only [Option.elim_some, Decoration.link, Option.bind_some, hnone name huse]

end Outline

/-- For every text, with or without errors, and with the links that its own names get: the lines of the
    printed tree are those of its phrases, and a phrase that uses a name which is linked shows the link
    behind its label, a declaration of the program by `const` or `var`, by the very name that is used and by
    the place of the declaration, which is one in the same tree. Every link there is belongs to the name that
    one of the phrases uses, so every link is shown. -/
theorem Program.render_names_links (source : String) : ∃ r s,
    Program.ofTokens (Token.ofString source) = .ok r ∧ r.program.resolve (.start r.program) = .ok () s ∧
    ∀ types : Option Types, ∃ visits lines, Visits 0 [.command r.program.command] visits ∧
      r.program.render (some s.links) types = String.join (lines.map Line.render) ∧
      List.Forall₂ (fun visit line => line.depth = visit.1 ∧ ∃ arrow, Arrow r.program s.links visit.2 arrow ∧
        line.text = visit.2.label ++ arrow ++ visit.2.typeText ⟨some s.links, types, r.program.sites⟩)
        visits lines ∧
      ∀ id link, s.links.get? id = some link →
        ∃ visit ∈ visits, ∃ name, visit.2.use? = some name ∧ name.id = id := by
  obtain ⟨r, hr⟩ := Program.ofTokens_ofString source
  have hids := Parser.counted_ofTokens hr
  obtain ⟨s, hs, -, hget⟩ := Program.resolve_start hids
  refine ⟨r, s, hr, hs, fun types => ?_⟩
  obtain ⟨visits, hvisits, houtline⟩ := r.program.outline_eq (some s.links) types
  refine ⟨visits, visits.map (Phrase.line _), hvisits, by rw [Program.render, houtline], ?_, ?_⟩
  · rw [List.forall₂_map_right_iff, List.forall₂_same]
    intro visit hvisit
    have hx := hvisits.inside_iff.mpr ⟨visit.1, hvisit⟩
    exact ⟨rfl, _, arrow_link hids (fun id link => (hget id link).mp) types hx, rfl⟩
  · intro id link hlink
    obtain ⟨o, ho, rfl, htarget⟩ := (hget id link).mp hlink
    cases o with
    | use name scopes =>
      obtain ⟨x, hx, huse⟩ := ((r.program.command.uses []).used_iff name).mpr ⟨scopes, ho⟩
      obtain ⟨depth, hvisit⟩ := hvisits.inside_iff.mp hx
      exact ⟨(depth, x), hvisit, name, huse, rfl⟩
    | declaration => cases htarget

/-- The bounds of a loop are linked to a constant, and its body to the variable of the loop. -/
theorem Program.render_names_links_loop :
    let source := "let const n ~ 1 in for i := n to n do put(i) next"
    let printed := String.join [
      "let (1:1)\n",
      "  const n (1:5)\n",
      "    int 1 (1:15)\n",
      "  for (1:20)\n",
      "    var i (1:24)\n",
      "    ident n (1:29) -> const n@1:5\n",
      "    ident n (1:34) -> const n@1:5\n",
      "    call put (1:39) -> builtin put\n",
      "      param (1:43)\n",
      "        ident i (1:43) -> var i@1:24\n"]
    ∃ r s, Program.ofTokens (Token.ofString source) = .ok r ∧ r.program.resolve (.start r.program) = .ok () s ∧
      r.program.render (some s.links) none = printed ∧
      ∃ visits lines, Visits 0 [.command r.program.command] visits ∧
        printed = String.join (lines.map Line.render) ∧
        List.Forall₂ (fun visit line => line.depth = visit.1 ∧ ∃ arrow, Arrow r.program s.links visit.2 arrow ∧
          line.text = visit.2.label ++ arrow ++ visit.2.typeText ⟨some s.links, none, r.program.sites⟩)
          visits lines := by
  intro source printed
  obtain ⟨r, s, hr, hs, hshown⟩ := Program.render_names_links source
  obtain ⟨visits, lines, hvisits, hrender, hlines, -⟩ := hshown none
  have hrun : ((Program.ofTokens (Token.ofString source)).toOption.bind fun r =>
      (r.program.resolve.finalState (.start r.program)).toOption.map fun s =>
        r.program.render (some s.links) none) = some printed := by
    decide +kernel
  rw [hr] at hrun
  simp only [Except.toOption, Option.bind_some, Pass.finalState, hs] at hrun
  have hprinted := Option.some.inj hrun
  exact ⟨r, s, hr, hs, hprinted, visits, lines, hvisits, hprinted ▸ hrender, hlines⟩

end TriangleCompiler
