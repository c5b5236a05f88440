import TriangleCompiler.Proofs.Outline.Printing
import TriangleCompiler.Proofs.Resolution.Binders

/-! The declarations that a printed tree can refer to. They are collected on a way of their own through the
    tree; what is found there are the declarations in the tree, all of them, and each under its own number. -/

namespace TriangleCompiler

open Outline

/-- What a phrase declares, and what is shown where it is referred to. -/
def Phrase.site? : Phrase → Option (Link × Site)
  | .declaration (.const tag name _) => some (.const tag.id, ⟨name.spelling, tag.position⟩)
  | .declaration (.var tag name _) => some (.var tag.id, ⟨name.spelling, tag.position⟩)
  | .counter i => some (.var i.id, ⟨i.name.spelling, i.name.position⟩)
  | _ => none

namespace Outline

/-- What is noted of declarations under the numbers of their nodes. -/
def entries (sites : List (Link × Site)) : List (NodeId × Site) :=
  sites.flatMap fun s => s.1.nodes.map (·, s.2)

theorem entries_append (sites sites' : List (Link × Site)) :
    entries (sites ++ sites') = entries sites ++ entries sites' := List.flatMap_append

theorem mem_entries {sites : List (Link × Site)} {id : NodeId} {site : Site} :
    (id, site) ∈ entries sites ↔ ∃ link, (link, site) ∈ sites ∧ id ∈ link.nodes := by
  simp only [entries, List.mem_flatMap, List.mem_map, Prod.mk.injEq, Prod.exists]
  constructor
  · rintro ⟨link, _, hmem, _, hid, rfl, rfl⟩
    exact ⟨link, hmem, hid⟩
  · rintro ⟨link, hmem, hid⟩
    exact ⟨link, site, hmem, id, hid, rfl, rfl⟩

/-- The sites with those of further declarations, one after the other. -/
def insertAll (t : Sites) (es : List (NodeId × Site)) : Sites :=
  es.foldl (fun t e => t.insert e.1 e.2) t

theorem insertAll_append (t : Sites) (es es' : List (NodeId × Site)) :
    insertAll t (es ++ es') = insertAll (insertAll t es) es' := List.foldl_append

theorem getElem?_insert_site (t : Sites) (id : NodeId) (site : Site) (id' : NodeId) :
    (t.insert id site)[id']? = if id' = id then some site else t[id']? := by
  simp only [Std.TreeMap.getElem?_insert, Std.LawfulEqCmp.compare_eq_iff_eq, eq_comm (a := id)]

/-- Sites under numbers of their own are found again. -/
theorem getElem?_insertAll {es : List (NodeId × Site)} (hnodup : (es.map Prod.fst).Nodup) {t : Sites}
    (hnew : ∀ e ∈ es, t[e.1]? = none) {id : NodeId} {site : Site} :
    (insertAll t es)[id]? = some site ↔ (id, site) ∈ es ∨ t[id]? = some site := by
  induction es generalizing t with
  | nil => simp [insertAll]
  | cons e es ih =>
    obtain ⟨he, hnodup⟩ := List.nodup_cons.mp hnodup
    have hrest : ∀ e' ∈ es, (t.insert e.1 e.2)[e'.1]? = none := by
      intro e' he'
      have hne : e'.1 ≠ e.1 := fun hsame => he (hsame ▸ List.mem_map_of_mem he')
      rw [getElem?_insert_site, if_neg hne]
      exact hnew e' (List.mem_cons_of_mem e he')
    show (insertAll (t.insert e.1 e.2) es)[id]? = some site ↔ _
    rw [ih hnodup hrest, getElem?_insert_site, List.mem_cons]
    by_cases hid : id = e.1
    · subst hid
      have hmem : (e.1, site) ∉ es := fun h => he (List.mem_map.mpr ⟨_, h, rfl⟩)
      simp [hmem, hnew e List.mem_cons_self, Prod.ext_iff, eq_comm]
    · have hne : (id, site) ≠ e := by
        rintro rfl
        exact hid rfl
      simp [hid, hne]

end Outline

namespace Phrase

/-- What is noted on the way through these phrases and all below them. -/
structure Declares (xs : List Phrase) (binders : List Binder) (collect : Sites → Sites)
    (sites : List (Link × Site)) : Prop where
  mem_iff : ∀ s, s ∈ sites ↔ ∃ x, Inside x xs ∧ x.site? = some s
  binders_eq : sites.map (fun s => (s.1, s.2.name)) = binders.map fun b => (b.link, b.name.spelling)
  collect_eq : ∀ t, collect t = insertAll t (entries sites)

/-- What is noted are the declarations, and these are the binders. -/
def Collects (xs : List Phrase) (binders : List Binder) (collect : Sites → Sites) : Prop :=
  ∃ sites, Declares xs binders collect sites

namespace Collects
variable {x : Phrase} {xs ys : List Phrase} {b : Binder} {bs cs : List Binder}
  {f g : Sites → Sites}

theorem nil : Collects [] [] id := by
  refine ⟨[], fun s => ?_, rfl, fun t => rfl⟩
  simp only [List.not_mem_nil, inside_nil, false_and, exists_false]

theorem append (hf : Collects xs bs f) (hg : Collects ys cs g) :
    Collects (xs ++ ys) (bs ++ cs) fun t => g (f t) := by
  obtain ⟨sites, hf⟩ := hf
  obtain ⟨sites', hg⟩ := hg
  refine ⟨sites ++ sites', fun s => ?_, ?_, fun t => ?_⟩
  · simp only [List.mem_append, hf.mem_iff, hg.mem_iff, inside_append, or_and_right, exists_or]
  · rw [List.map_append, List.map_append, hf.binders_eq, hg.binders_eq]
  · rw [hf.collect_eq, hg.collect_eq, entries_append, insertAll_append]

theorem node (hx : x.site? = none) (hf : Collects x.children bs f) (hg : ∀ t, g t = f t) : Collects [x] bs g := by
  obtain ⟨sites, hf⟩ := hf
  refine ⟨sites, fun s => ?_, hf.binders_eq, fun t => (hg t).trans (hf.collect_eq t)⟩
  simp only [hf.mem_iff, inside_cons, inside_nil, or_false, or_and_right, exists_or, exists_eq_left, hx,
    reduceCtorEq, false_or]

/-- A declaration is noted before those in it. -/
theorem declaration {position : Position} (hx : x.site? = some (b.link, ⟨b.name.spelling, position⟩))
    (hf : Collects x.children bs f)
    (hg : ∀ t, g t = f (insertAll t (entries [(b.link, ⟨b.name.spelling, position⟩)]))) :
    Collects [x] (b :: bs) g := by
  obtain ⟨sites, hf⟩ := hf
  refine ⟨(b.link, ⟨b.name.spelling, position⟩) :: sites, fun s => ?_, ?_, fun t => ?_⟩
  · simp only [List.mem_cons, hf.mem_iff, inside_cons, inside_nil, or_false, or_and_right, exists_or,
      exists_eq_left, hx, Option.some.injEq, @eq_comm _ s]
  · rw [List.map_cons, List.map_cons, hf.binders_eq]
  · rw [hg, hf.collect_eq, ← insertAll_append, ← entries_append]
    rfl

end Collects

end Phrase

open Phrase (Collects Inside)

mutual

theorem Expr.collects : ∀ e : Expr, Collects [.expr e] [] id
  | .int _ _ | .char _ _ | .name _ _ | .error _ => .node rfl .nil fun _ => rfl
  | .call _ _ argument => .node rfl argument.collects fun _ => rfl
  | .unary _ _ operand => .node rfl operand.collects fun _ => rfl
  | .binary _ _ lhs rhs => .node rfl (lhs.collects.append rhs.collects) fun _ => rfl

theorem Argument.collects : ∀ a : Argument, Collects [.argument a] [] id
  | .blank _ | .error _ | .var _ _ => .node rfl .nil fun _ => rfl
  | .value _ expr => .node rfl expr.collects fun _ => rfl

end

theorem SingleDeclaration.collects (d : SingleDeclaration) :
    Collects [.declaration d] d.binders fun t => d.sitesAfter t := by
  cases d with
  | const _ _ value => exact .declaration rfl value.collects fun _ => rfl
  | var _ _ type =>
    have htype : Collects [.type type] [] id := .node rfl .nil fun _ => rfl
    exact .declaration rfl htype fun _ => rfl
  | error => exact .node rfl .nil fun _ => rfl

theorem collects_declarations (parts : List SingleDeclaration) :
    Collects (parts.map .declaration) (parts.flatMap SingleDeclaration.binders)
      fun t => parts.foldl SingleDeclaration.sitesAfter t := by
  induction parts with
  | nil => exact .nil
  | cons part parts ih => exact part.collects.append ih

theorem Declaration.collects (d : Declaration) :
    Collects [d.phrase] (d.parts.flatMap SingleDeclaration.binders)
      fun t => d.parts.foldl SingleDeclaration.sitesAfter t := by
  cases d with
  | single declaration => exact collects_declarations [declaration]
  | sequential _ parts => exact .node rfl (collects_declarations parts) fun _ => rfl

mutual

theorem Command.collects : ∀ c : Command, Collects [.command c] c.binders fun t => c.sitesAfter t
  | .assign _ target value =>
    have htarget : Collects [.target target] [] id := .node rfl .nil fun _ => rfl
    .node rfl (htarget.append value.collects) fun _ => rfl
  | .blank _ | .error _ => .node rfl .nil fun _ => rfl
  | .call _ _ argument => .node rfl argument.collects fun _ => rfl
  | .ifThen _ condition body | .while_ _ condition body =>
    .node rfl (condition.collects.append body.collects) fun _ => rfl
  | .ifElse _ condition positive negative =>
    .node rfl (condition.collects.append (positive.collects.append negative.collects)) fun _ => rfl
  | .for_ _ counter first last body =>
    have hcounter : Collects [.counter counter] [.var counter.name counter.id] _ :=
      .declaration rfl .nil fun _ => rfl
    .node rfl (hcounter.append (first.collects.append (last.collects.append body.collects))) fun _ => rfl
  | .let_ _ declaration body => .node rfl (declaration.collects.append body.collects) fun _ => rfl
  | .sequential _ parts => .node rfl (collects_commands parts) fun _ => rfl

theorem collects_commands : ∀ parts : List Command,
    Collects (parts.map .command) (commandBinders parts) fun t => sitesOfCommandsAfter t parts
  | [] => .nil
  | c :: rest => c.collects.append (collects_commands rest)

end

/-! ### What is found under a number -/

theorem nodes_sublist (bs : List Binder) : (bs.flatMap (·.link.nodes)).Sublist (binderIds bs) := by
  induction bs with
  | nil => exact .slnil
  | cons b bs ih =>
    rw [List.flatMap_cons, binderIds_cons]
    exact (List.sublist_cons_self b.name.id b.link.nodes).append ih

namespace Program
variable {p : Program}

theorem exists_sites (hids : Parser.Counted p.command.ids 0 p.nodeCount) : ∃ sites : List (Link × Site),
    (∀ s, s ∈ sites ↔ ∃ x, Inside x [.command p.command] ∧ x.site? = some s) ∧
    sites.map (fun s => (s.1, s.2.name)) = p.binders.map (fun b => (b.link, b.name.spelling)) ∧
    ∀ id site, p.sites[id]? = some site ↔ ∃ link, (link, site) ∈ sites ∧ id ∈ link.nodes := by
  obtain ⟨sites, hsites⟩ := p.command.collects
  refine ⟨sites, hsites.mem_iff, hsites.binders_eq, fun id site => ?_⟩
  have hlinks : sites.map Prod.fst = p.binders.map Binder.link := by
    have heq := congrArg (List.map Prod.fst) hsites.binders_eq
    rwa [List.map_map, List.map_map] at heq
  have hnodes : (entries sites).map Prod.fst = p.binders.flatMap (·.link.nodes) := by
    have heq := congrArg (List.flatMap Link.nodes) hlinks
    rw [List.flatMap_map, List.flatMap_map] at heq
    rw [← heq, entries, List.map_flatMap]
    simp only [List.map_map, Function.comp_def, List.map_id']
  have hwithin := p.command.within_binders
  have hnodup : ((entries sites).map Prod.fst).Nodup :=
    hnodes ▸ (nodes_sublist p.binders).nodup (hwithin.nodup hids.nodup)
  rw [Program.sites, hsites.collect_eq, getElem?_insertAll hnodup (by simp), mem_entries]
  simp

/-- What is found is a declaration in the tree. -/
theorem exists_of_mem_sites (hids : Parser.Counted p.command.ids 0 p.nodeCount) {id : NodeId} {site : Site}
    (h : p.sites[id]? = some site) : ∃ x link, Inside x [.command p.command] ∧ x.site? = some (link, site) := by
  obtain ⟨sites, hmem, -, hget⟩ := exists_sites hids
  obtain ⟨link, hsite, -⟩ := (hget id site).mp h
  obtain ⟨x, hx, hxsite⟩ := (hmem (link, site)).mp hsite
  exact ⟨x, link, hx, hxsite⟩

/-- Every declaration is found, under its name. -/
theorem exists_site_of_binder (hids : Parser.Counted p.command.ids 0 p.nodeCount) {b : Binder}
    (hb : b ∈ p.binders) : ∃ x position, Inside x [.command p.command] ∧
      x.site? = some (b.link, ⟨b.name.spelling, position⟩) ∧
      ∀ id ∈ b.link.nodes, p.sites[id]? = some ⟨b.name.spelling, position⟩ := by
  obtain ⟨sites, hmem, hbinders, hget⟩ := exists_sites hids
  have hpair : (b.link, b.name.spelling) ∈ sites.map fun s => (s.1, s.2.name) :=
    hbinders ▸ List.mem_map_of_mem hb
  obtain ⟨⟨link, name, position⟩, hsite, heq⟩ := List.mem_map.mp hpair
  obtain ⟨rfl, rfl⟩ := Prod.mk.inj heq
  obtain ⟨x, hx, hxsite⟩ := (hmem _).mp hsite
  exact ⟨x, position, hx, hxsite, fun id hid => (hget id _).mpr ⟨_, hsite, hid⟩⟩

end Program

end TriangleCompiler
