import TriangleCompiler.Proofs.Parser.Nodes
import TriangleCompiler.Proofs.Resolution.Links

/-! Which nodes get a link. The names that occur in a program are its identifiers and operators, each of
    them once; where nothing is reported the names that are used have links, and no other node has one. -/

namespace TriangleCompiler

open Resolution Scoping

/-- Whether a node is an identifier or an operator. -/
def NodeKind.isName : NodeKind → Bool
  | .identifier _ _ | .operator _ _ => true
  | _ => false

namespace Scoping

/-- The number of a name that is used. -/
def Occurrence.useId? : Occurrence → Option NodeId
  | use name _ => some name.id
  | declaration _ _ => none

/-- The numbers of the names that are used. -/
def useIds (os : List Occurrence) : List NodeId := os.filterMap Occurrence.useId?

theorem mem_useIds {os : List Occurrence} {id : NodeId} :
    id ∈ useIds os ↔ ∃ name scopes, .use name scopes ∈ os ∧ name.id = id := by
  rw [useIds, List.mem_filterMap]
  constructor
  · rintro ⟨o, ho, hid⟩
    cases o with
    | use name scopes => exact ⟨name, scopes, ho, Option.some.inj hid⟩
    | declaration => cases hid
  · rintro ⟨name, scopes, ho, rfl⟩
    exact ⟨_, ho, rfl⟩

theorem Occurrence.exists_target?_of_diagnostic? {name : Name} {scopes : List Declared}
    (h : (use name scopes).diagnostic? = none) : ∃ link, target? scopes name.spelling = some link := by
  rw [diagnostic?] at h
  split at h
  · cases h
  · rename_i hsome
    rwa [Option.isNone_iff_eq_none, ← ne_eq, Option.ne_none_iff_exists'] at hsome

end Scoping

/-! ### The identifiers and operators of a tree -/

/-- How often a number is that of an identifier or an operator. -/
abbrev nameCount : Array Node → NodeId → Nat := countNodes NodeKind.isName

section
variable (before : Array Node) (id : NodeId)

theorem nameCount_name (name : Name) : nameCount (before.push name.identifierNode) id =
    nameCount before id + if name.id == id then 1 else 0 := countNodes_push _ _ _ _

theorem nameCount_operator (name : Name) : nameCount (before.push name.operatorNode) id =
    nameCount before id + if name.id == id then 1 else 0 := countNodes_push _ _ _ _

theorem nameCount_other {n : Node} (h : n.kind.isName = false) :
    nameCount (before.push n) id = nameCount before id := by
  rw [nameCount, countNodes_push, h, Bool.false_and, if_neg Bool.false_ne_true, Nat.add_zero]

end

mutual

theorem Expr.nameCount_nodesAfter (scopes : List Declared) (before : Array Node) (id : NodeId) : (e : Expr) →
    nameCount (e.nodesAfter before) id = nameCount before id + (nameIds (e.occurrences scopes)).count id
  | .int _ _ | .char _ _ | .error _ => nameCount_other _ _ rfl
  | .name tag name => by
    rw [Expr.nodesAfter, nameCount_name, nameCount_other _ _ rfl]
    simp only [Expr.occurrences, nameIds_cons, nameIds_nil, Occurrence.id, List.count_cons, List.count_nil,
      Nat.zero_add]
  | .call tag callee argument => by
    rw [Expr.nodesAfter, argument.nameCount_nodesAfter scopes, nameCount_name, nameCount_other _ _ rfl]
    simp only [Expr.occurrences, nameIds_cons, Occurrence.id, List.count_cons]
    omega
  | .unary tag op operand => by
    rw [Expr.nodesAfter, operand.nameCount_nodesAfter scopes, nameCount_operator, nameCount_other _ _ rfl]
    simp only [Expr.occurrences, nameIds_cons, Occurrence.id, List.count_cons]
    omega
  | .binary tag op lhs rhs => by
    rw [Expr.nodesAfter, rhs.nameCount_nodesAfter scopes, lhs.nameCount_nodesAfter scopes,
      nameCount_operator, nameCount_other _ _ rfl]
    simp only [Expr.occurrences, nameIds_append, nameIds_cons, Occurrence.id, List.count_append,
      List.count_cons]
    omega

theorem Argument.nameCount_nodesAfter (scopes : List Declared) (before : Array Node) (id : NodeId) :
    (a : Argument) →
    nameCount (a.nodesAfter before) id = nameCount before id + (nameIds (a.occurrences scopes)).count id
  | .blank _ | .error _ => nameCount_other _ _ rfl
  | .value tag expr => by
    rw [Argument.nodesAfter, expr.nameCount_nodesAfter scopes, nameCount_other _ _ rfl, Argument.occurrences]
  | .var tag name => by
    rw [Argument.nodesAfter, nameCount_name, nameCount_other _ _ rfl]
    simp only [Argument.occurrences, nameIds_cons, nameIds_nil, Occurrence.id, List.count_cons,
      List.count_nil, Nat.zero_add]

end

theorem SingleDeclaration.nameCount_nodesAfter (outer : List Declared) (scope : Declared)
    (before : Array Node) (id : NodeId) (d : SingleDeclaration) : nameCount (d.nodesAfter before) id =
      nameCount before id + (nameIds (d.occurrences outer scope)).count id := by
  cases d with
  | const tag name value =>
    rw [SingleDeclaration.nodesAfter,
      value.nameCount_nodesAfter ((scope ++ [(name.spelling, .const tag.id)]) :: outer), nameCount_name,
      nameCount_other _ _ rfl]
    simp only [SingleDeclaration.occurrences, SingleDeclaration.declared, nameIds_cons, Occurrence.id,
      List.count_cons]
    omega
  | var tag name type =>
    rw [SingleDeclaration.nodesAfter, nameCount_name, nameCount_other _ _ rfl, nameCount_name,
      nameCount_other _ _ rfl]
    simp only [SingleDeclaration.occurrences, nameIds_cons, nameIds_nil, Occurrence.id, List.count_cons,
      List.count_nil]
    omega
  | error => rfl

theorem nameCount_declarations (outer : List Declared) (scope : Declared) (before : Array Node) (id : NodeId)
    (ds : List SingleDeclaration) : nameCount (ds.foldl SingleDeclaration.nodesAfter before) id =
      nameCount before id + (nameIds (declarationOccurrences outer scope ds)).count id := by
  induction ds generalizing scope before with
  | nil => rfl
  | cons d ds ih =>
    rw [List.foldl_cons, ih (scope ++ d.declared), d.nameCount_nodesAfter outer scope,
      declarationOccurrences, nameIds_append, List.count_append, Nat.add_assoc]

mutual

theorem Command.nameCount_nodesAfter (scopes : List Declared) (before : Array Node) (id : NodeId) :
    (c : Command) →
    nameCount (c.nodesAfter before) id = nameCount before id + (nameIds (c.occurrences scopes)).count id
  | .blank _ | .error _ => rfl
  | .assign _ target value => by
    rw [Command.nodesAfter, value.nameCount_nodesAfter scopes, nameCount_name]
    simp only [Command.occurrences, nameIds_append, nameIds_cons, nameIds_nil, Occurrence.id,
      List.count_append, List.count_cons, List.count_nil]
    omega
  | .call _ callee argument => by
    rw [Command.nodesAfter, argument.nameCount_nodesAfter scopes, nameCount_name]
    simp only [Command.occurrences, nameIds_append, nameIds_cons, nameIds_nil, Occurrence.id,
      List.count_append, List.count_cons, List.count_nil]
    omega
  | .ifThen _ condition body | .while_ _ condition body => by
    rw [Command.nodesAfter, body.nameCount_nodesAfter scopes, condition.nameCount_nodesAfter scopes,
      Command.occurrences, nameIds_append, List.count_append, Nat.add_assoc]
  | .ifElse _ condition positive negative => by
    rw [Command.nodesAfter, negative.nameCount_nodesAfter scopes, positive.nameCount_nodesAfter scopes,
      condition.nameCount_nodesAfter scopes, Command.occurrences, nameIds_append, nameIds_append,
      List.count_append, List.count_append, Nat.add_assoc, Nat.add_assoc]
  | .for_ _ counter first last body => by
    let inside := [(counter.name.spelling, .var counter.id)] :: scopes
    rw [Command.nodesAfter, body.nameCount_nodesAfter inside, last.nameCount_nodesAfter inside,
      first.nameCount_nodesAfter inside, nameCount_name, nameCount_other _ _ rfl]
    simp only [Command.occurrences, inside, nameIds_append, nameIds_cons, Occurrence.id, List.count_append,
      List.count_cons]
    omega
  | .let_ _ declaration body => by
    rw [Command.nodesAfter,
      body.nameCount_nodesAfter (declaration.parts.flatMap SingleDeclaration.declared :: scopes),
      nameCount_declarations scopes [], Command.occurrences, nameIds_append, List.count_append, Nat.add_assoc]
  | .sequential _ parts => nameCount_commands scopes before id parts

theorem nameCount_commands (scopes : List Declared) (before : Array Node) (id : NodeId) :
    (cs : List Command) → nameCount (nodesOfCommandsAfter before cs) id =
      nameCount before id + (nameIds (commandOccurrences scopes cs)).count id
  | [] => rfl
  | c :: rest => by
    rw [nodesOfCommandsAfter, nameCount_commands scopes, c.nameCount_nodesAfter scopes, commandOccurrences,
      nameIds_append, List.count_append, Nat.add_assoc]

end

/-- The identifiers and operators of a program are the names that occur in it. -/
theorem Program.mem_nameIds {p : Program} {id : NodeId} :
    id ∈ nameIds p.occurrences ↔ ∃ n ∈ p.nodes, n.kind.isName = true ∧ n.id = id := by
  have hcount := p.command.nameCount_nodesAfter [] #[] id
  rw [show nameCount #[] id = 0 from rfl, Nat.zero_add] at hcount
  rw [Program.occurrences, ← List.count_pos_iff, ← hcount, countNodes_pos]
  rfl

/-- If nothing is reported, the nodes with a link are the names that are used. -/
theorem Program.resolve_links_uses {p : Program} (hids : Parser.Counted p.command.ids 0 p.nodeCount) :
    ∃ s, p.resolve.finalState (.start p) = .ok s ∧
      (s.errors = #[] → ∀ id, (∃ link, s.links.get? id = some link) ↔ id ∈ useIds p.occurrences) := by
  obtain ⟨s, hok, herrors, hget⟩ := Program.resolve_eq hids
  have hevents : p.command.events .standard = eventsOf p.occurrences := p.command.events_eq mirrors_standard
  refine ⟨s, hok, fun hnone id => ?_⟩
  rw [hnone, hevents, diagnostics_eventsOf] at herrors
  simp only [hget, hevents, mem_bindings_eventsOf, mem_useIds]
  constructor
  · rintro ⟨link, o, ho, hid, hlink⟩
    cases o with
    | use name scopes => exact ⟨name, scopes, ho, hid⟩
    | declaration => cases hlink
  · rintro ⟨name, scopes, ho, hid⟩
    have hclean := List.filterMap_eq_nil_iff.mp herrors.symm _ ho
    obtain ⟨link, hlink⟩ := Occurrence.exists_target?_of_diagnostic? hclean
    exact ⟨link, _, ho, hid, hlink⟩

end TriangleCompiler
