import TriangleCompiler.Proofs.Compilation.Stages
import TriangleCompiler.Proofs.Generation.TypedCode
import TriangleCompiler.Proofs.Resolution.Uses

/-! The decorations of a program that is read, resolved and checked without an error. The names that are
    used have links and no other node has one. The nodes that stand for a value have types and no other
    node has one: these are all nodes but the names themselves and the blank arguments. -/

namespace TriangleCompiler

/-- Whether a node is an expression. -/
def NodeKind.isExpr : NodeKind → Bool
  | .binary _ | .unary _ | .char _ _ | .int _ _ | .name _ | .call _ | .error _ => true
  | _ => false

/-- Whether a node is an expression, an argument that is not blank, a type that is named or something that
    is declared. -/
def NodeKind.isTyped : NodeKind → Bool
  | .argument _ | .varArgument _ | .errorArgument _ | .type | .const _ | .var _ | .loopVariable => true
  | kind => kind.isExpr

theorem NodeKind.isTyped_of_isExpr {kind : NodeKind} (h : kind.isExpr = true) : kind.isTyped = true := by
  cases kind <;> first | rfl | exact h

namespace Typing

/-- How often a number is that of a node which is to have a type. -/
abbrev typedCount : Array Node → NodeId → Nat := countNodes NodeKind.isTyped

/-- Every declaration has a type whose values take a word. -/
def Environment.Valued (Γ : Environment) : Prop := ∀ link type, Γ link = some type → type.size = 1

theorem Environment.Valued.declare {Γ : Environment} {link : Link} {type : SimpleType} (h : Γ.Valued)
    (htype : type.size = 1) : (Γ.declare link type).Valued := by
  intro link' type' h'
  unfold Environment.declare at h'
  split at h'
  · cases h'
    exact htype
  · exact h link' type' h'

/-- The decoration has an entry for each node that a phrase adds and that is to have a type, and for no
    other; the values of its types take a word. -/
structure Decorates (ds : Decoration) (nodesAfter : Array Node → Array Node) : Prop where
  counted : ∀ before id, typedCount (nodesAfter before) id =
    typedCount before id + (ds.map Prod.fst).count id
  valued : ∀ d ∈ ds, d.2.size = 1

namespace Decorates
variable {ds ds' : Decoration} {f g : Array Node → Array Node} {n : Node} {type : SimpleType}

theorem nil : Decorates [] id := ⟨fun _ _ => rfl, fun _ h => nomatch h⟩

theorem append (hf : Decorates ds f) (hg : Decorates ds' g) :
    Decorates (ds ++ ds') fun before => g (f before) where
  counted before id := by
    rw [hg.counted, hf.counted, List.map_append, List.count_append, Nat.add_assoc]
  valued := List.forall_mem_append.mpr ⟨hf.valued, hg.valued⟩

/-- A node that is to have no type stands in front of a phrase. -/
theorem skip (hf : Decorates ds f) (hn : n.kind.isTyped = false) :
    Decorates ds fun before => f (before.push n) where
  counted before id := by
    rw [hf.counted, typedCount, countNodes_push, hn, Bool.false_and, if_neg Bool.false_ne_true, Nat.add_zero]
  valued := hf.valued

/-- A node that is to have a type stands in front of a phrase, whose nodes get their types first. -/
theorem node (hf : Decorates ds f) (hn : n.kind.isTyped = true) (htype : type.size = 1) :
    Decorates (ds ++ [(n.id, type)]) fun before => f (before.push n) where
  counted before id := by
    rw [hf.counted, typedCount, countNodes_push, hn, Bool.true_and, List.map_append, List.count_append,
      List.map_singleton, List.count_singleton, Nat.add_right_comm, Nat.add_assoc]
  valued := List.forall_mem_append.mpr ⟨hf.valued, List.forall_mem_singleton.mpr htype⟩

theorem perm (hf : Decorates ds f) (h : ds.Perm ds') : Decorates ds' f where
  counted before id := by rw [hf.counted, (h.map Prod.fst).count_eq]
  valued d hd := hf.valued d (h.mem_iff.mpr hd)

end Decorates

variable {links : Resolution} {Γ : Environment}

mutual

theorem HasType.decorates (hΓ : Γ.Valued) {e : Expr} {type : SimpleType} {ds : Decoration} :
    HasType links Γ e type ds → type.size = 1 ∧ Decorates ds fun before => e.nodesAfter before
  | .int _ _ _ => ⟨rfl, Decorates.nil.node (n := ⟨_, .int _ _⟩) rfl rfl⟩
  | .char _ => ⟨rfl, Decorates.nil.node (n := ⟨_, .char _ _⟩) rfl rfl⟩
  | .truth _ hkind => by
    have hsize : _ = _ := size_valueType hkind (by simp)
    exact ⟨hsize, (Decorates.nil.skip rfl).node (n := ⟨_, .name _⟩) rfl hsize⟩
  | .declared _ htype => by
    have hsize := hΓ _ _ htype
    exact ⟨hsize, (Decorates.nil.skip rfl).node (n := ⟨_, .name _⟩) rfl hsize⟩
  | .call _ hkind hresult ha => by
    have hsize := size_valueType hkind (by simp [hresult])
    exact ⟨hsize, ((ha.decorates hΓ).skip rfl).node (n := ⟨_, .call _⟩) rfl hsize⟩
  | .unary _ hkind h => by
    have hsize := size_valueType hkind (by simp)
    exact ⟨hsize, ((h.decorates hΓ).2.skip rfl).node (n := ⟨_, .unary _⟩) rfl hsize⟩
  | .binary _ hkind h₁ h₂ => by
    obtain ⟨p, l, r, hkind⟩ := hkind.exists_primitive
    have hsize := size_valueType hkind (by simp)
    rw [← List.append_assoc]
    refine ⟨hsize, ?_⟩
    exact (((h₁.decorates hΓ).2.append (h₂.decorates hΓ).2).skip rfl).node (n := ⟨_, .binary _⟩) rfl hsize

theorem Accepts.decorates (hΓ : Γ.Valued) {formal : Option Builtin.Formal} {a : Argument} {ds : Decoration} :
    Accepts links Γ formal a ds → Decorates ds fun before => a.nodesAfter before
  | .none => Decorates.nil.skip rfl
  | .value h => by
    obtain ⟨hsize, hvalue⟩ := h.decorates hΓ
    exact hvalue.node (n := ⟨_, .argument _⟩) rfl hsize
  | .reference _ htype => (Decorates.nil.skip rfl).node (n := ⟨_, .varArgument _⟩) rfl (hΓ _ _ htype)

end

theorem Declares.decorates {Γ' : Environment} {d : SingleDeclaration} {ds : Decoration}
    (h : Declares links Γ d Γ' ds) (hΓ : Γ.Valued) :
    Γ'.Valued ∧ Decorates ds fun before => d.nodesAfter before := by
  cases h with
  | const h =>
    obtain ⟨hsize, hvalue⟩ := h.decorates hΓ
    exact ⟨hΓ.declare hsize, (hvalue.skip rfl).node (n := ⟨_, .const _⟩) rfl hsize⟩
  | var _ hkind =>
    have hsize := size_valueType hkind (by simp)
    refine ⟨hΓ.declare hsize, ?_⟩
    exact (((Decorates.nil.skip rfl).node (n := ⟨_, .type⟩) rfl hsize).skip rfl).node (n := ⟨_, .var _⟩) rfl hsize

theorem DeclaresAll.decorates {Γ' : Environment} {parts : List SingleDeclaration} {ds : Decoration}
    (h : DeclaresAll links Γ parts Γ' ds) (hΓ : Γ.Valued) :
    Γ'.Valued ∧ Decorates ds fun before => parts.foldl SingleDeclaration.nodesAfter before := by
  induction h with
  | nil => exact ⟨hΓ, Decorates.nil⟩
  | cons hd _ ih =>
    obtain ⟨hΓ₁, hfirst⟩ := hd.decorates hΓ
    obtain ⟨hΓ₂, hrest⟩ := ih hΓ₁
    exact ⟨hΓ₂, hfirst.append hrest⟩

mutual

theorem WellTyped.decorates {Γ : Environment} {c : Command} {ds : Decoration} :
    WellTyped links Γ c ds → Γ.Valued → Decorates ds fun before => c.nodesAfter before
  | .assign _ _ h, hΓ => (h.decorates hΓ).2.skip rfl
  | .blank, _ => Decorates.nil
  | .call _ _ h, hΓ => (h.decorates hΓ).skip rfl
  | .ifThen h₁ h₂, hΓ => (h₁.decorates hΓ).2.append (h₂.decorates hΓ)
  | .ifElse h₁ h₂ h₃, hΓ => by
    rw [← List.append_assoc]
    exact ((h₁.decorates hΓ).2.append (h₂.decorates hΓ)).append (h₃.decorates hΓ)
  | .while_ h₁ h₂, hΓ => (h₁.decorates hΓ).2.append (h₂.decorates hΓ)
  | .for_ h₁ h₂ h₃, hΓ => by
    have hbounds := (h₁.decorates (hΓ.declare rfl)).2.append (h₂.decorates (hΓ.declare rfl)).2
    have hparts := hbounds.append (h₃.decorates (hΓ.declare rfl))
    rw [List.append_assoc] at hparts
    -- unlike other nodes, the counter gets its type before the phrases behind it
    exact ((hparts.skip rfl).node (n := ⟨_, .loopVariable⟩) rfl rfl).perm (List.perm_append_singleton _ _)
  | .let_ h₁ h₂, hΓ => by
    obtain ⟨hΓ₁, hdeclarations⟩ := h₁.decorates hΓ
    exact hdeclarations.append (h₂.decorates hΓ₁)
  | .sequential h, hΓ => h.decorates hΓ

theorem AllWellTyped.decorates {Γ : Environment} {cs : List Command} {ds : Decoration} :
    AllWellTyped links Γ cs ds → Γ.Valued → Decorates ds fun before => nodesOfCommandsAfter before cs
  | .nil, _ => Decorates.nil
  | .cons h₁ h₂, hΓ => (h₁.decorates hΓ).append (h₂.decorates hΓ)

end

end Typing

open Typing Scoping

/-- The types of a well-typed program are those of its expressions, arguments, named types and
    declarations. -/
theorem Typing.WellTyped.exists_type_iff {p : Program} {links : Resolution} {ds : Decoration}
    (h : WellTyped links .empty p.command ds) {id : NodeId} :
    (∃ type, (id, type) ∈ ds) ↔ ∃ n ∈ p.nodes, n.kind.isTyped = true ∧ n.id = id := by
  have hcounted := (h.decorates fun _ _ hnone => nomatch hnone).counted #[] id
  rw [show typedCount #[] id = 0 from rfl, Nat.zero_add] at hcounted
  have hmem : (∃ type, (id, type) ∈ ds) ↔ id ∈ ds.map Prod.fst := by simp
  rw [hmem, ← List.count_pos_iff, ← hcounted, countNodes_pos]
  rfl

theorem SimpleType.eq_of_size {type : SimpleType} (h : type.size = 1) :
    type = .integer ∨ type = .char ∨ type = .boolean := by
  cases type with
  | integer => exact Or.inl rfl
  | char => exact Or.inr (Or.inl rfl)
  | boolean => exact Or.inr (Or.inr rfl)
  | any | void => cases h

/-- Every text is read, and the program is resolved and checked without a fault, whatever is reported. The
    identifiers and operators of the program are the names that are used or declared in it. If nothing is
    reported, the nodes with a link are the names that are used; the nodes with a type are the
    expressions, the arguments that are not blank, the named types and the declarations, and each of them is an
    integer, a character or a truth value. So where an expression has no type or a name that is used has no
    link, something was reported. -/
theorem Program.decorations_exact (source : String) : ∃ r s t,
    Program.ofTokens (Token.ofString source) = .ok r ∧
    r.program.resolve.finalState (.start r.program) = .ok s ∧
    (r.program.check s.links).finalState (.start r.program) = .ok t ∧
    (∀ id, id ∈ nameIds r.program.occurrences ↔ ∃ n ∈ r.program.nodes, n.kind.isName = true ∧ n.id = id) ∧
    (r.findings = [] → s.errors = #[] → t.errors = #[] →
      (∀ id, (∃ link, s.links.get? id = some link) ↔ id ∈ useIds r.program.occurrences) ∧
      (∀ id, (∃ type, t.types.get? id = some type) ↔
        ∃ n ∈ r.program.nodes, n.kind.isTyped = true ∧ n.id = id) ∧
      ∀ id type, t.types.get? id = some type → type = .integer ∨ type = .char ∨ type = .boolean) ∧
    ((∃ n ∈ r.program.nodes, n.kind.isExpr = true ∧ t.types.get? n.id = none) ∨
        (∃ id ∈ useIds r.program.occurrences, s.links.get? id = none) →
      r.findings ≠ [] ∨ s.errors ≠ #[] ∨ t.errors ≠ #[]) := by
  obtain ⟨r, hr⟩ := Program.ofTokens_ofString source
  have hids := Parser.counted_ofTokens hr
  obtain ⟨s, hs, huses⟩ := Program.resolve_links_uses hids
  obtain ⟨t, ht, -⟩ := r.program.check_ends hids s.links
  have hexact : r.findings = [] → s.errors = #[] → t.errors = #[] →
      (∀ id, (∃ link, s.links.get? id = some link) ↔ id ∈ useIds r.program.occurrences) ∧
      (∀ id, (∃ type, t.types.get? id = some type) ↔
        ∃ n ∈ r.program.nodes, n.kind.isTyped = true ∧ n.id = id) ∧
      ∀ id type, t.types.get? id = some type → type = .integer ∨ type = .char ∨ type = .boolean := by
    intro hf he hn
    obtain ⟨ds, hds, hget⟩ := Program.exists_wellTyped hr hf hs he ht hn
    refine ⟨huses he, fun id => ?_, fun id type htype => ?_⟩
    · simp only [hget]
      exact hds.exists_type_iff
    · have hsize := (hds.decorates fun _ _ hnone => nomatch hnone).valued _ ((hget id type).mp htype)
      exact SimpleType.eq_of_size hsize
  refine ⟨r, s, t, hr, hs, ht, fun id => Program.mem_nameIds, hexact, fun hmissing => ?_⟩
  by_cases hf : r.findings = []
  · by_cases he : s.errors = #[]
    · refine Or.inr (Or.inr fun hn => ?_)
      obtain ⟨hlinks, htypes, -⟩ := hexact hf he hn
      rcases hmissing with ⟨n, hmem, hexpr, hnone⟩ | ⟨id, hid, hnone⟩
      · obtain ⟨type, htype⟩ := (htypes n.id).mpr ⟨n, hmem, NodeKind.isTyped_of_isExpr hexpr, rfl⟩
        cases hnone.symm.trans htype
      · obtain ⟨link, hlink⟩ := (hlinks id).mpr hid
        cases hnone.symm.trans hlink
    · exact Or.inr (Or.inl he)
  · exact Or.inl hf

end TriangleCompiler
