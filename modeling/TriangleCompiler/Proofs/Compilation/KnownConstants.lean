import TriangleCompiler.Proofs.Compilation.Renaming
import TriangleCompiler.Proofs.Compilation.Surroundings
import TriangleCompiler.Proofs.Generation.Correctness
import TriangleCompiler.Proofs.Program.Replacement

/-! Constants whose value is a literal. Where the name of such a constant is replaced by the literal the
    program is still accepted, and its code stays the same: a constant that is known has no place in memory,
    and to push its value is to push the literal. A name that is the whole value of another constant is not
    replaced, since this would make the other constant known too. -/

namespace TriangleCompiler

open Machine (Code Entity Instruction Word)
open Typing Generation Resolution

/-- If the constant `k` is declared it has the type of the literal, and the value of the literal for a place. -/
def Surroundings.Knows (S : Surroundings) (k : Constant) : Prop :=
  ∀ type, S.types (.const k.id) = some type →
    (∃ links Γ ds, HasType links Γ k.value type ds) ∧
      ∀ value, literal? k.value = some value → S.layout.place? k.id = some (.known value)

variable {S S' : Surroundings} {links : Resolution} {k : Constant}

/-! ### Expressions -/

/-- A literal has its type and its value everywhere. -/
theorem Typing.HasType.of_sameLiteral {Γ : Environment} {literal e' : Expr} {type : SimpleType} {ds : Decoration}
    (h : HasType links Γ literal type ds) (hsame : literal.sameLiteral e' = true) : ∃ value,
      literal? literal = some value ∧ ∀ links' Γ' L', (∃ ds', HasType links' Γ' e' type ds') ∧
        e'.code links' L' = [.loadLiteral value] := by
  cases h with
  | @int tag spelling n hn hlo hhi =>
    cases e' with
    | int tag' spelling' =>
      obtain rfl : spelling = spelling' := of_decide_eq_true hsame
      have hvalue := intValue?_eq hn hlo hhi
      refine ⟨_, hvalue, fun links' Γ' L' => ⟨⟨_, .int hn hlo hhi⟩, ?_⟩⟩
      rw [Expr.code, hvalue]
      rfl
    | _ => cases hsame
  | @char tag spelling h =>
    cases e' with
    | char tag' spelling' =>
      obtain rfl : spelling = spelling' := of_decide_eq_true hsame
      have hvalue := charValue?_eq h
      refine ⟨_, hvalue, fun links' Γ' L' => ⟨⟨_, .char h⟩, ?_⟩⟩
      rw [Expr.code, hvalue]
      rfl
    | _ => cases hsame
  | _ => cases e' <;> cases hsame

section
variable {name name' : Name} {link : Link}

theorem Surroundings.Parallel.works_name (h : S.Parallel S') (hreal : Realized links [useEvent S.scopes name])
    (hlink : links.get? name.id = some link) (hspelling : name.spelling = name'.spelling) :
    Works [useEvent S'.scopes name'] fun links' =>
      ∃ link', links'.get? name'.id = some link' ∧ Surroundings.Counterpart S S' link link' := by
  obtain ⟨link', hretrieve, hcounterpart⟩ := h.counterpart hreal hlink hspelling
  exact (works_use hretrieve).imp fun links' hlink' => ⟨link', hlink', hcounterpart⟩

/-- A name of the standard environment is one around the other phrase as well. -/
theorem Surroundings.Parallel.works_builtin (h : S.Parallel S') {b : Builtin}
    (hreal : Realized links [useEvent S.scopes name]) (hlink : links.get? name.id = some (.builtin b))
    (hspelling : name.spelling = name'.spelling) :
    Works [useEvent S'.scopes name'] fun links' =>
      links'.get? name'.id = some (.builtin b) ∧ callCode links' name' = callCode links name := by
  refine (h.works_name hreal hlink hspelling).imp ?_
  rintro links' ⟨link', hlink', hcounterpart⟩
  obtain rfl := hcounterpart.of_builtin
  exact ⟨hlink', by simp only [callCode, hlink, hlink']⟩

end

/-- A name of the constant stands for the literal. -/
theorem Surroundings.Knows.works_literal (hknows : S.Knows k) {tag : Tag} {name : Name} {e' : Expr}
    {type : SimpleType} {ds : Decoration} (h : HasType links S.types (.name tag name) type ds)
    (hlink : links.get? name.id = some (.const k.id)) (hsame : k.value.sameLiteral e' = true)
    (links' : Resolution) : (∃ ds', HasType links' S'.types e' type ds') ∧
      e'.code links' S'.layout = (Expr.name tag name).code links S.layout := by
  have hΓ : S.types (.const k.id) = some type := by
    cases h with
    | truth hlink' => cases hlink.symm.trans hlink'
    | declared hlink' hΓ =>
      cases hlink.symm.trans hlink'
      exact hΓ
  obtain ⟨⟨_, _, _, hliteral⟩, hplace⟩ := hknows type hΓ
  obtain ⟨value, hvalue, hserves⟩ := hliteral.of_sameLiteral hsame
  obtain ⟨htype, hcode⟩ := hserves links' S'.types S'.layout
  refine ⟨htype, ?_⟩
  rw [hcode, Expr.code, loadCode_located hlink (.const (hplace value hvalue))]
  rfl

mutual

/-- An expression in which names of the constant are replaced is linked without an error, has the type that
    it had, and the same code. -/
theorem Typing.HasType.replaced (hparallel : S.Parallel S') (hknows : S.Knows k) {e : Expr} {type : SimpleType}
    {ds : Decoration} : HasType links S.types e type ds → ∀ {e' : Expr}, Realized links (e.events S.scopes) →
      e.replaces links k e' = true → Works (e'.events S'.scopes) fun links' =>
        (∃ ds', HasType links' S'.types e' type ds') ∧ e'.code links' S'.layout = e.code links S.layout
  | @HasType.int _ _ tag spelling n hn hlo hhi, e', _, hreplaces => by
    cases e' with
    | int tag' spelling' =>
      obtain rfl : spelling = spelling' := of_decide_eq_true hreplaces
      exact works_nil fun links' => ⟨⟨_, .int hn hlo hhi⟩, rfl⟩
    | _ => cases hreplaces
  | @HasType.char _ _ tag spelling h, e', _, hreplaces => by
    cases e' with
    | char tag' spelling' =>
      obtain rfl : spelling = spelling' := of_decide_eq_true hreplaces
      exact works_nil fun links' => ⟨⟨_, .char h⟩, rfl⟩
    | _ => cases hreplaces
  | @HasType.truth _ _ tag name b type value hlink hkind, e', hreal, hreplaces => by
    cases e' with
    | name tag' name' =>
      refine (hparallel.works_name hreal hlink (of_decide_eq_true hreplaces)).imp ?_
      rintro links' ⟨link', hlink', hcounterpart⟩
      obtain rfl := hcounterpart.of_builtin
      exact ⟨⟨_, .truth hlink' hkind⟩, hcounterpart.loadCode_eq hlink hlink'⟩
    | int | char =>
      -- `true` and `false` are linked to no declaration
      obtain ⟨hlink', hsame⟩ := Bool.and_eq_true_iff.mp hreplaces
      cases hlink.symm.trans (of_decide_eq_true hlink')
    | _ => cases hreplaces
  | @HasType.declared _ _ tag name link type hlink hΓ, e', hreal, hreplaces => by
    cases e' with
    | name tag' name' =>
      refine (hparallel.works_name hreal hlink (of_decide_eq_true hreplaces)).imp ?_
      rintro links' ⟨link', hlink', hcounterpart⟩
      exact ⟨⟨_, .declared hlink' (hcounterpart.types_eq ▸ hΓ)⟩, hcounterpart.loadCode_eq hlink hlink'⟩
    | int | char =>
      obtain ⟨hlink', hsame⟩ := Bool.and_eq_true_iff.mp hreplaces
      exact works_nil (hknows.works_literal (.declared hlink hΓ) (of_decide_eq_true hlink') hsame)
    | _ => cases hreplaces
  | @HasType.call _ _ tag callee argument b p result formal ds hlink hkind hresult ha, e', hreal, hreplaces => by
    cases e' with
    | call tag' callee' argument' =>
      obtain ⟨hspelling, hreplaces⟩ := Bool.and_eq_true_iff.mp hreplaces
      obtain ⟨huse, hreal⟩ := realized_cons.mp hreal
      refine ((hparallel.works_builtin huse hlink (of_decide_eq_true hspelling)).append
        (ha.replaced hparallel hknows hreal hreplaces)).imp ?_
      rintro links' ⟨⟨hlink', hcall⟩, ⟨ds', ha'⟩, hcode⟩
      exact ⟨⟨_, .call hlink' hkind hresult ha'⟩, by rw [Expr.code, Expr.code, hcode, hcall]⟩
    | _ => cases hreplaces
  | @HasType.unary _ _ tag op operand b p type result ds hlink hkind h, e', hreal, hreplaces => by
    cases e' with
    | unary tag' op' operand' =>
      obtain ⟨hspelling, hreplaces⟩ := Bool.and_eq_true_iff.mp hreplaces
      obtain ⟨huse, hreal⟩ := realized_cons.mp hreal
      refine ((hparallel.works_builtin huse hlink (of_decide_eq_true hspelling)).append
        (h.replaced hparallel hknows hreal hreplaces)).imp ?_
      rintro links' ⟨⟨hlink', hcall⟩, ⟨ds', h'⟩, hcode⟩
      exact ⟨⟨_, .unary hlink' hkind h'⟩, by rw [Expr.code, Expr.code, hcode, hcall]⟩
    | _ => cases hreplaces
  | @HasType.binary _ _ tag op lhs rhs b type type' result ds ds' hlink hkind h₁ h₂, e', hreal, hreplaces => by
    cases e' with
    | binary tag' op' lhs' rhs' =>
      obtain ⟨hreplaces, hrhs⟩ := Bool.and_eq_true_iff.mp hreplaces
      obtain ⟨hspelling, hlhs⟩ := Bool.and_eq_true_iff.mp hreplaces
      obtain ⟨hreal₁, hreal⟩ := realized_append.mp hreal
      obtain ⟨huse, hreal₂⟩ := realized_cons.mp hreal
      refine ((h₁.replaced hparallel hknows hreal₁ hlhs).append
        ((hparallel.works_builtin huse hlink (of_decide_eq_true hspelling)).append
          (h₂.replaced hparallel hknows hreal₂ hrhs))).imp ?_
      rintro links' ⟨⟨⟨ds₁, h₁'⟩, hcode₁⟩, ⟨hlink', hcall⟩, ⟨ds₂, h₂'⟩, hcode₂⟩
      exact ⟨⟨_, .binary hlink' hkind h₁' h₂'⟩, by rw [Expr.code, Expr.code, hcode₁, hcode₂, hcall]⟩
    | _ => cases hreplaces

theorem Typing.Accepts.replaced (hparallel : S.Parallel S') (hknows : S.Knows k) {formal : Option Builtin.Formal}
    {a : Argument} {ds : Decoration} : Accepts links S.types formal a ds → ∀ {a' : Argument},
      Realized links (a.events S.scopes) → a.replaces links k a' = true →
      Works (a'.events S'.scopes) fun links' =>
        (∃ ds', Accepts links' S'.types formal a' ds') ∧ a'.code links' S'.layout = a.code links S.layout
  | .none, a', _, hreplaces => by
    cases a' with
    | blank tag' => exact works_nil fun links' => ⟨⟨_, .none⟩, rfl⟩
    | _ => cases hreplaces
  | .value h, a', hreal, hreplaces => by
    cases a' with
    | value tag' e' =>
      refine (h.replaced hparallel hknows hreal hreplaces).imp ?_
      rintro links' ⟨⟨ds', h'⟩, hcode⟩
      exact ⟨⟨_, .value h'⟩, hcode⟩
    | _ => cases hreplaces
  | .reference hlink hΓ, a', hreal, hreplaces => by
    cases a' with
    | var tag' name' =>
      refine (hparallel.works_name hreal hlink (of_decide_eq_true hreplaces)).imp ?_
      rintro links' ⟨link', hlink', hcounterpart⟩
      obtain ⟨id', rfl⟩ := hcounterpart.of_var
      exact ⟨⟨_, .reference hlink' (hcounterpart.types_eq ▸ hΓ)⟩, hcounterpart.placeCode_eq hlink hlink' _⟩
    | _ => cases hreplaces

end

/-! ### Declarations -/

namespace Surroundings

/-- Behind a declaration, which may be that of the constant itself. -/
theorem Knows.declare {name : Name} {declared : Link} {id : NodeId} {ids : List NodeId} {type : SimpleType}
    {L : Layout} {place : Place} (h : S.Knows k) (hfresh : S.Fresh (id :: ids)) (hnodes : declared.nodes = [id])
    (hL : ∀ i, L.place? i = if i = id then some place else S.layout.place? i)
    (hknown : declared = .const k.id → (∃ links Γ ds, HasType links Γ k.value type ds) ∧
      ∀ value, literal? k.value = some value → place = .known value) :
    (S.declare name declared type L).Knows k := by
  intro type' htype'
  by_cases hk : .const k.id = declared
  · obtain rfl : type = type' := Option.some.inj ((if_pos hk).symm.trans htype')
    obtain ⟨htype, hvalue⟩ := hknown hk.symm
    have hid : k.id = id := by
      rw [← hk] at hnodes
      exact List.singleton_inj.mp hnodes
    refine ⟨htype, fun value hliteral => (hL k.id).trans ?_⟩
    rw [if_pos hid, hvalue value hliteral]
  · -- a constant that has a type is not the one that is declared now
    have hold : S.types (.const k.id) = some type' := (if_neg hk).symm.trans htype'
    have hid : k.id ≠ id := by
      intro heq
      rw [heq, hfresh.untyped id List.mem_cons_self] at hold
      cases hold
    obtain ⟨htype, hvalue⟩ := h type' hold
    exact ⟨htype, fun value hliteral => ((hL k.id).trans (if_neg hid)).trans (hvalue value hliteral)⟩

/-- Phrases with these nodes stand in surroundings of the same kind, and the constant is known around the first
    of them. -/
structure Together (k : Constant) (S S' : Surroundings) (ids ids' : List NodeId) : Prop where
  parallel : S.Parallel S'
  knows : S.Knows k
  fresh : S.Fresh ids
  fresh' : S'.Fresh ids'

namespace Together
variable {ids ids' jds jds' : List NodeId}

theorem sublist (h : Together k S S' ids ids') (hsub : jds.Sublist ids) (hsub' : jds'.Sublist ids') :
    Together k S S' jds jds' :=
  ⟨h.parallel, h.knows, h.fresh.sublist hsub, h.fresh'.sublist hsub'⟩

theorem openScope (h : Together k S S' ids ids') : Together k S.openScope S'.openScope ids ids' :=
  ⟨h.parallel.openScope, h.knows, h.fresh.openScope, h.fresh'.openScope⟩

variable {name name' : Name} {id id' : NodeId} {declared declared' : Link} {type : SimpleType} {L L' : Layout}
  {place : Place}

/-- Within the values of two constants: each is in sight, and has neither a type nor a place. -/
theorem enter (h : Together k S S' (id :: ids) (id' :: ids'))
    (henter : S.scopes.enter name.spelling (.const id) = .ok (scopesWith S.scopes name (.const id)))
    (hspelling : name.spelling = name'.spelling) :
    (S.enter name (.const id)).Parallel (S'.enter name' (.const id')) := by
  have henter' := (h.parallel.enter_ok henter hspelling (.const id')).2
  rw [← hspelling] at henter'
  refine h.parallel.enter (S.enter name (.const id)) (S'.enter name' (.const id')) henter henter'
    (.const ?_ ?_) h.parallel.size (fun _ _ _ => ⟨rfl, fun _ _ => rfl⟩) fun _ _ _ => ⟨rfl, fun _ _ => rfl⟩
  · exact (h.fresh.untyped id List.mem_cons_self).trans (h.fresh'.untyped id' List.mem_cons_self).symm
  · exact (h.fresh.unplaced id List.mem_cons_self).trans (h.fresh'.unplaced id' List.mem_cons_self).symm

/-- Behind two declarations of the same kind, with the same type and at the same place. -/
theorem declare (h : Together k S S' (id :: ids) (id' :: ids'))
    (henter : S.scopes.enter name.spelling declared = .ok (scopesWith S.scopes name declared))
    (hspelling : name.spelling = name'.spelling)
    (hkind : declared = .const id ∧ declared' = .const id' ∨ declared = .var id ∧ declared' = .var id')
    (hL : ∀ i, L.place? i = if i = id then some place else S.layout.place? i)
    (hL' : ∀ i, L'.place? i = if i = id' then some place else S'.layout.place? i) (hsize : L.size = L'.size)
    (hknown : declared = .const k.id → (∃ links Γ ds, HasType links Γ k.value type ds) ∧
      ∀ value, literal? k.value = some value → place = .known value) :
    Together k (S.declare name declared type L) (S'.declare name' declared' type L') ids ids' := by
  have henter' := (h.parallel.enter_ok henter hspelling declared').2
  have hnodes : declared.nodes = [id] := by rcases hkind with ⟨rfl, -⟩ | ⟨rfl, -⟩ <;> rfl
  have hnodes' : declared'.nodes = [id'] := by rcases hkind with ⟨-, rfl⟩ | ⟨-, rfl⟩ <;> rfl
  exact ⟨h.parallel.declare h.fresh h.fresh' henter hspelling hkind hL hL' hsize,
    h.knows.declare h.fresh hnodes hL hknown,
    h.fresh.declare hnodes (fun i hi => (hL i).trans (if_neg hi)) henter,
    h.fresh'.declare hnodes' (fun i hi => (hL' i).trans (if_neg hi)) henter'⟩

theorem declareVariable (h : Together k S S' (id :: ids) (id' :: ids'))
    (henter : S.scopes.enter name.spelling (.var id) = .ok (scopesWith S.scopes name (.var id)))
    (hspelling : name.spelling = name'.spelling) (type : SimpleType) :
    Together k (S.declare name (.var id) type (S.layout.allocate id true))
      (S'.declare name' (.var id') type (S'.layout.allocate id' true)) ids ids' := by
  have hsize := h.parallel.size
  refine h.declare henter hspelling (.inr ⟨rfl, rfl⟩) (fun _ => rfl) (fun i => ?_) (congrArg (· + 1) hsize)
    fun hk => by cases hk
  rw [hsize]
  rfl

/-- The place of a constant is its value, if it is known, and otherwise the next word. -/
theorem declareConstant {tag tag' : Tag} (h : Together k S S' (tag.id :: ids) (tag'.id :: ids'))
    (henter : S.scopes.enter name.spelling (.const tag.id) = .ok (scopesWith S.scopes name (.const tag.id)))
    (hspelling : name.spelling = name'.spelling) {value value' : Expr} {Γ : Environment} {ds : Decoration}
    (hvalue : HasType links Γ value type ds) (hliteral : literal? value' = literal? value)
    (honly : tag.id = k.id → (⟨tag.id, value⟩ : Constant) = k) :
    Together k
      (S.declare name (.const tag.id) type ((SingleDeclaration.const tag name value).layoutAfter S.layout))
      (S'.declare name' (.const tag'.id) type ((SingleDeclaration.const tag' name' value').layoutAfter S'.layout))
      ids ids' := by
  have hsize := h.parallel.size
  rw [SingleDeclaration.layoutAfter, SingleDeclaration.layoutAfter, hliteral]
  cases hknown : literal? value with
  | some known =>
    refine h.declare henter hspelling (.inl ⟨rfl, rfl⟩) (fun _ => rfl) (fun _ => rfl) hsize fun hk => ?_
    obtain rfl := honly (Link.const.inj hk)
    refine ⟨⟨_, _, _, hvalue⟩, fun known' hknown' => ?_⟩
    cases hknown.symm.trans hknown'
    rfl
  | none =>
    refine h.declare henter hspelling (.inl ⟨rfl, rfl⟩) (fun _ => rfl) (fun i => ?_) (congrArg (· + 1) hsize)
      fun hk => ?_
    · rw [hsize]
      rfl
    · obtain rfl := honly (Link.const.inj hk)
      exact ⟨⟨_, _, _, hvalue⟩, fun known' hknown' => by cases hknown.symm.trans hknown'⟩

end Together

end Surroundings

/-- A constant whose name is not replaced as a whole value is known if it was. -/
theorem Expr.literal?_replaced {e e' : Expr} (h : e.replaces links k e' = true) (hname : e.isName = e'.isName) :
    literal? e' = literal? e := by
  cases e with
  | int _ spelling =>
    cases e' with
    | int _ spelling' => exact congrArg Literal.intValue? (of_decide_eq_true h).symm
    | _ => cases h
  | char _ spelling =>
    cases e' with
    | char _ spelling' => exact congrArg Literal.charValue? (of_decide_eq_true h).symm
    | _ => cases h
  | name =>
    cases e' with
    | name => rfl
    | _ => cases hname
  | _ =>
    cases e' with
    | int | char | name => cases h
    | _ => rfl

section
variable {d d' : SingleDeclaration} {ids ids' : List NodeId} {Γ : Environment} {ds : Decoration}

/-- The surroundings behind a declaration. -/
def Surroundings.after (S : Surroundings) (d : SingleDeclaration) (Γ : Environment) : Surroundings :=
  ⟨d.scopesAfter S.scopes, Γ, d.layoutAfter S.layout⟩

theorem Typing.Declares.replaced (hd : Declares links S.types d Γ ds)
    (h : Surroundings.Together k S S' (d.ids ++ ids) (d'.ids ++ ids')) (hreal : Realized links (d.events S.scopes))
    (hreplaces : d.replaces links k d' = true) (honly : ∀ k' ∈ d.constants, k'.id = k.id → k' = k) :
    ∃ Γ', Works (d'.events S'.scopes) (fun links' => (∃ ds', Declares links' S'.types d' Γ' ds') ∧
        d'.code links' S'.layout = d.code links S.layout) ∧
      Surroundings.Together k (S.after d Γ) (S'.after d' Γ') ids ids' := by
  cases hd with
  | @const tag name value type ds hvalue =>
    cases d' with
    | const tag' name' value' =>
      obtain ⟨hreplaces, hname⟩ := Bool.and_eq_true_iff.mp hreplaces
      obtain ⟨hspelling, hreplaces⟩ := Bool.and_eq_true_iff.mp hreplaces
      have hspelling := of_decide_eq_true hspelling
      have hliteral := Expr.literal?_replaced hreplaces (of_decide_eq_true hname)
      obtain ⟨hdeclare, hreal⟩ := realized_append.mp hreal
      have henter := hdeclare.declare
      have hnew : Surroundings.Together k S S' (tag.id :: ids) (tag'.id :: ids') :=
        h.sublist (.cons_cons _ (.cons _ (List.sublist_append_right _ _)))
          (.cons_cons _ (.cons _ (List.sublist_append_right _ _)))
      have hdeclares := (h.parallel.enter_ok henter hspelling (.const tag'.id)).1
      -- the constant is in sight within its own value, but not declared yet
      have hworks := Typing.HasType.replaced (hnew.enter henter hspelling) h.knows hvalue hreal hreplaces
      have hafter := hnew.declareConstant henter hspelling hvalue hliteral (honly _ List.mem_cons_self)
      refine ⟨_, (hdeclares.append hworks).imp ?_, hafter⟩
      rintro links' ⟨-, ⟨ds', hvalue'⟩, hcode⟩
      refine ⟨⟨_, .const hvalue'⟩, ?_⟩
      rw [SingleDeclaration.code, SingleDeclaration.code, hliteral]
      cases literal? value with
      | some known => rfl
      | none => exact hcode
    | _ => cases hreplaces
  | @var tag name denoter b type hlink hkind =>
    cases d' with
    | var tag' name' denoter' =>
      obtain ⟨hspelling, htype⟩ := Bool.and_eq_true_iff.mp hreplaces
      have hspelling := of_decide_eq_true hspelling
      obtain ⟨hdeclare, hreal⟩ := realized_append.mp hreal
      have henter := hdeclare.declare
      have hnew : Surroundings.Together k S S' (tag.id :: ids) (tag'.id :: ids') :=
        h.sublist (.cons_cons _ (.cons _ (.cons _ (.cons _ (.refl _)))))
          (.cons_cons _ (.cons _ (.cons _ (.cons _ (.refl _)))))
      have hdeclares := (h.parallel.enter_ok henter hspelling (.var tag'.id)).1
      have hafter := hnew.declareVariable henter hspelling type
      have hworks := hafter.parallel.works_builtin hreal hlink (of_decide_eq_true htype)
      refine ⟨_, (hdeclares.append hworks).imp ?_, hafter⟩
      rintro links' ⟨-, hlink', -⟩
      exact ⟨⟨_, .var hlink' hkind⟩, rfl⟩
    | _ => cases hreplaces

/-- The surroundings behind declarations. -/
def Surroundings.afterAll (S : Surroundings) (parts : List SingleDeclaration) (Γ : Environment) : Surroundings :=
  ⟨scopesAfterDeclarations S.scopes parts, Γ, layoutAfterDeclarations S.layout parts⟩

theorem Typing.DeclaresAll.replaced {parts parts' : List SingleDeclaration} {Γ₀ : Environment}
    (hparts : DeclaresAll links Γ₀ parts Γ ds) (hΓ : S.types = Γ₀)
    (h : Surroundings.Together k S S' (declarationIds parts ++ ids) (declarationIds parts' ++ ids'))
    (hreal : Realized links (declarationEvents S.scopes parts))
    (hreplaces : declarationsReplace links k parts parts' = true)
    (honly : ∀ k' ∈ parts.flatMap SingleDeclaration.constants, k'.id = k.id → k' = k) :
    ∃ Γ', Works (declarationEvents S'.scopes parts') (fun links' =>
        (∃ ds', DeclaresAll links' S'.types parts' Γ' ds') ∧
          declarationsCode links' S'.layout parts' = declarationsCode links S.layout parts) ∧
      Surroundings.Together k (S.afterAll parts Γ) (S'.afterAll parts' Γ') ids ids' := by
  induction hparts generalizing S S' parts' with
  | nil =>
    cases parts' with
    | nil =>
      subst hΓ
      exact ⟨S'.types, works_nil fun links' => ⟨⟨_, .nil⟩, rfl⟩, h⟩
    | cons => cases hreplaces
  | @cons Γ Γ₁ Γ₂ d rest ds ds' hd hrest ih =>
    cases parts' with
    | nil => cases hreplaces
    | cons d' rest' =>
      subst hΓ
      obtain ⟨hreplaces₁, hreplaces₂⟩ := Bool.and_eq_true_iff.mp hreplaces
      obtain ⟨hreal₁, hreal₂⟩ := realized_append.mp hreal
      rw [List.flatMap_cons, List.forall_mem_append] at honly
      rw [declarationIds, declarationIds, List.append_assoc, List.append_assoc] at h
      obtain ⟨Γ₁', hworks₁, hafter₁⟩ := hd.replaced h hreal₁ hreplaces₁ honly.1
      obtain ⟨Γ₂', hworks₂, hafter₂⟩ := ih rfl hafter₁ hreal₂ hreplaces₂ honly.2
      refine ⟨Γ₂', (hworks₁.append hworks₂).imp ?_, hafter₂⟩
      rintro links' ⟨⟨⟨_, hd'⟩, hcode₁⟩, ⟨_, hrest'⟩, hcode₂⟩
      refine ⟨⟨_, .cons hd' hrest'⟩, ?_⟩
      rw [declarationsCode, declarationsCode, hcode₁]
      exact congrArg _ hcode₂

end

/-! ### Commands -/

theorem sublist_for (position : Position) (counter : LoopVariable) (first last : Expr) (body : Command) :
    (counter.id :: body.ids).Sublist (Command.for_ position counter first last body).ids := by
  rw [Command.ids, ← List.append_assoc]
  exact .cons _ (.cons_cons _ (List.sublist_append_right _ _))

mutual

/-- A command in which names of the constant are replaced is linked without an error, is well-typed, and has
    the same code. -/
theorem Typing.WellTyped.replaced {Γ : Environment} {c : Command} {ds : Decoration} :
    WellTyped links Γ c ds → ∀ {scopes : SymbolTable} {L : Layout} {S' : Surroundings} {c' : Command},
      Surroundings.Together k ⟨scopes, Γ, L⟩ S' c.ids c'.ids → Realized links (c.events scopes) →
      c.replaces links k c' = true → (∀ k' ∈ c.constants, k'.id = k.id → k' = k) →
      Works (c'.events S'.scopes) fun links' => (∃ ds', WellTyped links' S'.types c' ds') ∧
        ∀ target start, c'.code links' target S'.layout start = c.code links target L start
  | .assign hlink hΓ h, scopes, L, S', c', htogether, hreal, hreplaces, _ => by
    cases c' with
    | assign position' target' value' =>
      obtain ⟨hspelling, hreplaces⟩ := Bool.and_eq_true_iff.mp hreplaces
      obtain ⟨hreal, huse⟩ := realized_append.mp hreal
      refine ((h.replaced htogether.parallel htogether.knows hreal hreplaces).append
        (htogether.parallel.works_name huse hlink (of_decide_eq_true hspelling))).imp ?_
      rintro links' ⟨⟨⟨_, h'⟩, hcode⟩, link', hlink', hcounterpart⟩
      obtain ⟨id', rfl⟩ := hcounterpart.of_var
      refine ⟨⟨_, .assign hlink' (hcounterpart.types_eq ▸ hΓ) h'⟩, fun _ start => ?_⟩
      rw [Command.code, Command.code, hcode, hcounterpart.placeCode_eq hlink hlink']
    | _ => cases hreplaces
  | .blank, scopes, L, S', c', _, _, hreplaces, _ => by
    cases c' with
    | blank position' => exact works_nil fun links' => ⟨⟨_, .blank⟩, fun _ _ => rfl⟩
    | _ => cases hreplaces
  | .call hlink hkind ha, scopes, L, S', c', htogether, hreal, hreplaces, _ => by
    cases c' with
    | call position' callee' argument' =>
      obtain ⟨hspelling, hreplaces⟩ := Bool.and_eq_true_iff.mp hreplaces
      obtain ⟨hreal, huse⟩ := realized_append.mp hreal
      refine ((ha.replaced htogether.parallel htogether.knows hreal hreplaces).append
        (htogether.parallel.works_builtin huse hlink (of_decide_eq_true hspelling))).imp ?_
      rintro links' ⟨⟨⟨_, ha'⟩, hcode⟩, hlink', hcall⟩
      refine ⟨⟨_, .call hlink' hkind ha'⟩, fun _ start => ?_⟩
      rw [Command.code, Command.code, hcode, hcall]
    | _ => cases hreplaces
  | .ifThen h hbody, scopes, L, S', c', htogether, hreal, hreplaces, honly => by
    cases c' with
    | ifThen position' condition' body' =>
      obtain ⟨hreplaces₁, hreplaces₂⟩ := Bool.and_eq_true_iff.mp hreplaces
      obtain ⟨hreal₁, hreal₂⟩ := realized_append.mp hreal
      have hinside := htogether.sublist (List.sublist_append_right _ _) (List.sublist_append_right _ _)
      refine ((h.replaced htogether.parallel htogether.knows hreal₁ hreplaces₁).append
        (hbody.replaced hinside hreal₂ hreplaces₂ honly)).imp ?_
      rintro links' ⟨⟨⟨_, h'⟩, hcode⟩, ⟨_, hbody'⟩, hcodeBody⟩
      refine ⟨⟨_, .ifThen h' hbody'⟩, fun target start => ?_⟩
      simp only [Command.code, hcode, hcodeBody]
    | _ => cases hreplaces
  | .ifElse h hpositive hnegative, scopes, L, S', c', htogether, hreal, hreplaces, honly => by
    cases c' with
    | ifElse position' condition' positive' negative' =>
      obtain ⟨hreplaces, hreplaces₃⟩ := Bool.and_eq_true_iff.mp hreplaces
      obtain ⟨hreplaces₁, hreplaces₂⟩ := Bool.and_eq_true_iff.mp hreplaces
      obtain ⟨hreal₁, hreal⟩ := realized_append.mp hreal
      obtain ⟨hreal₂, hreal₃⟩ := realized_append.mp hreal
      rw [Command.constants, List.forall_mem_append] at honly
      have hbranches := htogether.sublist (List.sublist_append_right _ _) (List.sublist_append_right _ _)
      have hinside := hbranches.sublist (List.sublist_append_left _ _) (List.sublist_append_left _ _)
      have hinside' := hbranches.sublist (List.sublist_append_right _ _) (List.sublist_append_right _ _)
      refine ((h.replaced htogether.parallel htogether.knows hreal₁ hreplaces₁).append
        ((hpositive.replaced hinside hreal₂ hreplaces₂ honly.1).append
          (hnegative.replaced hinside' hreal₃ hreplaces₃ honly.2))).imp ?_
      rintro links' ⟨⟨⟨_, h'⟩, hcode⟩, ⟨⟨_, hpositive'⟩, hcode₁⟩, ⟨_, hnegative'⟩, hcode₂⟩
      refine ⟨⟨_, .ifElse h' hpositive' hnegative'⟩, fun target start => ?_⟩
      simp only [Command.code, hcode, hcode₁, hcode₂]
    | _ => cases hreplaces
  | .while_ h hbody, scopes, L, S', c', htogether, hreal, hreplaces, honly => by
    cases c' with
    | while_ position' condition' body' =>
      obtain ⟨hreplaces₁, hreplaces₂⟩ := Bool.and_eq_true_iff.mp hreplaces
      obtain ⟨hreal₁, hreal₂⟩ := realized_append.mp hreal
      have hinside := htogether.sublist (List.sublist_append_right _ _) (List.sublist_append_right _ _)
      refine ((h.replaced htogether.parallel htogether.knows hreal₁ hreplaces₁).append
        (hbody.replaced hinside hreal₂ hreplaces₂ honly)).imp ?_
      rintro links' ⟨⟨⟨_, h'⟩, hcode⟩, ⟨_, hbody'⟩, hcodeBody⟩
      refine ⟨⟨_, .while_ h' hbody'⟩, fun target start => ?_⟩
      simp only [Command.code, hcode, hcodeBody]
    | _ => cases hreplaces
  | @WellTyped.for_ _ _ _ counter _ _ body _ _ _ h₁ h₂ hbody, scopes, L, S', c', htogether, hreal, hreplaces,
      honly => by
    cases c' with
    | for_ position' counter' first' last' body' =>
      obtain ⟨hreplaces, hreplaces₃⟩ := Bool.and_eq_true_iff.mp hreplaces
      obtain ⟨hreplaces, hreplaces₂⟩ := Bool.and_eq_true_iff.mp hreplaces
      obtain ⟨hspelling, hreplaces₁⟩ := Bool.and_eq_true_iff.mp hreplaces
      obtain ⟨hdeclare, hreal⟩ := realized_append.mp hreal
      obtain ⟨hreal₁, hreal⟩ := realized_append.mp hreal
      obtain ⟨hreal₂, hreal₃⟩ := realized_append.mp hreal
      have hsize : L.size = S'.layout.size := htogether.parallel.size
      have hspelling := of_decide_eq_true hspelling
      have henter := hdeclare.declare
      have hnew : Surroundings.Together k (Surroundings.openScope ⟨scopes, _, L⟩) S'.openScope
          (counter.id :: body.ids) (counter'.id :: body'.ids) :=
        htogether.openScope.sublist (sublist_for _ _ _ _ _) (sublist_for _ _ _ _ _)
      -- the bounds stand in the scope of the variable, as the body does
      have hdeclares := (hnew.parallel.enter_ok henter hspelling (.var counter'.id)).1
      have hinside := hnew.declareVariable henter hspelling .integer
      refine (hdeclares.append ((h₁.replaced hinside.parallel hinside.knows hreal₁ hreplaces₁).append
        ((h₂.replaced hinside.parallel hinside.knows hreal₂ hreplaces₂).append
          (hbody.replaced hinside hreal₃ hreplaces₃ honly)))).imp ?_
      rintro links' ⟨-, ⟨⟨_, h₁'⟩, hcode₁⟩, ⟨⟨_, h₂'⟩, hcode₂⟩, ⟨_, hbody'⟩, hcodeBody⟩
      refine ⟨⟨_, .for_ h₁' h₂' hbody'⟩, fun target start => ?_⟩
      simp only [Surroundings.openScope, Surroundings.declare] at hcode₁ hcode₂ hcodeBody
      simp only [Command.code, hcode₁, hcode₂, hcodeBody, ← hsize]
    | _ => cases hreplaces
  | .let_ hparts hbody, scopes, L, S', c', htogether, hreal, hreplaces, honly => by
    cases c' with
    | let_ position' declaration' body' =>
      obtain ⟨hreplaces₁, hreplaces₂⟩ := Bool.and_eq_true_iff.mp hreplaces
      obtain ⟨hreal₁, hreal₂⟩ := realized_append.mp hreal
      rw [Command.constants, List.forall_mem_append] at honly
      obtain ⟨Γ', hworks, hafter⟩ := hparts.replaced rfl htogether.openScope hreal₁ hreplaces₁ honly.1
      refine (hworks.append (hbody.replaced hafter hreal₂ hreplaces₂ honly.2)).imp ?_
      rintro links' ⟨⟨⟨_, hparts'⟩, hcode⟩, ⟨_, hbody'⟩, hcodeBody⟩
      refine ⟨⟨_, .let_ hparts' hbody'⟩, fun target start => ?_⟩
      -- the declarations take as many words as before, and as many are popped
      have hsize := hafter.parallel.size
      simp only [Surroundings.openScope, Surroundings.afterAll] at hcode hcodeBody hsize
      simp only [Command.code, hcode, hcodeBody, ← hsize, ← htogether.parallel.size]
    | _ => cases hreplaces
  | .sequential hparts, scopes, L, S', c', htogether, hreal, hreplaces, honly => by
    cases c' with
    | sequential position' parts' =>
      refine (hparts.replaced htogether hreal hreplaces honly).imp ?_
      rintro links' ⟨⟨_, hparts'⟩, hcode⟩
      exact ⟨⟨_, .sequential hparts'⟩, hcode⟩
    | _ => cases hreplaces

theorem Typing.AllWellTyped.replaced {Γ : Environment} {cs : List Command} {ds : Decoration} :
    AllWellTyped links Γ cs ds → ∀ {scopes : SymbolTable} {L : Layout} {S' : Surroundings}
      {cs' : List Command}, Surroundings.Together k ⟨scopes, Γ, L⟩ S' (commandIds cs) (commandIds cs') →
      Realized links (commandEvents scopes cs) → commandsReplace links k cs cs' = true →
      (∀ k' ∈ commandConstants cs, k'.id = k.id → k' = k) →
      Works (commandEvents S'.scopes cs') fun links' => (∃ ds', AllWellTyped links' S'.types cs' ds') ∧
        ∀ target start, commandsCode links' target S'.layout start cs' = commandsCode links target L start cs
  | .nil, scopes, L, S', cs', _, _, hreplaces, _ => by
    cases cs' with
    | nil => exact works_nil fun links' => ⟨⟨_, .nil⟩, fun _ _ => rfl⟩
    | cons => cases hreplaces
  | .cons hc hrest, scopes, L, S', cs', htogether, hreal, hreplaces, honly => by
    cases cs' with
    | nil => cases hreplaces
    | cons c' rest' =>
      obtain ⟨hreplaces₁, hreplaces₂⟩ := Bool.and_eq_true_iff.mp hreplaces
      obtain ⟨hreal₁, hreal₂⟩ := realized_append.mp hreal
      rw [commandConstants, List.forall_mem_append] at honly
      have hfirst := htogether.sublist (List.sublist_append_left _ _) (List.sublist_append_left _ _)
      have hothers := htogether.sublist (List.sublist_append_right _ _) (List.sublist_append_right _ _)
      refine ((hc.replaced hfirst hreal₁ hreplaces₁ honly.1).append
        (hrest.replaced hothers hreal₂ hreplaces₂ honly.2)).imp ?_
      rintro links' ⟨⟨⟨_, hc'⟩, hcode₁⟩, ⟨_, hrest'⟩, hcode₂⟩
      refine ⟨⟨_, .cons hc' hrest'⟩, fun target start => ?_⟩
      simp only [commandsCode, hcode₁, hcode₂]

end

/-! ### Programs -/

/-- A program in which names of a constant are replaced is linked without an error, is well-typed, and has the
    same code. -/
theorem Program.replaced {p p' : Program} {ds : Decoration} (hids : p.command.ids.Nodup)
    (hids' : Parser.Counted p'.command.ids 0 p'.nodeCount) (hreal : Realized links (p.command.events .standard))
    (htyped : WellTyped links .empty p.command ds) (hk : k ∈ p.command.constants)
    (hreplaces : p.command.replaces links k p'.command = true) :
    ∃ links' ds', p'.resolve.finalState (.start p') = .ok ⟨links', #[]⟩ ∧
      WellTyped links' .empty p'.command ds' ∧ ∀ target, p'.fullCode links' target = p.fullCode links target := by
  have htogether : Surroundings.Together k .standard .standard p.command.ids p'.command.ids :=
    ⟨Surroundings.parallel_standard, (fun _ htype => by cases htype), Surroundings.fresh_standard hids,
      Surroundings.fresh_standard hids'.nodup⟩
  obtain ⟨hquiet, hserves⟩ := htyped.replaced htogether hreal hreplaces
    fun k' hk' heq => Command.constant_unique hids hk' hk heq
  obtain ⟨⟨links', errors⟩, hfinal, herrors, hget⟩ := Program.resolve_eq hids'
  obtain rfl : errors = #[] := Array.toList_eq_nil_iff.mp (herrors.trans hquiet)
  have hreal' : Realized links' (p'.command.events .standard) :=
    realized_of_diagnostics hquiet fun q hq => (hget q.1 q.2).mpr hq
  obtain ⟨⟨ds', htyped'⟩, hcode⟩ := hserves links' hreal'
  exact ⟨links', ds', hfinal, htyped', fun target => congrArg (· ++ [Instruction.halt]) (hcode target 0)⟩

namespace Compilation

variable {tokens : List Token} {p p' : Program} {types : Types} {code : Code}

/-- The stages behind the parser end without an error, and with these instructions. -/
theorem Succeeds.replaced (h : Succeeds tokens p links types code) (hk : k ∈ p.command.constants)
    (hids' : Parser.Counted p'.command.ids 0 p'.nodeCount)
    (hreplaces : p.command.replaces links k p'.command = true) :
    ∃ links' types' s, p'.resolve.finalState (.start p') = .ok ⟨links', #[]⟩ ∧
      (p'.check links').finalState (.start p') = .ok ⟨types', #[]⟩ ∧
      (p'.generate ⟨links', types'⟩).finalState (.start p' .empty) = .ok s ∧ s.errors = #[] ∧
      s.code.instructions = code.instructions := by
  have hids := Parser.counted_ofTokens h.parsed
  obtain ⟨ds, htyped, htypes⟩ := Program.exists_wellTyped h.parsed rfl h.resolved rfl h.checked rfl
  have hreal : Realized links (p.command.events .standard) := by
    obtain ⟨s, hfinal, -, hreal⟩ := p.resolve_ok hids
    cases hfinal.symm.trans h.resolved
    exact hreal rfl
  obtain ⟨links', ds', hresolve, htyped', hcode⟩ :=
    Program.replaced hids.nodup hids' hreal htyped hk hreplaces
  obtain ⟨hcheck, htypes'⟩ := Program.check_of_wellTyped hids' htyped'
  -- both programs have the same code, and there was room for it
  obtain ⟨s, hgenerate, rfl, herrors⟩ := h.generated
  obtain ⟨t, ht, htracks⟩ := @Program.generate_ends p ⟨links, types⟩ ds .empty hids htyped
    (fun d hd => (htypes d.1 d.2).mpr hd) rfl
  cases ht.symm.trans hgenerate
  obtain ⟨t', ht', htracks'⟩ := @Program.generate_ends p' ⟨links', _⟩ ds' .empty hids' htyped'
    (fun d hd => (htypes' d.1 d.2).mpr hd) rfl
  rw [hcode] at htracks'
  refine ⟨links', _, t', hresolve, hcheck, ht', htracks'.clean ?_, ?_⟩
  · exact Nat.le_of_not_lt fun hlt => htracks.reported hlt herrors
  · exact Array.toList_inj.mp (htracks'.code.trans htracks.code.symm)

/-- A program is compiled without an error, and some of the names that are linked to a constant are replaced by
    the literal that is its value, but none that is the whole value of another constant. Whichever names these
    are, the tree that results is linked, checked and translated without an error, and to the same instructions.
    So is every text from which this tree is read, with whatever numbers and places its nodes have. -/
theorem run_replaces_constants {source : String} {c : Compilation} (hrun : run source = .ok c)
    (hresult : c.result = .ok code) (hprogram : c.program = some p) (hlinks : c.resolution = some links)
    (hk : k ∈ p.command.constants) :
    (∀ chosen : NodeId → Bool, ∃ links' types' s,
      let p' := p.withLiteral links k chosen
      p'.resolve.finalState (.start p') = .ok ⟨links', #[]⟩ ∧
        (p'.check links').finalState (.start p') = .ok ⟨types', #[]⟩ ∧
        (p'.generate ⟨links', types'⟩).finalState (.start p' .empty) = .ok s ∧ s.errors = #[] ∧
        s.code.instructions = code.instructions) ∧
    ∀ source' p', Token.diagnostics (Token.ofString source') = [] →
      Program.ofTokens (Token.ofString source') = .ok ⟨p', []⟩ →
      p.command.replaces links k p'.command = true → ∃ c' code', run source' = .ok c' ∧
        c'.result = .ok code' ∧ code'.instructions = code.instructions := by
  obtain ⟨p₀, links₀, types, rfl, hsucceeds⟩ := succeeds_of_result hrun hresult
  cases hprogram
  cases hlinks
  refine ⟨fun chosen => ?_, fun source' p' hscanned hparsed hreplaces => ?_⟩
  · exact hsucceeds.replaced hk
      (Program.counted_withLiteral links k chosen (Parser.counted_ofTokens hsucceeds.parsed))
      (p.command.replaces_withLiteral links k chosen)
  · obtain ⟨links', types', s, hresolve, hcheck, hgenerate, herrors, hcode⟩ :=
      hsucceeds.replaced hk (Parser.counted_ofTokens hparsed) hreplaces
    have hsucceeds' : Succeeds (Token.ofString source') p' links' types' s.code :=
      ⟨hscanned, hparsed, hresolve, hcheck, s, hgenerate, rfl, herrors⟩
    exact ⟨_, s.code, hsucceeds'.ofTokens_eq, rfl, hcode⟩

/-- The name of a constant is replaced in one operand and not in another one, and stays as the whole value of
    `m`. -/
theorem run_replaces_constants_five :
    let source := "let const k ~ 5; const m ~ k in putint(k + k * m)"
    let source' := "let const k ~ 5; const m ~ k in putint(k + 5 * m)"
    ∃ c code p links k p', run source = .ok c ∧ c.result = .ok code ∧ c.program = some p ∧
      c.resolution = some links ∧ k ∈ p.command.constants ∧ literal? k.value = some 5 ∧
      Program.ofTokens (Token.ofString source') = .ok ⟨p', []⟩ ∧
      p.command.replaces links k p'.command = true ∧ (∃ c' code', run source' = .ok c' ∧
        c'.result = .ok code' ∧ code'.instructions = code.instructions) ∧
      ∃ links' types' s,
        let all := p.withLiteral links k fun _ => true
        all.resolve.finalState (.start all) = .ok ⟨links', #[]⟩ ∧
          (all.check links').finalState (.start all) = .ok ⟨types', #[]⟩ ∧
          (all.generate ⟨links', types'⟩).finalState (.start all .empty) = .ok s ∧ s.errors = #[] ∧
          s.code.instructions = code.instructions := by
  intro source source'
  have hcompiled : ((run source).toOption.any fun c => c.result.toOption.any fun code =>
      c.program.any fun p => c.resolution.any fun links => p.command.constants.any fun k =>
        decide (literal? k.value = some 5) && (Program.ofTokens (Token.ofString source')).toOption.any fun r =>
          decide (r.findings = []) && p.command.replaces links k r.program.command &&
          decide (Token.diagnostics (Token.ofString source') = [])) = true := by
    decide +kernel
  simp only [Option.any_eq_true, List.any_eq_true, Bool.and_eq_true, decide_eq_true_eq] at hcompiled
  obtain ⟨c, hrun, code, hresult, p, hp, links, hlinks, k, hk, hvalue, ⟨p', findings⟩, hparsed, ⟨hnil, hreplaces⟩,
    hscanned⟩ := hcompiled
  obtain rfl : findings = [] := hnil
  replace hrun := eq_ok_of_toOption hrun
  replace hresult := eq_ok_of_toOption hresult
  replace hparsed := eq_ok_of_toOption hparsed
  obtain ⟨hchosen, hsources⟩ := run_replaces_constants hrun hresult hp hlinks hk
  exact ⟨c, code, p, links, k, p', hrun, hresult, hp, hlinks, hk, hvalue, hparsed, hreplaces,
    hsources source' p' hscanned hparsed hreplaces, hchosen fun _ => true⟩

end Compilation

end TriangleCompiler
