import TriangleCompiler.Proofs.Parser.Grammar
import TriangleCompiler.Proofs.Resolution.Links
import TriangleCompiler.Proofs.Resolution.Scopes
import TriangleCompiler.Proofs.Typing.Completeness

/-! The check never fails, whatever the tree and its links are; and a program that resolves is well-typed
    if the check reports nothing. A check that lacks a type is left out, so what has to be shown is that
    where nothing was reported before, no type is missing. -/

namespace TriangleCompiler.Typing

open NodeTable (Free Grows)
open Resolution (Realized useEvent declareEvents scopesWith)

/-! ### What a check does -/

/-- From `s` the pass ends without a fault; it gives types to some of the nodes `ids` and reports type
    errors only; and if it reports none, `P` holds of its value. -/
def Judges {α : Type} (x : CheckM α) (s : State) (ids : List NodeId) (P : α → Prop) : Prop :=
  Pass.Ends x s fun a t => Grows s.types t.types ids ∧ Reports .check s.errors t.errors ∧
    (t.errors.size = s.errors.size → P a)

namespace Judges
variable {α β : Type} {x : CheckM α} {g : α → CheckM β} {s : State} {ids ids' : List NodeId}
  {P P' : α → Prop}

theorem pure {a : α} (h : P a) : Judges (Pure.pure a) s ids P :=
  Pass.Ends.pure ⟨Grows.refl _ _, .refl _ _, fun _ => h⟩

theorem imp (hx : Judges x s ids P) (h : ∀ a, P a → P' a) : Judges x s ids P' :=
  Pass.Ends.imp hx fun a _ ⟨hgrows, hreports, hquiet⟩ => ⟨hgrows, hreports, fun heq => h a (hquiet heq)⟩

theorem mono (hx : Judges x s ids P) (hsub : ∀ id ∈ ids, id ∈ ids') : Judges x s ids' P :=
  Pass.Ends.imp hx fun _ _ ⟨hgrows, hreports, hquiet⟩ => ⟨hgrows.mono hsub, hreports, hquiet⟩

/-- Two checks in a row: where nothing is reported in the end, nothing was reported in between. -/
theorem bind_ok {Q : α → State → β → Prop} (hx : Judges x s ids P)
    (hg : ∀ a t, Grows s.types t.types ids → Judges (g a) t ids' (Q a t)) :
    Judges (x >>= g) s (ids ++ ids') fun b =>
      ∃ a t, x s = .ok a t ∧ Grows s.types t.types ids ∧ P a ∧ Q a t b := by
  obtain ⟨a, t, hok, hgrows, hreports, hquiet⟩ := hx
  obtain ⟨b, u, hok', hgrows', hreports', hquiet'⟩ := hg a t hgrows
  have hle := hreports.size_le
  have hle' := hreports'.size_le
  refine ⟨b, u, by rw [Pass.bind_of_ok hok, hok'], ?_, hreports.trans hreports', fun heq => ?_⟩
  · exact (hgrows.mono fun _ => List.mem_append_left _).trans
      (hgrows'.mono fun _ => List.mem_append_right _)
  · exact ⟨a, t, hok, hgrows, hquiet (by omega), hquiet' (by omega)⟩

theorem bind {Q : α → State → β → Prop} (hx : Judges x s ids P)
    (hg : ∀ a t, Grows s.types t.types ids → Judges (g a) t ids' (Q a t)) :
    Judges (x >>= g) s (ids ++ ids') fun b => ∃ a t, Grows s.types t.types ids ∧ P a ∧ Q a t b :=
  (hx.bind_ok hg).imp fun _ ⟨a, t, _, h⟩ => ⟨a, t, h⟩

/-- A check whose value is put into another form. -/
theorem bind_pure (hx : Judges x s ids P) (f : α → β) :
    Judges (x >>= fun a => Pure.pure (f a)) s ids fun b => ∃ a, P a ∧ f a = b := by
  refine Pass.Ends.bind hx ?_
  rintro a t ⟨hgrows, hreports, hquiet⟩
  exact Pass.Ends.pure ⟨hgrows, hreports, fun heq => ⟨a, hquiet heq, rfl⟩⟩

theorem discard (hx : Judges x s ids P) : Judges (Functor.discard x) s ids fun _ => ∃ a, P a :=
  Pass.Ends.discard (Pass.Ends.imp hx fun a _ ⟨hgrows, hreports, hquiet⟩ =>
    ⟨hgrows, hreports, fun heq => ⟨a, hquiet heq⟩⟩)

end Judges

section Leaves
variable {s : State} {links : Resolution}

theorem judges_report (position : Position) (cause : TypeError) (P : Unit → Prop) :
    Judges (report position cause) s [] P := by
  refine ⟨(), _, rfl, Grows.refl _ _, .push rfl, fun heq => ?_⟩
  simp at heq

theorem judges_reportIf (wrong : Bool) (position : Position) (cause : TypeError) :
    Judges (reportIf wrong position cause) s [] fun _ => wrong = false := by
  cases wrong
  · exact .pure rfl
  · exact judges_report position cause _

/-- A check that reports an error and gives no type has nothing to show. -/
theorem judges_reject {α : Type} (position : Position) (cause : TypeError) (a : α) (P : α → Prop) :
    Judges (do report position cause; pure a) s [] P :=
  ((judges_report position cause fun _ => False).bind_pure fun _ => a).imp fun _ ⟨_, h, _⟩ => h.elim

theorem judges_decorate {id : NodeId} (hfree : s.types.Free [id]) (type : Option SimpleType) :
    Judges (decorate id type) s [id] (· = type) := by
  cases type with
  | none => exact .pure rfl
  | some type =>
    exact ⟨_, _, decorate_ok hfree type, NodeTable.grows_write hfree type, .refl _ _, fun _ => rfl⟩

theorem judges_checkVariable (name : Name) :
    Judges (checkVariable links name) s [] fun r => ∀ link, links.get? name.id = some link →
      ∃ id, link = .var id ∧ r = s.types.get? id := by
  unfold checkVariable
  split
  · exact .pure (by simp_all)
  · rename_i id hlink
    exact ⟨_, s, rfl, Grows.refl _ _, .refl _ _, fun _ link h => ⟨id, by simp_all⟩⟩
  · exact judges_reject _ _ _ _

theorem judges_checkOperand (op : Name) (expected : SimpleType) (actual : Option SimpleType)
    (position : Position) : Judges (checkOperand op expected actual position) s [] fun _ =>
      ∀ type, actual = some type → type = expected := by
  cases actual with
  | none => exact .pure (by simp)
  | some actual => exact (judges_reportIf _ _ _).imp fun _ h => by simpa using h

theorem judges_checkUnary (op : Name) (operand : Option SimpleType) (position : Position) :
    Judges (checkUnary links op operand position) s [] fun r =>
      ∀ link type, links.get? op.id = some link → operand = some type →
        ∃ b p result, link = .builtin b ∧ b.kind = .unary p type result ∧ r = some result := by
  unfold checkUnary
  split
  · exact .pure (by simp_all)
  · rename_i b hlink
    split
    · rename_i p expected result hkind
      refine ((judges_checkOperand op expected operand position).bind_pure _).imp ?_
      rintro r ⟨-, hoperand, rfl⟩ link type hlink' rfl
      cases hlink.symm.trans hlink'
      cases hoperand type rfl
      exact ⟨b, p, result, rfl, hkind, rfl⟩
    · exact judges_reject _ _ _ _
  · exact judges_reject _ _ _ _

theorem judges_checkSame (op : Name) (lhs rhs : Option SimpleType) :
    Judges (checkSame op lhs rhs) s [] fun _ =>
      ∀ type type', lhs = some type → rhs = some type' → type = type' := by
  unfold checkSame
  split
  · exact (judges_reportIf _ _ _).imp fun _ h => by simpa using h
  · rename_i hmissing
    exact .pure fun type type' hlhs hrhs => (hmissing type type' hlhs hrhs).elim

/-- Only operands that may both have any type are compared with each other. -/
theorem eq_any_of_kind {b : Builtin} {p : Machine.Primitive} {rhs result : SimpleType}
    (h : b.kind = .binary p .any rhs result) : rhs = .any := by
  cases b <;> simp_all [Builtin.kind]

theorem judges_checkBinary (op : Name) (lhs rhs : Option SimpleType) (position position' : Position) :
    Judges (checkBinary links op lhs rhs position position') s [] fun r =>
      ∀ link type type', links.get? op.id = some link → lhs = some type → rhs = some type' →
        ∃ b result, link = .builtin b ∧ TakesOperands b.kind type type' result ∧ r = some result := by
  unfold checkBinary
  split
  · exact .pure (by simp_all)
  · rename_i b hlink
    split
    · rename_i p rhs' result hkind
      cases eq_any_of_kind hkind
      refine ((judges_checkSame op lhs rhs).bind_pure _).imp ?_
      rintro r ⟨-, hsame, rfl⟩ link type type' hlink' hlhs hrhs
      cases hlink.symm.trans hlink'
      cases hsame type type' hlhs hrhs
      exact ⟨b, result, rfl, hkind ▸ .same, rfl⟩
    · rename_i p expected expected' result hany hkind
      refine ((judges_checkOperand op expected lhs position).bind fun _ _ _ =>
        (judges_checkOperand op expected' rhs position').bind_pure _).imp ?_
      rintro r ⟨-, -, -, hleft, -, hright, rfl⟩ link type type' hlink' hlhs hrhs
      cases hlink.symm.trans hlink'
      cases hleft type hlhs
      cases hright type' hrhs
      exact ⟨b, result, rfl, hkind ▸ .declared fun h => hany (h ▸ rfl), rfl⟩
    · exact judges_reject _ _ _ _
  · exact judges_reject _ _ _ _

theorem judges_checkSite (callee : Name) (result : SimpleType) (site : CallSite) :
    Judges (checkSite callee result site) s [] fun _ => (site = .command ↔ result = .void) := by
  cases site <;> exact (judges_reportIf _ _ _).imp fun _ h => by simpa using h

/-- The argument, which has the type `actual` if it has one, goes with the parameter. -/
def Matches (formal : Option Builtin.Formal) (actual : Option SimpleType) : Argument → Prop
  | .blank _ => formal = none
  | .value _ _ => ∃ f, formal = some f ∧ f.byReference = false ∧ ∀ type, actual = some type → type = f.type
  | .var _ _ => ∃ f, formal = some f ∧ f.byReference = true ∧ ∀ type, actual = some type → type = f.type
  | .error _ => True

theorem judges_checkArgumentType (callee : Name) (expected : SimpleType) (position : Position)
    (actual : Option SimpleType) : Judges (checkArgumentType callee expected position actual) s []
      fun _ => ∀ type, actual = some type → type = expected := by
  cases actual with
  | none => exact .pure (by simp)
  | some actual => exact (judges_reportIf _ _ _).imp fun _ h => by simpa using h

theorem judges_checkFormal (callee : Name) (formal : Option Builtin.Formal) (argument : Argument)
    (actual : Option SimpleType) : Judges (checkFormal callee formal argument actual) s []
      fun _ => Matches formal actual argument := by
  cases formal with
  | none =>
    cases argument with
    | blank => exact .pure rfl
    | value | var | error => exact judges_report _ _ _
  | some f =>
    have htype (position : Position) (t : State) := judges_checkArgumentType (s := t) callee f.type
      position actual
    cases argument with
    | blank => exact judges_report _ _ _
    | value tag e =>
      refine ((judges_reportIf f.byReference tag.position _).bind fun _ t _ => htype tag.position t).imp ?_
      rintro - ⟨-, -, -, hpassing, hactual⟩
      exact ⟨f, rfl, hpassing, hactual⟩
    | var tag name =>
      refine ((judges_reportIf (!f.byReference) tag.position _).bind fun _ t _ => htype tag.position t).imp ?_
      rintro - ⟨-, -, -, hpassing, hactual⟩
      exact ⟨f, rfl, by simpa using hpassing, hactual⟩
    | error tag => exact (htype tag.position s).imp fun _ _ => trivial

theorem judges_checkCall (site : CallSite) (callee : Name) (argument : Argument)
    (actual : Option SimpleType) : Judges (checkCall links site callee argument actual) s [] fun r =>
      ∀ link, links.get? callee.id = some link → ∃ b p result formal, link = .builtin b ∧
        b.kind = .routine p result formal ∧ (site = .command ↔ result = .void) ∧
        Matches formal actual argument ∧ r = callResult result site := by
  unfold checkCall
  split
  · exact .pure (by simp_all)
  · rename_i b hlink
    split
    · rename_i p result formal hkind
      refine ((judges_checkSite callee result site).bind fun _ t _ =>
        (judges_checkFormal callee formal argument actual).bind_pure _).imp ?_
      rintro r ⟨-, -, -, hsite, -, hformal, rfl⟩ link hlink'
      cases hlink.symm.trans hlink'
      exact ⟨b, p, result, formal, rfl, hkind, hsite, hformal, rfl⟩
    · exact judges_reject _ _ _ _
  · exact judges_reject _ _ _ _

theorem judges_denoter {denoter : TypeDenoter} (hfree : s.types.Free [denoter.id]) :
    Judges (denoter.check links) s [denoter.id] fun r => ∀ link, links.get? denoter.name.id = some link →
      ∃ b type, link = .builtin b ∧ b.kind = .type type ∧ r = some type := by
  unfold TypeDenoter.check
  split
  · exact .pure (by simp_all)
  · rename_i b hlink
    split
    · rename_i type hkind
      refine (judges_decorate hfree (some type)).imp ?_
      rintro r rfl link hlink'
      cases hlink.symm.trans hlink'
      exact ⟨b, type, rfl, hkind, rfl⟩
    · exact (judges_reject _ _ _ _).mono (by simp)
  · exact (judges_reject _ _ _ _).mono (by simp)

theorem judges_checkAssignment (target : Name) (position : Position) (actual : Option SimpleType) :
    Judges (checkAssignment links target position actual) s [] fun _ =>
      ∀ link, links.get? target.id = some link → ∃ id, link = .var id ∧
        ∀ expected type, s.types.get? id = some expected → actual = some type → expected = type := by
  unfold checkAssignment
  split
  · exact .pure (by simp_all)
  · rename_i id hlink
    have htype : typeOf id s = .ok (s.types.get? id) s := rfl
    refine Judges.imp (P := fun _ => ∀ expected type, s.types.get? id = some expected →
      actual = some type → expected = type) ?_ fun _ h link hlink' => ⟨id, by simp_all, h⟩
    unfold Judges Pass.Ends
    rw [Pass.bind_of_ok htype]
    cases s.types.get? id with
    | none => exact Judges.pure fun _ _ hnone => by cases hnone
    | some expected =>
      cases actual with
      | none => exact Judges.pure fun _ _ _ hnone => by cases hnone
      | some type =>
        refine Judges.imp (judges_reportIf _ _ _) fun _ h => ?_
        simp_all
  · exact judges_report _ _ _

end Leaves

/-! ### Scopes and environments -/

/-- What the scopes have in sight is in the standard environment, or declared, or the constant whose value
    is being checked. -/
def Covers (scopes : SymbolTable) (Γ : Environment) (pending : Option NodeId) : Prop :=
  ∀ name link, scopes.retrieve? name = some link →
    (∃ b, link = .builtin b) ∨ (∃ type, Γ link = some type) ∨ ∃ id, pending = some id ∧ link = .const id

theorem covers_standard : Covers .standard .empty none := by
  intro name link h
  rw [SymbolTable.retrieve?_standard] at h
  obtain ⟨b, -, rfl⟩ := Option.map_eq_some_iff.mp h
  exact Or.inl ⟨b, rfl⟩

theorem Covers.openScope {scopes : SymbolTable} {Γ : Environment} {pending : Option NodeId}
    (h : Covers scopes Γ pending) : Covers scopes.openScope Γ pending :=
  fun name link hlink => h name link (by simpa using hlink)

/-- Behind a declaration. -/
theorem Covers.declare {scopes : SymbolTable} {Γ : Environment} {name : Name} {declared : Link}
    {links : Resolution} (h : Covers scopes Γ none)
    (hreal : Realized links (declareEvents scopes name declared)) (type : SimpleType) :
    Covers (scopesWith scopes name declared) (Γ.declare declared type) none := by
  intro name' link hlink
  rw [SymbolTable.retrieve?_enter hreal.declare] at hlink
  by_cases heq : link = declared
  · exact Or.inr (Or.inl ⟨type, by simp [Environment.declare, heq]⟩)
  · split at hlink
    · exact absurd (Option.some.inj hlink).symm heq
    · simpa [Environment.declare, heq] using h name' link hlink

/-- Within the value of a constant. -/
theorem Covers.pending {scopes : SymbolTable} {Γ : Environment} {name : Name} {id : NodeId}
    {links : Resolution} (h : Covers scopes Γ none)
    (hreal : Realized links (declareEvents scopes name (.const id))) :
    Covers (scopesWith scopes name (.const id)) Γ (some id) := by
  intro name' link hlink
  rw [SymbolTable.retrieve?_enter hreal.declare] at hlink
  split at hlink
  · exact Or.inr (Or.inr ⟨id, rfl, (Option.some.inj hlink).symm⟩)
  · rcases h name' link hlink with hb | hΓ | ⟨i, hi, -⟩
    · exact Or.inl hb
    · exact Or.inr (Or.inl hΓ)
    · cases hi

/-- The scopes and the environment around a phrase go together, and the types of what is declared are in
    the table. -/
structure Situation (scopes : SymbolTable) (Γ : Environment) (pending : Option NodeId) (types : Types) :
    Prop where
  covers : Covers scopes Γ pending
  recorded : Γ.RecordedIn types

theorem Situation.grows {scopes : SymbolTable} {Γ : Environment} {pending : Option NodeId} {t u : Types}
    {ids : List NodeId} (h : Situation scopes Γ pending t) (hgrows : Grows t u ids) :
    Situation scopes Γ pending u :=
  ⟨h.covers, h.recorded.grows hgrows⟩

/-- A name that has a type is one whose declaration has it. -/
theorem judges_checkName {links : Resolution} {s : State} (pending : Option NodeId) (name : Name) :
    Judges (checkName links pending name) s [] fun r => ∀ scopes Γ,
      Situation scopes Γ pending s.types → Realized links [useEvent scopes name] →
        ∃ type, r = some type ∧ ∀ tag, HasType links Γ (.name tag name) type [(tag.id, type)] := by
  have hread (id : NodeId) (link : Link) (hlink : links.get? name.id = some link)
      (hid : link = .const id ∧ pending ≠ some id ∨ link = .var id) :
      Judges (typeOf id) s [] fun r => ∀ scopes Γ, Situation scopes Γ pending s.types →
        Realized links [useEvent scopes name] →
          ∃ type, r = some type ∧ ∀ tag, HasType links Γ (.name tag name) type [(tag.id, type)] := by
    refine ⟨_, s, rfl, Grows.refl _ _, .refl _ _, fun _ scopes Γ hsit hreal => ?_⟩
    obtain ⟨target, hretrieve, hget⟩ := hreal.use
    cases hlink.symm.trans hget
    obtain ⟨type, htype⟩ : ∃ type, Γ link = some type := by
      rcases hsit.covers _ _ hretrieve with ⟨b, rfl⟩ | h | ⟨i, hi, rfl⟩
      · simp at hid
      · exact h
      · simp_all
    obtain ⟨id', hid', hrec⟩ := hsit.recorded link type htype
    have : id' = id := by rcases hid with ⟨rfl, -⟩ | rfl <;> simp_all
    exact ⟨type, by rw [← this, hrec], fun tag => .declared hlink htype⟩
  unfold checkName
  split
  · refine .pure fun scopes Γ _ hreal => ?_
    obtain ⟨_, _, hget⟩ := hreal.use
    simp_all
  · rename_i b hlink
    split
    · rename_i type value hkind
      exact .pure fun _ _ _ _ => ⟨type, rfl, fun tag => .truth hlink hkind⟩
    · exact judges_reject _ _ _ _
  · rename_i id hlink
    split
    · exact judges_reject _ _ _ _
    · rename_i hne
      exact hread id _ hlink (Or.inl ⟨rfl, hne⟩)
  · rename_i id hlink
    exact hread id _ hlink (Or.inr rfl)

/-! ### Expressions -/

theorem exists_integer?_of_isNone {spelling : String} (h : (Literal.intValue? spelling).isNone = false) :
    ∃ n, Literal.integer? spelling.toList = some n ∧ -32768 ≤ n ∧ n ≤ 32767 := by
  unfold Literal.intValue? at h
  cases hn : Literal.integer? spelling.toList with
  | none => simp [hn] at h
  | some n => simpa [hn, Machine.Word.ofInt?] using h

theorem charOf_le_of_isNone {spelling : String} (h : (Literal.charValue? spelling).isNone = false) :
    (Literal.charOf spelling).toNat ≤ 32767 := by
  simp only [Literal.charValue?, Machine.Word.ofInt?] at h
  split at h
  · omega
  · cases h

/-! What is built from parts is there only if all of them are. -/

section Parts
variable {α β γ δ : Type} {x : Option α} {y : Option β} {z : Option γ}

theorem isSome_both {f : α → β → δ} (h : (do pure (f (← x) (← y)) : Option δ).isSome) :
    x.isSome ∧ y.isSome :=
  ⟨Option.isSome_of_isSome_bind h, Option.isSome_of_isSome_bind (Option.isSome_apply_of_isSome_bind h)⟩

theorem isSome_three {f : α → β → γ → δ} (h : (do pure (f (← x) (← y) (← z)) : Option δ).isSome) :
    x.isSome ∧ y.isSome ∧ z.isSome :=
  ⟨Option.isSome_of_isSome_bind h, isSome_both (Option.isSome_apply_of_isSome_bind h)⟩

end Parts

mutual

theorem judges_expr (links : Resolution) (pending : Option NodeId) : ∀ (e : Expr) {s : State},
    e.ids.Nodup → s.types.Free e.ids → Judges (e.check links pending) s e.ids fun r =>
      ∀ scopes Γ, Situation scopes Γ pending s.types → Realized links (e.events scopes) →
        e.shape?.isSome → ∃ type ds, r = some type ∧ HasType links Γ e type ds
  | .int tag spelling, s, _, hfree => by
    rw [Expr.check]
    refine ((judges_reportIf _ _ _).bind fun _ t hgrows =>
      judges_decorate (hgrows.free hfree (by simp)) _).imp ?_
    rintro r ⟨-, t, -, hvalue, rfl⟩ scopes Γ - - -
    obtain ⟨n, hn, hlo, hhi⟩ := exists_integer?_of_isNone hvalue
    exact ⟨_, _, rfl, .int hn hlo hhi⟩
  | .char tag spelling, s, _, hfree => by
    rw [Expr.check]
    refine ((judges_reportIf _ _ _).bind fun _ t hgrows =>
      judges_decorate (hgrows.free hfree (by simp)) _).imp ?_
    rintro r ⟨-, t, -, hvalue, rfl⟩ scopes Γ - - -
    exact ⟨_, _, rfl, .char (charOf_le_of_isNone hvalue)⟩
  | .name tag name, s, _, hfree => by
    rw [Expr.check]
    refine Judges.mono (((judges_checkName pending name).bind fun r t hgrows =>
      judges_decorate (hgrows.free hfree.tail (by simp)) r).imp ?_) (by simp [Expr.ids])
    rintro r ⟨_, t, -, hname, rfl⟩ scopes Γ hsit hreal -
    obtain ⟨type, rfl, htype⟩ := hname scopes Γ hsit (by simpa [Expr.events] using hreal)
    exact ⟨type, _, rfl, htype tag⟩
  | .call tag callee argument, s, hnodup, hfree => by
    rw [Expr.check]
    obtain ⟨-, hnodup⟩ := List.nodup_cons.mp hnodup
    refine Judges.mono (((judges_argument links pending argument (List.nodup_append.mp hnodup).1
      hfree.tail.left).bind fun r₁ s₁ hgrows₁ =>
        (judges_checkCall .expression callee argument r₁).bind fun r₂ s₂ hgrows₂ =>
          judges_decorate (hgrows₂.free (hgrows₁.free_right hnodup hfree.tail) (by simp)) r₂).imp ?_)
      (fun id hid => List.mem_cons_of_mem _ (by simpa using hid))
    rintro r ⟨r₁, s₁, -, harg, r₂, s₂, -, hcall, rfl⟩ scopes Γ hsit hreal hshape
    rw [Expr.events, Resolution.realized_cons] at hreal
    obtain ⟨link, -, hlink⟩ := hreal.1.use
    obtain ⟨b, p, result, formal, rfl, hkind, hsite, hformal, rfl⟩ := hcall link hlink
    have hresult : result ≠ .void := by simpa using hsite
    obtain ⟨ds, hds⟩ := harg scopes Γ hsit hreal.2 (by simpa [Expr.shape?] using hshape) formal hformal
    exact ⟨result, _, by simp [callResult, hresult], .call hlink hkind hresult hds⟩
  | .unary tag op operand, s, hnodup, hfree => by
    rw [Expr.check]
    obtain ⟨-, hnodup⟩ := List.nodup_cons.mp hnodup
    refine Judges.mono (((judges_expr links pending operand (List.nodup_append.mp hnodup).1
      hfree.tail.left).bind fun r₁ s₁ hgrows₁ =>
        (judges_checkUnary op r₁ _).bind fun r₂ s₂ hgrows₂ =>
          judges_decorate (hgrows₂.free (hgrows₁.free_right hnodup hfree.tail) (by simp)) r₂).imp ?_)
      (fun id hid => List.mem_cons_of_mem _ (by simpa using hid))
    rintro r ⟨r₁, s₁, -, hoperand, r₂, s₂, -, hop, rfl⟩ scopes Γ hsit hreal hshape
    rw [Expr.events, Resolution.realized_cons] at hreal
    obtain ⟨link, -, hlink⟩ := hreal.1.use
    obtain ⟨type, ds, rfl, htype⟩ :=
      hoperand scopes Γ hsit hreal.2 (by simpa [Expr.shape?] using hshape)
    obtain ⟨b, p, result, rfl, hkind, rfl⟩ := hop link type hlink rfl
    exact ⟨result, _, rfl, .unary hlink hkind htype⟩
  | .binary tag op lhs rhs, s, hnodup, hfree => by
    rw [Expr.check]
    obtain ⟨hnodup₁, hnodup₂, -⟩ := List.nodup_append.mp hnodup
    obtain ⟨-, hnodup₂⟩ := List.nodup_cons.mp hnodup₂
    refine Judges.mono (((judges_expr links pending lhs hnodup₁ hfree.left).bind fun r₁ s₁ hgrows₁ =>
      (judges_expr links pending rhs (List.nodup_append.mp hnodup₂).1
        (hgrows₁.free_right hnodup hfree).tail.left).bind fun r₂ s₂ hgrows₂ =>
        (judges_checkBinary op r₁ r₂ _ _).bind fun r₃ s₃ hgrows₃ =>
          judges_decorate (hgrows₃.free (hgrows₂.free_right hnodup₂
            (hgrows₁.free_right hnodup hfree).tail) (by simp)) r₃).imp ?_)
      (fun id hid => by simp only [Expr.ids, List.mem_append, List.mem_cons] at hid ⊢; grind)
    rintro r ⟨r₁, s₁, hgrows₁, hlhs, r₂, s₂, -, hrhs, r₃, s₃, -, hop, rfl⟩ scopes Γ hsit hreal hshape
    rw [Expr.events, Resolution.realized_append, Resolution.realized_cons] at hreal
    obtain ⟨link, -, hlink⟩ := hreal.2.1.use
    rw [Expr.shape?] at hshape
    have hshapes := isSome_both hshape
    obtain ⟨type, ds, rfl, htype⟩ := hlhs scopes Γ hsit hreal.1 hshapes.1
    obtain ⟨type', ds', rfl, htype'⟩ := hrhs scopes Γ (hsit.grows hgrows₁) hreal.2.2 hshapes.2
    obtain ⟨b, result, rfl, hkind, rfl⟩ := hop link type type' hlink rfl rfl
    exact ⟨result, _, rfl, .binary hlink hkind htype htype'⟩
  | .error tag, s, _, _ => by
    rw [Expr.check]
    exact .pure fun _ _ _ _ hshape => by simp [Expr.shape?] at hshape

theorem judges_argument (links : Resolution) (pending : Option NodeId) : ∀ (a : Argument) {s : State},
    a.ids.Nodup → s.types.Free a.ids → Judges (a.check links pending) s a.ids fun r =>
      ∀ scopes Γ, Situation scopes Γ pending s.types → Realized links (a.events scopes) →
        a.shape?.isSome → ∀ formal, Matches formal r a → ∃ ds, Accepts links Γ formal a ds
  | .blank tag, s, _, _ => by
    rw [Argument.check]
    refine .pure fun scopes Γ _ _ _ formal hformal => ?_
    cases hformal
    exact ⟨[], .none⟩
  | .value tag expr, s, hnodup, hfree => by
    rw [Argument.check]
    have hnodup₁ := (List.nodup_cons.mp hnodup).2
    refine Judges.mono (((judges_expr links pending expr hnodup₁ hfree.tail).bind fun r t hgrows =>
      judges_decorate (hgrows.free_head hnodup hfree) r).imp ?_)
      (fun id hid => by simp only [Argument.ids, List.mem_append, List.mem_cons] at hid ⊢; grind)
    rintro r ⟨r, t, -, hexpr, rfl⟩ scopes Γ hsit hreal hshape formal ⟨f, rfl, hvalue, hactual⟩
    obtain ⟨type, ds, rfl, htype⟩ :=
      hexpr scopes Γ hsit (by simpa only [Argument.events] using hreal)
        (by simpa [Argument.shape?] using hshape)
    cases f
    cases hvalue
    cases hactual type rfl
    exact ⟨_, .value htype⟩
  | .var tag name, s, hnodup, hfree => by
    rw [Argument.check]
    have htag : s.types.Free [tag.id] := hfree.mono (by simp [Argument.ids])
    refine Judges.mono (((judges_checkVariable name).bind fun r t hgrows =>
      judges_decorate (hgrows.free htag (by simp)) r).imp ?_) (by simp [Argument.ids])
    rintro r ⟨_, t, -, hname, rfl⟩ scopes Γ hsit hreal hshape formal ⟨f, rfl, hvar, hactual⟩
    rw [Argument.events] at hreal
    obtain ⟨link, hretrieve, hlink⟩ := hreal.use
    obtain ⟨id, rfl, rfl⟩ := hname link hlink
    obtain ⟨type, htype⟩ : ∃ type, Γ (.var id) = some type := by
      rcases hsit.covers _ _ hretrieve with ⟨b, hb⟩ | h | ⟨i, -, hi⟩
      · cases hb
      · exact h
      · cases hi
    cases f
    cases hvar
    cases hactual type (hsit.recorded.get? htype)
    exact ⟨_, .reference hlink htype⟩
  | .error tag, s, _, _ => by
    rw [Argument.check]
    exact .pure fun _ _ _ _ hshape => by simp [Argument.shape?] at hshape

end

/-! ### Declarations -/

theorem judges_declaration (links : Resolution) (d : SingleDeclaration) {s : State} (hnodup : d.ids.Nodup)
    (hfree : s.types.Free d.ids) : Judges (d.check links) s d.ids fun _ =>
      ∀ scopes Γ, Situation scopes Γ none s.types → Realized links (d.events scopes) →
        d.shape?.isSome → ∃ Γ' ds, Declares links Γ d Γ' ds ∧ Covers (d.scopesAfter scopes) Γ' none := by
  cases d with
  | const tag name value =>
    rw [SingleDeclaration.check]
    have hnodup₁ := (List.nodup_cons.mp (List.nodup_cons.mp hnodup).2).2
    refine Judges.mono (((judges_expr links (some tag.id) value hnodup₁ hfree.tail.tail).bind
      fun r t hgrows => Judges.discard (judges_decorate ((hgrows.mono fun _ hid =>
        List.mem_cons_of_mem name.id hid).free_head hnodup hfree) r)).imp ?_)
      (fun id hid => by simp only [SingleDeclaration.ids, List.mem_append, List.mem_cons] at hid ⊢; grind)
    rintro - ⟨r, t, -, hvalue, -⟩ scopes Γ hsit hreal hshape
    rw [SingleDeclaration.events, Resolution.realized_append] at hreal
    obtain ⟨type, ds, -, htype⟩ := hvalue _ Γ ⟨hsit.covers.pending hreal.1, hsit.recorded⟩ hreal.2
      (by simpa [SingleDeclaration.shape?] using hshape)
    exact ⟨_, _, .const htype, hsit.covers.declare hreal.1 type⟩
  | var tag name denoter =>
    rw [SingleDeclaration.check]
    have hdenoter : s.types.Free [denoter.id] := hfree.mono (by simp [SingleDeclaration.ids])
    have htag : s.types.Free [tag.id] := hfree.mono (by simp [SingleDeclaration.ids])
    have hne : tag.id ≠ denoter.id := by
      simp only [SingleDeclaration.ids, List.nodup_cons, List.mem_cons, not_or] at hnodup
      exact hnodup.1.2.1
    refine Judges.mono (((judges_denoter hdenoter).bind fun r t hgrows =>
      Judges.discard (judges_decorate (hgrows.free htag (by simpa using hne)) r)).imp ?_)
      (by simp [SingleDeclaration.ids])
    rintro - ⟨r, t, -, htype, -⟩ scopes Γ hsit hreal -
    rw [SingleDeclaration.events, Resolution.realized_append] at hreal
    obtain ⟨link, -, hlink⟩ := hreal.2.use
    obtain ⟨b, type, rfl, hkind, -⟩ := htype link hlink
    exact ⟨_, _, .var hlink hkind, hsit.covers.declare hreal.1 type⟩
  | error position =>
    exact .pure fun _ _ _ _ hshape => by simp [SingleDeclaration.shape?] at hshape

theorem judges_declarations (links : Resolution) : ∀ (parts : List SingleDeclaration) {s : State},
    (declarationIds parts).Nodup → s.types.Free (declarationIds parts) →
    Judges (checkDeclarations links parts) s (declarationIds parts) fun _ =>
      ∀ scopes Γ, Situation scopes Γ none s.types → Realized links (declarationEvents scopes parts) →
        (declarationShapes? parts).isSome → ∃ Γ' ds, DeclaresAll links Γ parts Γ' ds ∧
          Covers (scopesAfterDeclarations scopes parts) Γ' none
  | [], s, _, _ => .pure fun scopes Γ hsit _ _ => ⟨Γ, [], .nil, hsit.covers⟩
  | d :: rest, s, hnodup, hfree => by
    rw [checkDeclarations]
    have hnodup₁ := List.nodup_append.mp hnodup
    refine ((judges_declaration links d hnodup₁.1 hfree.left).bind_ok fun _ t hgrows =>
      judges_declarations links rest hnodup₁.2.1 (hgrows.free_right hnodup hfree)).imp ?_
    rintro - ⟨_, t, hok, -, hd, hrest⟩ scopes Γ hsit hreal hshape
    rw [declarationEvents, Resolution.realized_append] at hreal
    rw [declarationShapes?] at hshape
    have hshapes := isSome_both hshape
    obtain ⟨Γ₁, ds, hdeclares, hcovers⟩ := hd scopes Γ hsit hreal.1 hshapes.1
    -- A well-typed declaration is recorded as the rules say, so the rest starts from a known table.
    cases (hdeclares.check_ok hsit.recorded hnodup₁.1 hfree.left).symm.trans hok
    have hrec := hdeclares.recordedIn hsit.recorded hnodup₁.1 hfree.left
    obtain ⟨Γ₂, ds', hdeclares', hcovers'⟩ := hrest _ Γ₁ ⟨hcovers, hrec⟩ hreal.2 hshapes.2
    exact ⟨Γ₂, _, .cons hdeclares hdeclares', hcovers'⟩

theorem isSome_declarationShapes? {d : Declaration} (h : d.shape?.isSome) :
    (declarationShapes? d.parts).isSome := by
  cases d with
  | single d =>
    cases hd : d.shape? with
    | none => simp [Declaration.shape?, hd] at h
    | some x => simp [Declaration.parts, declarationShapes?, hd]
  | sequential position parts => simpa [Declaration.shape?, Declaration.parts] using h

/-! ### Commands -/

/-- A check that an expression has a given type. -/
theorem judges_expected (links : Resolution) {e : Expr} (expected : SimpleType)
    (cause : SimpleType → TypeError) {s : State} (hnodup : e.ids.Nodup) (hfree : s.types.Free e.ids) :
    Judges (do
      match ← e.check links none with
      | some actual => reportIf (actual ≠ expected) e.tag.position (cause actual)
      | none => pure ()) s e.ids fun _ =>
        ∀ scopes Γ, Situation scopes Γ none s.types → Realized links (e.events scopes) →
          e.shape?.isSome → ∃ ds, HasType links Γ e expected ds := by
  have hcompare (r : Option SimpleType) (t : State) : Judges (match r with
      | some actual => reportIf (actual ≠ expected) e.tag.position (cause actual)
      | none => pure ()) t [] fun _ => ∀ type, r = some type → type = expected := by
    cases r with
    | none => exact .pure (by simp)
    | some actual => exact (judges_reportIf _ _ _).imp fun _ h => by simpa using h
  refine Judges.mono (((judges_expr links none e hnodup hfree).bind fun r t _ => hcompare r t).imp ?_)
    (by simp)
  rintro - ⟨r, t, -, hexpr, htype⟩ scopes Γ hsit hreal hshape
  obtain ⟨type, ds, rfl, hds⟩ := hexpr scopes Γ hsit hreal hshape
  cases htype type rfl
  exact ⟨ds, hds⟩

theorem judges_checkCondition (links : Resolution) {condition : Expr} {s : State}
    (hnodup : condition.ids.Nodup) (hfree : s.types.Free condition.ids) :
    Judges (checkCondition links condition) s condition.ids fun _ =>
      ∀ scopes Γ, Situation scopes Γ none s.types → Realized links (condition.events scopes) →
        condition.shape?.isSome → ∃ ds, HasType links Γ condition .boolean ds :=
  judges_expected links .boolean .condition hnodup hfree

theorem judges_checkLoopBound (links : Resolution) {bound : Expr} {s : State} (hnodup : bound.ids.Nodup)
    (hfree : s.types.Free bound.ids) :
    Judges (checkLoopBound links bound) s bound.ids fun _ =>
      ∀ scopes Γ, Situation scopes Γ none s.types → Realized links (bound.events scopes) →
        bound.shape?.isSome → ∃ ds, HasType links Γ bound .integer ds :=
  judges_expected links .integer .loopBound hnodup hfree

/-- The variable of a counting loop gets its type before everything else in the loop. -/
theorem judges_counter {id : NodeId} {s : State} (hfree : s.types.Free [id]) :
    Judges (Typing.assign id .integer) s [id] fun _ => True := by
  refine ⟨(), { s with types := s.types.write id .integer }, ?_, NodeTable.grows_write hfree _, .refl _ _,
    fun _ => trivial⟩
  simp only [Typing.assign, hfree.set]

mutual

theorem judges_command (links : Resolution) : ∀ (c : Command) {s : State}, c.ids.Nodup →
    s.types.Free c.ids → Judges (c.check links) s c.ids fun _ =>
      ∀ scopes Γ, Situation scopes Γ none s.types → Realized links (c.events scopes) →
        c.shape?.isSome → ∃ ds, WellTyped links Γ c ds
  | .assign position target value, s, hnodup, hfree => by
    rw [Command.check]
    have hnodup₁ := (List.nodup_cons.mp hnodup).2
    refine Judges.mono (((judges_expr links none value hnodup₁ hfree.tail).bind fun r t _ =>
      judges_checkAssignment target _ r).imp ?_) (by simp [Command.ids]; grind)
    rintro - ⟨r, t, hgrows, hvalue, hassign⟩ scopes Γ hsit hreal hshape
    rw [Command.events, Resolution.realized_append] at hreal
    obtain ⟨type, ds, rfl, htype⟩ := hvalue scopes Γ hsit hreal.1 (by simpa [Command.shape?] using hshape)
    obtain ⟨link, hretrieve, hlink⟩ := hreal.2.use
    obtain ⟨id, rfl, hsame⟩ := hassign link hlink
    obtain ⟨type', htype'⟩ : ∃ type, Γ (.var id) = some type := by
      rcases hsit.covers _ _ hretrieve with ⟨b, hb⟩ | h | ⟨i, -, hi⟩
      · cases hb
      · exact h
      · cases hi
    cases hsame type' type ((hsit.recorded.grows hgrows).get? htype') rfl
    exact ⟨ds, .assign hlink htype' htype⟩
  | .blank position, s, _, _ => by
    rw [Command.check]
    exact .pure fun _ _ _ _ _ => ⟨[], .blank⟩
  | .call position callee argument, s, hnodup, hfree => by
    rw [Command.check]
    have hnodup₁ := (List.nodup_cons.mp hnodup).2
    refine Judges.mono (((judges_argument links none argument hnodup₁ hfree.tail).bind fun r t _ =>
      Judges.discard (judges_checkCall .command callee argument r)).imp ?_) (by simp [Command.ids]; grind)
    rintro - ⟨r, t, -, harg, _, hcall⟩ scopes Γ hsit hreal hshape
    rw [Command.events, Resolution.realized_append] at hreal
    obtain ⟨link, -, hlink⟩ := hreal.2.use
    obtain ⟨b, p, result, formal, rfl, hkind, hsite, hformal, -⟩ := hcall link hlink
    cases hsite.mp rfl
    obtain ⟨ds, hds⟩ :=
      harg scopes Γ hsit hreal.1 (by simpa [Command.shape?] using hshape) formal hformal
    exact ⟨ds, .call hlink hkind hds⟩
  | .ifThen position condition body, s, hnodup, hfree => by
    rw [Command.check]
    have hnodup₁ := List.nodup_append.mp hnodup
    refine ((judges_checkCondition links hnodup₁.1 hfree.left).bind fun _ t hgrows =>
      judges_command links body hnodup₁.2.1 (hgrows.free_right hnodup hfree)).imp ?_
    rintro - ⟨_, t, hgrows, hcondition, hbody⟩ scopes Γ hsit hreal hshape
    rw [Command.events, Resolution.realized_append] at hreal
    rw [Command.shape?] at hshape
    have hshapes := isSome_both hshape
    obtain ⟨ds, hds⟩ := hcondition scopes Γ hsit hreal.1 hshapes.1
    obtain ⟨ds', hds'⟩ := hbody scopes Γ (hsit.grows hgrows) hreal.2 hshapes.2
    exact ⟨_, .ifThen hds hds'⟩
  | .ifElse position condition positive negative, s, hnodup, hfree => by
    rw [Command.check]
    have hnodup₁ := List.nodup_append.mp hnodup
    have hnodup₂ := List.nodup_append.mp hnodup₁.2.1
    refine ((judges_checkCondition links hnodup₁.1 hfree.left).bind fun _ s₁ hgrows₁ =>
      (judges_command links positive hnodup₂.1 (hgrows₁.free_right hnodup hfree).left).bind
        fun _ s₂ hgrows₂ => judges_command links negative hnodup₂.2.1
          (hgrows₂.free_right hnodup₁.2.1 (hgrows₁.free_right hnodup hfree))).imp ?_
    rintro - ⟨_, s₁, hgrows₁, hcondition, _, s₂, hgrows₂, hpositive, hnegative⟩ scopes Γ hsit hreal hshape
    rw [Command.events, Resolution.realized_append, Resolution.realized_append] at hreal
    rw [Command.shape?] at hshape
    have hshapes := isSome_three hshape
    obtain ⟨ds, hds⟩ := hcondition scopes Γ hsit hreal.1 hshapes.1
    obtain ⟨ds₁, hds₁⟩ := hpositive scopes Γ (hsit.grows hgrows₁) hreal.2.1 hshapes.2.1
    obtain ⟨ds₂, hds₂⟩ := hnegative scopes Γ ((hsit.grows hgrows₁).grows hgrows₂) hreal.2.2 hshapes.2.2
    exact ⟨_, .ifElse hds hds₁ hds₂⟩
  | .while_ position condition body, s, hnodup, hfree => by
    rw [Command.check]
    have hnodup₁ := List.nodup_append.mp hnodup
    refine ((judges_checkCondition links hnodup₁.1 hfree.left).bind fun _ t hgrows =>
      judges_command links body hnodup₁.2.1 (hgrows.free_right hnodup hfree)).imp ?_
    rintro - ⟨_, t, hgrows, hcondition, hbody⟩ scopes Γ hsit hreal hshape
    rw [Command.events, Resolution.realized_append] at hreal
    rw [Command.shape?] at hshape
    have hshapes := isSome_both hshape
    obtain ⟨ds, hds⟩ := hcondition scopes Γ hsit hreal.1 hshapes.1
    obtain ⟨ds', hds'⟩ := hbody scopes Γ (hsit.grows hgrows) hreal.2 hshapes.2
    exact ⟨_, .while_ hds hds'⟩
  | .for_ position counter first last body, s, hnodup, hfree => by
    rw [Command.check]
    obtain ⟨-, hnodup⟩ := List.nodup_cons.mp hnodup
    have hfree := hfree.tail
    have hcounter : s.types.Free [counter.id] := hfree.mono (by simp)
    have hnodup₀ := (List.nodup_cons.mp hnodup).2
    have hnodup₁ := List.nodup_append.mp hnodup₀
    have hnodup₂ := List.nodup_append.mp hnodup₁.2.1
    refine Judges.mono (((judges_counter hcounter).bind_ok fun _ s₀ hgrows₀ =>
      (judges_checkLoopBound links hnodup₁.1 (hgrows₀.free_tail hnodup hfree).left).bind
        fun _ s₁ hgrows₁ => (judges_checkLoopBound links hnodup₂.1
          (hgrows₁.free_right hnodup₀ (hgrows₀.free_tail hnodup hfree)).left).bind
          fun _ s₂ hgrows₂ => judges_command links body hnodup₂.2.1
            (hgrows₂.free_right hnodup₁.2.1
              (hgrows₁.free_right hnodup₀ (hgrows₀.free_tail hnodup hfree)))).imp ?_)
      (fun id hid => List.mem_cons_of_mem _ (by simpa using hid))
    rintro - ⟨_, s₀, hok, hgrows₀, -, _, s₁, hgrows₁, hfirst, _, s₂, hgrows₂, hlast, hbody⟩ scopes Γ hsit
      hreal hshape
    simp only [Command.events, Resolution.realized_append] at hreal
    rw [Command.shape?] at hshape
    have hshapes := isSome_three hshape
    have hget : s₀.types.get? counter.id = some .integer := by
      simp only [Typing.assign, hcounter.set] at hok
      cases hok
      rw [NodeTable.get?_write (hcounter counter.id (by simp)).1, if_pos rfl]
    have hsit₀ : Situation _ (Γ.declare (.var counter.id) .integer) none s₀.types :=
      ⟨hsit.covers.openScope.declare hreal.1 .integer,
        (hsit.recorded.grows hgrows₀).declare (Or.inr rfl) hget⟩
    obtain ⟨ds, hds⟩ := hfirst _ _ hsit₀ hreal.2.1 hshapes.1
    obtain ⟨ds₁, hds₁⟩ := hlast _ _ (hsit₀.grows hgrows₁) hreal.2.2.1 hshapes.2.1
    obtain ⟨ds₂, hds₂⟩ := hbody _ _ ((hsit₀.grows hgrows₁).grows hgrows₂) hreal.2.2.2 hshapes.2.2
    exact ⟨_, .for_ hds hds₁ hds₂⟩
  | .let_ position declaration body, s, hnodup, hfree => by
    rw [Command.check]
    have hnodup₁ := List.nodup_append.mp hnodup
    refine ((judges_declarations links declaration.parts hnodup₁.1 hfree.left).bind_ok fun _ t hgrows =>
      judges_command links body hnodup₁.2.1 (hgrows.free_right hnodup hfree)).imp ?_
    rintro - ⟨_, t, hok, -, hdeclarations, hbody⟩ scopes Γ hsit hreal hshape
    rw [Command.events, Resolution.realized_append] at hreal
    rw [Command.shape?] at hshape
    have hshapes := isSome_both hshape
    obtain ⟨Γ₁, ds, hds, hcovers⟩ :=
      hdeclarations _ Γ ⟨hsit.covers.openScope, hsit.recorded⟩ hreal.1
        (isSome_declarationShapes? hshapes.1)
    obtain ⟨hok', hrec⟩ := hds.check_ok hsit.recorded hnodup₁.1 hfree.left
    cases hok'.symm.trans hok
    obtain ⟨ds', hds'⟩ := hbody _ Γ₁ ⟨hcovers, hrec⟩ hreal.2 hshapes.2
    exact ⟨_, .let_ hds hds'⟩
  | .sequential position parts, s, hnodup, hfree => by
    rw [Command.check]
    rw [Command.ids] at hnodup hfree ⊢
    refine (judges_commands links parts hnodup hfree).imp fun _ hparts scopes Γ hsit hreal hshape => ?_
    obtain ⟨ds, hds⟩ := hparts scopes Γ hsit (by simpa only [Command.events] using hreal)
      (by simpa [Command.shape?] using hshape)
    exact ⟨ds, .sequential hds⟩
  | .error position, s, _, _ => by
    rw [Command.check]
    exact .pure fun _ _ _ _ hshape => by simp [Command.shape?] at hshape

theorem judges_commands (links : Resolution) : ∀ (cs : List Command) {s : State}, (commandIds cs).Nodup →
    s.types.Free (commandIds cs) → Judges (checkCommands links cs) s (commandIds cs) fun _ =>
      ∀ scopes Γ, Situation scopes Γ none s.types → Realized links (commandEvents scopes cs) →
        (commandShapes? cs).isSome → ∃ ds, AllWellTyped links Γ cs ds
  | [], s, _, _ => by
    rw [checkCommands]
    exact .pure fun _ _ _ _ _ => ⟨[], .nil⟩
  | c :: rest, s, hnodup, hfree => by
    rw [checkCommands]
    rw [commandIds] at hnodup hfree ⊢
    have hnodup₁ := List.nodup_append.mp hnodup
    refine ((judges_command links c hnodup₁.1 hfree.left).bind fun _ t hgrows =>
      judges_commands links rest hnodup₁.2.1 (hgrows.free_right hnodup hfree)).imp ?_
    rintro - ⟨_, t, hgrows, hc, hrest⟩ scopes Γ hsit hreal hshape
    rw [commandEvents, Resolution.realized_append] at hreal
    rw [commandShapes?] at hshape
    have hshapes := isSome_both hshape
    obtain ⟨ds, hds⟩ := hc scopes Γ hsit hreal.1 hshapes.1
    obtain ⟨ds', hds'⟩ := hrest scopes Γ (hsit.grows hgrows) hreal.2 hshapes.2
    exact ⟨_, .cons hds hds'⟩

end

end TriangleCompiler.Typing
