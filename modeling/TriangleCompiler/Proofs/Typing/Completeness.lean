import TriangleCompiler.Proofs.Parser.Numbering
import TriangleCompiler.Proofs.Passes
import TriangleCompiler.Proofs.Typing.Rules
import TriangleCompiler.Typing

/-! A well-typed program passes the check: nothing is reported, and the types that the rules give are the
    ones that are recorded. -/

namespace TriangleCompiler.Typing

open NodeTable (Free Grows)

/-! ### Nodes that the rules give types to -/

mutual

theorem HasType.within {links : Resolution} {Γ : Environment} {e : Expr} {type : SimpleType}
    {ds : Decoration} : HasType links Γ e type ds → Within (ds.map Prod.fst) e.ids
  | .int _ _ _ | .char _ => fun id => by simp [Expr.ids]
  | .truth _ _ | .declared _ _ => fun id => by
    simp only [Expr.ids, List.map_cons, List.map_nil, List.count_cons, List.count_nil]
    omega
  | .call _ _ _ ha => fun id => by
    have harg := ha.within id
    simp only [Expr.ids, List.map_append, List.map_cons, List.map_nil, List.count_append, List.count_cons]
    omega
  | .unary _ _ h => fun id => by
    have hoperand := h.within id
    simp only [Expr.ids, List.map_append, List.map_cons, List.map_nil, List.count_append, List.count_cons]
    omega
  | .binary _ _ h₁ h₂ => fun id => by
    have hlhs := h₁.within id
    have hrhs := h₂.within id
    simp only [Expr.ids, List.map_append, List.map_cons, List.map_nil, List.count_append, List.count_cons]
    omega

theorem Accepts.within {links : Resolution} {Γ : Environment} {formal : Option Builtin.Formal}
    {a : Argument} {ds : Decoration} : Accepts links Γ formal a ds → Within (ds.map Prod.fst) a.ids
  | .none => fun id => by simp
  | .value h => fun id => by
    have hexpr := h.within id
    simp only [Argument.ids, List.map_append, List.map_cons, List.map_nil, List.count_append,
      List.count_cons, List.count_nil]
    omega
  | .reference _ _ => fun id => by
    simp only [Argument.ids, List.map_cons, List.map_nil, List.count_cons, List.count_nil]
    omega

end

theorem Declares.within {links : Resolution} {Γ Γ' : Environment} {d : SingleDeclaration}
    {ds : Decoration} (h : Declares links Γ d Γ' ds) : Within (ds.map Prod.fst) d.ids := by
  intro id
  cases h with
  | const h =>
    have hvalue := h.within id
    simp only [SingleDeclaration.ids, List.map_append, List.map_cons, List.map_nil, List.count_append,
      List.count_cons, List.count_nil]
    omega
  | var =>
    simp only [SingleDeclaration.ids, List.map_cons, List.map_nil, List.count_cons, List.count_nil]
    omega

theorem DeclaresAll.within {links : Resolution} {Γ Γ' : Environment} {parts : List SingleDeclaration}
    {ds : Decoration} (h : DeclaresAll links Γ parts Γ' ds) :
    Within (ds.map Prod.fst) (declarationIds parts) := by
  intro id
  induction h with
  | nil => exact Nat.le_refl _
  | cons hd _ ih =>
    have hfirst := hd.within id
    simp only [declarationIds, List.map_append, List.count_append]
    omega

mutual

theorem WellTyped.within {links : Resolution} {Γ : Environment} {c : Command} {ds : Decoration} :
    WellTyped links Γ c ds → Within (ds.map Prod.fst) c.ids
  | .assign _ _ h => fun id => by
    have hvalue := h.within id
    simp only [Command.ids, List.count_cons]
    omega
  | .blank => fun id => by simp
  | .call _ _ h => fun id => by
    have harg := h.within id
    simp only [Command.ids, List.count_cons]
    omega
  | .ifThen h₁ h₂ | .while_ h₁ h₂ => fun id => by
    have hcondition := h₁.within id
    have hbody := h₂.within id
    simp only [Command.ids, List.map_append, List.count_append]
    omega
  | .ifElse h₁ h₂ h₃ => fun id => by
    have hcondition := h₁.within id
    have hpositive := h₂.within id
    have hnegative := h₃.within id
    simp only [Command.ids, List.map_append, List.count_append]
    omega
  | .for_ h₁ h₂ h₃ => fun id => by
    have hfirst := h₁.within id
    have hlast := h₂.within id
    have hbody := h₃.within id
    simp only [Command.ids, List.map_append, List.map_cons, List.count_append, List.count_cons]
    omega
  | .let_ h₁ h₂ => fun id => by
    have hdeclarations := h₁.within id
    have hbody := h₂.within id
    simp only [Command.ids, List.map_append, List.count_append]
    omega
  | .sequential h => fun id => by
    have hparts := h.within id
    simpa only [Command.ids] using hparts

theorem AllWellTyped.within {links : Resolution} {Γ : Environment} {cs : List Command} {ds : Decoration} :
    AllWellTyped links Γ cs ds → Within (ds.map Prod.fst) (commandIds cs)
  | .nil => fun id => by simp
  | .cons h₁ h₂ => fun id => by
    have hfirst := h₁.within id
    have hrest := h₂.within id
    simp only [commandIds, List.map_append, List.count_append]
    omega

end

/-! ### What is recorded of an environment -/

/-- The table has the types of everything that is declared. -/
def Environment.RecordedIn (Γ : Environment) (types : Types) : Prop :=
  ∀ link type, Γ link = some type →
    ∃ id, (link = .const id ∨ link = .var id) ∧ types.get? id = some type

namespace Environment
variable {Γ : Environment} {t u : Types} {ids : List NodeId} {id : NodeId} {type : SimpleType}

theorem recordedIn_empty (t : Types) : Environment.empty.RecordedIn t := fun _ _ h => by cases h

theorem RecordedIn.grows (h : Γ.RecordedIn t) (hgrows : Grows t u ids) : Γ.RecordedIn u := by
  intro link type hlink
  obtain ⟨id, hid, hget⟩ := h link type hlink
  exact ⟨id, hid, hgrows.keeps id type hget⟩

theorem RecordedIn.declare (h : Γ.RecordedIn t) {link : Link} (hlink : link = .const id ∨ link = .var id)
    (hget : t.get? id = some type) : (Γ.declare link type).RecordedIn t := by
  intro link' type' h'
  unfold Environment.declare at h'
  split at h'
  · rename_i heq
    cases h'
    exact ⟨id, heq ▸ hlink, hget⟩
  · exact h link' type' h'

/-- What has no type yet is not declared yet. -/
theorem RecordedIn.eq_none (h : Γ.RecordedIn t) {link : Link} (hlink : link = .const id ∨ link = .var id)
    (hget : t.get? id = none) : Γ link = none := by
  cases hΓ : Γ link with
  | none => rfl
  | some type =>
    obtain ⟨id', hid', hget'⟩ := h link type hΓ
    have : id' = id := by rcases hlink with rfl | rfl <;> simp_all
    rw [this, hget] at hget'
    cases hget'

theorem RecordedIn.get? (h : Γ.RecordedIn t) (hΓ : Γ (.var id) = some type) : t.get? id = some type := by
  obtain ⟨id', hid', hget⟩ := h _ _ hΓ
  simp only [reduceCtorEq, Link.var.injEq, false_or] at hid'
  rwa [hid']

end Environment

/-! ### Checks that find nothing -/

variable {links : Resolution} {Γ : Environment} {s : State}

theorem decorate_ok {id : NodeId} (hfree : s.types.Free [id]) (type : SimpleType) :
    decorate id (some type) s = .ok (some type) { s with types := s.types.write id type } := by
  have hassign : assign id type s = .ok () { s with types := s.types.write id type } := by
    simp only [assign, hfree.set]
  rw [decorate, Pass.bind_of_ok hassign]
  rfl

theorem checkName_truth {name : Name} {b : Builtin} {type : SimpleType} {value : Machine.Word}
    (hlink : links.get? name.id = some (.builtin b)) (hkind : b.kind = .constant type value)
    (pending : Option NodeId) : checkName links pending name s = .ok (some type) s := by
  simp only [checkName, hlink, hkind]
  rfl

theorem checkName_declared {name : Name} {link : Link} {type : SimpleType} {pending : Option NodeId}
    (hlink : links.get? name.id = some link) (hΓ : Γ link = some type) (hrec : Γ.RecordedIn s.types)
    (hpending : ∀ i, pending = some i → Γ (.const i) = none) :
    checkName links pending name s = .ok (some type) s := by
  obtain ⟨id, rfl | rfl, hget⟩ := hrec link type hΓ
  · have hne : pending ≠ some id := by
      intro h
      rw [hpending id h] at hΓ
      cases hΓ
    simp only [checkName, hlink, if_neg hne, typeOf, hget]
  · simp only [checkName, hlink, typeOf, hget]

theorem checkVariable_ok {name : Name} {id : NodeId} {type : SimpleType}
    (hlink : links.get? name.id = some (.var id)) (hget : s.types.get? id = some type) :
    checkVariable links name s = .ok (some type) s := by
  simp only [checkVariable, hlink, typeOf, hget]

theorem checkUnary_ok {op : Name} {b : Builtin} {p : Machine.Primitive} {type result : SimpleType}
    (hlink : links.get? op.id = some (.builtin b)) (hkind : b.kind = .unary p type result)
    (position : Position) : checkUnary links op (some type) position s = .ok (some result) s := by
  simp [checkUnary, hlink, hkind, checkOperand, reportIf]

theorem checkBinary_ok {op : Name} {b : Builtin} {type type' result : SimpleType}
    (hlink : links.get? op.id = some (.builtin b)) (hkind : TakesOperands b.kind type type' result)
    (position position' : Position) :
    checkBinary links op (some type) (some type') position position' s = .ok (some result) s := by
  simp only [checkBinary, hlink]
  generalize b.kind = kind at hkind
  cases hkind with
  | declared hany =>
    cases type <;> simp_all [checkOperand, reportIf]
  | same => simp [checkSame, reportIf]

theorem checkFormal_ok {formal : Option Builtin.Formal} {argument : Argument} {ds : Decoration}
    (h : Accepts links Γ formal argument ds) (callee : Name) :
    checkFormal callee formal argument (formal.map (·.type)) s = .ok () s := by
  cases h <;> simp [checkFormal, checkPassing, checkArgumentType, reportIf]

theorem checkCall_expression {callee : Name} {b : Builtin} {p : Machine.Primitive} {result : SimpleType}
    {formal : Option Builtin.Formal} {argument : Argument} {ds : Decoration}
    (hlink : links.get? callee.id = some (.builtin b)) (hkind : b.kind = .routine p result formal)
    (hresult : result ≠ .void) (h : Accepts links Γ formal argument ds) :
    checkCall links .expression callee argument (formal.map (·.type)) s = .ok (some result) s := by
  have hsite : checkSite callee result .expression s = .ok () s := by simp [checkSite, reportIf, hresult]
  simp only [checkCall, hlink, hkind, callResult, if_neg hresult]
  rw [Pass.bind_of_ok hsite, Pass.bind_of_ok (checkFormal_ok h callee)]
  rfl

theorem checkCall_command {callee : Name} {b : Builtin} {p : Machine.Primitive}
    {formal : Option Builtin.Formal} {argument : Argument} {ds : Decoration}
    (hlink : links.get? callee.id = some (.builtin b)) (hkind : b.kind = .routine p .void formal)
    (h : Accepts links Γ formal argument ds) :
    checkCall links .command callee argument (formal.map (·.type)) s = .ok none s := by
  have hsite : checkSite callee .void .command s = .ok () s := by simp [checkSite, reportIf]
  simp only [checkCall, hlink, hkind, callResult]
  rw [Pass.bind_of_ok hsite, Pass.bind_of_ok (checkFormal_ok h callee)]
  rfl

/-! ### Expressions -/

mutual

theorem HasType.check_ok {links : Resolution} {Γ : Environment} {e : Expr} {type : SimpleType}
    {ds : Decoration} : HasType links Γ e type ds → ∀ {s : State} (pending : Option NodeId),
      Γ.RecordedIn s.types → (∀ i, pending = some i → Γ (.const i) = none) → e.ids.Nodup →
      s.types.Free e.ids →
      e.check links pending s = .ok (some type) { s with types := s.types.writeAll ds }
  | .int hn hlo hhi, s, pending, _, _, _, hfree => by
    rw [Expr.check, reportIf, intValue?_eq hn hlo hhi]
    exact decorate_ok hfree _
  | .char h, s, pending, _, _, _, hfree => by
    rw [Expr.check, reportIf, charValue?_eq h]
    exact decorate_ok hfree _
  | .truth hlink hkind, s, pending, _, _, _, hfree => by
    rw [Expr.check, Pass.bind_of_ok (checkName_truth hlink hkind pending)]
    exact decorate_ok hfree.tail _
  | .declared hlink hΓ, s, pending, hrec, hpending, _, hfree => by
    rw [Expr.check, Pass.bind_of_ok (checkName_declared hlink hΓ hrec hpending)]
    exact decorate_ok hfree.tail _
  | .call hlink hkind hresult ha, s, pending, hrec, hpending, hnodup, hfree => by
    obtain ⟨-, hnodup⟩ := List.nodup_cons.mp hnodup
    have harg := ha.check_ok pending hrec hpending (List.nodup_append.mp hnodup).1 hfree.tail.left
    have hgrows := hfree.tail.left.grows_writeAll (List.nodup_append.mp hnodup).1 ha.within
    rw [Expr.check, Pass.bind_of_ok harg,
      Pass.bind_of_ok (checkCall_expression hlink hkind hresult ha),
      decorate_ok (hgrows.free_right hnodup hfree.tail), NodeTable.writeAll_append]
    rfl
  | .unary hlink hkind h, s, pending, hrec, hpending, hnodup, hfree => by
    obtain ⟨-, hnodup⟩ := List.nodup_cons.mp hnodup
    have hoperand := h.check_ok pending hrec hpending (List.nodup_append.mp hnodup).1 hfree.tail.left
    have hgrows := hfree.tail.left.grows_writeAll (List.nodup_append.mp hnodup).1 h.within
    rw [Expr.check, Pass.bind_of_ok hoperand, Pass.bind_of_ok (checkUnary_ok hlink hkind _),
      decorate_ok (hgrows.free_right hnodup hfree.tail), NodeTable.writeAll_append]
    rfl
  | .binary hlink hkind h₁ h₂, s, pending, hrec, hpending, hnodup, hfree => by
    obtain ⟨hnodup₁, hnodup₂, -⟩ := List.nodup_append.mp hnodup
    obtain ⟨-, hnodup₂⟩ := List.nodup_cons.mp hnodup₂
    have hlhs := h₁.check_ok pending hrec hpending hnodup₁ hfree.left
    have hgrows₁ := hfree.left.grows_writeAll hnodup₁ h₁.within
    have hfree₁ := (hgrows₁.free_right hnodup hfree).tail
    have hrhs := h₂.check_ok (s := { s with types := s.types.writeAll _ }) pending (hrec.grows hgrows₁) hpending
      (List.nodup_append.mp hnodup₂).1 hfree₁.left
    have hgrows₂ := hfree₁.left.grows_writeAll (List.nodup_append.mp hnodup₂).1 h₂.within
    rw [Expr.check, Pass.bind_of_ok hlhs, Pass.bind_of_ok hrhs,
      Pass.bind_of_ok (checkBinary_ok hlink hkind _ _),
      decorate_ok (hgrows₂.free_right hnodup₂ hfree₁), NodeTable.writeAll_append, NodeTable.writeAll_append]
    rfl

theorem Accepts.check_ok {links : Resolution} {Γ : Environment} {formal : Option Builtin.Formal}
    {a : Argument} {ds : Decoration} : Accepts links Γ formal a ds →
      ∀ {s : State} (pending : Option NodeId), Γ.RecordedIn s.types →
      (∀ i, pending = some i → Γ (.const i) = none) → a.ids.Nodup → s.types.Free a.ids →
      a.check links pending s = .ok (formal.map (·.type)) { s with types := s.types.writeAll ds }
  | .none, s, pending, _, _, _, _ => by rw [Argument.check]; rfl
  | .value h, s, pending, hrec, hpending, hnodup, hfree => by
    have hnodup₁ := (List.nodup_cons.mp hnodup).2
    have hexpr := h.check_ok pending hrec hpending hnodup₁ hfree.tail
    have hgrows := hfree.tail.grows_writeAll hnodup₁ h.within
    rw [Argument.check, Pass.bind_of_ok hexpr, decorate_ok (hgrows.free_head hnodup hfree),
      NodeTable.writeAll_append]
    rfl
  | .reference hlink hΓ, s, pending, hrec, _, _, hfree => by
    rw [Argument.check, Pass.bind_of_ok (checkVariable_ok hlink (hrec.get? hΓ))]
    exact decorate_ok (hfree.mono (by simp [Argument.ids])) _

end

/-! ### Declarations -/

/-- What is declared last is found in the table. -/
theorem get?_writeAll_last {t : Types} {ids : List NodeId} (ds : Decoration) {id : NodeId}
    {type : SimpleType} (hfree : t.Free ids) (hnodup : ids.Nodup)
    (hds : Within ((ds ++ [(id, type)]).map Prod.fst) ids) :
    (t.writeAll (ds ++ [(id, type)])).get? id = some type :=
  (NodeTable.get?_writeAll (hds.nodup hnodup) (hfree.mono fun _ => hds.mem)).mpr (Or.inl (by simp))

theorem Declares.recordedIn {Γ' : Environment} {d : SingleDeclaration} {ds : Decoration}
    (h : Declares links Γ d Γ' ds) {t : Types} (hrec : Γ.RecordedIn t) (hnodup : d.ids.Nodup)
    (hfree : t.Free d.ids) : Γ'.RecordedIn (t.writeAll ds) := by
  have hwithin := h.within
  have hrec' := hrec.grows (hfree.grows_writeAll hnodup hwithin)
  cases h with
  | const _ => exact hrec'.declare (Or.inl rfl) (get?_writeAll_last _ hfree hnodup hwithin)
  | var _ _ =>
    refine hrec'.declare (Or.inr rfl) ?_
    exact get?_writeAll_last [_] hfree hnodup hwithin

theorem Declares.check_ok {Γ' : Environment} {d : SingleDeclaration} {ds : Decoration}
    (h : Declares links Γ d Γ' ds) (hrec : Γ.RecordedIn s.types) (hnodup : d.ids.Nodup)
    (hfree : s.types.Free d.ids) :
    d.check links s = .ok () { s with types := s.types.writeAll ds } := by
  cases h with
  | @const tag name value type ds h =>
    have hnodup₁ := (List.nodup_cons.mp (List.nodup_cons.mp hnodup).2).2
    have hpending : ∀ i, some tag.id = some i → Γ (.const i) = none := by
      rintro i ⟨⟩
      exact hrec.eq_none (Or.inl rfl) (hfree tag.id (by simp [SingleDeclaration.ids])).2
    have hvalue := h.check_ok (some tag.id) hrec hpending hnodup₁ hfree.tail.tail
    have hgrows := hfree.tail.tail.grows_writeAll hnodup₁ h.within
    have htag := (hgrows.mono (fun _ hid => List.mem_cons_of_mem name.id hid)).free_head hnodup hfree
    rw [SingleDeclaration.check, Pass.bind_of_ok hvalue, Pass.discard_of_ok (decorate_ok htag type),
      NodeTable.writeAll_append]
    rfl
  | @var tag name denoter b type hlink hkind =>
    have hdenoter : denoter.check links s =
        .ok (some type) { s with types := s.types.write denoter.id type } := by
      simp only [TypeDenoter.check, hlink, hkind]
      exact decorate_ok (hfree.mono (by simp [SingleDeclaration.ids])) type
    have hid : s.types.Free [denoter.id] := hfree.mono (by simp [SingleDeclaration.ids])
    have htag : (s.types.write denoter.id type).Free [tag.id] := by
      refine (NodeTable.grows_write hid type).free (hfree.mono (by simp [SingleDeclaration.ids])) ?_
      simp only [SingleDeclaration.ids, List.nodup_cons, List.mem_cons, not_or] at hnodup
      simpa using hnodup.1.2.1
    rw [SingleDeclaration.check, Pass.bind_of_ok hdenoter, Pass.discard_of_ok (decorate_ok htag type)]
    rfl

theorem DeclaresAll.check_ok {Γ Γ' : Environment} {parts : List SingleDeclaration} {ds : Decoration}
    {s : State} (h : DeclaresAll links Γ parts Γ' ds) (hrec : Γ.RecordedIn s.types)
    (hnodup : (declarationIds parts).Nodup) (hfree : s.types.Free (declarationIds parts)) :
    checkDeclarations links parts s = .ok () { s with types := s.types.writeAll ds } ∧
      Γ'.RecordedIn (s.types.writeAll ds) := by
  induction h generalizing s with
  | nil => exact ⟨rfl, hrec⟩
  | cons hd _ ih =>
    have hnodup₁ := List.nodup_append.mp hnodup
    have hgrows := hfree.left.grows_writeAll hnodup₁.1 hd.within
    obtain ⟨hrest, hrec'⟩ := ih (s := { s with types := s.types.writeAll _ })
      (hd.recordedIn hrec hnodup₁.1 hfree.left) hnodup₁.2.1 (hgrows.free_right hnodup hfree)
    rw [checkDeclarations, Pass.bind_of_ok (hd.check_ok hrec hnodup₁.1 hfree.left), hrest,
      NodeTable.writeAll_append]
    exact ⟨rfl, hrec'⟩

/-! ### Commands -/

theorem checkCondition_ok {condition : Expr} {ds : Decoration} (h : HasType links Γ condition .boolean ds)
    (hrec : Γ.RecordedIn s.types) (hnodup : condition.ids.Nodup) (hfree : s.types.Free condition.ids) :
    checkCondition links condition s = .ok () { s with types := s.types.writeAll ds } := by
  have hcheck := h.check_ok none hrec (by simp) hnodup hfree
  rw [checkCondition, Pass.bind_of_ok hcheck]
  simp [reportIf]

theorem checkLoopBound_ok {bound : Expr} {ds : Decoration} (h : HasType links Γ bound .integer ds)
    (hrec : Γ.RecordedIn s.types) (hnodup : bound.ids.Nodup) (hfree : s.types.Free bound.ids) :
    checkLoopBound links bound s = .ok () { s with types := s.types.writeAll ds } := by
  have hcheck := h.check_ok none hrec (by simp) hnodup hfree
  rw [checkLoopBound, Pass.bind_of_ok hcheck]
  simp [reportIf]

theorem checkAssignment_ok {target : Name} {id : NodeId} {type : SimpleType}
    (hlink : links.get? target.id = some (.var id)) (hget : s.types.get? id = some type)
    (position : Position) : checkAssignment links target position (some type) s = .ok () s := by
  have htype : typeOf id s = .ok (some type) s := by rw [typeOf, hget]
  simp only [checkAssignment, hlink]
  rw [Pass.bind_of_ok htype]
  simp [reportIf]

mutual

theorem WellTyped.check_ok {links : Resolution} {Γ : Environment} {c : Command} {ds : Decoration} :
    WellTyped links Γ c ds → ∀ {s : State}, Γ.RecordedIn s.types → c.ids.Nodup → s.types.Free c.ids →
      c.check links s = .ok () { s with types := s.types.writeAll ds }
  | .assign hlink hΓ h, s, hrec, hnodup, hfree => by
    have hnodup₁ := (List.nodup_cons.mp hnodup).2
    have hvalue := h.check_ok none hrec (by simp) hnodup₁ hfree.tail
    have hgrows := hfree.tail.grows_writeAll hnodup₁ h.within
    have hget := (hrec.grows hgrows).get? hΓ
    rw [Command.check, Pass.bind_of_ok hvalue]
    exact checkAssignment_ok hlink hget _
  | .blank, s, _, _, _ => by rw [Command.check]; rfl
  | .call hlink hkind h, s, hrec, hnodup, hfree => by
    have harg := h.check_ok none hrec (by simp) (List.nodup_cons.mp hnodup).2 hfree.tail
    rw [Command.check, Pass.bind_of_ok harg, Pass.discard_of_ok (checkCall_command hlink hkind h)]
  | .ifThen h₁ h₂, s, hrec, hnodup, hfree | .while_ h₁ h₂, s, hrec, hnodup, hfree => by
    have hnodup₁ := List.nodup_append.mp hnodup
    have hgrows := hfree.left.grows_writeAll hnodup₁.1 h₁.within
    have hbody := h₂.check_ok (s := { s with types := s.types.writeAll _ }) (hrec.grows hgrows)
      hnodup₁.2.1 (hgrows.free_right hnodup hfree)
    rw [Command.check, Pass.bind_of_ok (checkCondition_ok h₁ hrec hnodup₁.1 hfree.left), hbody,
      NodeTable.writeAll_append]
  | .ifElse h₁ h₂ h₃, s, hrec, hnodup, hfree => by
    have hnodup₁ := List.nodup_append.mp hnodup
    have hnodup₂ := List.nodup_append.mp hnodup₁.2.1
    have hgrows₁ := hfree.left.grows_writeAll hnodup₁.1 h₁.within
    have hrec₁ := hrec.grows hgrows₁
    have hfree₁ := hgrows₁.free_right hnodup hfree
    have hpositive := h₂.check_ok (s := { s with types := s.types.writeAll _ }) hrec₁ hnodup₂.1 hfree₁.left
    have hgrows₂ := hfree₁.left.grows_writeAll hnodup₂.1 h₂.within
    have hnegative := h₃.check_ok (s := { s with types := (s.types.writeAll _).writeAll _ })
      (hrec₁.grows hgrows₂) hnodup₂.2.1 (hgrows₂.free_right hnodup₁.2.1 hfree₁)
    rw [Command.check, Pass.bind_of_ok (checkCondition_ok h₁ hrec hnodup₁.1 hfree.left),
      Pass.bind_of_ok hpositive, hnegative, NodeTable.writeAll_append, NodeTable.writeAll_append]
  | @WellTyped.for_ _ Γ _ counter _ _ _ ds ds₁ ds₂ h₁ h₂ h₃, s, hrec, hnodup, hfree => by
    obtain ⟨-, hnodup⟩ := List.nodup_cons.mp hnodup
    have hfree := hfree.tail
    have hcounter : s.types.Free [counter.id] := hfree.mono (by simp)
    have hassign : Typing.assign counter.id .integer s =
        .ok () { s with types := s.types.write counter.id .integer } := by
      simp only [Typing.assign, hcounter.set]
    have hgrows := NodeTable.grows_write hcounter SimpleType.integer
    have hget : (s.types.write counter.id .integer).get? counter.id = some .integer := by
      rw [NodeTable.get?_write (hcounter counter.id (by simp)).1, if_pos rfl]
    have hrec₀ := (hrec.grows hgrows).declare (Or.inr rfl) hget
    have hfree₀ := hgrows.free_tail hnodup hfree
    obtain ⟨-, hnodup₀⟩ := List.nodup_cons.mp hnodup
    have hnodup₁ := List.nodup_append.mp hnodup₀
    have hnodup₂ := List.nodup_append.mp hnodup₁.2.1
    have hfirst := checkLoopBound_ok (s := { s with types := s.types.write counter.id .integer }) h₁ hrec₀
      hnodup₁.1 hfree₀.left
    have hgrows₁ := hfree₀.left.grows_writeAll hnodup₁.1 h₁.within
    have hrec₁ := hrec₀.grows hgrows₁
    have hfree₁ := hgrows₁.free_right hnodup₀ hfree₀
    have hlast := checkLoopBound_ok
      (s := { s with types := (s.types.write counter.id .integer).writeAll ds }) h₂ hrec₁ hnodup₂.1
      hfree₁.left
    have hgrows₂ := hfree₁.left.grows_writeAll hnodup₂.1 h₂.within
    have hbody := h₃.check_ok
      (s := { s with types := ((s.types.write counter.id .integer).writeAll ds).writeAll ds₁ })
      (hrec₁.grows hgrows₂) hnodup₂.2.1 (hgrows₂.free_right hnodup₁.2.1 hfree₁)
    rw [Command.check, Pass.bind_of_ok hassign, Pass.bind_of_ok hfirst, Pass.bind_of_ok hlast, hbody,
      NodeTable.writeAll, NodeTable.writeAll_append, NodeTable.writeAll_append]
  | .let_ h₁ h₂, s, hrec, hnodup, hfree => by
    have hnodup₁ := List.nodup_append.mp hnodup
    obtain ⟨hdeclarations, hrec₁⟩ := h₁.check_ok hrec hnodup₁.1 hfree.left
    have hgrows := hfree.left.grows_writeAll hnodup₁.1 h₁.within
    have hbody := h₂.check_ok (s := { s with types := s.types.writeAll _ }) hrec₁ hnodup₁.2.1
      (hgrows.free_right hnodup hfree)
    rw [Command.check, Pass.bind_of_ok hdeclarations, hbody, NodeTable.writeAll_append]
  | .sequential h, s, hrec, hnodup, hfree => by
    rw [Command.check]
    exact h.check_ok hrec (by simpa only [Command.ids] using hnodup)
      (by simpa only [Command.ids] using hfree)

theorem AllWellTyped.check_ok {links : Resolution} {Γ : Environment} {cs : List Command}
    {ds : Decoration} : AllWellTyped links Γ cs ds → ∀ {s : State}, Γ.RecordedIn s.types →
      (commandIds cs).Nodup → s.types.Free (commandIds cs) →
      checkCommands links cs s = .ok () { s with types := s.types.writeAll ds }
  | .nil, s, _, _, _ => by rw [checkCommands]; rfl
  | .cons h₁ h₂, s, hrec, hnodup, hfree => by
    have hnodup₁ := List.nodup_append.mp hnodup
    have hgrows := hfree.left.grows_writeAll hnodup₁.1 h₁.within
    have hrest := h₂.check_ok (s := { s with types := s.types.writeAll _ }) (hrec.grows hgrows)
      hnodup₁.2.1 (hgrows.free_right hnodup hfree)
    rw [checkCommands, Pass.bind_of_ok (h₁.check_ok hrec hnodup₁.1 hfree.left), hrest,
      NodeTable.writeAll_append]

end

end TriangleCompiler.Typing
