import TriangleCompiler.Proofs.Resolution.Renaming
import TriangleCompiler.Proofs.Typing.Correctness
import TriangleCompiler.Proofs.Typing.Frames
import TriangleCompiler.Token.Lexer

/-! Expressions without a type do no further harm. An expression that is left without a type may be replaced by
    an error node: what was reported while it was checked is then missing, and nothing else changes. The two
    checks run side by side; behind the expression their states differ in the types of its nodes, which nothing
    looks up because no name is linked to them, and in what was reported of it. -/

namespace TriangleCompiler

open NodeTable (Grows)
open Pass (Follows)
open Resolution Scoping Typing

/-! ### The declarations that names are linked to -/

theorem Scoping.exists_of_target? {P : Link → Prop} {scopes : List Declared} {spelling : String} {link : Link}
    (h : ∀ scope ∈ scopes, ∀ entry ∈ scope, P entry.2) (hlink : target? scopes spelling = some link) :
    P link ∨ ∃ b, link = .builtin b := by
  induction scopes with
  | nil =>
    obtain ⟨b, -, rfl⟩ := Option.map_eq_some_iff.mp hlink
    exact .inr ⟨b, rfl⟩
  | cons scope scopes ih =>
    obtain ⟨hscope, hscopes⟩ := List.forall_mem_cons.mp h
    rw [target?_cons] at hlink
    rcases Option.or_eq_some_iff.mp hlink with hlookup | ⟨-, hlink⟩
    · exact .inl (hscope _ (mem_of_lookup hlookup))
    · exact ih hscopes hlink

/-- With or without errors, a name that is linked to a declaration is linked to one of the program. -/
theorem Program.leadsTo_binders {p : Program} {s : Resolution.State}
    (hids : Parser.Counted p.command.ids 0 p.nodeCount) (hs : p.resolve.finalState (.start p) = .ok s) :
    s.links.LeadsTo fun node => ∃ b ∈ p.binders, node ∈ b.ids := by
  have hsee : AllSee (fun scope => ∀ entry ∈ scope, ∃ b ∈ p.binders, b.link = entry.2) p.occurrences := by
    refine p.command.allSee (List.forall_mem_nil _) (List.forall_mem_nil _) fun b scope hb _ hscope => ?_
    exact List.forall_mem_append.mpr ⟨hscope, List.forall_mem_singleton.mpr ⟨b, hb, rfl⟩⟩
  have hevents : p.command.events .standard = eventsOf p.occurrences := p.command.events_eq mirrors_standard
  obtain ⟨s', hs', -, hget⟩ := Program.resolve_eq hids
  cases hs.symm.trans hs'
  intro id node hlink
  have hbinder : ∀ link, s.links.get? id = some link →
      (∃ b ∈ p.binders, b.link = link) ∨ ∃ b, link = .builtin b := by
    intro link hlink
    rw [hget, hevents] at hlink
    obtain ⟨o, ho, -, hlink⟩ := mem_bindings_eventsOf.mp hlink
    cases o with
    | declaration => cases hlink
    | use name scopes =>
      exact exists_of_target? (P := fun link => ∃ b ∈ p.binders, b.link = link) (hsee _ ho) hlink
  rcases hlink with hlink | hlink
  all_goals
    rcases hbinder _ hlink with ⟨b, hb, hblink⟩ | ⟨b, hbuiltin⟩
    · exact ⟨b, hb, List.mem_cons_of_mem _ (by simp [hblink, Link.nodes])⟩
    · cases hbuiltin

/-! ### Tables that agree at a node -/

theorem NodeTable.refusal?_congr {α : Type} {t u : NodeTable α} {id : NodeId}
    (hsize : u.slots.size = t.slots.size) (hget : u.get? id = t.get? id) : u.refusal? id = t.refusal? id := by
  unfold NodeTable.get? at hget
  unfold NodeTable.refusal?
  by_cases h : id < t.slots.size
  · have h' : id < u.slots.size := hsize ▸ h
    rw [Array.getElem?_eq_getElem h, Array.getElem?_eq_getElem h'] at hget ⊢
    have hslot : u.slots[id] = t.slots[id] := hget
    rw [hslot, hsize]
  · rw [Array.getElem?_eq_none (Nat.le_of_not_lt h), Array.getElem?_eq_none (hsize ▸ Nat.le_of_not_lt h), hsize]

theorem NodeTable.lt_of_refusal? {α : Type} {t : NodeTable α} {id : NodeId} (h : t.refusal? id = none) :
    id < t.slots.size :=
  (NodeTable.refusal?_eq_none_iff.mp h).1

/-! ### Two ways to compare checks -/

namespace Typing

/-- The states differ in the types of the nodes `hidden`, and in the errors `during`, which come behind those of
    `before`. -/
structure Parted (hidden : List NodeId) (before during : List Diagnostic) (s t : State) : Prop where
  size_eq : t.types.slots.size = s.types.slots.size
  get?_eq : ∀ id, id ∉ hidden → t.types.get? id = s.types.get? id
  errors : ∃ after, s.errors.toList = before ++ during ++ after ∧ t.errors.toList = before ++ after

theorem Parted.carried (hidden : List NodeId) (before during : List Diagnostic) :
    Carried .same (· ∉ hidden) (· ∉ hidden) (Parted hidden before during) where
  report := by
    intro position cause cause' h s t hR
    obtain rfl : cause' = cause := h fun _ _ => rfl
    obtain ⟨after, hs, ht⟩ := hR.errors
    exact .ok ⟨hR.size_eq, hR.get?_eq, after ++ [⟨position, .type cause'⟩], by simp [hs], by simp [ht]; rfl⟩
  typeOf := by
    intro id hid s t hR
    rw [Typing.typeOf, Typing.typeOf, hR.get?_eq id hid]
    exact .ok hR
  assign := by
    intro id type hid s t hR
    have hrefusal := NodeTable.refusal?_congr hR.size_eq (hR.get?_eq id hid)
    unfold Typing.assign
    cases hnone : s.types.refusal? id with
    | some fault =>
      rw [NodeTable.set_of_refusal hnone, NodeTable.set_of_refusal (hrefusal.trans hnone)]
      exact .error hR
    | none =>
      rw [NodeTable.set_of_no_refusal hnone, NodeTable.set_of_no_refusal (hrefusal.trans hnone)]
      refine .ok ⟨by simp [hR.size_eq], fun id' hid' => ?_, hR.errors⟩
      rw [NodeTable.get?_write (NodeTable.lt_of_refusal? hnone),
        NodeTable.get?_write (NodeTable.lt_of_refusal? (hrefusal.trans hnone)), hR.get?_eq id' hid']

/-- One and the same check has come from `origin`: it has given types to nodes of `ids` at most, and has added to
    the errors. -/
structure Continued (origin : State) (ids : List NodeId) (s t : State) : Prop where
  eq : t = s
  grows : Grows origin.types s.types ids
  errors : ∃ new, s.errors.toList = origin.errors.toList ++ new

theorem Continued.refl (origin : State) (ids : List NodeId) : Continued origin ids origin origin :=
  ⟨rfl, Grows.refl _ _, [], by simp⟩

theorem Continued.carried (origin : State) (ids : List NodeId) :
    Carried .same (fun _ => True) (· ∈ ids) (Continued origin ids) where
  report := by
    intro position cause cause' h s t hR
    obtain rfl : cause' = cause := h fun _ _ => rfl
    obtain rfl := hR.eq
    obtain ⟨new, hs⟩ := hR.errors
    exact .ok ⟨rfl, hR.grows, new ++ [⟨position, .type cause'⟩], by simp [hs]⟩
  typeOf := by
    intro id _ s t hR
    obtain rfl := hR.eq
    exact .ok hR
  assign := by
    intro id type hid s t hR
    obtain rfl := hR.eq
    unfold Typing.assign
    cases hnone : t.types.refusal? id with
    | some fault =>
      rw [NodeTable.set_of_refusal hnone]
      exact .error hR
    | none =>
      rw [NodeTable.set_of_no_refusal hnone]
      have hfree : t.types.Free [id] := List.forall_mem_singleton.mpr (NodeTable.refusal?_eq_none_iff.mp hnone)
      refine .ok ⟨rfl, hR.grows.trans ((NodeTable.grows_write hfree type).mono ?_), hR.errors⟩
      exact List.forall_mem_singleton.mpr hid

theorem get?_of_decorate {id : NodeId} {type? : Option SimpleType} {type : SimpleType} {s t : State}
    (h : decorate id type? s = .ok (some type) t) : t.types.get? id = some type := by
  cases type? with
  | none => cases h
  | some type' =>
    rw [decorate, Pass.bind_apply] at h
    unfold Typing.assign at h
    cases hnone : s.types.refusal? id with
    | some fault =>
      rw [NodeTable.set_of_refusal hnone] at h
      cases h
    | none =>
      rw [NodeTable.set_of_no_refusal hnone] at h
      cases h
      simp [NodeTable.get?_write (NodeTable.lt_of_refusal? hnone)]

end Typing

/-- An expression that is found to have a type is given it. -/
theorem Expr.get?_of_check {links : Resolution} {pending : Option NodeId} {e : Expr} {s t : Typing.State}
    {type : SimpleType} (h : e.check links pending s = .ok (some type) t) : t.types.get? e.tag.id = some type := by
  -- the node is given its type at the end
  have hlast : ∀ {α : Type} {x : CheckM α} {g : α → Option SimpleType},
      (x >>= fun a => decorate e.tag.id (g a)) s = .ok (some type) t → t.types.get? e.tag.id = some type := by
    intro α x g h
    obtain ⟨a, u, -, h⟩ := Pass.exists_of_bind h
    exact get?_of_decorate h
  cases e with
  | int | char =>
    rw [Expr.check] at h
    exact hlast h
  | name =>
    rw [Expr.check] at h
    exact hlast h
  | call | unary | binary =>
    simp only [Expr.check, ← bind_assoc] at h
    exact hlast h
  | error => cases h

/-! ### Checks with and without an expression -/

/-- A program has been read, with or without errors, and its names have the links that they get. An expression in
    it that the check leaves without a type may be replaced by an error node with the same tag. The check of the
    program is in three parts, of which the second is that of the expression; without what is reported in the
    second, what is reported stays the same, and so do the types of all nodes outside of the expression. -/
theorem Program.check_replaces_untyped {tokens : List Token} {r : Parser.Result}
    (hparse : Program.ofTokens tokens = .ok r) :
    ∃ s t, r.program.resolve.finalState (.start r.program) = .ok s ∧
      (r.program.check s.links).finalState (.start r.program) = .ok t ∧
      ∀ (place : ExprPlace) (e : Expr), r.program.command = place.fill e → t.types.get? e.tag.id = none →
        let replaced : Program := ⟨place.fill (.error e.tag), r.program.nodeCount⟩
        (∀ e' : Expr, (place.fill e').check s.links = place.check s.links >>= fun behind =>
          e'.check s.links place.pending >>= behind e'.tag.position) ∧
        ∃ behind s₀ s₁ t' during after,
          place.check s.links (.start r.program) = .ok behind s₀ ∧
          e.check s.links place.pending s₀ = .ok none s₁ ∧
          behind e.tag.position none s₁ = .ok () t ∧
          s₁.errors.toList = s₀.errors.toList ++ during ∧
          t.errors.toList = s₀.errors.toList ++ during ++ after ∧
          (replaced.check s.links).finalState (.start replaced) = .ok t' ∧
          t'.errors.toList = s₀.errors.toList ++ after ∧
          ∀ id, id ∉ e.ids → t'.types.get? id = t.types.get? id := by
  have hids := Parser.counted_ofTokens hparse
  obtain ⟨s, hs, -⟩ := r.program.resolve_ok hids
  obtain ⟨t, ht, -⟩ := r.program.check_ends hids s.links
  refine ⟨s, t, hs, ht, ?_⟩
  intro place e hplace huntyped replaced
  refine ⟨place.check_fill s.links, ?_⟩
  -- the names are linked to nodes outside of the expression
  have houtside : ∀ id ∈ place.ids, id ∉ e.ids := fun id => ExprPlace.not_mem_ids (hplace ▸ hids.nodup)
  have hlinks : s.links.LeadsTo (· ∉ e.ids) := by
    intro id node hlink
    obtain ⟨b, hb, hnode⟩ := Program.leadsTo_binders hids hs id node hlink
    rw [Program.binders, hplace] at hb
    exact houtside node (place.mem_ids_of_binder hb hnode)
  -- the check of the program, in three parts
  obtain ⟨⟨⟩, hok⟩ := Pass.exists_of_finalState ht
  rw [Program.check, hplace, place.check_fill] at hok
  obtain ⟨behind, s₀, hbefore, hok⟩ := Pass.exists_of_bind hok
  obtain ⟨type?, s₁, hcheck, hbehind⟩ := Pass.exists_of_bind hok
  -- what the second and the third part leave as it is
  obtain ⟨_, -, hinside⟩ := (e.follows_self (Continued.carried s₀ e.ids) (fun _ _ _ => trivial)
    place.pending fun _ hid => hid).ok (Continued.refl s₀ e.ids) hcheck
  obtain ⟨_, -, hlater⟩ := (place.steady_check (Continued.carried s₁ place.ids) (fun _ _ _ => trivial)
    (fun _ hid => hid) _ _ _ hbefore e.tag.position type?).ok (Continued.refl s₁ place.ids) hbehind
  obtain rfl : type? = none := by
    cases type? with
    | none => rfl
    | some type =>
      have hkept := hlater.grows.keeps _ _ (Expr.get?_of_check hcheck)
      rw [huntyped] at hkept
      cases hkept
  obtain ⟨during, hduring⟩ := hinside.errors
  have hparted : Parted e.ids s₀.errors.toList during s₁ s₀ :=
    ⟨hinside.grows.size.symm, fun id hid => (hinside.grows.frame id hid).symm, [], by simp [hduring], by simp⟩
  -- the third part, with and without the expression before it
  obtain ⟨t', hbehind', hparted'⟩ := (place.steady_check (Parted.carried e.ids s₀.errors.toList during) hlinks
    houtside _ _ _ hbefore e.tag.position none).ok hparted hbehind
  obtain ⟨after, htotal, htotal'⟩ := hparted'.errors
  refine ⟨behind, s₀, s₁, t', during, after, hbefore, hcheck, hbehind, hduring, htotal, ?_, htotal',
    fun id hid => hparted'.get?_eq id hid⟩
  have herror : (Expr.error e.tag).check s.links place.pending s₀ = .ok none s₀ := by
    rw [Expr.check]
    rfl
  have hbefore' : place.check s.links (.start replaced) = .ok behind s₀ := hbefore
  have hok' : replaced.check s.links (.start replaced) = .ok () t' := by
    rw [Program.check, place.check_fill, Pass.bind_of_ok hbefore', Pass.bind_of_ok herror]
    exact hbehind'
  rw [Pass.finalState, hok']

/-- The value of a constant is the call of a procedure, so the constant has no type. It is used in a condition, in
    a sum and in an assignment, and only the other operand of the sum, a character, is reported besides. -/
theorem Program.check_replaces_untyped_constant :
    let source := "let const c ~ puteol(); var n : Integer in if (c) then n := c + 'a' else n := c endif"
    ∃ (r : Parser.Result) (s : Resolution.State) (t t' : Typing.State) (place : ExprPlace) (e : Expr),
      Program.ofTokens (Token.ofString source) = .ok r ∧
      r.program.resolve.finalState (.start r.program) = .ok s ∧
      (r.program.check s.links).finalState (.start r.program) = .ok t ∧
      r.program.command = place.fill e ∧ t.types.get? e.tag.id = none ∧ t.errors.size = 2 ∧
      let replaced : Program := ⟨place.fill (.error e.tag), r.program.nodeCount⟩
      (replaced.check s.links).finalState (.start replaced) = .ok t' ∧
      t'.errors.toList = t.errors.toList.drop 1 ∧ ∀ id, id ∉ e.ids → t'.types.get? id = t.types.get? id := by
  intro source
  have hrun : ((Program.ofTokens (Token.ofString source)).toOption.any fun r =>
      (r.program.resolve.finalState (.start r.program)).toOption.any fun s =>
        ((r.program.check s.links).finalState (.start r.program)).toOption.any fun t =>
          decide (t.errors.size = 2) && r.program.command.exprPlaces.any fun q =>
            (t.types.get? q.2.tag.id).isNone &&
              ((q.1.check s.links).finalState (.start r.program)).toOption.any fun s₀ =>
                s₀.errors.isEmpty && ((q.2.check s.links q.1.pending).finalState s₀).toOption.any fun s₁ =>
                  decide (s₁.errors.size = 1)) = true := by
    decide +kernel
  simp only [Option.any_eq_true, List.any_eq_true, Bool.and_eq_true, Array.isEmpty_iff,
    Option.isNone_iff_eq_none, decide_eq_true_eq] at hrun
  obtain ⟨r, hr, s, hs, t, ht, hsize, ⟨place, e⟩, hplace, huntyped, s₀, hs₀, hempty, s₁, hs₁, hone⟩ := hrun
  replace hr := eq_ok_of_toOption hr
  replace hs := eq_ok_of_toOption hs
  replace ht := eq_ok_of_toOption ht
  replace hplace := Command.mem_exprPlaces.mp hplace
  obtain ⟨s', t', hs', ht', h⟩ := Program.check_replaces_untyped hr
  cases hs.symm.trans hs'
  cases ht.symm.trans ht'
  obtain ⟨-, behind, s₀', s₁', t', during, after, hbefore, hcheck, -, hduring, htotal, hok, htotal', htypes⟩ :=
    h place e hplace huntyped
  obtain rfl : s₀' = s₀ := by
    have hfinal := eq_ok_of_toOption hs₀
    rw [Pass.finalState, hbefore] at hfinal
    exact Except.ok.inj hfinal
  obtain rfl : s₁' = s₁ := by
    have hfinal := eq_ok_of_toOption hs₁
    rw [Pass.finalState, hcheck] at hfinal
    exact Except.ok.inj hfinal
  rw [hempty] at hduring htotal htotal'
  refine ⟨r, s, t, t', place, e, hr, hs, ht, hplace, huntyped, hsize, hok, ?_, htypes⟩
  have hlength : during.length = 1 := by
    rw [← hone, ← Array.length_toList, hduring]
    rfl
  rw [htotal, htotal']
  show after = (during ++ after).drop 1
  rw [← hlength, List.drop_left]

end TriangleCompiler
