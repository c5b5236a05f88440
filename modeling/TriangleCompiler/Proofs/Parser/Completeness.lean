import TriangleCompiler.Proofs.Parser.Soundness

/-! What the grammar derives is read without an error. A reader looks at one token at a time, so it has to
    know from the token behind a phrase that the phrase ends there; each statement says which tokens may
    stand there. -/

namespace TriangleCompiler.Parser
open Grammar

/-- The kind of the first of the tokens, which are followed by the end of the text. -/
def firstKind : List Token → Token.Kind
  | [] => .endOfText
  | t :: _ => t.kind

@[simp] theorem firstKind_cons (t : Token) (ts : List Token) : firstKind (t :: ts) = t.kind := rfl

theorem State.kind_eq_firstKind (s : State) : s.kind = firstKind s.ahead := rfl

/-- From `s` on, up to where `rest` is ahead, something of shape `x` is read without an error. -/
def Finds {α β : Type} (Reads : State → α → State → Prop) (shape? : α → Option β) (x : β) (s : State)
    (rest : List Token) : Prop :=
  ∃ a t, Reads s a t ∧ shape? a = some x ∧ t.ahead = rest ∧ t.findings = s.findings

/-- A token of this kind can follow an expression. -/
def endsExpr (k : Token.Kind) : Prop := k ≠ .operator ∧ k ≠ .leftBracket

/-! ### Expressions -/

theorem startsOperand_of_derivesPrimary {ts : List Token} {x : Shape.Expr} (h : DerivesPrimary ts x)
    (rest : List Token) : startsOperand (firstKind (ts ++ rest)) = true := by
  cases h <;> simp_all [startsOperand]

theorem startsOperand_of_derivesExpr {ts : List Token} {x : Shape.Expr} (h : DerivesExpr ts x)
    (rest : List Token) : startsOperand (firstKind (ts ++ rest)) = true := by
  cases h with
  | chain hp _ =>
    rw [List.append_assoc]
    exact startsOperand_of_derivesPrimary hp _

/-- Behind an operand stands an operator or the end of the expression. -/
theorem firstKind_of_derivesOperands {us : List Token} {ops : List (String × Shape.Expr)}
    (h : DerivesOperands us ops) {rest : List Token} (hrest : endsExpr (firstKind rest)) :
    firstKind (us ++ rest) ≠ .leftBracket := by
  cases h with
  | none => exact hrest.2
  | more hop _ _ => simp [hop]

mutual

theorem finds_expr {ts : List Token} {x : Shape.Expr} : DerivesExpr ts x →
    ∀ {s : State} {rest : List Token}, s.ahead = ts ++ rest → endsExpr (firstKind rest) →
      Finds ReadsExpr Expr.shape? x s rest
  | .chain hp ho, s, rest, hs, hrest => by
    rw [List.append_assoc] at hs
    obtain ⟨lhs, s₁, hlhs, hshape, hahead, hf⟩ :=
      finds_primary hp hs (firstKind_of_derivesOperands ho hrest)
    obtain ⟨e, t, he, hx, ht, hf₁⟩ := finds_operands ho hahead hrest lhs _ hshape
    exact ⟨e, t, .chain hlhs he, hx, ht, hf₁.trans hf⟩

theorem finds_operands {us : List Token} {ops : List (String × Shape.Expr)} :
    DerivesOperands us ops → ∀ {s : State} {rest : List Token}, s.ahead = us ++ rest →
      endsExpr (firstKind rest) → ∀ lhs l, lhs.shape? = some l →
        Finds (ReadsOperands lhs) Expr.shape? (l.chain ops) s rest
  | .none, s, rest, hs, hrest, lhs, l, hl => by
    have hk : s.kind ≠ .operator := by rw [s.kind_eq_firstKind, hs]; exact hrest.1
    exact ⟨lhs, s, .done (State.acceptName?_eq_none hk), hl, hs, rfl⟩
  | .more hop hp ho, s, rest, hs, hrest, lhs, l, hl => by
    simp only [List.cons_append, List.append_assoc] at hs
    obtain ⟨op, s₁, hop', hsp, hahead, hf⟩ := State.exists_acceptName? hs hop
    obtain ⟨rhs, s₂, hrhs, hshape, hahead₁, hf₁⟩ :=
      finds_primary hp hahead (firstKind_of_derivesOperands ho hrest)
    obtain ⟨e, t, he, hx, ht, hf₂⟩ := finds_operands ho (s := s₂.countNode) hahead₁ hrest
      (.binary ⟨s₂.nextId, lhs.tag.position⟩ op lhs rhs) _ (by simp [Expr.shape?, hl, hshape, hsp]; rfl)
    exact ⟨e, t, .more hop' hrhs he, hx, ht, by simp [hf₂, hf₁, hf]⟩

theorem finds_primary {ts : List Token} {x : Shape.Expr} : DerivesPrimary ts x →
    ∀ {s : State} {rest : List Token}, s.ahead = ts ++ rest → firstKind rest ≠ .leftBracket →
      Finds ReadsPrimary Expr.shape? x s rest
  | .int hk, s, rest, hs, _ => by
    have hkind : s.kind = .intLiteral := by rw [State.kind_eq_of_ahead hs, hk]
    exact ⟨_, _, .int hkind, by simp [Expr.shape?, State.spelling_eq_of_ahead hs],
      by simp [State.advance_ahead hs], by simp⟩
  | .char hk, s, rest, hs, _ => by
    have hkind : s.kind = .charLiteral := by rw [State.kind_eq_of_ahead hs, hk]
    exact ⟨_, _, .char hkind, by simp [Expr.shape?, State.spelling_eq_of_ahead hs],
      by simp [State.advance_ahead hs], by simp⟩
  | .name hk, s, rest, hs, hrest => by
    have hkind : s.kind = .identifier := by rw [State.kind_eq_of_ahead hs, hk]
    have hahead : s.advance.countNode.ahead = rest := State.advance_ahead hs
    have hopen : s.advance.countNode.accept? .leftBracket = none :=
      State.accept?_eq_none (by rw [State.kind_eq_firstKind, hahead]; exact hrest)
    exact ⟨_, _, .name hkind hopen, by simp [Expr.shape?, State.spelling_eq_of_ahead hs], hahead, by simp⟩
  | .call hk hl ha hr, s, rest, hs, _ => by
    simp only [List.cons_append, List.append_assoc, List.nil_append] at hs
    have hkind : s.kind = .identifier := by rw [State.kind_eq_of_ahead hs, hk]
    obtain ⟨s₁, hopen, hahead, hf⟩ :=
      State.exists_accept? (s := s.advance.countNode) (State.advance_ahead hs) hl
    obtain ⟨a, s₂, ha', hshape, hahead₁, hf₁⟩ := finds_argument ha hahead (by simpa using hr)
    obtain ⟨s₃, hclose, hahead₂, hf₂⟩ := State.exists_accept? hahead₁ hr
    exact ⟨_, _, .call hkind hopen ha' hclose,
      by simp [Expr.shape?, hshape, State.spelling_eq_of_ahead hs], hahead₂, by simp [hf₂, hf₁, hf]⟩
  | .unary hk hp, s, rest, hs, hrest => by
    have hkind : s.kind = .operator := by rw [State.kind_eq_of_ahead hs, hk]
    obtain ⟨e, s₁, he, hshape, hahead, hf⟩ :=
      finds_primary hp (s := s.advance.countNode) (State.advance_ahead hs) hrest
    exact ⟨_, _, .unary hkind he, by simp [Expr.shape?, hshape, State.spelling_eq_of_ahead hs], hahead,
      by simp [hf]⟩
  | .bracketed hl he hr, s, rest, hs, _ => by
    simp only [List.cons_append, List.append_assoc, List.nil_append] at hs
    have hkind : s.kind = .leftBracket := by rw [State.kind_eq_of_ahead hs, hl]
    obtain ⟨e, s₁, he', hshape, hahead, hf⟩ :=
      finds_expr he (State.advance_ahead hs) (by simp [endsExpr, hr])
    obtain ⟨s₂, hclose, hahead₁, hf₁⟩ := State.exists_accept? hahead hr
    exact ⟨e, s₂, .bracketed hkind he' hclose, hshape, hahead₁, by simp [hf₁, hf]⟩

theorem finds_argument {ts : List Token} {x : Shape.Argument} : DerivesArgument ts x →
    ∀ {s : State} {rest : List Token}, s.ahead = ts ++ rest → firstKind rest = .rightBracket →
      Finds ReadsArgument Argument.shape? x s rest
  | .blank, s, rest, hs, hrest => by
    have hkind : s.kind = .rightBracket := by rw [s.kind_eq_firstKind, hs]; exact hrest
    exact ⟨_, _, .blank hkind, rfl, hs, rfl⟩
  | .var hv ht, s, rest, hs, _ => by
    have hkind : s.kind = .keyword .var := by rw [State.kind_eq_of_ahead hs, hv]
    obtain ⟨name, t, hname, hsp, hahead, hf⟩ :=
      State.exists_acceptName? (State.advance_ahead (s := s.countNode) hs) ht
    exact ⟨_, _, .var hkind hname, by simp [Argument.shape?, hsp], hahead, by simp [hf]⟩
  | .value he, s, rest, hs, hrest => by
    have hstart := startsOperand_of_derivesExpr he rest
    rw [← hs, ← State.kind_eq_firstKind] at hstart
    obtain ⟨e, t, he', hshape, hahead, hf⟩ :=
      finds_expr he (s := s.countNode) hs (by simp [endsExpr, hrest])
    refine ⟨_, _, .value ?_ ?_ he', by simp [Argument.shape?, hshape], hahead, hf⟩
    · rintro hk
      simp [hk, startsOperand] at hstart
    · rintro hk
      simp [hk, startsOperand] at hstart

end

/-! ### Declarations -/

theorem finds_singleDeclaration {ts rest : List Token} {x : Shape.SingleDeclaration} {s : State}
    (h : DerivesSingleDeclaration ts x) (hs : s.ahead = ts ++ rest) (hrest : endsExpr (firstKind rest)) :
    Finds ReadsSingleDeclaration SingleDeclaration.shape? x s rest := by
  cases h with
  | const hk hn htilde he =>
    have hkind : s.kind = .keyword .const := by rw [State.kind_eq_of_ahead hs, hk]
    obtain ⟨name, s₁, hname, hsp, hahead, hf⟩ :=
      State.exists_acceptName? (s := s.advance.countNode) (State.advance_ahead hs) hn
    obtain ⟨s₂, htilde', hahead₁, hf₁⟩ := State.exists_accept? hahead htilde
    obtain ⟨e, t, he', hshape, hahead₂, hf₂⟩ := finds_expr he hahead₁ hrest
    exact ⟨_, t, .const hkind hname htilde' he', by simp [SingleDeclaration.shape?, hshape, hsp], hahead₂,
      by simp [hf₂, hf₁, hf]⟩
  | var hk hn hcolon hy =>
    have hkind : s.kind = .keyword .var := by rw [State.kind_eq_of_ahead hs, hk]
    obtain ⟨name, s₁, hname, hsp, hahead, hf⟩ :=
      State.exists_acceptName? (s := s.advance.countNode) (State.advance_ahead hs) hn
    obtain ⟨s₂, hcolon', hahead₁, hf₁⟩ := State.exists_accept? hahead hcolon
    obtain ⟨type, t, htype, hsp₁, hahead₂, hf₂⟩ := State.exists_acceptName? (s := s₂.countNode) hahead₁ hy
    exact ⟨_, t, .var hkind hname hcolon' htype, by simp [SingleDeclaration.shape?, hsp, hsp₁], hahead₂,
      by simp [hf₂, hf₁, hf]⟩

/-- Behind a declaration stands a semicolon or the `in`. -/
theorem endsExpr_of_derivesMoreDeclarations {us rest : List Token} {xs : List Shape.SingleDeclaration}
    (h : DerivesMoreDeclarations us xs) (hrest : firstKind rest = .keyword .in_) :
    endsExpr (firstKind (us ++ rest)) := by
  cases h with
  | none => simp [endsExpr, hrest]
  | more hsep _ _ => simp [endsExpr, hsep]

theorem finds_moreDeclarations {us rest : List Token} {xs : List Shape.SingleDeclaration}
    {s : State} (h : DerivesMoreDeclarations us xs) (hs : s.ahead = us ++ rest)
    (hrest : firstKind rest = .keyword .in_) :
    Finds ReadsMoreDeclarations declarationShapes? xs s rest := by
  induction h generalizing s with
  | none =>
    have hk : s.kind ≠ .semicolon := by
      rw [s.kind_eq_firstKind, hs, List.nil_append, hrest]
      decide
    exact ⟨[], s, .done (State.accept?_eq_none hk), rfl, hs, rfl⟩
  | more hsep hd hds ih =>
    simp only [List.cons_append, List.append_assoc] at hs
    obtain ⟨s₁, hsep', hahead, hf⟩ := State.exists_accept? hs hsep
    obtain ⟨d, s₂, hd', hshape, hahead₁, hf₁⟩ :=
      finds_singleDeclaration hd hahead (endsExpr_of_derivesMoreDeclarations hds hrest)
    obtain ⟨ds, t, hds', hshapes, ht, hf₂⟩ := ih hahead₁
    exact ⟨d :: ds, t, .more hsep' hd' hds', by simp [declarationShapes?, hshape, hshapes], ht,
      by simp [hf₂, hf₁, hf]⟩

theorem finds_declaration {ts rest : List Token} {x : Shape.Declaration} {s : State}
    (h : DerivesDeclaration ts x) (hs : s.ahead = ts ++ rest) (hrest : firstKind rest = .keyword .in_) :
    Finds ReadsDeclaration Declaration.shape? x s rest := by
  cases h with
  | chain hd hds =>
    rw [List.append_assoc] at hs
    obtain ⟨d, s₁, hd', hshape, hahead, hf⟩ :=
      finds_singleDeclaration hd hs (endsExpr_of_derivesMoreDeclarations hds hrest)
    obtain ⟨ds, t, hds', hshapes, ht, hf₁⟩ := finds_moreDeclarations hds hahead hrest
    exact ⟨_, t, .chain hd' hds', shape?_joinDeclarations hshape hshapes, ht, hf₁.trans hf⟩

/-! ### Commands -/

/-- Whether a token of this kind can follow a single command. -/
def endsCommand : Token.Kind → Bool
  | .semicolon | .keyword .else_ | .keyword .endif | .keyword .next | .keyword .end_ | .endOfText => true
  | _ => false

theorem endsExpr_of_endsCommand {k : Token.Kind} (h : endsCommand k = true) : endsExpr k := by
  constructor <;> rintro rfl <;> simp [endsCommand] at h

theorem not_startsCommand_of_endsCommand {k : Token.Kind} (h : endsCommand k = true) :
    startsCommand k = false := by
  unfold endsCommand at h
  split at h <;> first | rfl | cases h

/-- A token of this kind can follow a sequence of commands. -/
def endsSequence (k : Token.Kind) : Prop := k = .keyword .end_ ∨ k = .endOfText

theorem finds_condition {k : Keyword} {l r k₁ : Token} {ts rest : List Token} {x : Shape.Expr} {s : State}
    (hl : l.kind = .leftBracket) (he : DerivesExpr ts x) (hr : r.kind = .rightBracket)
    (hk : k₁.kind = .keyword k) (hs : s.ahead = l :: (ts ++ r :: k₁ :: rest)) :
    Finds (fun s e t => ReadsCondition k s (some e) t) Expr.shape? x s rest := by
  obtain ⟨s₁, hopen, hahead, hf⟩ := State.exists_accept? hs hl
  obtain ⟨e, s₂, he', hshape, hahead₁, hf₁⟩ := finds_expr he hahead (by simp [endsExpr, hr])
  obtain ⟨s₃, hclose, hahead₂, hf₂⟩ := State.exists_accept? hahead₁ hr
  obtain ⟨t, hkey, ht, hf₃⟩ := State.exists_accept? hahead₂ hk
  exact ⟨e, t, .whole hopen he' hclose hkey, hshape, ht, by simp [hf₃, hf₂, hf₁, hf]⟩

theorem finds_bindings {k : Token} {ts rest : List Token} {x : Shape.Declaration} {s : State}
    (hd : DerivesDeclaration ts x) (hk : k.kind = .keyword .in_) (hs : s.ahead = ts ++ k :: rest) :
    Finds (fun s d t => ReadsBindings s (some d) t) Declaration.shape? x s rest := by
  obtain ⟨d, s₁, hd', hshape, hahead, hf⟩ := finds_declaration hd hs hk
  obtain ⟨t, hin, ht, hf₁⟩ := State.exists_accept? hahead hk
  exact ⟨d, t, .whole hd' hin, hshape, ht, hf₁.trans hf⟩

theorem finds_count {name b k₁ k₂ : Token} {ts us rest : List Token} {x y : Shape.Expr} {s : State}
    (hn : name.kind = .identifier) (hb : b.kind = .becomes) (he : DerivesExpr ts x)
    (hk₁ : k₁.kind = .keyword .to_) (hf : DerivesExpr us y) (hk₂ : k₂.kind = .keyword .do_)
    (hs : s.ahead = name :: b :: (ts ++ k₁ :: (us ++ k₂ :: rest))) :
    ∃ c t, ReadsCount s (some c) t ∧ c.counter.name.spelling = name.spelling ∧ c.first.shape? = some x ∧
      c.last.shape? = some y ∧ t.ahead = rest ∧ t.findings = s.findings := by
  obtain ⟨n, s₁, hname, hsp, hahead, hf₁⟩ := State.exists_acceptName? hs hn
  obtain ⟨s₂, hbecomes, hahead₁, hf₂⟩ := State.exists_accept? (s := s₁.countNode) hahead hb
  obtain ⟨e, s₃, he', hx, hahead₂, hf₃⟩ := finds_expr he hahead₁ (by simp [endsExpr, hk₁])
  obtain ⟨s₄, hto, hahead₃, hf₄⟩ := State.exists_accept? hahead₂ hk₁
  obtain ⟨f, s₅, hf', hy, hahead₄, hf₅⟩ := finds_expr hf hahead₃ (by simp [endsExpr, hk₂])
  obtain ⟨t, hdo, ht, hf₆⟩ := State.exists_accept? hahead₄ hk₂
  exact ⟨_, t, .whole hname hbecomes he' hto hf' hdo, hsp, hx, hy, ht,
    by simp [hf₆, hf₅, hf₄, hf₃, hf₂, hf₁]⟩

theorem finds_end {k : Token.Kind} (c : Command) {tok : Token} {rest : List Token} {s : State}
    (hk : tok.kind = k) (hs : s.ahead = tok :: rest) :
    ∃ t, ReadsEnd k c s c t ∧ t.ahead = rest ∧ t.findings = s.findings := by
  obtain ⟨t, hend, ht, hf⟩ := State.exists_accept? hs hk
  exact ⟨t, .closed hend, ht, hf⟩

/-- Behind a command of a sequence stands a semicolon or the end of the sequence. -/
theorem endsCommand_of_derivesMoreCommands {us rest : List Token} {xs : List Shape.Command}
    (h : DerivesMoreCommands us xs) (hrest : endsSequence (firstKind rest)) :
    endsCommand (firstKind (us ++ rest)) = true := by
  cases h with
  | none => rcases hrest with hk | hk <;> simp [hk, endsCommand]
  | more hsep _ _ => simp [hsep, endsCommand]

mutual

theorem finds_command {ts : List Token} {x : Shape.Command} : DerivesCommand ts x →
    ∀ {s : State} {rest : List Token}, s.ahead = ts ++ rest → endsSequence (firstKind rest) →
      Finds ReadsCommand Command.shape? x s rest
  | .chain hc hcs, s, rest, hs, hrest => by
    rw [List.append_assoc] at hs
    obtain ⟨c, s₁, hc', hshape, hahead, hf⟩ :=
      finds_singleCommand hc hs (endsCommand_of_derivesMoreCommands hcs hrest)
    obtain ⟨cs, t, hcs', hshapes, ht, hf₁⟩ := finds_moreCommands hcs hahead hrest
    exact ⟨_, t, .chain hc' hcs', shape?_joinCommands hshape hshapes, ht, hf₁.trans hf⟩

theorem finds_moreCommands {us : List Token} {xs : List Shape.Command} :
    DerivesMoreCommands us xs → ∀ {s : State} {rest : List Token}, s.ahead = us ++ rest →
      endsSequence (firstKind rest) → Finds ReadsMoreCommands commandShapes? xs s rest
  | .none, s, rest, hs, hrest => by
    have hk : s.kind ≠ .semicolon := by
      rw [s.kind_eq_firstKind, hs, List.nil_append]
      rcases hrest with hk | hk <;> rw [hk] <;> decide
    exact ⟨[], s, .done (State.accept?_eq_none hk), rfl, hs, rfl⟩
  | .more hsep hc hcs, s, rest, hs, hrest => by
    simp only [List.cons_append, List.append_assoc] at hs
    obtain ⟨s₁, hsep', hahead, hf⟩ := State.exists_accept? hs hsep
    obtain ⟨c, s₂, hc', hshape, hahead₁, hf₁⟩ :=
      finds_singleCommand hc hahead (endsCommand_of_derivesMoreCommands hcs hrest)
    obtain ⟨cs, t, hcs', hshapes, ht, hf₂⟩ := finds_moreCommands hcs hahead₁ hrest
    exact ⟨c :: cs, t, .more hsep' hc' hcs', by simp [commandShapes?, hshape, hshapes], ht,
      by simp [hf₂, hf₁, hf]⟩

theorem finds_singleCommand {ts : List Token} {x : Shape.Command} : DerivesSingleCommand ts x →
    ∀ {s : State} {rest : List Token}, s.ahead = ts ++ rest → endsCommand (firstKind rest) = true →
      Finds ReadsSingleCommand Command.shape? x s rest
  | .assign hn hb he, s, rest, hs, hrest => by
    have hkind : s.kind = .identifier := by rw [State.kind_eq_of_ahead hs, hn]
    have hadv : s.advance.countNode.ahead = _ := State.advance_ahead hs
    have hopen : s.advance.countNode.accept? .leftBracket = none :=
      State.accept?_eq_none (by simp [State.kind_eq_of_ahead hadv, hb])
    obtain ⟨s₁, hbecomes, hahead, hf⟩ := State.exists_accept? hadv hb
    obtain ⟨e, t, he', hshape, ht, hf₁⟩ := finds_expr he hahead (endsExpr_of_endsCommand hrest)
    exact ⟨_, t, .simple hkind (.assign hopen hbecomes he'),
      by simp [Command.shape?, hshape, State.spelling_eq_of_ahead hs], ht, by simp [hf₁, hf]⟩
  | .call hn hl ha hr, s, rest, hs, _ => by
    simp only [List.cons_append, List.append_assoc, List.nil_append] at hs
    have hkind : s.kind = .identifier := by rw [State.kind_eq_of_ahead hs, hn]
    obtain ⟨s₁, hopen, hahead, hf⟩ :=
      State.exists_accept? (s := s.advance.countNode) (State.advance_ahead hs) hl
    obtain ⟨a, s₂, ha', hshape, hahead₁, hf₁⟩ := finds_argument ha hahead hr
    obtain ⟨t, hend, ht, hf₂⟩ := finds_end (.call s.position s.name a) hr hahead₁
    exact ⟨_, t, .simple hkind (.call hopen ha' hend),
      by simp [Command.shape?, hshape, State.spelling_eq_of_ahead hs], ht, by simp [hf₂, hf₁, hf]⟩
  | .ifThen hk hl he hr hk₁ hc hk₂, s, rest, hs, _ => by
    simp only [List.cons_append, List.append_assoc, List.nil_append] at hs
    have hkind : s.kind = .keyword .if_ := by rw [State.kind_eq_of_ahead hs, hk]
    obtain ⟨e, s₁, he', hx, hahead, hf⟩ := finds_condition hl he hr hk₁ (State.advance_ahead hs)
    obtain ⟨c, s₂, hc', hy, hahead₁, hf₁⟩ :=
      finds_singleCommand hc hahead (by simp [hk₂, endsCommand])
    have helse : s₂.accept? (.keyword .else_) = none :=
      State.accept?_eq_none (by simp [State.kind_eq_of_ahead hahead₁, hk₂])
    obtain ⟨t, hend, ht, hf₂⟩ := finds_end (.ifThen s.position e c) hk₂ hahead₁
    exact ⟨_, t, .ifThen hkind he' hc' helse hend, by simp [Command.shape?, hx, hy], ht,
      by simp [hf₂, hf₁, hf]⟩
  | .ifElse hk hl he hr hk₁ hc hk₂ hd hk₃, s, rest, hs, _ => by
    simp only [List.cons_append, List.append_assoc, List.nil_append] at hs
    have hkind : s.kind = .keyword .if_ := by rw [State.kind_eq_of_ahead hs, hk]
    obtain ⟨e, s₁, he', hx, hahead, hf⟩ := finds_condition hl he hr hk₁ (State.advance_ahead hs)
    obtain ⟨c, s₂, hc', hy, hahead₁, hf₁⟩ :=
      finds_singleCommand hc hahead (by simp [hk₂, endsCommand])
    obtain ⟨s₃, helse, hahead₂, hf₂⟩ := State.exists_accept? hahead₁ hk₂
    obtain ⟨d, s₄, hd', hz, hahead₃, hf₃⟩ :=
      finds_singleCommand hd hahead₂ (by simp [hk₃, endsCommand])
    obtain ⟨t, hend, ht, hf₄⟩ := finds_end (.ifElse s.position e c d) hk₃ hahead₃
    exact ⟨_, t, .ifElse hkind he' hc' helse hd' hend, by simp [Command.shape?, hx, hy, hz], ht,
      by simp [hf₄, hf₃, hf₂, hf₁, hf]⟩
  | .while_ hk hl he hr hk₁ hc, s, rest, hs, hrest => by
    simp only [List.cons_append, List.append_assoc] at hs
    have hkind : s.kind = .keyword .while_ := by rw [State.kind_eq_of_ahead hs, hk]
    obtain ⟨e, s₁, he', hx, hahead, hf⟩ := finds_condition hl he hr hk₁ (State.advance_ahead hs)
    obtain ⟨c, t, hc', hy, ht, hf₁⟩ := finds_singleCommand hc hahead hrest
    exact ⟨_, t, .while_ hkind he' hc', by simp [Command.shape?, hx, hy], ht, by simp [hf₁, hf]⟩
  | .let_ hk hd hk₁ hc, s, rest, hs, hrest => by
    simp only [List.cons_append, List.append_assoc] at hs
    have hkind : s.kind = .keyword .let_ := by rw [State.kind_eq_of_ahead hs, hk]
    obtain ⟨d, s₁, hd', hx, hahead, hf⟩ := finds_bindings hd hk₁ (State.advance_ahead hs)
    obtain ⟨c, t, hc', hy, ht, hf₁⟩ := finds_singleCommand hc hahead hrest
    exact ⟨_, t, .let_ hkind hd' hc', by simp [Command.shape?, hx, hy], ht, by simp [hf₁, hf]⟩
  | .begin_ hk hc hk₁, s, rest, hs, _ => by
    simp only [List.cons_append, List.append_assoc, List.nil_append] at hs
    have hkind : s.kind = .keyword .begin_ := by rw [State.kind_eq_of_ahead hs, hk]
    obtain ⟨c, s₁, hc', hx, hahead, hf⟩ :=
      finds_command hc (State.advance_ahead hs) (by simp [hk₁, endsSequence])
    obtain ⟨t, hend, ht, hf₁⟩ := finds_end c hk₁ hahead
    exact ⟨_, t, .begin_ hkind hc' hend, hx, ht, by simp [hf₁, hf]⟩
  | .for_ hk hn hb he hk₁ hf' hk₂ hc hk₃, s, rest, hs, _ => by
    simp only [List.cons_append, List.append_assoc, List.nil_append] at hs
    have hkind : s.kind = .keyword .for_ := by rw [State.kind_eq_of_ahead hs, hk]
    obtain ⟨n, s₁, hn', hsp, hx, hy, hahead, hf⟩ :=
      finds_count hn hb he hk₁ hf' hk₂ (State.advance_ahead hs)
    obtain ⟨c, s₂, hc', hz, hahead₁, hf₁⟩ :=
      finds_singleCommand hc hahead (by simp [hk₃, endsCommand])
    obtain ⟨t, hend, ht, hf₂⟩ := finds_end (.for_ s.position n.counter n.first n.last c) hk₃ hahead₁
    exact ⟨_, t, .for_ hkind hn' hc' hend, by simp [Command.shape?, hsp, hx, hy, hz], ht,
      by simp [hf₂, hf₁, hf]⟩
  | .blank, s, rest, hs, hrest => by
    have hkind : startsCommand s.kind = false := by
      rw [s.kind_eq_firstKind, hs]
      exact not_startsCommand_of_endsCommand hrest
    exact ⟨_, s, .blank hkind, rfl, hs, rfl⟩

end

end TriangleCompiler.Parser
