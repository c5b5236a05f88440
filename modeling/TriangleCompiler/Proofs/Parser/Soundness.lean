import TriangleCompiler.Proofs.Parser.Grammar
import TriangleCompiler.Proofs.Parser.ReadingCommands
import TriangleCompiler.Proofs.Parser.Stream

/-! What is read without an error is derived by the grammar from the tokens that were passed. Errors are
    never taken back, so a part of what is read without an error is itself read without one. -/

namespace TriangleCompiler.Parser
open Grammar

/-- From `s` to `t` no error is taken back, and if none is added `P` holds. -/
def Quiet (s t : State) (P : Prop) : Prop :=
  s.findings.length ≤ t.findings.length ∧ (t.findings.length = s.findings.length → P)

namespace Quiet
variable {s s' t t' u : State} {P Q : Prop}

theorem refl (h : P) : Quiet s s P := ⟨Nat.le_refl _, fun _ => h⟩

/-- An error was added. -/
theorem loud (h : s.findings.length < t.findings.length) : Quiet s t P :=
  ⟨Nat.le_of_lt h, fun heq => absurd heq (Nat.ne_of_gt h)⟩

theorem imp (h : Quiet s t P) (f : P → Q) : Quiet s t Q := ⟨h.1, fun heq => f (h.2 heq)⟩

theorem trans (h₁ : Quiet s t P) (h₂ : Quiet t u Q) : Quiet s u (P ∧ Q) := by
  obtain ⟨hle₁, h₁⟩ := h₁
  obtain ⟨hle₂, h₂⟩ := h₂
  exact ⟨Nat.le_trans hle₁ hle₂, fun heq => ⟨h₁ (by omega), h₂ (by omega)⟩⟩

/-- Only the errors of the two states matter. -/
theorem congr (h : Quiet s t P) (hs : s.findings = s'.findings) (ht : t'.findings = t.findings) :
    Quiet s' t' P := by
  unfold Quiet at *
  rwa [← hs, ht]

/-- An error is added after `t`. -/
theorem report (h : Quiet s t P) (hlt : t.findings.length < u.findings.length) : Quiet s u Q :=
  loud (Nat.lt_of_le_of_lt h.1 hlt)

end Quiet

/-- The tokens passed from `s` to `t` derive `shape`. -/
def Passes {α : Type} (Derives : List Token → α → Prop) (shape : Option α) (s t : State) : Prop :=
  ∃ ts x, s.ahead = ts ++ t.ahead ∧ shape = some x ∧ Derives ts x

/-! ### Expressions -/

mutual

theorem ReadsExpr.quiet {s t : State} {e : Expr} :
    ReadsExpr s e t → Quiet s t (Passes DerivesExpr e.shape? s t)
  | .chain hp ho => by
    refine (hp.quiet.trans ho.quiet).imp ?_
    rintro ⟨⟨ts, x, hts, hx, hd⟩, h⟩
    obtain ⟨us, rest, hus, he, hr⟩ := h x hx
    exact ⟨ts ++ us, _, by rw [hts, hus, List.append_assoc], he, .chain hd hr⟩

theorem ReadsOperands.quiet {lhs e : Expr} {s t : State} : ReadsOperands lhs s e t →
    Quiet s t (∀ l, lhs.shape? = some l → ∃ us rest, s.ahead = us ++ t.ahead ∧
      e.shape? = some (l.chain rest) ∧ DerivesOperands us rest)
  | .done _ => .refl fun l hl => ⟨[], [], rfl, hl, .none⟩
  | .more hop hp ho => by
    obtain ⟨tok, hahead, hk, hname, -, hf, -⟩ := State.of_acceptName? hop
    refine ((hp.quiet.congr hf rfl).trans (ho.quiet.congr rfl rfl)).imp ?_
    rintro ⟨⟨ts, x, hts, hx, hd⟩, h⟩ l hl
    obtain ⟨us, rest, hus, he, hr⟩ := h (.binary tok.spelling l x)
      (by simp [Expr.shape?, hl, hx, hname])
    rw [State.ahead_countNode] at hus
    exact ⟨tok :: (ts ++ us), (tok.spelling, x) :: rest, by simp [hahead, hts, hus], he, .more hk hd hr⟩

theorem ReadsPrimary.quiet {s t : State} {e : Expr} :
    ReadsPrimary s e t → Quiet s t (Passes DerivesPrimary e.shape? s t)
  | .int hk => by
    obtain ⟨tok, hahead, hkind, hsp⟩ := State.ahead_eq_cons hk (by decide)
    exact (Quiet.refl ⟨[tok], .int s.spelling, hahead, rfl, hsp ▸ .int hkind⟩).congr rfl (by simp)
  | .char hk => by
    obtain ⟨tok, hahead, hkind, hsp⟩ := State.ahead_eq_cons hk (by decide)
    exact (Quiet.refl ⟨[tok], .char s.spelling, hahead, rfl, hsp ▸ .char hkind⟩).congr rfl (by simp)
  | .name hk _ => by
    obtain ⟨tok, hahead, hkind, hsp⟩ := State.ahead_eq_cons hk (by decide)
    exact (Quiet.refl ⟨[tok], .name s.spelling, hahead, rfl, hsp ▸ .name hkind⟩).congr rfl (by simp)
  | .call hk hopen ha hclose => by
    obtain ⟨tok, hahead, hkind, hsp⟩ := State.ahead_eq_cons hk (by decide)
    obtain ⟨l, hahead₁, hl, hf₁, -⟩ := State.of_accept? hopen
    obtain ⟨r, hahead₂, hr, hf₂, -⟩ := State.of_accept? hclose
    refine (ha.quiet.congr (by simpa using hf₁) (by simpa using hf₂)).imp ?_
    rintro ⟨ts, a, hts, hs, hd⟩
    refine ⟨tok :: l :: (ts ++ [r]), .call tok.spelling a, ?_, ?_, .call hkind hl hd hr⟩
    · rw [State.ahead_countNode] at hahead₁
      simp [hahead, hahead₁, hts, hahead₂]
    · simp [Expr.shape?, hs, hsp]
  | .openCall _ hopen ha _ => by
    obtain ⟨-, -, -, hf, -⟩ := State.of_accept? hopen
    exact (ha.quiet.congr (by simpa using hf) rfl).report (by simp)
  | .unary hk hp => by
    obtain ⟨tok, hahead, hkind, hsp⟩ := State.ahead_eq_cons hk (by decide)
    refine (hp.quiet.congr (by simp) rfl).imp ?_
    rintro ⟨ts, x, hts, hs, hd⟩
    refine ⟨tok :: ts, .unary tok.spelling x, ?_, ?_, .unary hkind hd⟩
    · rw [State.ahead_countNode] at hts
      simp [hahead, hts]
    · simp [Expr.shape?, hs, hsp]
  | .bracketed hk he hclose => by
    obtain ⟨l, hahead, hl, -⟩ := State.ahead_eq_cons hk (by decide)
    obtain ⟨r, hahead₁, hr, hf, -⟩ := State.of_accept? hclose
    refine (he.quiet.congr (by simp) hf).imp ?_
    rintro ⟨ts, x, hts, hs, hd⟩
    exact ⟨l :: (ts ++ [r]), x, by simp [hahead, hts, hahead₁], hs, .bracketed hl hd hr⟩
  | .openBracket _ he _ => (he.quiet.congr (by simp) rfl).report (by simp)
  | .unexpected _ => .loud (by simp)

theorem ReadsArgument.quiet {s t : State} {a : Argument} :
    ReadsArgument s a t → Quiet s t (Passes DerivesArgument a.shape? s t)
  | .blank _ => (Quiet.refl ⟨[], .blank, rfl, rfl, .blank⟩).congr rfl rfl
  | .var hk hname => by
    obtain ⟨v, hahead, hv, -⟩ := State.ahead_eq_cons (s := s.countNode) hk (by decide)
    obtain ⟨tok, hahead₁, hkind, hsp, -, hf, -⟩ := State.of_acceptName? hname
    refine (Quiet.refl ⟨[v, tok], .var tok.spelling, ?_, ?_, .var hv hkind⟩).congr rfl (by simpa using hf)
    · rw [State.ahead_countNode] at hahead
      simp [hahead, hahead₁]
    · simp [Argument.shape?, hsp]
  | .openVar _ _ => .loud (by simp)
  | .value _ _ he => (he.quiet.congr rfl rfl).imp fun ⟨ts, x, hts, hs, hd⟩ =>
    ⟨ts, .value x, hts, by simp [Argument.shape?, hs], .value hd⟩

end

/-! ### Declarations -/

theorem ReadsSingleDeclaration.quiet {s t : State} {d : SingleDeclaration} :
    ReadsSingleDeclaration s d t → Quiet s t (Passes DerivesSingleDeclaration d.shape? s t)
  | .const hk hname htilde he => by
    obtain ⟨k, hahead, hkind, -⟩ := State.ahead_eq_cons hk (by decide)
    obtain ⟨n, hahead₁, hn, hsp, -, hf₁, -⟩ := State.of_acceptName? hname
    obtain ⟨tilde, hahead₂, htl, hf₂, -⟩ := State.of_accept? htilde
    refine (he.quiet.congr (by simpa [hf₂] using hf₁) rfl).imp ?_
    rintro ⟨ts, x, hts, hs, hd⟩
    refine ⟨k :: n :: tilde :: ts, .const n.spelling x, ?_, ?_, .const hkind hn htl hd⟩
    · rw [State.ahead_countNode] at hahead₁
      simp [hahead, hahead₁, hahead₂, hts]
    · simp [SingleDeclaration.shape?, hs, hsp]
  | .constWithoutName _ _ => .loud (by simp)
  | .constWithoutTilde _ hname _ => by
    obtain ⟨-, -, -, -, -, hf, -⟩ := State.of_acceptName? hname
    exact .loud (by simp [hf])
  | .var hk hname hcolon htype => by
    obtain ⟨k, hahead, hkind, -⟩ := State.ahead_eq_cons hk (by decide)
    obtain ⟨n, hahead₁, hn, hsp₁, -, hf₁, -⟩ := State.of_acceptName? hname
    obtain ⟨colon, hahead₂, hc, hf₂, -⟩ := State.of_accept? hcolon
    obtain ⟨y, hahead₃, hy, hsp₂, -, hf₃, -⟩ := State.of_acceptName? htype
    refine (Quiet.refl ⟨[k, n, colon, y], .var n.spelling y.spelling, ?_, ?_, .var hkind hn hc hy⟩).congr rfl
      (by simpa [hf₂, hf₁] using hf₃)
    · rw [State.ahead_countNode] at hahead₁ hahead₃
      simp [hahead, hahead₁, hahead₂, hahead₃]
    · simp [SingleDeclaration.shape?, hsp₁, hsp₂]
  | .varWithoutName _ _ => .loud (by simp)
  | .varWithoutColon _ hname _ => by
    obtain ⟨-, -, -, -, -, hf, -⟩ := State.of_acceptName? hname
    exact .loud (by simp [hf])
  | .varWithoutType _ hname hcolon _ => by
    obtain ⟨-, -, -, -, -, hf₁, -⟩ := State.of_acceptName? hname
    obtain ⟨-, -, -, hf₂, -⟩ := State.of_accept? hcolon
    exact .loud (by simp [hf₂, hf₁])
  | .unexpected _ _ => .loud (by simp)

theorem ReadsMoreDeclarations.quiet {s t : State} {ds : List SingleDeclaration}
    (h : ReadsMoreDeclarations s ds t) :
    Quiet s t (Passes DerivesMoreDeclarations (declarationShapes? ds) s t) := by
  induction h with
  | done => exact .refl ⟨[], [], rfl, rfl, .none⟩
  | more hsep hd _ ih =>
    obtain ⟨sep, hahead, hk, hf, -⟩ := State.of_accept? hsep
    refine ((hd.quiet.congr hf rfl).trans ih).imp ?_
    rintro ⟨⟨ts, x, hts, hs, hd⟩, us, xs, hus, hss, hds⟩
    exact ⟨sep :: (ts ++ us), x :: xs, by simp [hahead, hts, hus], by simp [declarationShapes?, hs, hss],
      .more hk hd hds⟩

theorem shape?_joinDeclarations {d : SingleDeclaration} {ds : List SingleDeclaration}
    {x : Shape.SingleDeclaration} {xs : List Shape.SingleDeclaration} (hd : d.shape? = some x)
    (hds : declarationShapes? ds = some xs) : (joinDeclarations d ds).shape? = some (.sequence x xs) := by
  cases ds with
  | nil =>
    cases hds
    simp [joinDeclarations, Declaration.shape?, hd, Shape.Declaration.sequence]
  | cons d' ds =>
    simp only [declarationShapes?, Option.pure_def, Option.bind_eq_bind, Option.bind_eq_some_iff,
      Option.some.injEq] at hds
    obtain ⟨y, hy, ys, hys, rfl⟩ := hds
    simp [joinDeclarations, Declaration.shape?, declarationShapes?, hd, hy, hys,
      Shape.Declaration.sequence]

theorem ReadsDeclaration.quiet {s t : State} {d : Declaration} :
    ReadsDeclaration s d t → Quiet s t (Passes DerivesDeclaration d.shape? s t)
  | .chain hd hds => by
    refine (hd.quiet.trans hds.quiet).imp ?_
    rintro ⟨⟨ts, x, hts, hs, hd⟩, us, xs, hus, hss, hds⟩
    exact ⟨ts ++ us, _, by rw [hts, hus, List.append_assoc], shape?_joinDeclarations hs hss, .chain hd hds⟩

/-! ### Commands -/

theorem ReadsEnd.quiet {k : Token.Kind} {c c' : Command} {s t : State} :
    ReadsEnd k c s c' t → Quiet s t (c' = c ∧ ∃ tok, s.ahead = tok :: t.ahead ∧ tok.kind = k)
  | .closed hend => by
    obtain ⟨tok, hahead, hk, hf, -⟩ := State.of_accept? hend
    exact (Quiet.refl ⟨rfl, tok, hahead, hk⟩).congr rfl hf
  | .unclosed _ => .loud (by simp)

theorem ReadsAssignmentOrCall.quiet {s t : State} {c : Command} (hk : s.kind = .identifier) :
    ReadsAssignmentOrCall s c t → Quiet s t (Passes DerivesSingleCommand c.shape? s t)
  | .call hopen ha hend => by
    obtain ⟨name, hahead, hkind, hsp⟩ := State.ahead_eq_cons hk (by decide)
    obtain ⟨l, hahead₁, hl, hf, -⟩ := State.of_accept? hopen
    refine ((ha.quiet.congr (by simpa using hf) rfl).trans hend.quiet).imp ?_
    rintro ⟨⟨ts, x, hts, hs, hd⟩, hc, r, hahead₂, hr⟩
    refine ⟨name :: l :: (ts ++ [r]), .call name.spelling x, ?_, ?_, .call hkind hl hd hr⟩
    · rw [State.ahead_countNode] at hahead₁
      simp [hahead, hahead₁, hts, hahead₂]
    · simp [hc, Command.shape?, hs, hsp]
  | .assign _ hbecomes he => by
    obtain ⟨name, hahead, hkind, hsp⟩ := State.ahead_eq_cons hk (by decide)
    obtain ⟨b, hahead₁, hb, hf, -⟩ := State.of_accept? hbecomes
    refine (he.quiet.congr (by simpa using hf) rfl).imp ?_
    rintro ⟨ts, x, hts, hs, hd⟩
    refine ⟨name :: b :: ts, .assign name.spelling x, ?_, ?_, .assign hkind hb hd⟩
    · rw [State.ahead_countNode] at hahead₁
      simp [hahead, hahead₁, hts]
    · simp [Command.shape?, hs, hsp]
  | .neither _ _ => .loud (by simp)

theorem ReadsCondition.quiet {k : Keyword} {s t : State} {c : Option Expr} :
    ReadsCondition k s c t → Quiet s t (∃ e x l ts r k₁, c = some e ∧ e.shape? = some x ∧
      s.ahead = l :: (ts ++ r :: k₁ :: t.ahead) ∧ l.kind = .leftBracket ∧ DerivesExpr ts x ∧
      r.kind = .rightBracket ∧ k₁.kind = .keyword k)
  | .whole hopen he hclose hkey => by
    obtain ⟨l, hahead, hl, hf₁, -⟩ := State.of_accept? hopen
    obtain ⟨r, hahead₁, hr, hf₂, -⟩ := State.of_accept? hclose
    obtain ⟨k₁, hahead₂, hk, hf₃, -⟩ := State.of_accept? hkey
    refine (he.quiet.congr hf₁ (hf₃.trans hf₂)).imp ?_
    rintro ⟨ts, x, hts, hs, hd⟩
    exact ⟨_, x, l, ts, r, k₁, rfl, hs, by simp [hahead, hts, hahead₁, hahead₂], hl, hd, hr, hk⟩
  | .withoutOpening _ => .loud (by simp)
  | .withoutClosing hopen he _ => by
    obtain ⟨-, -, -, hf, -⟩ := State.of_accept? hopen
    exact (he.quiet.congr hf rfl).report (by simp)
  | .withoutKeyword hopen he hclose _ => by
    obtain ⟨-, -, -, hf₁, -⟩ := State.of_accept? hopen
    obtain ⟨-, -, -, hf₂, -⟩ := State.of_accept? hclose
    exact (he.quiet.congr hf₁ rfl).report (by simp [hf₂])

theorem ReadsBindings.quiet {s t : State} {b : Option Declaration} :
    ReadsBindings s b t → Quiet s t (∃ d x ts k, b = some d ∧ d.shape? = some x ∧
      s.ahead = ts ++ k :: t.ahead ∧ DerivesDeclaration ts x ∧ k.kind = .keyword .in_)
  | .whole hd hin => by
    obtain ⟨k, hahead, hk, hf, -⟩ := State.of_accept? hin
    refine (hd.quiet.congr rfl hf).imp ?_
    rintro ⟨ts, x, hts, hs, hd⟩
    exact ⟨_, x, ts, k, rfl, hs, by rw [hts, hahead], hd, hk⟩
  | .withoutIn hd _ => hd.quiet.report (by simp)

theorem ReadsCount.quiet {s t : State} {c : Option Count} :
    ReadsCount s c t → Quiet s t (∃ x e f name b ts k₁ us k₂, c = some x ∧
      x.counter.name.spelling = name.spelling ∧ x.first.shape? = some e ∧ x.last.shape? = some f ∧
      s.ahead = name :: b :: (ts ++ k₁ :: (us ++ k₂ :: t.ahead)) ∧ name.kind = .identifier ∧
      b.kind = .becomes ∧ DerivesExpr ts e ∧ k₁.kind = .keyword .to_ ∧ DerivesExpr us f ∧
      k₂.kind = .keyword .do_)
  | .whole hname hbecomes hfirst hto hlast hdo => by
    obtain ⟨name, hahead, hn, hsp, -, hf₁, -⟩ := State.of_acceptName? hname
    obtain ⟨b, hahead₁, hb, hf₂, -⟩ := State.of_accept? hbecomes
    obtain ⟨k₁, hahead₂, hk₁, hf₃, -⟩ := State.of_accept? hto
    obtain ⟨k₂, hahead₃, hk₂, hf₄, -⟩ := State.of_accept? hdo
    refine ((hfirst.quiet.congr (by simpa [hf₁] using hf₂) hf₃).trans (hlast.quiet.congr rfl hf₄)).imp ?_
    rintro ⟨⟨ts, e, hts, he, hde⟩, us, f, hus, hf, hdf⟩
    refine ⟨_, e, f, name, b, ts, k₁, us, k₂, rfl, hsp, he, hf, ?_, hn, hb, hde, hk₁, hdf, hk₂⟩
    rw [State.ahead_countNode] at hahead₁
    simp [hahead, hahead₁, hts, hahead₂, hus, hahead₃]
  | .withoutName _ => .loud (by simp)
  | .withoutBecomes hname _ => by
    obtain ⟨-, -, -, -, -, hf, -⟩ := State.of_acceptName? hname
    exact .loud (by simp [hf])
  | .withoutTo hname hbecomes hfirst _ => by
    obtain ⟨-, -, -, -, -, hf₁, -⟩ := State.of_acceptName? hname
    obtain ⟨-, -, -, hf₂, -⟩ := State.of_accept? hbecomes
    exact (hfirst.quiet.congr (by simpa [hf₁] using hf₂) rfl).report (by simp)
  | .withoutDo hname hbecomes hfirst hto hlast _ => by
    obtain ⟨-, -, -, -, -, hf₁, -⟩ := State.of_acceptName? hname
    obtain ⟨-, -, -, hf₂, -⟩ := State.of_accept? hbecomes
    obtain ⟨-, -, -, hf₃, -⟩ := State.of_accept? hto
    exact ((hfirst.quiet.congr (by simpa [hf₁] using hf₂) hf₃).trans hlast.quiet).report (by simp)

theorem shape?_joinCommands {c : Command} {cs : List Command} {x : Shape.Command}
    {xs : List Shape.Command} (hc : c.shape? = some x) (hcs : commandShapes? cs = some xs) :
    (joinCommands c cs).shape? = some (.sequence x xs) := by
  cases cs with
  | nil =>
    cases hcs
    simp [joinCommands, hc, Shape.Command.sequence]
  | cons c' cs =>
    simp only [commandShapes?, Option.pure_def, Option.bind_eq_bind, Option.bind_eq_some_iff,
      Option.some.injEq] at hcs
    obtain ⟨y, hy, ys, hys, rfl⟩ := hcs
    simp [joinCommands, Command.shape?, commandShapes?, hc, hy, hys, Shape.Command.sequence]

mutual

theorem ReadsCommand.quiet {s t : State} {c : Command} :
    ReadsCommand s c t → Quiet s t (Passes DerivesCommand c.shape? s t)
  | .chain hc hcs => by
    refine (hc.quiet.trans hcs.quiet).imp ?_
    rintro ⟨⟨ts, x, hts, hs, hd⟩, us, xs, hus, hss, hds⟩
    exact ⟨ts ++ us, _, by rw [hts, hus, List.append_assoc], shape?_joinCommands hs hss, .chain hd hds⟩

theorem ReadsMoreCommands.quiet {s t : State} {cs : List Command} :
    ReadsMoreCommands s cs t → Quiet s t (Passes DerivesMoreCommands (commandShapes? cs) s t)
  | .done _ => .refl ⟨[], [], rfl, rfl, .none⟩
  | .more hsep hc hcs => by
    obtain ⟨sep, hahead, hk, hf, -⟩ := State.of_accept? hsep
    refine ((hc.quiet.congr hf rfl).trans hcs.quiet).imp ?_
    rintro ⟨⟨ts, x, hts, hs, hd⟩, us, xs, hus, hss, hds⟩
    exact ⟨sep :: (ts ++ us), x :: xs, by simp [hahead, hts, hus], by simp [commandShapes?, hs, hss],
      .more hk hd hds⟩

theorem ReadsSingleCommand.quiet {s t : State} {c : Command} :
    ReadsSingleCommand s c t → Quiet s t (Passes DerivesSingleCommand c.shape? s t)
  | .simple hk h => h.quiet hk
  | .brokenIf _ h => (h.quiet.congr (by simp) rfl).imp (by simp)
  | .ifThen hk hcond hbody _ hend => by
    obtain ⟨k, hahead, hkind, -⟩ := State.ahead_eq_cons hk (by decide)
    refine (((hcond.quiet.congr (by simp) rfl).trans hbody.quiet).trans hend.quiet).imp ?_
    rintro ⟨⟨⟨_, x, l, ts, r, k₁, ⟨⟩, hs, hahead₁, hl, hd, hr, hk₁⟩, us, y, hus, hs₁, hd₁⟩, rfl, k₂,
      hahead₂, hk₂⟩
    refine ⟨_, .ifThen x y, ?_, ?_, .ifThen hkind hl hd hr hk₁ hd₁ hk₂⟩
    · simp [hahead, hahead₁, hus, hahead₂]
    · simp [Command.shape?, hs, hs₁]
  | .ifElse hk hcond hpos helse hneg hend => by
    obtain ⟨k, hahead, hkind, -⟩ := State.ahead_eq_cons hk (by decide)
    obtain ⟨k₂, hahead₂, hk₂, hf, -⟩ := State.of_accept? helse
    refine ((((hcond.quiet.congr (by simp) rfl).trans hpos.quiet).trans
      (hneg.quiet.congr hf rfl)).trans hend.quiet).imp ?_
    rintro ⟨⟨⟨⟨_, x, l, ts, r, k₁, ⟨⟩, hs, hahead₁, hl, hd, hr, hk₁⟩, us, y, hus, hs₁, hd₁⟩, vs, z, hvs,
      hs₂, hd₂⟩, rfl, k₃, hahead₃, hk₃⟩
    refine ⟨_, .ifElse x y z, ?_, ?_, .ifElse hkind hl hd hr hk₁ hd₁ hk₂ hd₂ hk₃⟩
    · simp [hahead, hahead₁, hus, hahead₂, hvs, hahead₃]
    · simp [Command.shape?, hs, hs₁, hs₂]
  | .brokenWhile _ h => (h.quiet.congr (by simp) rfl).imp (by simp)
  | .while_ hk hcond hbody => by
    obtain ⟨k, hahead, hkind, -⟩ := State.ahead_eq_cons hk (by decide)
    refine ((hcond.quiet.congr (by simp) rfl).trans hbody.quiet).imp ?_
    rintro ⟨⟨_, x, l, ts, r, k₁, ⟨⟩, hs, hahead₁, hl, hd, hr, hk₁⟩, us, y, hus, hs₁, hd₁⟩
    refine ⟨_, .while_ x y, ?_, ?_, .while_ hkind hl hd hr hk₁ hd₁⟩
    · simp [hahead, hahead₁, hus]
    · simp [Command.shape?, hs, hs₁]
  | .brokenLet _ h => (h.quiet.congr (by simp) rfl).imp (by simp)
  | .let_ hk hdecl hbody => by
    obtain ⟨k, hahead, hkind, -⟩ := State.ahead_eq_cons hk (by decide)
    refine ((hdecl.quiet.congr (by simp) rfl).trans hbody.quiet).imp ?_
    rintro ⟨⟨_, x, ts, k₁, ⟨⟩, hs, hahead₁, hd, hk₁⟩, us, y, hus, hs₁, hd₁⟩
    refine ⟨_, .let_ x y, ?_, ?_, .let_ hkind hd hk₁ hd₁⟩
    · simp [hahead, hahead₁, hus]
    · simp [Command.shape?, hs, hs₁]
  | .brokenFor _ h => (h.quiet.congr (by simp) rfl).imp (by simp)
  | .for_ hk hcount hbody hend => by
    obtain ⟨k, hahead, hkind, -⟩ := State.ahead_eq_cons hk (by decide)
    refine (((hcount.quiet.congr (by simp) rfl).trans hbody.quiet).trans hend.quiet).imp ?_
    rintro ⟨⟨⟨_, e, f, name, b, ts, k₁, us, k₂, ⟨⟩, hsp, he, hf, hahead₁, hn, hb, hde, hk₁, hdf, hk₂⟩, vs,
      y, hvs, hs, hd⟩, rfl, k₃, hahead₂, hk₃⟩
    refine ⟨_, .for_ name.spelling e f y, ?_, ?_, .for_ hkind hn hb hde hk₁ hdf hk₂ hd hk₃⟩
    · simp [hahead, hahead₁, hvs, hahead₂]
    · simp [Command.shape?, hsp, he, hf, hs]
  | .begin_ hk hbody hend => by
    obtain ⟨k, hahead, hkind, -⟩ := State.ahead_eq_cons hk (by decide)
    refine ((hbody.quiet.congr (by simp) rfl).trans hend.quiet).imp ?_
    rintro ⟨⟨ts, x, hts, hs, hd⟩, rfl, k₁, hahead₁, hk₁⟩
    exact ⟨_, x, by simp [hahead, hts, hahead₁], hs, .begin_ hkind hd hk₁⟩
  | .blank _ => .refl ⟨[], .blank, rfl, rfl, .blank⟩

end

end TriangleCompiler.Parser
