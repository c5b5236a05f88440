import Mathlib.Logic.Relation
import TriangleCompiler.Proofs.Parser.Movement

/-! Why reading ends. An error is reported without passing a token, and so is a blank command read; still
    the readers cannot call one another for ever. Each call is listed with the calls that it makes, and a
    reader that is called again, by itself or by those that it calls, has passed a token in between. -/

namespace TriangleCompiler.Parser

/-! ### Calls -/

/-- The readers. The loops are readers that call themselves. -/
inductive Procedure where
  | command
  | moreCommands
  | singleCommand
  | assignmentOrCall
  | condition
  | bindings
  | count
  | declaration
  | moreDeclarations
  | singleDeclaration
  | constDeclaration
  | varDeclaration
  | expr
  | operands
  | primary
  | argument
deriving DecidableEq, Repr

/-- The rank of a reader: what it calls before it has passed a token is of a lower rank. -/
def Procedure.rank : Procedure → Nat
  | command | bindings => 3
  | singleCommand | declaration | argument => 2
  | singleDeclaration | expr => 1
  | _ => 0

/-- A reader with what it is called with. -/
inductive Call where
  | command (s : State)
  | moreCommands (before : List Command) (s : State)
  | singleCommand (s : State)
  | assignmentOrCall (s : State)
  | condition (k : Keyword) (s : State)
  | bindings (s : State)
  | count (s : State)
  | declaration (s : State)
  | moreDeclarations (before : List SingleDeclaration) (s : State)
  | singleDeclaration (s : State)
  | constDeclaration (s : State)
  | varDeclaration (s : State)
  | expr (s : State)
  | operands (lhs : Expr) (s : State)
  | primary (s : State)
  | argument (s : State)

namespace Call

/-- Which reader is called. -/
def procedure : Call → Procedure
  | command _ => .command
  | moreCommands _ _ => .moreCommands
  | singleCommand _ => .singleCommand
  | assignmentOrCall _ => .assignmentOrCall
  | condition _ _ => .condition
  | bindings _ => .bindings
  | count _ => .count
  | declaration _ => .declaration
  | moreDeclarations _ _ => .moreDeclarations
  | singleDeclaration _ => .singleDeclaration
  | constDeclaration _ => .constDeclaration
  | varDeclaration _ => .varDeclaration
  | expr _ => .expr
  | operands _ _ => .operands
  | primary _ => .primary
  | argument _ => .argument

/-- The state that a reader is called in. -/
def entry : Call → State
  | command s | moreCommands _ s | singleCommand s | assignmentOrCall s | condition _ s | bindings s
  | count s | declaration s | moreDeclarations _ s | singleDeclaration s | constDeclaration s
  | varDeclaration s | expr s | operands _ s | primary s | argument s => s

/-- The state behind what is read. -/
def exit : Call → State
  | command s => (Parser.command s).1.2
  | moreCommands before s => (Parser.moreCommands before s).1.2
  | singleCommand s => (Parser.singleCommand s).1.2
  | assignmentOrCall s => (Parser.assignmentOrCall s).1.2
  | condition k s => (Parser.condition k s).1.2
  | bindings s => (Parser.bindings s).1.2
  | count s => (Parser.count s).1.2
  | declaration s => (Parser.declaration s).1.2
  | moreDeclarations before s => (Parser.moreDeclarations before s).1.2
  | singleDeclaration s => (Parser.singleDeclaration s).1.2
  | constDeclaration s => (Parser.constDeclaration s).1.2
  | varDeclaration s => (Parser.varDeclaration s).1.2
  | expr s => (Parser.expr s).1.2
  | operands lhs s => (Parser.operands lhs s).1.2
  | primary s => (Parser.primary s).1.2
  | argument s => (Parser.argument s).1.2

/-- The calls for the body of a compound command, of which `head` was read before it. -/
def body {α : Type} (head : Option α × State) (calls : State → List Call) : List Call :=
  match head with
  | (none, _) => []
  | (some _, s) => calls s

/-- The calls behind a token of kind `k`, if such a token is at hand. -/
def behind (k : Token.Kind) (s : State) (calls : State → List Call) : List Call :=
  (s.accept? k).elim [] calls

/-- The calls behind a name of kind `k`. -/
def behindName (k : Token.Kind) (s : State) (calls : Name → State → List Call) : List Call :=
  (s.acceptName? k).elim [] fun (name, t) => calls name t

/-- The calls that a call makes, in this order. -/
def made : Call → List Call
  | command s => [singleCommand s, moreCommands [] (Parser.singleCommand s).1.2]
  | moreCommands before s => behind .semicolon s fun s₁ =>
    let (c, s₂) := (Parser.singleCommand s₁).1
    [singleCommand s₁, moreCommands (c :: before) s₂]
  | singleCommand s =>
    match s.kind with
    | .identifier => [assignmentOrCall s]
    | .keyword .if_ =>
      condition .then_ s.advance :: body (Parser.condition .then_ s.advance).1 fun s₁ =>
        singleCommand s₁ :: behind (.keyword .else_) (Parser.singleCommand s₁).1.2 fun s₃ =>
          [singleCommand s₃]
    | .keyword .while_ =>
      condition .do_ s.advance :: body (Parser.condition .do_ s.advance).1 fun s₁ => [singleCommand s₁]
    | .keyword .let_ =>
      bindings s.advance :: body (Parser.bindings s.advance).1 fun s₁ => [singleCommand s₁]
    | .keyword .for_ =>
      count s.advance :: body (Parser.count s.advance).1 fun s₁ => [singleCommand s₁]
    | .keyword .begin_ => [command s.advance]
    | _ => []
  | assignmentOrCall s =>
    match s.advance.countNode.accept? .leftBracket with
    | some s₁ => [argument s₁]
    | none => behind .becomes s.advance.countNode fun s₁ => [expr s₁]
  | condition _ s => behind .leftBracket s fun s₁ => [expr s₁]
  | bindings s => [declaration s]
  | count s => behindName .identifier s fun _ s₁ => behind .becomes s₁.countNode fun s₂ =>
    expr s₂ :: behind (.keyword .to_) (Parser.expr s₂).1.2 fun s₄ => [expr s₄]
  | declaration s => [singleDeclaration s, moreDeclarations [] (Parser.singleDeclaration s).1.2]
  | moreDeclarations before s => behind .semicolon s fun s₁ =>
    let (d, s₂) := (Parser.singleDeclaration s₁).1
    [singleDeclaration s₁, moreDeclarations (d :: before) s₂]
  | singleDeclaration s =>
    match s.kind with
    | .keyword .const => [constDeclaration s]
    | .keyword .var => [varDeclaration s]
    | _ => []
  | varDeclaration _ => []
  | constDeclaration s => behindName .identifier s.advance.countNode fun _ s₁ =>
    behind .tilde s₁ fun s₂ => [expr s₂]
  | expr s =>
    let (lhs, s₁) := (Parser.primary s).1
    [primary s, operands lhs s₁]
  | operands lhs s => behindName .operator s fun op s₁ =>
    let (rhs, s₂) := (Parser.primary s₁).1
    [primary s₁, operands (.binary ⟨s₂.nextId, lhs.tag.position⟩ op lhs rhs) s₂.countNode]
  | primary s =>
    match s.kind with
    | .identifier => behind .leftBracket s.advance.countNode fun s₁ => [argument s₁]
    | .operator => [primary s.advance.countNode]
    | .leftBracket => [expr s.advance]
    | _ => []
  | argument s =>
    match s.kind with
    | .rightBracket | .keyword .var => []
    | _ => [expr s.countNode]

/-- The one call makes the other. -/
def Makes (c d : Call) : Prop := d ∈ c.made

end Call

/-! ### What a call does -/

/-- From `s` the state `t` is reached, and at most `n` tokens are passed on the way. -/
structure Within (n : Nat) (s t : State) : Prop where
  reaches : Reaches s t
  cursor_le : t.cursor ≤ s.cursor + n

theorem State.cursor_advance_le (s : State) : s.advance.cursor ≤ s.cursor + 1 := by
  unfold advance
  split
  · exact Nat.le_succ _
  · exact Nat.le_refl _

theorem State.cursor_lt_advance {s : State} (h : s.kind ≠ .endOfText) : s.cursor < s.advance.cursor := by
  unfold kind at h
  unfold advance
  split
  · rename_i hahead
    rw [hahead] at h
    exact absurd rfl h
  · exact Nat.lt_succ_self _

namespace Within
variable {n : Nat} {s t u : State} {k : Token.Kind} {name : Name}

theorem refl : Within n s s := ⟨.refl, Nat.le_add_right _ _⟩

theorem advance (h : Within n s t) : Within (n + 1) s t.advance :=
  ⟨h.reaches.advance, Nat.le_trans t.cursor_advance_le (Nat.succ_le_succ h.cursor_le)⟩

theorem countNode (h : Within n s t) : Within n s t.countNode := ⟨h.reaches.countNode, h.cursor_le⟩

theorem report (h : Within n s t) (cause : SyntaxError) : Within n s (t.report cause) :=
  ⟨h.reaches.report cause, h.cursor_le⟩

theorem reportMissing (h : Within n s t) (k : Token.Kind) : Within n s (t.reportMissing k) := h.report _

theorem accept (h : Within n s t) (hk : t.accept? k = some u) : Within (n + 1) s u := by
  rw [(State.eq_advance_of_accept? hk).1]
  exact h.advance

theorem acceptName (h : Within n s t) (hk : t.acceptName? k = some (name, u)) : Within (n + 1) s u := by
  obtain ⟨v, hv, heq⟩ := Option.map_eq_some_iff.mp hk
  cases heq
  exact (h.accept hv).countNode

end Within

/-- The two tokens that a constant may lack, and the constant. -/
theorem constDeclaration_cases (s : State) :
    (s.advance.countNode.acceptName? .identifier = none ∧
      (constDeclaration s).1.2 = s.advance.countNode.reportMissing .identifier) ∨
    (∃ name s₁, s.advance.countNode.acceptName? .identifier = some (name, s₁) ∧ s₁.accept? .tilde = none ∧
      (constDeclaration s).1.2 = s₁.reportMissing .tilde) ∨
    ∃ name s₁ s₂, s.advance.countNode.acceptName? .identifier = some (name, s₁) ∧
      s₁.accept? .tilde = some s₂ ∧ (constDeclaration s).1.2 = (expr s₂).1.2 := by
  unfold constDeclaration
  dsimp only
  split
  · exact .inl ⟨‹_›, rfl⟩
  · rename_i hname
    split
    · exact .inr (.inl ⟨_, _, hname, ‹_›, rfl⟩)
    · exact .inr (.inr ⟨_, _, _, hname, ‹_›, rfl⟩)

theorem within_varDeclaration (s : State) : Within 4 s (varDeclaration s).1.2 := by
  have hstart : Within 1 s s.advance.countNode := Within.refl.advance.countNode
  unfold varDeclaration
  dsimp only
  split
  · exact Within.refl.advance.countNode.reportMissing _
  · rename_i hname
    split
    · exact (Within.refl.advance.countNode.acceptName hname).reportMissing _
    · rename_i hcolon
      split
      · exact ((Within.refl.advance.countNode.acceptName hname).accept hcolon).countNode.reportMissing _
      · exact ((hstart.acceptName hname).accept hcolon).countNode.acceptName ‹_›

/-- From `s` the calls are made one behind the other, and then `t` is reached. Before the first of them at
    most `n` tokens are passed, and behind each of them at most four. -/
inductive Runs : Nat → State → List Call → State → Prop where
  | done {n : Nat} {s t : State} : Within n s t → Runs n s [] t
  | call {n : Nat} {s t : State} {c : Call} {cs : List Call} :
      Within n s c.entry → Runs 4 c.exit cs t → Runs n s (c :: cs) t

/-- A call consists of the calls that it makes and of at most four tokens before each of them and behind
    the last; and each of these calls is made behind a token or is of a lower rank. -/
structure Call.Progresses (c : Call) : Prop where
  runs : Runs 4 c.entry c.made c.exit
  lt_or_lt : ∀ d ∈ c.made, c.entry.cursor < d.entry.cursor ∨ d.procedure.rank < c.procedure.rank

theorem Call.reaches_exit (c : Call) : Reaches c.entry c.exit := by
  cases c with
  | command s => exact (readsCommand_command s).reaches
  | moreCommands before s =>
    obtain ⟨cs, -, h⟩ := readsMoreCommands_moreCommands before s
    exact h.reaches
  | singleCommand s => exact (readsSingleCommand_singleCommand s).reaches
  | assignmentOrCall s => exact (readsAssignmentOrCall_assignmentOrCall s).reaches
  | condition k s => exact (readsCondition_condition k s).reaches
  | bindings s => exact (readsBindings_bindings s).reaches
  | count s => exact (readsCount_count s).reaches
  | declaration s => exact (readsDeclaration_declaration s).reaches
  | moreDeclarations before s =>
    obtain ⟨ds, -, h⟩ := readsMoreDeclarations_moreDeclarations before s
    exact h.reaches
  | singleDeclaration s => exact (readsSingleDeclaration_singleDeclaration s).reaches
  | constDeclaration s =>
    rcases constDeclaration_cases s with ⟨-, hexit⟩ | ⟨_, _, hname, -, hexit⟩ |
      ⟨_, _, s₂, hname, htilde, hexit⟩ <;> rw [exit, hexit]
    · exact Reaches.refl.advance.countNode.reportMissing _
    · exact (Reaches.refl.advance.countNode.acceptName hname).reportMissing _
    · exact ((Reaches.refl.advance.countNode.acceptName hname).accept htilde).trans (readsExpr_expr s₂).reaches
  | varDeclaration s => exact (within_varDeclaration s).reaches
  | expr s => exact (readsExpr_expr s).reaches
  | operands lhs s => exact (readsOperands_operands lhs s).reaches
  | primary s => exact (readsPrimary_primary s).reaches
  | argument s => exact (readsArgument_argument s).reaches

namespace Runs
variable {n : Nat} {s s' t u : State} {c d : Call} {cs : List Call}

theorem reaches_entry (h : Runs n s cs t) (hd : d ∈ cs) : Reaches s d.entry := by
  induction h with
  | done => cases hd
  | @call _ s _ c _ hc _ ih =>
    rcases List.mem_cons.mp hd with rfl | hd
    · exact hc.reaches
    · exact (hc.reaches.trans c.reaches_exit).trans (ih hd)

theorem before (h : Runs 0 s cs t) (hs : Within n s' s) : Runs n s' cs t := by
  cases h with
  | done ht => exact .done ⟨hs.reaches.trans ht.reaches, Nat.le_trans ht.cursor_le hs.cursor_le⟩
  | call hc hcs => exact .call ⟨hs.reaches.trans hc.reaches, Nat.le_trans hc.cursor_le hs.cursor_le⟩ hcs

/-- A call is made at once, and ends in `u`. -/
theorem next (hc : c.exit = u) (hcs : Runs 4 u cs t) : Runs n c.entry (c :: cs) t :=
  .call .refl (hc ▸ hcs)

end Runs

namespace Call.Progresses
variable {c : Call} {s t : State} {k : Token.Kind}

/-- No call is made. -/
theorem of_nil (hmade : c.made = []) (hexit : c.exit = t) (ht : Within 4 c.entry t) : c.Progresses := by
  refine ⟨?_, fun d hd => ?_⟩
  · rw [hmade, hexit]
    exact .done ht
  · rw [hmade] at hd
    cases hd

/-- All calls are of a lower rank. -/
theorem of_ranked (hruns : Runs 4 c.entry c.made c.exit)
    (hrank : ∀ d ∈ c.made, d.procedure.rank < c.procedure.rank) : c.Progresses :=
  ⟨hruns, fun d hd => Or.inr (hrank d hd)⟩

/-- All calls are made behind a token. -/
theorem of_passed (hs : Within 4 c.entry s) (hlt : c.entry.cursor < s.cursor)
    (hruns : Runs 0 s c.made c.exit) : c.Progresses := by
  refine ⟨hruns.before hs, fun d hd => Or.inl ?_⟩
  exact Nat.lt_of_lt_of_le hlt (hruns.reaches_entry hd).cursor_le

theorem of_advanced (hk : c.entry.kind = k) (hne : k ≠ .endOfText)
    (hruns : Runs 0 c.entry.advance c.made c.exit) : c.Progresses :=
  of_passed Within.refl.advance (State.cursor_lt_advance (hk ▸ hne)) hruns

theorem of_accepted (hs : Within 3 c.entry s) (hk : s.accept? k = some t) (hne : k ≠ .endOfText)
    (hruns : Runs 0 t c.made c.exit) : c.Progresses := by
  have hlt := State.cursor_lt_advance ((State.eq_advance_of_accept? hk).2 ▸ hne)
  rw [← (State.eq_advance_of_accept? hk).1] at hlt
  exact of_passed (hs.accept hk) (Nat.lt_of_le_of_lt hs.reaches.cursor_le hlt) hruns

end Call.Progresses

/-! ### Expressions -/

section
variable {s t : State} {e lhs : Expr} {a : Argument}

theorem ReadsPrimary.eq (h : ReadsPrimary s e t) : (primary s).1 = (e, t) :=
  Prod.ext ((readsPrimary_primary s).unique h).1 ((readsPrimary_primary s).unique h).2

theorem ReadsOperands.eq (h : ReadsOperands lhs s e t) : (operands lhs s).1 = (e, t) :=
  Prod.ext ((readsOperands_operands lhs s).unique h).1 ((readsOperands_operands lhs s).unique h).2

theorem ReadsPrimary.exit (h : ReadsPrimary s e t) : (Call.primary s).exit = t := congrArg Prod.snd h.eq

theorem ReadsOperands.exit (h : ReadsOperands lhs s e t) : (Call.operands lhs s).exit = t :=
  congrArg Prod.snd h.eq

theorem ReadsExpr.exit (h : ReadsExpr s e t) : (Call.expr s).exit = t :=
  congrArg Prod.snd (readsExpr_iff.mp h)

theorem ReadsArgument.exit (h : ReadsArgument s a t) : (Call.argument s).exit = t :=
  congrArg Prod.snd (readsArgument_iff.mp h)

open Call (behind behindName body)

theorem ReadsExpr.progresses (h : ReadsExpr s e t) : (Call.expr s).Progresses := by
  have hexit := h.exit
  cases h with
  | chain hp ho =>
    refine .of_ranked ?_ (by simp [Call.made, Call.procedure, Procedure.rank])
    simp only [Call.made, hp.eq, hexit]
    exact .next hp.exit (.next ho.exit (.done .refl))

theorem ReadsOperands.progresses (h : ReadsOperands lhs s e t) : (Call.operands lhs s).Progresses := by
  have hexit := h.exit
  cases h with
  | done hop => exact .of_nil (by simp [Call.made, behindName, hop]) hexit .refl
  | more hop hp ho =>
    obtain ⟨u, hu, heq⟩ := Option.map_eq_some_iff.mp hop
    cases heq
    refine .of_accepted .refl hu (by decide) ?_
    simp only [Call.made, behindName, hop, hp.eq, hexit, Option.elim_some]
    exact (Runs.next hp.exit (.call Within.refl.countNode (ho.exit ▸ .done .refl))).before
      Within.refl.countNode

theorem ReadsPrimary.progresses (h : ReadsPrimary s e t) : (Call.primary s).Progresses := by
  have hexit := h.exit
  cases h with
  | int hk => exact .of_nil (by simp [Call.made, hk]) hexit Within.refl.advance.countNode
  | char hk => exact .of_nil (by simp [Call.made, hk]) hexit Within.refl.advance.countNode
  | name hk hopen =>
    exact .of_nil (by simp [Call.made, hk, behind, hopen]) hexit Within.refl.advance.countNode.countNode
  | call hk hopen ha hclose =>
    refine .of_accepted Within.refl.advance.countNode hopen (by decide) ?_
    simp only [Call.made, hk, behind, hopen, hexit, Option.elim_some]
    exact .next ha.exit (.done (Within.refl.accept hclose).countNode)
  | openCall hk hopen ha hclose =>
    refine .of_accepted Within.refl.advance.countNode hopen (by decide) ?_
    simp only [Call.made, hk, behind, hopen, hexit, Option.elim_some]
    exact .next ha.exit (.done (Within.refl.reportMissing _).countNode)
  | unary hk hp =>
    refine .of_advanced hk (by decide) ?_
    simp only [Call.made, hk, hexit]
    exact (Runs.next hp.exit (.done Within.refl.countNode)).before Within.refl.countNode
  | bracketed hk he hclose =>
    refine .of_advanced hk (by decide) ?_
    simp only [Call.made, hk, hexit]
    exact .next he.exit (.done (Within.refl.accept hclose))
  | openBracket hk he hclose =>
    refine .of_advanced hk (by decide) ?_
    simp only [Call.made, hk, hexit]
    exact .next he.exit (.done (Within.refl.reportMissing _).countNode)
  | unexpected hk =>
    refine .of_nil ?_ hexit (Within.refl.report _).countNode
    simp only [Call.made]
    split <;> simp_all [startsOperand]

theorem ReadsArgument.progresses (h : ReadsArgument s a t) : (Call.argument s).Progresses := by
  have hexit := h.exit
  cases h with
  | blank hk => exact .of_nil (by simp [Call.made, hk]) hexit Within.refl.countNode
  | var hk hname => exact .of_nil (by simp [Call.made, hk]) hexit (Within.refl.countNode.advance.acceptName hname)
  | openVar hk hname =>
    exact .of_nil (by simp [Call.made, hk]) hexit (Within.refl.countNode.advance.reportMissing _)
  | value hblank hvar he =>
    have hmade : (Call.argument s).made = [.expr s.countNode] := by
      simp only [Call.made]
    refine .of_ranked ?_ (by simp [hmade, Call.procedure, Procedure.rank])
    rw [hmade, hexit]
    exact .call Within.refl.countNode (he.exit ▸ .done .refl)

end

/-! ### Declarations -/

section
open Call (behind behindName body)
variable {s t : State} {d : SingleDeclaration} {ds : List SingleDeclaration} {x : Declaration}

theorem ReadsSingleDeclaration.eq (h : ReadsSingleDeclaration s d t) : (singleDeclaration s).1 = (d, t) :=
  Prod.ext ((readsSingleDeclaration_singleDeclaration s).unique h).1
    ((readsSingleDeclaration_singleDeclaration s).unique h).2

theorem ReadsSingleDeclaration.exit (h : ReadsSingleDeclaration s d t) :
    (Call.singleDeclaration s).exit = t := congrArg Prod.snd h.eq

theorem ReadsMoreDeclarations.exit (h : ReadsMoreDeclarations s ds t) (before : List SingleDeclaration) :
    (Call.moreDeclarations before s).exit = t := by
  obtain ⟨ds', -, h'⟩ := readsMoreDeclarations_moreDeclarations before s
  exact (h'.unique h).2

theorem ReadsDeclaration.exit (h : ReadsDeclaration s x t) : (Call.declaration s).exit = t :=
  ((readsDeclaration_declaration s).unique h).2

theorem progresses_constDeclaration (s : State) : (Call.constDeclaration s).Progresses := by
  rcases constDeclaration_cases s with ⟨hname, hexit⟩ | ⟨name, s₁, hname, htilde, hexit⟩ |
    ⟨name, s₁, s₂, hname, htilde, hexit⟩
  · exact .of_nil (by simp [Call.made, behindName, hname]) hexit
      (Within.refl.advance.countNode.reportMissing _)
  · exact .of_nil (by simp [Call.made, behindName, hname, behind, htilde]) hexit
      ((Within.refl.advance.countNode.acceptName hname).reportMissing _)
  · refine .of_accepted (Within.refl.advance.countNode.acceptName hname) htilde (by decide) ?_
    simp only [Call.made, behindName, hname, behind, htilde, Option.elim_some, Call.exit, hexit]
    exact Runs.next (c := .expr s₂) rfl (.done .refl)

theorem progresses_singleDeclaration (s : State) : (Call.singleDeclaration s).Progresses := by
  by_cases hconst : s.kind = .keyword .const
  · refine .of_ranked ?_ (by simp [Call.made, hconst, Call.procedure, Procedure.rank])
    simp only [Call.made, Call.exit, singleDeclaration, hconst]
    exact Runs.next (c := .constDeclaration s) rfl (.done .refl)
  by_cases hvar : s.kind = .keyword .var
  · refine .of_ranked ?_ (by simp [Call.made, hvar, Call.procedure, Procedure.rank])
    simp only [Call.made, Call.exit, singleDeclaration, hvar]
    exact Runs.next (c := .varDeclaration s) rfl (.done .refl)
  · have hother := ReadsSingleDeclaration.unexpected hconst hvar
    exact .of_nil (by simp only [Call.made]) hother.exit (Within.refl.report _)

theorem ReadsMoreDeclarations.progresses (h : ReadsMoreDeclarations s ds t)
    (before : List SingleDeclaration) : (Call.moreDeclarations before s).Progresses := by
  have hexit := h.exit before
  cases h with
  | done hsep => exact .of_nil (by simp [Call.made, behind, hsep]) hexit .refl
  | more hsep hd hds =>
    refine .of_accepted .refl hsep (by decide) ?_
    simp only [Call.made, behind, hsep, hd.eq, hexit, Option.elim_some]
    exact .next hd.exit (.next (hds.exit _) (.done .refl))

theorem ReadsDeclaration.progresses (h : ReadsDeclaration s x t) : (Call.declaration s).Progresses := by
  have hexit := h.exit
  cases h with
  | chain hd hds =>
    refine .of_ranked ?_ (by simp [Call.made, Call.procedure, Procedure.rank])
    simp only [Call.made, hd.eq, hexit]
    exact .next hd.exit (.next (hds.exit _) (.done .refl))

end

/-! ### Commands -/

section
open Call (behind behindName body)
variable {s t : State} {c : Command} {cs : List Command}

theorem ReadsSingleCommand.eq (h : ReadsSingleCommand s c t) : (singleCommand s).1 = (c, t) :=
  Prod.ext ((readsSingleCommand_singleCommand s).unique h).1
    ((readsSingleCommand_singleCommand s).unique h).2

theorem ReadsSingleCommand.exit (h : ReadsSingleCommand s c t) : (Call.singleCommand s).exit = t :=
  congrArg Prod.snd h.eq

theorem ReadsMoreCommands.exit (h : ReadsMoreCommands s cs t) (before : List Command) :
    (Call.moreCommands before s).exit = t := by
  obtain ⟨cs', -, h'⟩ := readsMoreCommands_moreCommands before s
  exact (h'.unique h).2

theorem ReadsCommand.exit (h : ReadsCommand s c t) : (Call.command s).exit = t :=
  congrArg Prod.snd (readsCommand_iff.mp h)

theorem ReadsAssignmentOrCall.exit (h : ReadsAssignmentOrCall s c t) :
    (Call.assignmentOrCall s).exit = t := ((readsAssignmentOrCall_assignmentOrCall s).unique h).2

theorem ReadsCondition.eq {k : Keyword} {e : Option Expr} (h : ReadsCondition k s e t) :
    (condition k s).1 = (e, t) :=
  Prod.ext ((readsCondition_condition k s).unique h).1 ((readsCondition_condition k s).unique h).2

theorem ReadsCondition.exit {k : Keyword} {e : Option Expr} (h : ReadsCondition k s e t) :
    (Call.condition k s).exit = t := congrArg Prod.snd h.eq

theorem ReadsBindings.eq {d : Option Declaration} (h : ReadsBindings s d t) : (bindings s).1 = (d, t) :=
  Prod.ext ((readsBindings_bindings s).unique h).1 ((readsBindings_bindings s).unique h).2

theorem ReadsBindings.exit {d : Option Declaration} (h : ReadsBindings s d t) :
    (Call.bindings s).exit = t := congrArg Prod.snd h.eq

theorem ReadsCount.eq {x : Option Count} (h : ReadsCount s x t) : (count s).1 = (x, t) :=
  Prod.ext ((readsCount_count s).unique h).1 ((readsCount_count s).unique h).2

theorem ReadsCount.exit {x : Option Count} (h : ReadsCount s x t) : (Call.count s).exit = t :=
  congrArg Prod.snd h.eq

theorem ReadsEnd.within {k : Token.Kind} {n : Nat} {c' : Command} (h : ReadsEnd k c s c' t) :
    Within (n + 1) s t := by
  cases h with
  | closed hk => exact Within.refl.accept hk
  | unclosed hk => exact Within.refl.reportMissing k

theorem ReadsAssignmentOrCall.progresses (h : ReadsAssignmentOrCall s c t) :
    (Call.assignmentOrCall s).Progresses := by
  have hexit := h.exit
  cases h with
  | call hopen ha hend =>
    refine .of_accepted Within.refl.advance.countNode hopen (by decide) ?_
    simp only [Call.made, hopen, hexit]
    exact .next ha.exit (.done hend.within)
  | assign hopen hbecomes he =>
    refine .of_accepted Within.refl.advance.countNode hbecomes (by decide) ?_
    simp only [Call.made, behind, hopen, hbecomes, hexit, Option.elim_some]
    exact .next he.exit (.done .refl)
  | neither hopen hbecomes =>
    exact .of_nil (by simp [Call.made, behind, hopen, hbecomes]) hexit
      (Within.refl.advance.countNode.reportMissing _)

theorem ReadsCondition.progresses {k : Keyword} {e : Option Expr} (h : ReadsCondition k s e t) :
    (Call.condition k s).Progresses := by
  have hexit := h.exit
  cases h with
  | withoutOpening hopen =>
    exact .of_nil (by simp [Call.made, behind, hopen]) hexit (Within.refl.reportMissing _)
  | whole hopen he hclose hkey =>
    refine .of_accepted .refl hopen (by decide) ?_
    simp only [Call.made, behind, hopen, hexit, Option.elim_some]
    exact .next he.exit (.done ((Within.refl.accept hclose).accept hkey))
  | withoutClosing hopen he hclose =>
    refine .of_accepted .refl hopen (by decide) ?_
    simp only [Call.made, behind, hopen, hexit, Option.elim_some]
    exact .next he.exit (.done (Within.refl.reportMissing _))
  | withoutKeyword hopen he hclose hkey =>
    refine .of_accepted .refl hopen (by decide) ?_
    simp only [Call.made, behind, hopen, hexit, Option.elim_some]
    exact .next he.exit (.done ((Within.refl.accept hclose).reportMissing _))

theorem ReadsBindings.progresses {d : Option Declaration} (h : ReadsBindings s d t) :
    (Call.bindings s).Progresses := by
  have hexit := h.exit
  have hrank : ∀ d ∈ (Call.bindings s).made, d.procedure.rank < (Call.bindings s).procedure.rank := by
    simp [Call.made, Call.procedure, Procedure.rank]
  cases h with
  | whole hd hin =>
    exact .of_ranked (.next hd.exit (.done (hexit ▸ Within.refl.accept hin))) hrank
  | withoutIn hd hin =>
    exact .of_ranked (.next hd.exit (.done (hexit ▸ Within.refl.reportMissing _))) hrank

theorem ReadsCount.progresses {x : Option Count} (h : ReadsCount s x t) : (Call.count s).Progresses := by
  have hexit := h.exit
  cases h with
  | withoutName hname =>
    exact .of_nil (by simp [Call.made, behindName, hname]) hexit (Within.refl.reportMissing _)
  | withoutBecomes hname hbecomes =>
    exact .of_nil (by simp [Call.made, behindName, hname, behind, hbecomes]) hexit
      ((Within.refl.acceptName hname).countNode.reportMissing _)
  | withoutTo hname hbecomes hfirst hto =>
    refine .of_accepted (Within.refl.acceptName hname).countNode hbecomes (by decide) ?_
    simp only [Call.made, behindName, hname, behind, hbecomes, readsExpr_iff.mp hfirst, hto, hexit,
      Option.elim_some, Option.elim_none]
    exact .next hfirst.exit (.done (Within.refl.reportMissing _))
  | withoutDo hname hbecomes hfirst hto hlast hdo =>
    refine .of_accepted (Within.refl.acceptName hname).countNode hbecomes (by decide) ?_
    simp only [Call.made, behindName, hname, behind, hbecomes, readsExpr_iff.mp hfirst, hto, hexit,
      Option.elim_some]
    exact .next hfirst.exit ((Runs.next hlast.exit (.done (Within.refl.reportMissing _))).before
      (Within.refl.accept hto))
  | whole hname hbecomes hfirst hto hlast hdo =>
    refine .of_accepted (Within.refl.acceptName hname).countNode hbecomes (by decide) ?_
    simp only [Call.made, behindName, hname, behind, hbecomes, readsExpr_iff.mp hfirst, hto, hexit,
      Option.elim_some]
    exact .next hfirst.exit ((Runs.next hlast.exit (.done (Within.refl.accept hdo))).before
      (Within.refl.accept hto))

theorem ReadsCommand.progresses (h : ReadsCommand s c t) : (Call.command s).Progresses := by
  have hexit := h.exit
  cases h with
  | chain hc hcs =>
    refine .of_ranked ?_ (by simp [Call.made, Call.procedure, Procedure.rank])
    simp only [Call.made, hc.eq, hexit]
    exact .next hc.exit (.next (hcs.exit _) (.done .refl))

theorem ReadsMoreCommands.progresses (h : ReadsMoreCommands s cs t) (before : List Command) :
    (Call.moreCommands before s).Progresses := by
  have hexit := h.exit before
  cases h with
  | done hsep => exact .of_nil (by simp [Call.made, behind, hsep]) hexit .refl
  | more hsep hc hcs =>
    refine .of_accepted .refl hsep (by decide) ?_
    simp only [Call.made, behind, hsep, hc.eq, hexit, Option.elim_some]
    exact .next hc.exit (.next (hcs.exit _) (.done .refl))

theorem ReadsSingleCommand.progresses (h : ReadsSingleCommand s c t) :
    (Call.singleCommand s).Progresses := by
  have hexit := h.exit
  cases h with
  | simple hk hc =>
    refine .of_ranked ?_ (by simp [Call.made, hk, Call.procedure, Procedure.rank])
    simp only [Call.made, hk, hexit]
    exact .next hc.exit (.done .refl)
  | brokenIf hk hcond =>
    refine .of_advanced hk (by decide) ?_
    simp only [Call.made, hk, hcond.eq, body, hexit]
    exact .next hcond.exit (.done .refl)
  | ifThen hk hcond hbody helse hend =>
    refine .of_advanced hk (by decide) ?_
    simp only [Call.made, hk, hcond.eq, body, hbody.eq, behind, helse, hexit, Option.elim_none]
    exact .next hcond.exit (.next hbody.exit (.done hend.within))
  | ifElse hk hcond hpos helse hneg hend =>
    refine .of_advanced hk (by decide) ?_
    simp only [Call.made, hk, hcond.eq, body, hpos.eq, behind, helse, hexit, Option.elim_some]
    exact .next hcond.exit (.next hpos.exit ((Runs.next hneg.exit (.done hend.within)).before
      (Within.refl.accept helse)))
  | brokenWhile hk hcond =>
    refine .of_advanced hk (by decide) ?_
    simp only [Call.made, hk, hcond.eq, body, hexit]
    exact .next hcond.exit (.done .refl)
  | while_ hk hcond hbody =>
    refine .of_advanced hk (by decide) ?_
    simp only [Call.made, hk, hcond.eq, body, hexit]
    exact .next hcond.exit (.next hbody.exit (.done .refl))
  | brokenLet hk hdecl =>
    refine .of_advanced hk (by decide) ?_
    simp only [Call.made, hk, hdecl.eq, body, hexit]
    exact .next hdecl.exit (.done .refl)
  | let_ hk hdecl hbody =>
    refine .of_advanced hk (by decide) ?_
    simp only [Call.made, hk, hdecl.eq, body, hexit]
    exact .next hdecl.exit (.next hbody.exit (.done .refl))
  | brokenFor hk hcount =>
    refine .of_advanced hk (by decide) ?_
    simp only [Call.made, hk, hcount.eq, body, hexit]
    exact .next hcount.exit (.done .refl)
  | for_ hk hcount hbody hend =>
    refine .of_advanced hk (by decide) ?_
    simp only [Call.made, hk, hcount.eq, body, hexit]
    exact .next hcount.exit (.next hbody.exit (.done hend.within))
  | begin_ hk hbody hend =>
    refine .of_advanced hk (by decide) ?_
    simp only [Call.made, hk, hexit]
    exact .next hbody.exit (.done hend.within)
  | blank hk =>
    refine .of_nil ?_ hexit .refl
    simp only [Call.made]
    split <;> simp_all [startsCommand]

end

/-! ### Why calls end -/

namespace Call
variable {c d : Call}

theorem progresses (c : Call) : c.Progresses := by
  cases c with
  | command s => exact (readsCommand_command s).progresses
  | moreCommands before s =>
    obtain ⟨cs, -, h⟩ := readsMoreCommands_moreCommands before s
    exact h.progresses before
  | singleCommand s => exact (readsSingleCommand_singleCommand s).progresses
  | assignmentOrCall s => exact (readsAssignmentOrCall_assignmentOrCall s).progresses
  | condition k s => exact (readsCondition_condition k s).progresses
  | bindings s => exact (readsBindings_bindings s).progresses
  | count s => exact (readsCount_count s).progresses
  | declaration s => exact (readsDeclaration_declaration s).progresses
  | moreDeclarations before s =>
    obtain ⟨ds, -, h⟩ := readsMoreDeclarations_moreDeclarations before s
    exact h.progresses before
  | singleDeclaration s => exact progresses_singleDeclaration s
  | constDeclaration s => exact progresses_constDeclaration s
  | varDeclaration s => exact .of_nil rfl rfl (within_varDeclaration s)
  | expr s => exact (readsExpr_expr s).progresses
  | operands lhs s => exact (readsOperands_operands lhs s).progresses
  | primary s => exact (readsPrimary_primary s).progresses
  | argument s => exact (readsArgument_argument s).progresses

theorem Makes.reaches (h : Makes c d) : Reaches c.entry d.entry := c.progresses.runs.reaches_entry h

theorem reaches_of_makes (h : Relation.ReflTransGen Makes c d) : Reaches c.entry d.entry := by
  induction h with
  | refl => exact .refl
  | tail _ hmakes ih => exact ih.trans hmakes.reaches

/-- A call passes tokens before the next one is made, or the next one is of a lower rank. -/
theorem Makes.lt_or_eq (h : Makes c d) : c.entry.cursor < d.entry.cursor ∨
    c.entry.cursor = d.entry.cursor ∧ d.procedure.rank < c.procedure.rank := by
  rcases Nat.lt_or_eq_of_le h.reaches.cursor_le with hlt | heq
  · exact .inl hlt
  · rcases c.progresses.lt_or_lt d h with hlt | hrank
    · exact .inl hlt
    · exact .inr ⟨heq, hrank⟩

theorem lt_or_eq_of_makes (h : Relation.TransGen Makes c d) : c.entry.cursor < d.entry.cursor ∨
    c.entry.cursor = d.entry.cursor ∧ d.procedure.rank < c.procedure.rank := by
  induction h with
  | single hmakes => exact hmakes.lt_or_eq
  | tail _ hmakes ih =>
    rcases ih with hlt | ⟨heq, hrank⟩
    · exact .inl (Nat.lt_of_lt_of_le hlt hmakes.reaches.cursor_le)
    · rcases hmakes.lt_or_eq with hlt' | ⟨heq', hrank'⟩
      · exact .inl (heq ▸ hlt')
      · exact .inr ⟨heq.trans heq', Nat.lt_trans hrank' hrank⟩

/-- A reader that is called again has passed a token. -/
theorem cursor_lt_of_cycle (h : Relation.TransGen Makes c d) (hsame : d.procedure = c.procedure) :
    c.entry.cursor < d.entry.cursor := by
  rcases lt_or_eq_of_makes h with hlt | ⟨-, hrank⟩
  · exact hlt
  · rw [hsame] at hrank
    exact absurd hrank (Nat.lt_irrefl _)

/-- The tokens ahead, and then the rank, go down from call to call. -/
theorem wellFounded_makes : WellFounded fun d c : Call => c.Makes d := by
  refine Subrelation.wf ?_ (invImage (fun c : Call => (c.entry.ahead.length, c.procedure.rank))
    (Prod.lex Nat.lt_wfRel Nat.lt_wfRel)).wf
  intro d c h
  have hlength := h.reaches.cursor_add_length
  rcases h.lt_or_eq with hlt | ⟨heq, hrank⟩
  · have : d.entry.ahead.length < c.entry.ahead.length := by omega
    exact Prod.Lex.left _ _ this
  · have : d.entry.ahead.length = c.entry.ahead.length := by omega
    exact Prod.lex_def.mpr (.inr ⟨this, hrank⟩)

end Call

end TriangleCompiler.Parser

namespace TriangleCompiler
open Relation

/-- Reading ends for all tokens with an `endOfText` behind them, whatever they are. All that is done between
    the first state and the last is to pass a token, to number a node and to report an error, and in every
    state on the way the cursor is at a token, which is the one at hand, and never goes back. Each call that
    is made goes through the calls that it makes itself; there is no endless chain of them, and where a
    reader is called a second time in a chain, or a loop goes round, a token was passed. -/
theorem Program.ofTokens_ends {tokens : List Token} {last : Token} (hlast : last.kind = .endOfText) :
    ∃ s r, Parser.State.ofTokens (tokens ++ [last]) = .ok s ∧
      Program.ofTokens (tokens ++ [last]) = .ok r ∧ r = Parser.program s ∧
      Parser.Reaches s (Parser.endOfText (Parser.command s).1.2) ∧
      (∀ t, Parser.Reaches s t → t.cursor ≤ tokens.length ∧
        (∃ token, (tokens ++ [last])[t.cursor]? = some token ∧ token.kind = t.kind ∧
          token.position = t.position) ∧
        ∀ u, Parser.Reaches t u → t.cursor ≤ u.cursor) ∧
      (∀ c, ReflTransGen Parser.Call.Makes (.command s) c → Parser.Reaches s c.entry ∧
        Parser.Runs 4 c.entry c.made c.exit ∧
        ∀ d, TransGen Parser.Call.Makes c d → d.procedure = c.procedure →
          c.entry.cursor < d.entry.cursor) ∧
      WellFounded fun d c : Parser.Call => c.Makes d := by
  refine ⟨_, _, Parser.State.ofTokens_concat hlast, Parser.ofTokens_concat hlast, rfl, ?_, ?_, ?_,
    Parser.Call.wellFounded_makes⟩
  · exact (Parser.readsCommand_command _).reaches.endOfText
  · intro t ht
    have hlength : t.cursor + t.ahead.length = 0 + tokens.length := ht.cursor_add_length
    obtain ⟨token, htoken, hposition, hkind⟩ :=
      ((Parser.State.StandsIn.start tokens last).reaches ht).getElem?_cursor
    exact ⟨by omega, ⟨token, htoken, hkind hlast, hposition⟩, fun u hu => hu.cursor_le⟩
  · intro c hc
    exact ⟨Parser.Call.reaches_of_makes hc, c.progresses.runs, fun d => Parser.Call.cursor_lt_of_cycle⟩

/-- In `begin begin x := ? ;` with another `endOfText` behind it, four errors are reported at the unknown
    character, which is never passed; the sequences inside are read behind the first `begin`. -/
theorem Program.ofTokens_ends_amid_errors :
    let token (k : Token.Kind) : Token := ⟨k, "", ⟨1, 1⟩⟩
    let tokens := [token (.keyword .begin_), token (.keyword .begin_), token .identifier, token .becomes,
      token .unknownInput, token .semicolon, token .endOfText]
    let s := Parser.State.start tokens (token .endOfText)
    ∃ r, Program.ofTokens (tokens ++ [token .endOfText]) = .ok r ∧
      r.findings.map Parser.Finding.index = [4, 4, 4, 4] ∧
      (Parser.endOfText (Parser.command s).1.2).cursor ≤ 7 ∧
      ∀ d, TransGen Parser.Call.Makes (.command s) d → d.procedure = .command → 0 < d.entry.cursor := by
  intro token tokens s
  obtain ⟨s', r, hs, hr, -, hend, hcursor, hcalls, -⟩ := @Program.ofTokens_ends tokens (token .endOfText) rfl
  rw [Parser.State.ofTokens_concat rfl] at hs
  cases hs
  have hindices : ((Program.ofTokens (tokens ++ [token .endOfText])).toOption.any fun r =>
      r.findings.map Parser.Finding.index == [4, 4, 4, 4]) = true := by
    decide +kernel
  rw [hr] at hindices
  simp only [Except.toOption, Option.any_some, beq_iff_eq] at hindices
  exact ⟨r, hr, hindices, (hcursor _ hend).1, (hcalls _ .refl).2.2⟩

end TriangleCompiler
