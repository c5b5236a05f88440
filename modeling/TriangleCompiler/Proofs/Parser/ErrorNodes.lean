import TriangleCompiler.Proofs.Parser.Movement

/-! Error nodes. A reader that cannot go on gives up its node, and whatever was read for it, and leaves an
    error node in its place. So no error is lost with a node that was given up: what a reader gives has an
    error node in it exactly if an error was reported while it was read. -/

namespace TriangleCompiler

mutual

/-- Whether there is an error node in an expression. -/
def Expr.hasErrorNode : Expr → Bool
  | .int _ _ | .char _ _ | .name _ _ => false
  | .call _ _ argument => argument.hasErrorNode
  | .unary _ _ operand => operand.hasErrorNode
  | .binary _ _ lhs rhs => lhs.hasErrorNode || rhs.hasErrorNode
  | .error _ => true

/-- Whether there is an error node in an argument. -/
def Argument.hasErrorNode : Argument → Bool
  | .blank _ | .var _ _ => false
  | .value _ expr => expr.hasErrorNode
  | .error _ => true

end

/-- Whether there is an error node in one declaration. -/
def SingleDeclaration.hasErrorNode : SingleDeclaration → Bool
  | .const _ _ value => value.hasErrorNode
  | .var _ _ _ => false
  | .error _ => true

/-- Whether there is an error node between `let` and `in`. -/
def Declaration.hasErrorNode (d : Declaration) : Bool :=
  d.parts.any SingleDeclaration.hasErrorNode

mutual

/-- Whether there is an error node in a command. -/
def Command.hasErrorNode : Command → Bool
  | .assign _ _ value => value.hasErrorNode
  | .blank _ => false
  | .call _ _ argument => argument.hasErrorNode
  | .ifThen _ condition body => condition.hasErrorNode || body.hasErrorNode
  | .ifElse _ condition positive negative =>
    condition.hasErrorNode || positive.hasErrorNode || negative.hasErrorNode
  | .while_ _ condition body => condition.hasErrorNode || body.hasErrorNode
  | .for_ _ _ first last body => first.hasErrorNode || last.hasErrorNode || body.hasErrorNode
  | .let_ _ declaration body => declaration.hasErrorNode || body.hasErrorNode
  | .sequential _ parts => anyErrorNode parts
  | .error _ => true

/-- Whether there is an error node in one of the commands. -/
def anyErrorNode : List Command → Bool
  | [] => false
  | c :: rest => c.hasErrorNode || anyErrorNode rest

end

namespace Parser

/-- Whether an error is reported where the end of the text is checked. -/
def Finding.atEnd (f : Finding) : Bool :=
  match f.cause with
  | .unexpected .endOfText _ => true
  | _ => false

/-- From `s` to `t` errors were added exactly if `broken` says so, and none of them is about the end of the
    text. -/
def Adds (broken : Bool) (s t : State) : Prop :=
  ∃ new, t.findings = new ++ s.findings ∧ broken = !new.isEmpty ∧ ∀ f ∈ new, f.atEnd = false

namespace Adds
variable {a b : Bool} {s s' t t' u : State} {k : Token.Kind}

theorem refl : Adds false s s := ⟨[], rfl, rfl, by simp⟩

theorem trans (h : Adds a s t) (h' : Adds b t u) : Adds (a || b) s u := by
  obtain ⟨new, heq, rfl, hend⟩ := h
  obtain ⟨new', heq', rfl, hend'⟩ := h'
  refine ⟨new' ++ new, by rw [heq', heq, List.append_assoc], ?_, fun f hf => ?_⟩
  · cases new <;> cases new' <;> rfl
  · exact (List.mem_append.mp hf).elim (hend' f) (hend f)

/-- Only the errors of the two states matter. -/
theorem congr (h : Adds a s t) (hs : s.findings = s'.findings) (ht : t'.findings = t.findings) :
    Adds a s' t' := by
  unfold Adds at *
  rwa [← hs, ht]

theorem report {cause : SyntaxError} (hcause : ∀ k, cause ≠ .unexpected .endOfText k) :
    Adds true s (s.report cause) := by
  refine ⟨[⟨s.cursor, s.position, cause⟩], rfl, rfl, fun f hf => ?_⟩
  cases List.mem_singleton.mp hf
  unfold Finding.atEnd
  split
  · exact absurd ‹_› (hcause _)
  · rfl

theorem reportMissing (hk : k ≠ .endOfText) : Adds true s (s.reportMissing k) :=
  report fun _ heq => hk (SyntaxError.unexpected.inj heq).1

/-- What was read before an error counts no more. -/
theorem giveUp (h : Adds a s t) (hk : k ≠ .endOfText) : Adds true s (t.reportMissing k) := by
  have := h.trans (reportMissing hk)
  rwa [Bool.or_true] at this

theorem iff (h : Adds a s t) : a = true ↔ t.findings ≠ s.findings := by
  obtain ⟨new, heq, rfl, -⟩ := h
  rw [heq]
  simp

end Adds

/-! ### Expressions -/

mutual

theorem ReadsExpr.adds {s t : State} {e : Expr} : ReadsExpr s e t → Adds e.hasErrorNode s t
  | .chain hp ho => by
    obtain ⟨b, heq, hb⟩ := ho.adds
    rw [heq]
    exact hp.adds.trans hb

theorem ReadsOperands.adds {lhs e : Expr} {s t : State} :
    ReadsOperands lhs s e t → ∃ b, e.hasErrorNode = (lhs.hasErrorNode || b) ∧ Adds b s t
  | .done _ => ⟨false, (Bool.or_false _).symm, .refl⟩
  | .more hop hp ho => by
    obtain ⟨-, -, -, -, -, hf, -⟩ := State.of_acceptName? hop
    obtain ⟨b, heq, hb⟩ := ho.adds
    refine ⟨_, ?_, (hp.adds.congr hf rfl).trans hb⟩
    rw [heq, Expr.hasErrorNode, Bool.or_assoc]

theorem ReadsPrimary.adds {s t : State} {e : Expr} : ReadsPrimary s e t → Adds e.hasErrorNode s t
  | .int _ | .char _ | .name _ _ => Adds.refl.congr rfl (by simp)
  | .call _ hopen ha hclose => by
    obtain ⟨-, -, -, hf, -⟩ := State.of_accept? hopen
    obtain ⟨-, -, -, hf₁, -⟩ := State.of_accept? hclose
    exact ha.adds.congr (by simpa using hf) (by simpa using hf₁)
  | .openCall _ hopen ha _ => by
    obtain ⟨-, -, -, hf, -⟩ := State.of_accept? hopen
    exact (ha.adds.giveUp (by decide)).congr (by simpa using hf) rfl
  | .unary _ hp => hp.adds.congr (by simp) rfl
  | .bracketed _ he hclose => by
    obtain ⟨-, -, -, hf, -⟩ := State.of_accept? hclose
    exact he.adds.congr (by simp) hf
  | .openBracket _ he _ => (he.adds.giveUp (by decide)).congr (by simp) rfl
  | .unexpected _ => (Adds.report (by simp)).congr rfl rfl

theorem ReadsArgument.adds {s t : State} {a : Argument} : ReadsArgument s a t → Adds a.hasErrorNode s t
  | .blank _ => Adds.refl.congr rfl rfl
  | .var _ hname => by
    obtain ⟨-, -, -, -, -, hf, -⟩ := State.of_acceptName? hname
    exact Adds.refl.congr rfl (by simpa using hf)
  | .openVar _ _ => (Adds.reportMissing (by decide)).congr (by simp) rfl
  | .value _ _ he => he.adds.congr rfl rfl

end

/-! ### Declarations -/

theorem ReadsSingleDeclaration.adds {s t : State} {d : SingleDeclaration} :
    ReadsSingleDeclaration s d t → Adds d.hasErrorNode s t
  | .const _ hname htilde he => by
    obtain ⟨-, -, -, -, -, hf, -⟩ := State.of_acceptName? hname
    obtain ⟨-, -, -, hf₁, -⟩ := State.of_accept? htilde
    exact he.adds.congr (by simpa [hf₁] using hf) rfl
  | .constWithoutName _ _ => (Adds.reportMissing (by decide)).congr (by simp) rfl
  | .constWithoutTilde _ hname _ => by
    obtain ⟨-, -, -, -, -, hf, -⟩ := State.of_acceptName? hname
    exact (Adds.reportMissing (by decide)).congr (by simpa using hf) rfl
  | .var _ hname hcolon htype => by
    obtain ⟨-, -, -, -, -, hf, -⟩ := State.of_acceptName? hname
    obtain ⟨-, -, -, hf₁, -⟩ := State.of_accept? hcolon
    obtain ⟨-, -, -, -, -, hf₂, -⟩ := State.of_acceptName? htype
    exact Adds.refl.congr rfl (by simpa [hf₁, hf] using hf₂)
  | .varWithoutName _ _ => (Adds.reportMissing (by decide)).congr (by simp) rfl
  | .varWithoutColon _ hname _ => by
    obtain ⟨-, -, -, -, -, hf, -⟩ := State.of_acceptName? hname
    exact (Adds.reportMissing (by decide)).congr (by simpa using hf) rfl
  | .varWithoutType _ hname hcolon _ => by
    obtain ⟨-, -, -, -, -, hf, -⟩ := State.of_acceptName? hname
    obtain ⟨-, -, -, hf₁, -⟩ := State.of_accept? hcolon
    exact (Adds.reportMissing (by decide)).congr (by simpa [hf₁] using hf) rfl
  | .unexpected _ _ => Adds.report (by simp)

theorem ReadsMoreDeclarations.adds {s t : State} {ds : List SingleDeclaration}
    (h : ReadsMoreDeclarations s ds t) : Adds (ds.any SingleDeclaration.hasErrorNode) s t := by
  induction h with
  | done => exact .refl
  | more hsep hd _ ih =>
    obtain ⟨-, -, -, hf, -⟩ := State.of_accept? hsep
    rw [List.any_cons]
    exact (hd.adds.congr hf rfl).trans ih

theorem hasErrorNode_joinDeclarations (d : SingleDeclaration) (ds : List SingleDeclaration) :
    (joinDeclarations d ds).hasErrorNode = (d.hasErrorNode || ds.any SingleDeclaration.hasErrorNode) := by
  cases ds <;> simp [joinDeclarations, Declaration.hasErrorNode, Declaration.parts]

theorem ReadsDeclaration.adds {s t : State} {d : Declaration} :
    ReadsDeclaration s d t → Adds d.hasErrorNode s t
  | .chain hd hds => by
    rw [hasErrorNode_joinDeclarations]
    exact hd.adds.trans hds.adds

/-! ### Commands -/

/-- A command that was read up to the token that ends it keeps its error nodes, or is given up. -/
theorem ReadsEnd.adds {k : Token.Kind} {c c' : Command} {s t u : State} (h : ReadsEnd k c t c' u)
    (hk : k ≠ .endOfText) (hc : Adds c.hasErrorNode s t) : Adds c'.hasErrorNode s u := by
  cases h with
  | closed hend =>
    obtain ⟨-, -, -, hf, -⟩ := State.of_accept? hend
    exact hc.congr rfl hf
  | unclosed => exact hc.giveUp hk


theorem ReadsAssignmentOrCall.adds {s t : State} {c : Command} :
    ReadsAssignmentOrCall s c t → Adds c.hasErrorNode s t
  | .call hopen ha hend => by
    obtain ⟨-, -, -, hf, -⟩ := State.of_accept? hopen
    exact hend.adds (by decide) (ha.adds.congr (by simpa using hf) rfl)
  | .assign _ hbecomes he => by
    obtain ⟨-, -, -, hf, -⟩ := State.of_accept? hbecomes
    exact he.adds.congr (by simpa using hf) rfl
  | .neither _ _ => (Adds.reportMissing (by decide)).congr (by simp) rfl

/-- Whether there is an error node in what stands before the body of a compound command. Where something
    was missing nothing is left of it, and the command will be an error node. -/
def brokenHead {α : Type} (hasErrorNode : α → Bool) : Option α → Bool
  | some x => hasErrorNode x
  | none => true

theorem ReadsCondition.adds {k : Keyword} {s t : State} {c : Option Expr} :
    ReadsCondition k s c t → Adds (brokenHead Expr.hasErrorNode c) s t
  | .whole hopen he hclose hkey => by
    obtain ⟨-, -, -, hf, -⟩ := State.of_accept? hopen
    obtain ⟨-, -, -, hf₁, -⟩ := State.of_accept? hclose
    obtain ⟨-, -, -, hf₂, -⟩ := State.of_accept? hkey
    exact he.adds.congr hf (hf₂.trans hf₁)
  | .withoutOpening _ => Adds.reportMissing (by decide)
  | .withoutClosing hopen he _ => by
    obtain ⟨-, -, -, hf, -⟩ := State.of_accept? hopen
    exact (he.adds.giveUp (by decide)).congr hf rfl
  | .withoutKeyword hopen he hclose _ => by
    obtain ⟨-, -, -, hf, -⟩ := State.of_accept? hopen
    obtain ⟨-, -, -, hf₁, -⟩ := State.of_accept? hclose
    exact (he.adds.congr hf hf₁).giveUp (by simp)

theorem ReadsBindings.adds {s t : State} {b : Option Declaration} :
    ReadsBindings s b t → Adds (brokenHead Declaration.hasErrorNode b) s t
  | .whole hd hin => by
    obtain ⟨-, -, -, hf, -⟩ := State.of_accept? hin
    exact hd.adds.congr rfl hf
  | .withoutIn hd _ => hd.adds.giveUp (by decide)

theorem ReadsCount.adds {s t : State} {c : Option Count} : ReadsCount s c t →
    Adds (brokenHead (fun x => x.first.hasErrorNode || x.last.hasErrorNode) c) s t
  | .whole hname hbecomes hfirst hto hlast hdo => by
    obtain ⟨-, -, -, -, -, hf, -⟩ := State.of_acceptName? hname
    obtain ⟨-, -, -, hf₁, -⟩ := State.of_accept? hbecomes
    obtain ⟨-, -, -, hf₂, -⟩ := State.of_accept? hto
    obtain ⟨-, -, -, hf₃, -⟩ := State.of_accept? hdo
    exact (hfirst.adds.congr (by simpa [hf] using hf₁) hf₂).trans (hlast.adds.congr rfl hf₃)
  | .withoutName _ => Adds.reportMissing (by decide)
  | .withoutBecomes hname _ => by
    obtain ⟨-, -, -, -, -, hf, -⟩ := State.of_acceptName? hname
    exact (Adds.reportMissing (by decide)).congr (by simpa using hf) rfl
  | .withoutTo hname hbecomes hfirst _ => by
    obtain ⟨-, -, -, -, -, hf, -⟩ := State.of_acceptName? hname
    obtain ⟨-, -, -, hf₁, -⟩ := State.of_accept? hbecomes
    exact (hfirst.adds.giveUp (by decide)).congr (by simpa [hf] using hf₁) rfl
  | .withoutDo hname hbecomes hfirst hto hlast _ => by
    obtain ⟨-, -, -, -, -, hf, -⟩ := State.of_acceptName? hname
    obtain ⟨-, -, -, hf₁, -⟩ := State.of_accept? hbecomes
    obtain ⟨-, -, -, hf₂, -⟩ := State.of_accept? hto
    exact ((hfirst.adds.congr (by simpa [hf] using hf₁) hf₂).trans hlast.adds).giveUp (by decide)

theorem hasErrorNode_joinCommands (c : Command) (cs : List Command) :
    (joinCommands c cs).hasErrorNode = (c.hasErrorNode || anyErrorNode cs) := by
  cases cs <;> simp [joinCommands, Command.hasErrorNode, anyErrorNode]

mutual

theorem ReadsCommand.adds {s t : State} {c : Command} : ReadsCommand s c t → Adds c.hasErrorNode s t
  | .chain hc hcs => by
    rw [hasErrorNode_joinCommands]
    exact hc.adds.trans hcs.adds

theorem ReadsMoreCommands.adds {s t : State} {cs : List Command} :
    ReadsMoreCommands s cs t → Adds (anyErrorNode cs) s t
  | .done _ => .refl
  | .more hsep hc hcs => by
    obtain ⟨-, -, -, hf, -⟩ := State.of_accept? hsep
    exact (hc.adds.congr hf rfl).trans hcs.adds

theorem ReadsSingleCommand.adds {s t : State} {c : Command} :
    ReadsSingleCommand s c t → Adds c.hasErrorNode s t
  | .simple _ h => h.adds
  | .brokenIf _ h => h.adds.congr (by simp) rfl
  | .ifThen _ hcond hbody _ hend =>
    hend.adds (by decide) ((hcond.adds.congr (by simp) rfl).trans hbody.adds)
  | .ifElse _ hcond hpos helse hneg hend => by
    obtain ⟨-, -, -, hf, -⟩ := State.of_accept? helse
    exact hend.adds (by decide)
      (((hcond.adds.congr (by simp) rfl).trans hpos.adds).trans (hneg.adds.congr hf rfl))
  | .brokenWhile _ h => h.adds.congr (by simp) rfl
  | .while_ _ hcond hbody => (hcond.adds.congr (by simp) rfl).trans hbody.adds
  | .brokenLet _ h => h.adds.congr (by simp) rfl
  | .let_ _ hdecl hbody => (hdecl.adds.congr (by simp) rfl).trans hbody.adds
  | .brokenFor _ h => h.adds.congr (by simp) rfl
  | .for_ _ hcount hbody hend =>
    hend.adds (by decide) ((hcount.adds.congr (by simp) rfl).trans hbody.adds)
  | .begin_ _ hbody hend => hend.adds (by decide) (hbody.adds.congr (by simp) rfl)
  | .blank _ => .refl

end

/-! ### Programs -/

/-- What a reader gives has an error node in it exactly if errors are reported while it is read. -/
def MarksErrors {α : Type} (hasErrorNode : α → Bool) (read : (s : State) → Parsed α s) : Prop :=
  ∀ s, hasErrorNode (read s).1.1 = true ↔ (read s).1.2.findings ≠ s.findings

/-- The last check adds an error about the end of the text, or nothing. -/
theorem filter_findings_program {s : State} (hs : s.findings = []) :
    (program s).findings.filter (!·.atEnd) = (command s).1.2.findings.reverse := by
  obtain ⟨new, heq, -, hend⟩ := (readsCommand_command s).adds
  have hkept : (command s).1.2.findings.reverse.filter (!·.atEnd) = (command s).1.2.findings.reverse := by
    rw [List.filter_eq_self]
    intro f hf
    rw [heq, hs, List.append_nil, List.mem_reverse] at hf
    rw [hend f hf]
    rfl
  simp only [program, endOfText]
  split
  · exact hkept
  · rw [State.reportMissing, State.report, List.reverse_cons, List.filter_append, hkept]
    exact List.append_nil _

end Parser

/-- From every list of tokens that ends with the end of the text a program is read. There is an error node
    in its tree exactly if an error was reported before it was checked that the text ends there; these are
    the errors that are not about the end of the text. The same holds of every part of the tree and the
    errors that were reported while that part was read, whether they were left by it or by something in it
    that was given up. -/
theorem Program.ofTokens_marks_errors {tokens : List Token} {last : Token}
    (hlast : last.kind = .endOfText) :
    ∃ s r, Parser.State.ofTokens (tokens ++ [last]) = .ok s ∧
      Program.ofTokens (tokens ++ [last]) = .ok r ∧
      (r.program.command.hasErrorNode = true ↔ (Parser.command s).1.2.findings ≠ []) ∧
      r.findings.filter (!·.atEnd) = (Parser.command s).1.2.findings.reverse ∧
      (r.findings = [] → r.program.command.hasErrorNode = false) ∧
      Parser.MarksErrors Command.hasErrorNode Parser.command ∧
      Parser.MarksErrors Command.hasErrorNode Parser.singleCommand ∧
      Parser.MarksErrors Declaration.hasErrorNode Parser.declaration ∧
      Parser.MarksErrors SingleDeclaration.hasErrorNode Parser.singleDeclaration ∧
      Parser.MarksErrors Expr.hasErrorNode Parser.expr ∧
      Parser.MarksErrors Expr.hasErrorNode Parser.primary ∧
      Parser.MarksErrors Argument.hasErrorNode Parser.argument := by
  let s := Parser.State.start tokens last
  have hcommand : (Parser.program s).program.command.hasErrorNode = true ↔
      (Parser.command s).1.2.findings ≠ [] := (Parser.readsCommand_command s).adds.iff
  have hfilter := Parser.filter_findings_program (s := s) rfl
  refine ⟨s, Parser.program s, Parser.State.ofTokens_concat hlast, Parser.ofTokens_concat hlast, hcommand,
    hfilter, ?_,
    fun s => (Parser.readsCommand_command s).adds.iff,
    fun s => (Parser.readsSingleCommand_singleCommand s).adds.iff,
    fun s => (Parser.readsDeclaration_declaration s).adds.iff,
    fun s => (Parser.readsSingleDeclaration_singleDeclaration s).adds.iff,
    fun s => (Parser.readsExpr_expr s).adds.iff,
    fun s => (Parser.readsPrimary_primary s).adds.iff,
    fun s => (Parser.readsArgument_argument s).adds.iff⟩
  intro hnil
  rw [hnil, List.filter_nil, eq_comm, List.reverse_eq_nil_iff] at hfilter
  rw [← Bool.not_eq_true, hcommand, hfilter]
  exact not_not_intro rfl

/-- In `begin x := ( ; end )` two errors are reported at the semicolon, the first of them inside the brackets
    that the second gives up, and they leave one error node; the bracket behind `end` leaves none. -/
theorem Program.ofTokens_marks_open_bracket :
    let token (k : Token.Kind) (spelling : String) : Token := ⟨k, spelling, ⟨1, 1⟩⟩
    let tokens := [token (.keyword .begin_) "begin", token .identifier "x", token .becomes ":=",
      token .leftBracket "(", token .semicolon ";", token (.keyword .end_) "end",
      token .rightBracket ")"]
    ∃ r, Program.ofTokens (tokens ++ [token .endOfText ""]) = .ok r ∧
      r.program.command.hasErrorNode = true ∧ r.findings.length = 3 ∧
      (r.findings.filter (!·.atEnd)).map Parser.Finding.index = [4, 4] := by
  intro token tokens
  obtain ⟨s, r, -, hr, hiff, hfilter, -⟩ :=
    @Program.ofTokens_marks_errors tokens (token .endOfText "") rfl
  have hindices : ((Program.ofTokens (tokens ++ [token .endOfText ""])).toOption.any fun r =>
      r.findings.length == 3 && (r.findings.filter (!·.atEnd)).map Parser.Finding.index == [4, 4]) = true := by
    decide +kernel
  rw [hr] at hindices
  simp only [Except.toOption, Option.any_some, Bool.and_eq_true, beq_iff_eq] at hindices
  refine ⟨r, hr, ?_, hindices⟩
  rw [hiff, ← List.reverse_ne_nil_iff, ← hfilter]
  intro hnil
  rw [hnil] at hindices
  cases hindices.2

end TriangleCompiler
