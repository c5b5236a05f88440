import TriangleCompiler.Program.Parser
import TriangleCompiler.Proofs.Parser.ReadingCommands
import TriangleCompiler.Proofs.Parser.Rewording
import TriangleCompiler.Proofs.Parser.Stream

/-! The names of a tree and the tokens that they were read from. Every name is a token of its own, with the
    same spelling and at the same place, and the names stand in the order of their tokens. -/

namespace TriangleCompiler

mutual

/-- The names in an expression, in the order of the text, with the kinds of their tokens. -/
def Expr.names : Expr → List (Token.Kind × Name)
  | .int _ _ | .char _ _ | .error _ => []
  | .name _ name => [(.identifier, name)]
  | .call _ callee argument => (.identifier, callee) :: argument.names
  | .unary _ op operand => (.operator, op) :: operand.names
  | .binary _ op lhs rhs => lhs.names ++ (.operator, op) :: rhs.names

def Argument.names : Argument → List (Token.Kind × Name)
  | .blank _ | .error _ => []
  | .value _ expr => expr.names
  | .var _ name => [(.identifier, name)]

end

def SingleDeclaration.names : SingleDeclaration → List (Token.Kind × Name)
  | .const _ name value => (.identifier, name) :: value.names
  | .var _ name type => [(.identifier, name), (.identifier, type.name)]
  | .error _ => []

mutual

def Command.names : Command → List (Token.Kind × Name)
  | .assign _ target value => (.identifier, target) :: value.names
  | .blank _ | .error _ => []
  | .call _ callee argument => (.identifier, callee) :: argument.names
  | .ifThen _ condition body => condition.names ++ body.names
  | .ifElse _ condition positive negative => condition.names ++ (positive.names ++ negative.names)
  | .while_ _ condition body => condition.names ++ body.names
  | .for_ _ counter first last body =>
    (.identifier, counter.name) :: (first.names ++ (last.names ++ body.names))
  | .let_ _ declaration body => declaration.parts.flatMap SingleDeclaration.names ++ body.names
  | .sequential _ parts => commandNames parts

def commandNames : List Command → List (Token.Kind × Name)
  | [] => []
  | c :: rest => c.names ++ commandNames rest

end

def Program.names (p : Program) : List (Token.Kind × Name) := p.command.names

/-- The token that a name was read from. -/
def Name.token (entry : Token.Kind × Name) : Token := ⟨entry.1, entry.2.spelling, entry.2.position⟩

namespace Parser

/-- From the tokens `xs` on those before `ys` are passed, and the names are among them in this order. -/
def Spans (xs ys : List Token) (names : List (Token.Kind × Name)) : Prop :=
  ∃ passed, xs = passed ++ ys ∧ (names.map Name.token).Sublist passed

section Steps
variable {xs ys zs : List Token} {names names' : List (Token.Kind × Name)} {s t : State} {k : Token.Kind}

theorem Spans.refl (xs : List Token) : Spans xs xs [] := ⟨[], rfl, .slnil⟩

theorem Spans.append (h : Spans xs ys names) (h' : Spans ys zs names') : Spans xs zs (names ++ names') := by
  obtain ⟨passed, rfl, hnames⟩ := h
  obtain ⟨passed', rfl, hnames'⟩ := h'
  refine ⟨passed ++ passed', by rw [List.append_assoc], ?_⟩
  rw [List.map_append]
  exact hnames.append hnames'

theorem Spans.then (h : Spans xs ys names) (h' : Spans ys zs []) : Spans xs zs names := by
  have happend := h.append h'
  rwa [List.append_nil] at happend

/-- Names may be left out. -/
theorem Spans.drop (h : Spans xs ys names) : Spans xs ys [] := by
  obtain ⟨passed, heq, -⟩ := h
  exact ⟨passed, heq, List.nil_sublist _⟩

theorem spans_accept (h : s.accept? k = some t) : Spans s.ahead t.ahead [] := by
  obtain ⟨tok, hahead, -⟩ := State.of_accept? h
  exact ⟨[tok], hahead, List.nil_sublist _⟩

theorem spans_advance (s : State) : Spans s.ahead s.advance.ahead [] := by
  unfold State.advance
  cases hahead : s.ahead with
  | nil =>
    dsimp only
    rw [hahead]
    exact .refl []
  | cons tok rest => exact ⟨[tok], rfl, List.nil_sublist _⟩

theorem spans_name (hk : s.kind = k) (hne : k ≠ .endOfText) :
    Spans s.ahead s.advance.ahead [(k, s.name)] := by
  have hposition : ∀ tok, s.ahead = tok :: s.advance.ahead → s.position = tok.position := by
    intro tok hahead
    unfold State.position
    rw [hahead]
  obtain ⟨tok, hahead, rfl, hspelling⟩ := State.ahead_eq_cons hk hne
  have htoken : Name.token (tok.kind, s.name) = tok := by
    obtain ⟨kind, spelling, position⟩ := tok
    simp only [Name.token, State.name, State.tag, hposition _ hahead, ← hspelling]
  refine ⟨[tok], hahead, ?_⟩
  simp only [List.map_cons, List.map_nil, htoken, List.Sublist.refl]

theorem spans_acceptName {name : Name} (hne : k ≠ .endOfText) (h : s.acceptName? k = some (name, t)) :
    Spans s.ahead t.ahead [(k, name)] := by
  obtain ⟨u, hu, heq⟩ := Option.map_eq_some_iff.mp h
  cases heq
  obtain ⟨tok, hahead, hkind, -⟩ := State.of_accept? hu
  have hname := spans_name ((State.kind_eq_of_ahead hahead).trans hkind) hne
  rwa [State.advance_ahead hahead] at hname

end Steps

/-! ### Expressions -/

mutual

theorem ReadsExpr.spans {s t : State} {e : Expr} : ReadsExpr s e t → Spans s.ahead t.ahead e.names
  | .chain hp ho => ho.spans hp.spans
termination_by structural h => h

theorem ReadsOperands.spans {lhs e : Expr} {s t : State} :
    ReadsOperands lhs s e t → ∀ {xs : List Token}, Spans xs s.ahead lhs.names → Spans xs t.ahead e.names
  | .done _, _, h => h
  | .more hop hp ho, _, h => by
    refine ho.spans ?_
    rw [Expr.names]
    exact h.append ((spans_acceptName (by decide) hop).append hp.spans)
termination_by structural h => h

theorem ReadsPrimary.spans {s t : State} {e : Expr} : ReadsPrimary s e t → Spans s.ahead t.ahead e.names
  | .int _ | .char _ => by
    rw [Expr.names]
    exact spans_advance s
  | .name hk _ => by
    rw [Expr.names]
    exact spans_name hk (by decide)
  | .call hk hopen ha hclose => by
    rw [Expr.names]
    have hopen := spans_accept hopen
    have hcallee := (spans_name hk (by decide)).then hopen
    have hclose := spans_accept hclose
    exact hcallee.append (ha.spans.then hclose)
  | .openCall _ hopen ha _ => by
    rw [Expr.names]
    have hopen := (spans_accept hopen).append ha.spans.drop
    exact (spans_advance s).append hopen
  | .unary hk hp => by
    rw [Expr.names]
    exact (spans_name hk (by decide)).append hp.spans
  | .bracketed _ he hclose => (spans_advance s).append (he.spans.then (spans_accept hclose))
  | .openBracket _ he _ => by
    rw [Expr.names]
    exact (spans_advance s).append he.spans.drop
  | .unexpected _ => by
    rw [Expr.names]
    exact .refl _
termination_by structural h => h

theorem ReadsArgument.spans {s t : State} {a : Argument} : ReadsArgument s a t → Spans s.ahead t.ahead a.names
  | .blank _ => by
    rw [Argument.names]
    exact .refl _
  | .var _ hname => by
    rw [Argument.names]
    exact (spans_advance s.countNode).append (spans_acceptName (by decide) hname)
  | .openVar _ _ => by
    rw [Argument.names]
    exact spans_advance s.countNode
  | .value _ _ he => by
    rw [Argument.names]
    exact he.spans
termination_by structural h => h

end

/-! ### Declarations -/

theorem ReadsSingleDeclaration.spans {s t : State} {d : SingleDeclaration} (h : ReadsSingleDeclaration s d t) :
    Spans s.ahead t.ahead d.names := by
  have hfirst := spans_advance s
  cases h with
  | const _ hname htilde he =>
    have hname := (spans_acceptName (by decide) hname).then (spans_accept htilde)
    exact hfirst.append (hname.append he.spans)
  | constWithoutName | varWithoutName => exact hfirst
  | constWithoutTilde _ hname | varWithoutColon _ hname =>
    exact hfirst.append (spans_acceptName (by decide) hname).drop
  | var _ hname hcolon htype =>
    have hname := (spans_acceptName (by decide) hname).then (spans_accept hcolon)
    have htype := spans_acceptName (by decide) htype
    exact hfirst.append (hname.append htype)
  | varWithoutType _ hname hcolon =>
    have hname := (spans_acceptName (by decide) hname).then (spans_accept hcolon)
    exact hfirst.append hname.drop
  | unexpected => exact .refl _

theorem ReadsMoreDeclarations.spans {s t : State} {ds : List SingleDeclaration}
    (h : ReadsMoreDeclarations s ds t) :
    Spans s.ahead t.ahead (ds.flatMap SingleDeclaration.names) := by
  induction h with
  | done => exact .refl _
  | more hsep hd _ ih => exact (spans_accept hsep).append (hd.spans.append ih)

theorem names_joinDeclarations (d : SingleDeclaration) (ds : List SingleDeclaration) :
    (joinDeclarations d ds).parts.flatMap SingleDeclaration.names =
      d.names ++ ds.flatMap SingleDeclaration.names := by
  cases ds <;> rfl

theorem ReadsDeclaration.spans {s t : State} {d : Declaration} :
    ReadsDeclaration s d t → Spans s.ahead t.ahead (d.parts.flatMap SingleDeclaration.names)
  | .chain hd hds => by
    rw [names_joinDeclarations]
    exact hd.spans.append hds.spans

/-! ### Commands -/

theorem ReadsEnd.spans {k : Token.Kind} {c c' : Command} {s t : State} {xs : List Token}
    (h : ReadsEnd k c s c' t) (hc : Spans xs s.ahead c.names) : Spans xs t.ahead c'.names := by
  cases h with
  | closed hend => exact hc.then (spans_accept hend)
  | unclosed =>
    rw [Command.names]
    exact hc.drop

theorem ReadsAssignmentOrCall.spans {s t : State} {c : Command} (hk : s.kind = .identifier)
    (h : ReadsAssignmentOrCall s c t) : Spans s.ahead t.ahead c.names := by
  have hname := spans_name hk (by decide)
  cases h with
  | call hopen ha hend =>
    refine hend.spans ?_
    rw [Command.names]
    have hopen := spans_accept hopen
    exact (hname.then hopen).append ha.spans
  | assign _ hbecomes he =>
    rw [Command.names]
    have hbecomes := spans_accept hbecomes
    exact (hname.then hbecomes).append he.spans
  | neither =>
    rw [Command.names]
    exact hname.drop

theorem ReadsCondition.spans {k : Keyword} {s t : State} {c : Option Expr} (h : ReadsCondition k s c t) :
    Spans s.ahead t.ahead (c.elim [] Expr.names) := by
  cases h with
  | whole hopen he hclose hkey =>
    exact (spans_accept hopen).append ((he.spans.then (spans_accept hclose)).then (spans_accept hkey))
  | withoutOpening => exact .refl _
  | withoutClosing hopen he => exact (spans_accept hopen).append he.spans.drop
  | withoutKeyword hopen he hclose =>
    have hclose := spans_accept hclose
    exact (spans_accept hopen).append (he.spans.drop.append hclose)

theorem ReadsBindings.spans {s t : State} {b : Option Declaration} (h : ReadsBindings s b t) :
    Spans s.ahead t.ahead (b.elim [] fun d => d.parts.flatMap SingleDeclaration.names) := by
  cases h with
  | whole hd hin => exact hd.spans.then (spans_accept hin)
  | withoutIn hd => exact hd.spans.drop

def Count.names (x : Count) : List (Token.Kind × Name) :=
  (.identifier, x.counter.name) :: (x.first.names ++ x.last.names)

theorem ReadsCount.spans {s t : State} {x : Option Count} (h : ReadsCount s x t) :
    Spans s.ahead t.ahead (x.elim [] Count.names) := by
  cases h with
  | whole hname hbecomes hfirst hto hlast hdo =>
    have hbecomes := spans_accept hbecomes
    have hname := (spans_acceptName (by decide) hname).then hbecomes
    have hfirst := hfirst.spans.then (spans_accept hto)
    exact hname.append (hfirst.append (hlast.spans.then (spans_accept hdo)))
  | withoutName => exact .refl _
  | withoutBecomes hname => exact (spans_acceptName (by decide) hname).drop
  | withoutTo hname hbecomes hfirst =>
    have hbecomes := spans_accept hbecomes
    have hname := (spans_acceptName (by decide) hname).then hbecomes
    exact (hname.append hfirst.spans).drop
  | withoutDo hname hbecomes hfirst hto hlast =>
    have hbecomes := spans_accept hbecomes
    have hname := (spans_acceptName (by decide) hname).then hbecomes
    have hfirst := hfirst.spans.then (spans_accept hto)
    exact (hname.append (hfirst.append hlast.spans)).drop

theorem names_joinCommands (c : Command) (cs : List Command) :
    (joinCommands c cs).names = c.names ++ commandNames cs := by
  cases cs <;> simp [joinCommands, Command.names, commandNames]

mutual

theorem ReadsCommand.spans {s t : State} {c : Command} : ReadsCommand s c t → Spans s.ahead t.ahead c.names
  | .chain hc hcs => by
    rw [names_joinCommands]
    exact hc.spans.append hcs.spans
termination_by structural h => h

theorem ReadsMoreCommands.spans {s t : State} {cs : List Command} :
    ReadsMoreCommands s cs t → Spans s.ahead t.ahead (commandNames cs)
  | .done _ => by
    rw [commandNames]
    exact .refl _
  | .more hsep hc hcs => by
    rw [commandNames]
    exact (spans_accept hsep).append (hc.spans.append hcs.spans)
termination_by structural h => h

theorem ReadsSingleCommand.spans {s t : State} {c : Command} :
    ReadsSingleCommand s c t → Spans s.ahead t.ahead c.names
  | .simple hk h => h.spans hk
  | .brokenIf _ h | .brokenWhile _ h => by
    rw [Command.names]
    exact (spans_advance s).append h.spans
  | .ifThen _ hcond hbody _ hend => by
    refine hend.spans ?_
    rw [Command.names]
    exact (spans_advance s).append (hcond.spans.append hbody.spans)
  | .ifElse _ hcond hpos helse hneg hend => by
    refine hend.spans ?_
    rw [Command.names]
    have hpos := hpos.spans.then (spans_accept helse)
    exact (spans_advance s).append (hcond.spans.append (hpos.append hneg.spans))
  | .while_ _ hcond hbody => by
    rw [Command.names]
    exact (spans_advance s).append (hcond.spans.append hbody.spans)
  | .brokenLet _ h => by
    rw [Command.names]
    exact (spans_advance s).append h.spans
  | .let_ _ hd hbody => by
    rw [Command.names]
    exact (spans_advance s).append (hd.spans.append hbody.spans)
  | .brokenFor _ h => by
    rw [Command.names]
    exact (spans_advance s).append h.spans
  | .for_ _ hcount hbody hend => by
    refine hend.spans ?_
    have hhead := (spans_advance s).append (hcount.spans.append hbody.spans)
    simpa [Command.names, Count.names] using hhead
  | .begin_ _ hbody hend => hend.spans ((spans_advance s).append hbody.spans)
  | .blank _ => by
    rw [Command.names]
    exact .refl _
termination_by structural h => h

end

/-- The names of a program are tokens of the text, in their order. -/
theorem names_ofTokens {tokens : List Token} {r : Result} (h : Program.ofTokens tokens = .ok r) :
    (r.program.names.map Name.token).Sublist tokens := by
  unfold Program.ofTokens State.ofTokens at h
  split at h
  · split at h
    · cases h
      obtain ⟨passed, hahead, hnames⟩ :=
        (readsCommand_command ⟨tokens.dropLast, _, 0, 0, []⟩).spans
      have hdrop : tokens.dropLast = passed ++ _ := hahead
      have hpassed : passed.Sublist tokens.dropLast := hdrop ▸ List.sublist_append_left passed _
      exact (hnames.trans hpassed).trans (List.dropLast_sublist tokens)
    · cases h
  · cases h

end Parser

/-! ### Names in other words -/

section Rewording
variable (w : Rewording)

def Name.rewordEntry (entry : Token.Kind × Name) : Token.Kind × Name := (entry.1, entry.2.reword w)

mutual

theorem Expr.names_reword : ∀ e : Expr, (e.reword w).names = e.names.map (Name.rewordEntry w)
  | .int _ _ | .char _ _ | .error _ | .name _ _ => by
    simp only [Expr.reword, Expr.names, List.map_cons, List.map_nil, Name.rewordEntry]
  | .call _ _ argument => by
    rw [Expr.reword, Expr.names, Expr.names, argument.names_reword]
    rfl
  | .unary _ _ operand => by
    rw [Expr.reword, Expr.names, Expr.names, operand.names_reword]
    rfl
  | .binary _ _ lhs rhs => by
    rw [Expr.reword, Expr.names, Expr.names, lhs.names_reword, rhs.names_reword, List.map_append]
    rfl

theorem Argument.names_reword : ∀ a : Argument, (a.reword w).names = a.names.map (Name.rewordEntry w)
  | .blank _ | .error _ | .var _ _ => by
    simp only [Argument.reword, Argument.names, List.map_cons, List.map_nil, Name.rewordEntry]
  | .value _ expr => by rw [Argument.reword, Argument.names, Argument.names, expr.names_reword]

end

theorem SingleDeclaration.names_reword (d : SingleDeclaration) :
    (d.reword w).names = d.names.map (Name.rewordEntry w) := by
  cases d with
  | const _ _ value =>
    rw [SingleDeclaration.reword, SingleDeclaration.names, SingleDeclaration.names, value.names_reword]
    rfl
  | var | error => rfl

theorem Declaration.names_reword (d : Declaration) :
    (d.reword w).parts.flatMap SingleDeclaration.names =
      (d.parts.flatMap SingleDeclaration.names).map (Name.rewordEntry w) := by
  rw [Declaration.parts_reword, List.flatMap_map, List.map_flatMap]
  exact congrArg (List.flatMap · d.parts) (funext (SingleDeclaration.names_reword w))

mutual

theorem Command.names_reword : ∀ c : Command, (c.reword w).names = c.names.map (Name.rewordEntry w)
  | .assign _ _ value => by
    rw [Command.reword, Command.names, Command.names, value.names_reword]
    rfl
  | .blank _ | .error _ => by simp only [Command.reword, Command.names, List.map_nil]
  | .call _ _ argument => by
    rw [Command.reword, Command.names, Command.names, argument.names_reword]
    rfl
  | .ifThen _ condition body | .while_ _ condition body => by
    rw [Command.reword, Command.names, Command.names, condition.names_reword, body.names_reword, List.map_append]
  | .ifElse _ condition positive negative => by
    rw [Command.reword, Command.names, Command.names, condition.names_reword, positive.names_reword,
      negative.names_reword, List.map_append, List.map_append]
  | .for_ _ _ first last body => by
    rw [Command.reword, Command.names, Command.names, first.names_reword, last.names_reword, body.names_reword,
      List.map_cons, List.map_append, List.map_append]
    rfl
  | .let_ _ declaration body => by
    rw [Command.reword, Command.names, Command.names, declaration.names_reword, body.names_reword,
      List.map_append]
  | .sequential _ parts => by
    rw [Command.reword, Command.names, Command.names, commandNames_reword parts]

theorem commandNames_reword :
    ∀ cs : List Command, commandNames (rewordCommands w cs) = (commandNames cs).map (Name.rewordEntry w)
  | [] => by simp only [rewordCommands, commandNames, List.map_nil]
  | c :: rest => by
    rw [rewordCommands, commandNames, commandNames, c.names_reword, commandNames_reword rest, List.map_append]

end

/-- The names of a program in other words are its names in these words. -/
theorem Program.names_reword (p : Program) : (p.reword w).names = p.names.map (Name.rewordEntry w) :=
  p.command.names_reword w

end Rewording

end TriangleCompiler
