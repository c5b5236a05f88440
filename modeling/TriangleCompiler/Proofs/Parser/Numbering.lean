import TriangleCompiler.Proofs.Parser.Correctness

/-! The numbers of nodes. Reading hands out one number after the other, and a number goes to one node at
    most, so no two nodes of a tree have the same. -/

namespace TriangleCompiler

mutual

/-- The numbers in an expression, in the order in which they were handed out. -/
def Expr.ids : Expr → List NodeId
  | .int tag _ | .char tag _ | .error tag => [tag.id]
  | .name tag name => [name.id, tag.id]
  | .call tag callee argument => callee.id :: (argument.ids ++ [tag.id])
  | .unary tag op operand => op.id :: (operand.ids ++ [tag.id])
  | .binary tag op lhs rhs => lhs.ids ++ op.id :: (rhs.ids ++ [tag.id])

/-- The numbers in an argument. -/
def Argument.ids : Argument → List NodeId
  | .blank tag | .error tag => [tag.id]
  | .value tag expr => tag.id :: expr.ids
  | .var tag name => [tag.id, name.id]

end

/-- The numbers in one declaration. -/
def SingleDeclaration.ids : SingleDeclaration → List NodeId
  | .const tag name value => tag.id :: name.id :: value.ids
  | .var tag name type => [tag.id, name.id, type.id, type.name.id]
  | .error _ => []

/-- The numbers in declarations. -/
def declarationIds : List SingleDeclaration → List NodeId
  | [] => []
  | d :: rest => d.ids ++ declarationIds rest

mutual

/-- The numbers in a command. -/
def Command.ids : Command → List NodeId
  | .assign _ target value => target.id :: value.ids
  | .blank _ | .error _ => []
  | .call _ callee argument => callee.id :: argument.ids
  | .ifThen _ condition body => condition.ids ++ body.ids
  | .ifElse _ condition positive negative => condition.ids ++ (positive.ids ++ negative.ids)
  | .while_ _ condition body => condition.ids ++ body.ids
  | .for_ _ counter first last body =>
    counter.name.id :: counter.id :: (first.ids ++ (last.ids ++ body.ids))
  | .let_ _ declaration body => declarationIds declaration.parts ++ body.ids
  | .sequential _ parts => commandIds parts

/-- The numbers in commands. -/
def commandIds : List Command → List NodeId
  | [] => []
  | c :: rest => c.ids ++ commandIds rest

end

namespace Parser

/-- The numbers `ids` are among those from `m` up to `n`, in this order. -/
def Counted (ids : List NodeId) (m n : Nat) : Prop :=
  m ≤ n ∧ ids.Sublist (List.range' m (n - m))

namespace Counted
variable {ids ids' : List NodeId} {l m n : Nat}

theorem nil (h : m ≤ n) : Counted [] m n := ⟨h, List.nil_sublist _⟩

theorem one : Counted [m] m (m + 1) := ⟨Nat.le_succ m, by simp⟩

theorem append (h : Counted ids l m) (h' : Counted ids' m n) : Counted (ids ++ ids') l n := by
  obtain ⟨hlm, hids⟩ := h
  obtain ⟨hmn, hids'⟩ := h'
  refine ⟨Nat.le_trans hlm hmn, ?_⟩
  have hsplit : List.range' l (n - l) = List.range' l (m - l) ++ List.range' m (n - m) := by
    have happ := List.range'_append_1 (s := l) (m := m - l) (n := n - m)
    rw [show l + (m - l) = m by omega, show m - l + (n - m) = n - l by omega] at happ
    exact happ.symm
  rw [hsplit]
  exact hids.append hids'

theorem cons (h : Counted ids (m + 1) n) : Counted (m :: ids) m n := one.append h

theorem snoc (h : Counted ids l m) : Counted (ids ++ [m]) l (m + 1) := h.append one

theorem nodup (h : Counted ids m n) : ids.Nodup := h.2.nodup List.nodup_range'

theorem lt (h : Counted ids m n) {id : Nat} (hid : id ∈ ids) : id < n := by
  have hmem := h.2.mem hid
  rw [List.mem_range'_1] at hmem
  have := h.1
  omega

end Counted

/-! ### Expressions -/

mutual

theorem ReadsExpr.counted {s t : State} {e : Expr} :
    ReadsExpr s e t → Counted e.ids s.nextId t.nextId
  | .chain hp ho => ho.counted hp.counted

theorem ReadsOperands.counted {lhs e : Expr} {s t : State} :
    ReadsOperands lhs s e t → ∀ {m : Nat}, Counted lhs.ids m s.nextId → Counted e.ids m t.nextId
  | .done _, _, h => h
  | .more hop hp ho, m, h => by
    obtain ⟨-, -, -, -, hid, -, hnext⟩ := State.of_acceptName? hop
    have hrhs := hp.counted
    rw [hnext] at hrhs
    refine ho.counted ?_
    rw [Expr.ids, hid]
    exact h.append hrhs.snoc.cons

theorem ReadsPrimary.counted {s t : State} {e : Expr} :
    ReadsPrimary s e t → Counted e.ids s.nextId t.nextId
  | .int _ | .char _ => by simpa [Expr.ids] using Counted.one
  | .name _ _ => by simpa [Expr.ids] using Counted.one.cons
  | .call _ hopen ha hclose => by
    obtain ⟨-, -, -, -, hopen⟩ := State.of_accept? hopen
    obtain ⟨-, -, -, -, hclose⟩ := State.of_accept? hclose
    have harg := ha.counted
    rw [hopen, ← hclose] at harg
    simpa [Expr.ids] using harg.snoc.cons
  | .openCall _ hopen ha _ => by
    obtain ⟨-, -, -, -, hopen⟩ := State.of_accept? hopen
    have hle := ha.counted.1
    rw [hopen] at hle
    simp only [State.nextId_countNode, State.nextId_advance] at hle
    simpa [Expr.ids] using (Counted.nil (by omega)).snoc
  | .unary _ hp => by
    have hoperand := hp.counted
    simpa [Expr.ids] using hoperand.snoc.cons
  | .bracketed _ he hclose => by
    obtain ⟨-, -, -, -, hclose⟩ := State.of_accept? hclose
    have hinner := he.counted
    rwa [← hclose, State.nextId_advance] at hinner
  | .openBracket _ he _ => by
    have hle := he.counted.1
    rw [State.nextId_advance] at hle
    simpa [Expr.ids] using (Counted.nil hle).snoc
  | .unexpected _ => by simpa [Expr.ids] using Counted.one

theorem ReadsArgument.counted {s t : State} {a : Argument} :
    ReadsArgument s a t → Counted a.ids s.nextId t.nextId
  | .blank _ => Counted.one
  | .var _ hname => by
    obtain ⟨-, -, -, -, hid, -, hnext⟩ := State.of_acceptName? hname
    simp only [State.nextId_advance, State.nextId_countNode] at hid hnext
    rw [Argument.ids, hid, hnext]
    exact Counted.one.cons
  | .openVar _ _ => by simpa [Argument.ids] using Counted.one
  | .value _ _ he => he.counted.cons

end

/-! ### Declarations -/

theorem ReadsSingleDeclaration.counted {s t : State} {d : SingleDeclaration} :
    ReadsSingleDeclaration s d t → Counted d.ids s.nextId t.nextId
  | .const _ hname htilde he => by
    obtain ⟨-, -, -, -, hid, -, hnext⟩ := State.of_acceptName? hname
    obtain ⟨-, -, -, -, htilde⟩ := State.of_accept? htilde
    have hvalue := he.counted
    simp only [State.nextId_advance, State.nextId_countNode] at hid hnext
    rw [htilde, hnext] at hvalue
    rw [SingleDeclaration.ids, hid]
    exact hvalue.cons.cons
  | .constWithoutName _ _ | .varWithoutName _ _ => Counted.nil (by simp)
  | .constWithoutTilde _ hname _ | .varWithoutColon _ hname _ => by
    obtain ⟨-, -, -, -, -, -, hnext⟩ := State.of_acceptName? hname
    simp only [State.nextId_advance, State.nextId_countNode] at hnext
    exact Counted.nil (by simp [hnext]; omega)
  | .var _ hname hcolon htype => by
    obtain ⟨-, -, -, -, hid, -, hnext⟩ := State.of_acceptName? hname
    obtain ⟨-, -, -, -, hcolon⟩ := State.of_accept? hcolon
    obtain ⟨-, -, -, -, hid', -, hnext'⟩ := State.of_acceptName? htype
    simp only [State.nextId_advance, State.nextId_countNode] at hid hnext hid' hnext'
    rw [SingleDeclaration.ids, hid, hid', hnext', hcolon, hnext]
    exact Counted.one.cons.cons.cons
  | .varWithoutType _ hname hcolon _ => by
    obtain ⟨-, -, -, -, -, -, hnext⟩ := State.of_acceptName? hname
    obtain ⟨-, -, -, -, hcolon⟩ := State.of_accept? hcolon
    simp only [State.nextId_advance, State.nextId_countNode] at hnext
    exact Counted.nil (by simp [hcolon, hnext]; omega)
  | .unexpected _ _ => Counted.nil (by simp)

theorem ReadsMoreDeclarations.counted {s t : State} {ds : List SingleDeclaration}
    (h : ReadsMoreDeclarations s ds t) : Counted (declarationIds ds) s.nextId t.nextId := by
  induction h with
  | done => exact Counted.nil (Nat.le_refl _)
  | more hsep hd _ ih =>
    obtain ⟨-, -, -, -, hsep⟩ := State.of_accept? hsep
    have hfirst := hd.counted
    rw [hsep] at hfirst
    exact hfirst.append ih

theorem ids_joinDeclarations (d : SingleDeclaration) (ds : List SingleDeclaration) :
    declarationIds (joinDeclarations d ds).parts = d.ids ++ declarationIds ds := by
  cases ds <;> rfl

theorem ReadsDeclaration.counted {s t : State} {d : Declaration} :
    ReadsDeclaration s d t → Counted (declarationIds d.parts) s.nextId t.nextId
  | .chain hd hds => by
    rw [ids_joinDeclarations]
    exact hd.counted.append hds.counted

/-! ### Commands -/

theorem ReadsEnd.counted {k : Token.Kind} {c c' : Command} {s t : State} {m : Nat}
    (h : ReadsEnd k c s c' t) (hc : Counted c.ids m s.nextId) : Counted c'.ids m t.nextId := by
  cases h with
  | closed hend =>
    obtain ⟨-, -, -, -, hend⟩ := State.of_accept? hend
    rwa [hend]
  | unclosed _ => exact Counted.nil hc.1

theorem ReadsAssignmentOrCall.counted {s t : State} {c : Command} :
    ReadsAssignmentOrCall s c t → Counted c.ids s.nextId t.nextId
  | .call hopen ha hend => by
    obtain ⟨-, -, -, -, hopen⟩ := State.of_accept? hopen
    have harg := ha.counted
    simp only [hopen, State.nextId_advance, State.nextId_countNode] at harg
    exact hend.counted harg.cons
  | .assign _ hbecomes he => by
    obtain ⟨-, -, -, -, hbecomes⟩ := State.of_accept? hbecomes
    have hvalue := he.counted
    simp only [hbecomes, State.nextId_advance, State.nextId_countNode] at hvalue
    exact hvalue.cons
  | .neither _ _ => Counted.nil (by simp)

theorem ReadsCondition.counted {k : Keyword} {s t : State} {c : Option Expr} :
    ReadsCondition k s c t → Counted (c.elim [] Expr.ids) s.nextId t.nextId
  | .whole hopen he hclose hkey => by
    obtain ⟨-, -, -, -, hopen⟩ := State.of_accept? hopen
    obtain ⟨-, -, -, -, hclose⟩ := State.of_accept? hclose
    obtain ⟨-, -, -, -, hkey⟩ := State.of_accept? hkey
    have hinner := he.counted
    rwa [hopen, ← hclose, ← hkey] at hinner
  | .withoutOpening _ => Counted.nil (by simp)
  | .withoutClosing hopen he _ => by
    obtain ⟨-, -, -, -, hopen⟩ := State.of_accept? hopen
    have hle := he.counted.1
    rw [hopen] at hle
    exact Counted.nil hle
  | .withoutKeyword hopen he hclose _ => by
    obtain ⟨-, -, -, -, hopen⟩ := State.of_accept? hopen
    obtain ⟨-, -, -, -, hclose⟩ := State.of_accept? hclose
    have hle := he.counted.1
    rw [hopen, ← hclose] at hle
    exact Counted.nil hle

theorem ReadsBindings.counted {s t : State} {b : Option Declaration} :
    ReadsBindings s b t → Counted (b.elim [] fun d => declarationIds d.parts) s.nextId t.nextId
  | .whole hd hin => by
    obtain ⟨-, -, -, -, hin⟩ := State.of_accept? hin
    have hinner := hd.counted
    rwa [← hin] at hinner
  | .withoutIn hd _ => Counted.nil hd.counted.1

/-- The numbers in the head of a counting loop. -/
def Count.ids (c : Count) : List NodeId :=
  c.counter.name.id :: c.counter.id :: (c.first.ids ++ c.last.ids)

theorem ReadsCount.counted {s t : State} {c : Option Count} :
    ReadsCount s c t → Counted (c.elim [] Count.ids) s.nextId t.nextId
  | .whole hname hbecomes hfirst hto hlast hdo => by
    obtain ⟨-, -, -, -, hid, -, hnext⟩ := State.of_acceptName? hname
    obtain ⟨-, -, -, -, hbecomes⟩ := State.of_accept? hbecomes
    obtain ⟨-, -, -, -, hto⟩ := State.of_accept? hto
    obtain ⟨-, -, -, -, hdo⟩ := State.of_accept? hdo
    have h₁ := hfirst.counted
    have h₂ := hlast.counted
    rw [hbecomes, State.nextId_countNode, hnext] at h₁
    rw [hto, ← hdo] at h₂
    simp only [Option.elim_some, Count.ids, hid, hnext]
    exact (h₁.append h₂).cons.cons
  | .withoutName _ => Counted.nil (by simp)
  | .withoutBecomes hname _ => by
    obtain ⟨-, -, -, -, -, -, hnext⟩ := State.of_acceptName? hname
    exact Counted.nil (by simp [hnext]; omega)
  | .withoutTo hname hbecomes hfirst _ => by
    obtain ⟨-, -, -, -, -, -, hnext⟩ := State.of_acceptName? hname
    obtain ⟨-, -, -, -, hbecomes⟩ := State.of_accept? hbecomes
    have hle := hfirst.counted.1
    simp only [hbecomes, State.nextId_countNode, hnext] at hle
    exact Counted.nil (by simp; omega)
  | .withoutDo hname hbecomes hfirst hto hlast _ => by
    obtain ⟨-, -, -, -, -, -, hnext⟩ := State.of_acceptName? hname
    obtain ⟨-, -, -, -, hbecomes⟩ := State.of_accept? hbecomes
    obtain ⟨-, -, -, -, hto⟩ := State.of_accept? hto
    have hle := hfirst.counted.1
    have hle' := hlast.counted.1
    simp only [hbecomes, hto, State.nextId_countNode, hnext] at hle hle'
    exact Counted.nil (by simp; omega)

theorem ids_joinCommands (c : Command) (cs : List Command) :
    (joinCommands c cs).ids = c.ids ++ commandIds cs := by
  cases cs <;> simp [joinCommands, Command.ids, commandIds]

mutual

theorem ReadsCommand.counted {s t : State} {c : Command} :
    ReadsCommand s c t → Counted c.ids s.nextId t.nextId
  | .chain hc hcs => by
    rw [ids_joinCommands]
    exact hc.counted.append hcs.counted

theorem ReadsMoreCommands.counted {s t : State} {cs : List Command} :
    ReadsMoreCommands s cs t → Counted (commandIds cs) s.nextId t.nextId
  | .done _ => Counted.nil (Nat.le_refl _)
  | .more hsep hc hcs => by
    obtain ⟨-, -, -, -, hsep⟩ := State.of_accept? hsep
    have hfirst := hc.counted
    rw [hsep] at hfirst
    exact hfirst.append hcs.counted

theorem ReadsSingleCommand.counted {s t : State} {c : Command} :
    ReadsSingleCommand s c t → Counted c.ids s.nextId t.nextId
  | .simple _ h => h.counted
  | .brokenIf _ h | .brokenWhile _ h => by
    have hle := h.counted.1
    rw [State.nextId_advance] at hle
    exact Counted.nil hle
  | .ifThen _ hcond hbody _ hend => by
    have hc := hcond.counted
    rw [State.nextId_advance] at hc
    exact hend.counted (hc.append hbody.counted)
  | .ifElse _ hcond hpos helse hneg hend => by
    obtain ⟨-, -, -, -, helse⟩ := State.of_accept? helse
    have hc := hcond.counted
    have hn := hneg.counted
    rw [State.nextId_advance] at hc
    rw [helse] at hn
    exact hend.counted (hc.append (hpos.counted.append hn))
  | .while_ _ hcond hbody => by
    have hc := hcond.counted
    rw [State.nextId_advance] at hc
    exact hc.append hbody.counted
  | .brokenLet _ h => by
    have hle := h.counted.1
    rw [State.nextId_advance] at hle
    exact Counted.nil hle
  | .let_ _ hd hbody => by
    have hds := hd.counted
    rw [State.nextId_advance] at hds
    exact hds.append hbody.counted
  | .brokenFor _ h => by
    have hle := h.counted.1
    rw [State.nextId_advance] at hle
    exact Counted.nil hle
  | .for_ _ hcount hbody hend => by
    have hc := hcount.counted
    rw [State.nextId_advance] at hc
    refine hend.counted ?_
    have := hc.append hbody.counted
    simpa [Command.ids, Count.ids] using this
  | .begin_ _ hbody hend => by
    have hinner := hbody.counted
    rw [State.nextId_advance] at hinner
    exact hend.counted hinner
  | .blank _ => Counted.nil (Nat.le_refl _)

end

/-- The numbers in a program's tree are those below its node count, at most once each. -/
theorem counted_ofTokens {tokens : List Token} {r : Result} (h : Program.ofTokens tokens = .ok r) :
    Counted r.program.command.ids 0 r.program.nodeCount := by
  obtain ⟨s, hnext, -, rfl⟩ := exists_of_ofTokens h
  rw [← hnext]
  exact (readsCommand_command s).counted

end Parser

/-- Tokens with the end of the text behind them make up a program whose nodes have different numbers. -/
theorem Program.exists_ofTokens (tokens : List Token) (last : Token) (hlast : last.kind = .endOfText) :
    ∃ r, Program.ofTokens (tokens ++ [last]) = .ok r ∧
      Parser.Counted r.program.command.ids 0 r.program.nodeCount := by
  have hstate : Parser.State.ofTokens (tokens ++ [last]) = .ok ⟨tokens, last.position, 0, 0, []⟩ := by
    rw [Parser.State.ofTokens, List.getLast?_concat, List.dropLast_concat]
    exact if_pos (by rw [Token.isEnd, hlast]; rfl)
  have hr : Program.ofTokens (tokens ++ [last]) = .ok (Parser.program ⟨tokens, last.position, 0, 0, []⟩) := by
    rw [Program.ofTokens, hstate]
    rfl
  exact ⟨_, hr, Parser.counted_ofTokens hr⟩

end TriangleCompiler
