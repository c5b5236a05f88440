import TriangleCompiler.Proofs.Parser.Correctness
import TriangleCompiler.Proofs.Parser.Nodes

/-! The numbers in a tree leave no gap unless an error is reported. A number that is handed out and gets
    into no tree went to a part that was given up, and nothing is given up without a report; so what is
    read without one has as many nodes as numbers were handed out for it. -/

namespace TriangleCompiler

namespace Parser

/-- From `m` up to `n` there are as many numbers as `ids` has. -/
def Fills (ids : List NodeId) (m n : Nat) : Prop := m + ids.length = n

namespace Fills
variable {ids ids' : List NodeId} {id : NodeId} {l m n : Nat}

theorem nil : Fills [] m m := rfl

theorem one : Fills [id] m (m + 1) := rfl

theorem append (h : Fills ids l m) (h' : Fills ids' m n) : Fills (ids ++ ids') l n := by
  unfold Fills at *
  rw [List.length_append]
  omega

theorem cons (h : Fills ids (m + 1) n) : Fills (id :: ids) m n := append one h

theorem snoc (h : Fills ids l m) : Fills (ids ++ [id]) l (m + 1) := h.append one

end Fills

/-! ### Expressions -/

mutual

theorem ReadsExpr.fills {s t : State} {e : Expr} :
    ReadsExpr s e t → Quiet s t (Fills e.ids s.nextId t.nextId)
  | .chain hp ho => by
    refine (hp.fills.trans ho.fills).imp ?_
    rintro ⟨hlhs, hrest⟩
    exact hrest _ hlhs

theorem ReadsOperands.fills {lhs e : Expr} {s t : State} : ReadsOperands lhs s e t →
    Quiet s t (∀ m, Fills lhs.ids m s.nextId → Fills e.ids m t.nextId)
  | .done _ => .refl fun _ h => h
  | .more hop hp ho => by
    obtain ⟨-, -, -, -, -, hf, hnext⟩ := State.of_acceptName? hop
    refine ((hp.fills.congr hf rfl).trans (ho.fills.congr rfl rfl)).imp ?_
    rintro ⟨hrhs, hrest⟩ m hlhs
    rw [hnext] at hrhs
    refine hrest m ?_
    rw [Expr.ids]
    exact hlhs.append hrhs.snoc.cons

theorem ReadsPrimary.fills {s t : State} {e : Expr} :
    ReadsPrimary s e t → Quiet s t (Fills e.ids s.nextId t.nextId)
  | .int _ | .char _ => (Quiet.refl (by simpa [Expr.ids] using Fills.one)).congr rfl (by simp)
  | .name _ _ => (Quiet.refl (by simpa [Expr.ids] using Fills.one.cons)).congr rfl (by simp)
  | .call _ hopen ha hclose => by
    obtain ⟨-, -, -, hf₁, hopen⟩ := State.of_accept? hopen
    obtain ⟨-, -, -, hf₂, hclose⟩ := State.of_accept? hclose
    refine (ha.fills.congr (by simpa using hf₁) (by simpa using hf₂)).imp fun harg => ?_
    rw [hopen, ← hclose] at harg
    simpa [Expr.ids] using harg.snoc.cons
  | .openCall _ hopen ha _ => by
    obtain ⟨-, -, -, hf, -⟩ := State.of_accept? hopen
    exact (ha.fills.congr (by simpa using hf) rfl).report (by simp)
  | .unary _ hp => by
    refine (hp.fills.congr (by simp) rfl).imp fun hoperand => ?_
    simpa [Expr.ids] using hoperand.snoc.cons
  | .bracketed _ he hclose => by
    obtain ⟨-, -, -, hf, hclose⟩ := State.of_accept? hclose
    refine (he.fills.congr (by simp) hf).imp fun hinner => ?_
    rwa [← hclose, State.nextId_advance] at hinner
  | .openBracket _ he _ => (he.fills.congr (by simp) rfl).report (by simp)
  | .unexpected _ => .loud (by simp)

theorem ReadsArgument.fills {s t : State} {a : Argument} :
    ReadsArgument s a t → Quiet s t (Fills a.ids s.nextId t.nextId)
  | .blank _ => (Quiet.refl Fills.one).congr rfl rfl
  | .var _ hname => by
    obtain ⟨-, -, -, -, -, hf, hnext⟩ := State.of_acceptName? hname
    refine (Quiet.refl ?_).congr rfl (by simpa using hf)
    rw [hnext]
    simpa [Argument.ids] using Fills.one.cons
  | .openVar _ _ => .loud (by simp)
  | .value _ _ he => (he.fills.congr rfl rfl).imp fun hvalue => hvalue.cons

end

/-! ### Declarations -/

theorem ReadsSingleDeclaration.fills {s t : State} {d : SingleDeclaration} :
    ReadsSingleDeclaration s d t → Quiet s t (Fills d.ids s.nextId t.nextId)
  | .const _ hname htilde he => by
    obtain ⟨-, -, -, -, -, hf₁, hnext⟩ := State.of_acceptName? hname
    obtain ⟨-, -, -, hf₂, htilde⟩ := State.of_accept? htilde
    refine (he.fills.congr (by simpa [hf₂] using hf₁) rfl).imp fun hvalue => ?_
    rw [htilde, hnext, State.nextId_countNode, State.nextId_advance] at hvalue
    exact hvalue.cons.cons
  | .constWithoutName _ _ | .varWithoutName _ _ => .loud (by simp)
  | .constWithoutTilde _ hname _ | .varWithoutColon _ hname _ => by
    obtain ⟨-, -, -, -, -, hf, -⟩ := State.of_acceptName? hname
    exact .loud (by simp [hf])
  | .var _ hname hcolon htype => by
    obtain ⟨-, -, -, -, -, hf₁, hnext₁⟩ := State.of_acceptName? hname
    obtain ⟨-, -, -, hf₂, hcolon⟩ := State.of_accept? hcolon
    obtain ⟨-, -, -, -, -, hf₃, hnext₂⟩ := State.of_acceptName? htype
    refine (Quiet.refl ?_).congr rfl (by simpa [hf₂, hf₁] using hf₃)
    rw [hnext₂, State.nextId_countNode, hcolon, hnext₁, State.nextId_countNode, State.nextId_advance]
    exact Fills.one.cons.cons.cons
  | .varWithoutType _ hname hcolon _ => by
    obtain ⟨-, -, -, -, -, hf₁, -⟩ := State.of_acceptName? hname
    obtain ⟨-, -, -, hf₂, -⟩ := State.of_accept? hcolon
    exact .loud (by simp [hf₂, hf₁])
  | .unexpected _ _ => .loud (by simp)

theorem ReadsMoreDeclarations.fills {s t : State} {ds : List SingleDeclaration}
    (h : ReadsMoreDeclarations s ds t) : Quiet s t (Fills (declarationIds ds) s.nextId t.nextId) := by
  induction h with
  | done => exact .refl Fills.nil
  | more hsep hd _ ih =>
    obtain ⟨-, -, -, hf, hsep⟩ := State.of_accept? hsep
    refine ((hd.fills.congr hf rfl).trans ih).imp ?_
    rintro ⟨hfirst, hrest⟩
    rw [hsep] at hfirst
    exact hfirst.append hrest

theorem ReadsDeclaration.fills {s t : State} {d : Declaration} :
    ReadsDeclaration s d t → Quiet s t (Fills (declarationIds d.parts) s.nextId t.nextId)
  | .chain hd hds => by
    refine (hd.fills.trans hds.fills).imp ?_
    rintro ⟨hfirst, hrest⟩
    rw [ids_joinDeclarations]
    exact hfirst.append hrest

/-! ### Commands -/

theorem ReadsEnd.fills {k : Token.Kind} {c c' : Command} {s t : State} : ReadsEnd k c s c' t →
    Quiet s t (∀ m, Fills c.ids m s.nextId → Fills c'.ids m t.nextId)
  | .closed hend => by
    obtain ⟨-, -, -, hf, hend⟩ := State.of_accept? hend
    refine (Quiet.refl fun m hc => ?_).congr rfl hf
    rwa [hend]
  | .unclosed _ => .loud (by simp)

theorem ReadsAssignmentOrCall.fills {s t : State} {c : Command} :
    ReadsAssignmentOrCall s c t → Quiet s t (Fills c.ids s.nextId t.nextId)
  | .call hopen ha hend => by
    obtain ⟨-, -, -, hf, hopen⟩ := State.of_accept? hopen
    refine ((ha.fills.congr (by simpa using hf) rfl).trans hend.fills).imp ?_
    rintro ⟨harg, hrest⟩
    rw [hopen, State.nextId_countNode, State.nextId_advance] at harg
    exact hrest _ harg.cons
  | .assign _ hbecomes he => by
    obtain ⟨-, -, -, hf, hbecomes⟩ := State.of_accept? hbecomes
    refine (he.fills.congr (by simpa using hf) rfl).imp fun hvalue => ?_
    rw [hbecomes, State.nextId_countNode, State.nextId_advance] at hvalue
    exact hvalue.cons
  | .neither _ _ => .loud (by simp)

theorem ReadsCondition.fills {k : Keyword} {s t : State} {c : Option Expr} :
    ReadsCondition k s c t → Quiet s t (Fills (c.elim [] Expr.ids) s.nextId t.nextId)
  | .whole hopen he hclose hkey => by
    obtain ⟨-, -, -, hf₁, hopen⟩ := State.of_accept? hopen
    obtain ⟨-, -, -, hf₂, hclose⟩ := State.of_accept? hclose
    obtain ⟨-, -, -, hf₃, hkey⟩ := State.of_accept? hkey
    refine (he.fills.congr hf₁ (hf₃.trans hf₂)).imp fun hinner => ?_
    rwa [hopen, ← hclose, ← hkey] at hinner
  | .withoutOpening _ => .loud (by simp)
  | .withoutClosing hopen he _ => by
    obtain ⟨-, -, -, hf, -⟩ := State.of_accept? hopen
    exact (he.fills.congr hf rfl).report (by simp)
  | .withoutKeyword hopen he hclose _ => by
    obtain ⟨-, -, -, hf₁, -⟩ := State.of_accept? hopen
    obtain ⟨-, -, -, hf₂, -⟩ := State.of_accept? hclose
    exact (he.fills.congr hf₁ rfl).report (by simp [hf₂])

theorem ReadsBindings.fills {s t : State} {b : Option Declaration} : ReadsBindings s b t →
    Quiet s t (Fills (b.elim [] fun d => declarationIds d.parts) s.nextId t.nextId)
  | .whole hd hin => by
    obtain ⟨-, -, -, hf, hin⟩ := State.of_accept? hin
    refine (hd.fills.congr rfl hf).imp fun hinner => ?_
    rwa [← hin] at hinner
  | .withoutIn hd _ => hd.fills.report (by simp)

theorem ReadsCount.fills {s t : State} {c : Option Count} :
    ReadsCount s c t → Quiet s t (Fills (c.elim [] Count.ids) s.nextId t.nextId)
  | .whole hname hbecomes hfirst hto hlast hdo => by
    obtain ⟨-, -, -, -, -, hf₁, hnext⟩ := State.of_acceptName? hname
    obtain ⟨-, -, -, hf₂, hbecomes⟩ := State.of_accept? hbecomes
    obtain ⟨-, -, -, hf₃, hto⟩ := State.of_accept? hto
    obtain ⟨-, -, -, hf₄, hdo⟩ := State.of_accept? hdo
    refine ((hfirst.fills.congr (by simpa [hf₁] using hf₂) hf₃).trans (hlast.fills.congr rfl hf₄)).imp ?_
    rintro ⟨h₁, h₂⟩
    rw [hbecomes, State.nextId_countNode, hnext] at h₁
    rw [hto, ← hdo] at h₂
    exact (h₁.append h₂).cons.cons
  | .withoutName _ => .loud (by simp)
  | .withoutBecomes hname _ => by
    obtain ⟨-, -, -, -, -, hf, -⟩ := State.of_acceptName? hname
    exact .loud (by simp [hf])
  | .withoutTo hname hbecomes hfirst _ => by
    obtain ⟨-, -, -, -, -, hf₁, -⟩ := State.of_acceptName? hname
    obtain ⟨-, -, -, hf₂, -⟩ := State.of_accept? hbecomes
    exact (hfirst.fills.congr (by simpa [hf₁] using hf₂) rfl).report (by simp)
  | .withoutDo hname hbecomes hfirst hto hlast _ => by
    obtain ⟨-, -, -, -, -, hf₁, -⟩ := State.of_acceptName? hname
    obtain ⟨-, -, -, hf₂, -⟩ := State.of_accept? hbecomes
    obtain ⟨-, -, -, hf₃, -⟩ := State.of_accept? hto
    exact ((hfirst.fills.congr (by simpa [hf₁] using hf₂) hf₃).trans hlast.fills).report (by simp)

mutual

theorem ReadsCommand.fills {s t : State} {c : Command} :
    ReadsCommand s c t → Quiet s t (Fills c.ids s.nextId t.nextId)
  | .chain hc hcs => by
    refine (hc.fills.trans hcs.fills).imp ?_
    rintro ⟨hfirst, hrest⟩
    rw [ids_joinCommands]
    exact hfirst.append hrest

theorem ReadsMoreCommands.fills {s t : State} {cs : List Command} :
    ReadsMoreCommands s cs t → Quiet s t (Fills (commandIds cs) s.nextId t.nextId)
  | .done _ => .refl Fills.nil
  | .more hsep hc hcs => by
    obtain ⟨-, -, -, hf, hsep⟩ := State.of_accept? hsep
    refine ((hc.fills.congr hf rfl).trans hcs.fills).imp ?_
    rintro ⟨hfirst, hrest⟩
    rw [hsep] at hfirst
    exact hfirst.append hrest

theorem ReadsSingleCommand.fills {s t : State} {c : Command} :
    ReadsSingleCommand s c t → Quiet s t (Fills c.ids s.nextId t.nextId)
  | .simple _ h => h.fills
  -- Where the head of a command is missing its error was reported, so there is nothing to count.
  | .brokenIf _ h | .brokenWhile _ h => by simpa [Command.ids] using h.fills.congr (by simp) rfl
  | .brokenLet _ h => by simpa [Command.ids] using h.fills.congr (by simp) rfl
  | .brokenFor _ h => by simpa [Command.ids] using h.fills.congr (by simp) rfl
  | .ifThen _ hcond hbody _ hend => by
    refine (((hcond.fills.congr (by simp) rfl).trans hbody.fills).trans hend.fills).imp ?_
    rintro ⟨⟨h₁, h₂⟩, hrest⟩
    rw [State.nextId_advance] at h₁
    exact hrest _ (h₁.append h₂)
  | .ifElse _ hcond hpos helse hneg hend => by
    obtain ⟨-, -, -, hf, helse⟩ := State.of_accept? helse
    refine ((((hcond.fills.congr (by simp) rfl).trans hpos.fills).trans
      (hneg.fills.congr hf rfl)).trans hend.fills).imp ?_
    rintro ⟨⟨⟨h₁, h₂⟩, h₃⟩, hrest⟩
    rw [State.nextId_advance] at h₁
    rw [helse] at h₃
    exact hrest _ (h₁.append (h₂.append h₃))
  | .while_ _ hcond hbody => by
    refine ((hcond.fills.congr (by simp) rfl).trans hbody.fills).imp ?_
    rintro ⟨h₁, h₂⟩
    rw [State.nextId_advance] at h₁
    exact h₁.append h₂
  | .let_ _ hdecl hbody => by
    refine ((hdecl.fills.congr (by simp) rfl).trans hbody.fills).imp ?_
    rintro ⟨h₁, h₂⟩
    rw [State.nextId_advance] at h₁
    exact h₁.append h₂
  | .for_ _ hcount hbody hend => by
    refine (((hcount.fills.congr (by simp) rfl).trans hbody.fills).trans hend.fills).imp ?_
    rintro ⟨⟨h₁, h₂⟩, hrest⟩
    rw [State.nextId_advance] at h₁
    refine hrest _ ?_
    simpa [Command.ids, Count.ids] using h₁.append h₂
  | .begin_ _ hbody hend => by
    refine ((hbody.fills.congr (by simp) rfl).trans hend.fills).imp ?_
    rintro ⟨hinner, hrest⟩
    rw [State.nextId_advance] at hinner
    exact hrest _ hinner
  | .blank _ => .refl Fills.nil

end

/-- What is read from tokens without an error has a node for every number that was handed out. -/
theorem fills_ofTokens {tokens : List Token} {r : Result} (h : Program.ofTokens tokens = .ok r)
    (hf : r.findings = []) : Fills r.program.command.ids 0 r.program.nodeCount := by
  obtain ⟨s, hnext, hs, rfl⟩ := exists_of_ofTokens h
  obtain ⟨hcommand, -⟩ := findings_program_eq_nil.mp hf
  have hfills := (readsCommand_command s).fills.2 (by rw [hcommand, hs])
  rwa [hnext] at hfills

end Parser

/-! ### Programs -/

/-- A program is read from every list of tokens that ends with the end of the text. No two of its nodes
    have the same number, and all their numbers are below its node count. If nothing is reported, each of
    the numbers below the node count is that of one node. -/
theorem Program.ofTokens_numbers_nodes {tokens : List Token} {last : Token}
    (hlast : last.kind = .endOfText) : ∃ r, Program.ofTokens (tokens ++ [last]) = .ok r ∧
      (r.program.nodes.map Node.id).Nodup ∧ (∀ n ∈ r.program.nodes, n.id < r.program.nodeCount) ∧
      (r.findings = [] → ∀ id < r.program.nodeCount, (r.program.nodes.map Node.id).count id = 1) := by
  obtain ⟨r, hr, hids⟩ := Program.exists_ofTokens tokens last hlast
  have hperm := r.program.nodes_perm
  have hnodup := hperm.nodup_iff.mpr hids.nodup
  refine ⟨r, hr, hnodup, fun n hn => hids.lt (hperm.mem_iff.mp (List.mem_map_of_mem hn)), ?_⟩
  intro hf id hid
  have hfills := Parser.fills_ofTokens hr hf
  -- as many different numbers as there are below the node count are all of these numbers
  have hall : r.program.command.ids = List.range' 0 (r.program.nodeCount - 0) := by
    refine hids.2.eq_of_length ?_
    rw [List.length_range', ← hfills, Nat.zero_add, Nat.sub_zero]
  have hmem : id ∈ r.program.nodes.map Node.id := by
    rw [hperm.mem_iff, hall, List.mem_range'_1]
    omega
  rw [hnodup.count, if_pos hmem]

/-- The tokens of `let const c ~ - 'a'; var x : Char in for i := f(var x) to c < g() do h(i) next` are read
    without an error: the tree has 26 nodes, which have the numbers from 0 to 25. -/
theorem Program.ofTokens_numbers_loop :
    let token (k : Token.Kind) (spelling : String) : Token := ⟨k, spelling, ⟨1, 1⟩⟩
    let tokens := [token (.keyword .let_) "let", token (.keyword .const) "const", token .identifier "c",
      token .tilde "~", token .operator "-", token .charLiteral "'a'", token .semicolon ";",
      token (.keyword .var) "var", token .identifier "x", token .colon ":", token .identifier "Char",
      token (.keyword .in_) "in", token (.keyword .for_) "for", token .identifier "i", token .becomes ":=",
      token .identifier "f", token .leftBracket "(", token (.keyword .var) "var", token .identifier "x",
      token .rightBracket ")", token (.keyword .to_) "to", token .identifier "c", token .operator "<",
      token .identifier "g", token .leftBracket "(", token .rightBracket ")", token (.keyword .do_) "do",
      token .identifier "h", token .leftBracket "(", token .identifier "i", token .rightBracket ")",
      token (.keyword .next) "next"]
    let last := token .endOfText ""
    last.kind = .endOfText ∧ ∃ r, Program.ofTokens (tokens ++ [last]) = .ok r ∧ r.findings = [] ∧
      r.program.nodeCount = 26 ∧ ∀ id < 26, (r.program.nodes.map Node.id).count id = 1 := by
  intro token tokens last
  obtain ⟨r, hr, -, -, hcount⟩ := @Program.ofTokens_numbers_nodes tokens last rfl
  have hrun : ((Program.ofTokens (tokens ++ [last])).toOption.any fun r =>
      decide (r.findings = [] ∧ r.program.nodeCount = 26)) = true := by
    decide +kernel
  rw [hr] at hrun
  obtain ⟨hf, hn⟩ := of_decide_eq_true hrun
  rw [hn] at hcount
  exact ⟨rfl, r, hr, hf, hn, hcount hf⟩

end TriangleCompiler
