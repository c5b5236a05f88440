import TriangleCompiler.Program.Parser
import TriangleCompiler.Proofs.Parser.ReadingCommands
import TriangleCompiler.Proofs.Parser.Stream

/-! How a reader moves. All that it does to its state is to pass the token at hand, to hand out a number and
    to report an error at the token at hand. What these three keep is kept by all that is read. -/

namespace TriangleCompiler.Parser

/-- The state that reading starts in. -/
def State.start (tokens : List Token) (last : Token) : State := ⟨tokens, last.position, 0, 0, []⟩

theorem State.ofTokens_concat {tokens : List Token} {last : Token} (hlast : last.kind = .endOfText) :
    ofTokens (tokens ++ [last]) = .ok (start tokens last) := by
  rw [ofTokens, List.getLast?_concat, List.dropLast_concat]
  simp only [Token.isEnd, hlast, decide_true, if_true]
  rfl

theorem ofTokens_concat {tokens : List Token} {last : Token} (hlast : last.kind = .endOfText) :
    Program.ofTokens (tokens ++ [last]) = .ok (program (State.start tokens last)) := by
  rw [Program.ofTokens, State.ofTokens_concat hlast]
  rfl

/-- From `s` the state `t` is reached by passing tokens, handing out numbers and reporting errors. -/
inductive Reaches (s : State) : State → Prop where
  | refl : Reaches s s
  | advance {t : State} : Reaches s t → Reaches s t.advance
  | countNode {t : State} : Reaches s t → Reaches s t.countNode
  | report {t : State} (cause : SyntaxError) : Reaches s t → Reaches s (t.report cause)

theorem State.eq_advance_of_accept? {s t : State} {k : Token.Kind} (h : s.accept? k = some t) :
    t = s.advance ∧ s.kind = k := by
  unfold accept? at h
  unfold advance kind
  split at h
  · cases h
  · split at h
    · cases h
      exact ⟨rfl, ‹_›⟩
    · cases h

namespace Reaches
variable {s t u : State} {k : Token.Kind} {name : Name}

theorem trans (h : Reaches s t) (h' : Reaches t u) : Reaches s u := by
  induction h' with
  | refl => exact h
  | advance _ ih => exact ih.advance
  | countNode _ ih => exact ih.countNode
  | report cause _ ih => exact ih.report cause

theorem reportMissing (h : Reaches s t) (k : Token.Kind) : Reaches s (t.reportMissing k) := h.report _

theorem accept (h : Reaches s t) (hk : t.accept? k = some u) : Reaches s u := by
  rw [(State.eq_advance_of_accept? hk).1]
  exact h.advance

theorem acceptName (h : Reaches s t) (hk : t.acceptName? k = some (name, u)) : Reaches s u := by
  obtain ⟨v, hv, heq⟩ := Option.map_eq_some_iff.mp hk
  cases heq
  exact (h.accept hv).countNode

theorem endOfText (h : Reaches s t) : Reaches s (Parser.endOfText t) := by
  unfold Parser.endOfText
  split
  · exact h
  · exact h.reportMissing _

/-! ### What is kept on the way -/

theorem cursor_le (h : Reaches s t) : s.cursor ≤ t.cursor := by
  induction h with
  | refl => exact Nat.le_refl _
  | @advance t _ ih =>
    unfold State.advance
    split
    · exact ih
    · exact Nat.le_succ_of_le ih
  | countNode _ ih => exact ih
  | report _ _ ih => exact ih

/-- The tokens passed and the tokens ahead are always the same in number. -/
theorem cursor_add_length (h : Reaches s t) :
    t.cursor + t.ahead.length = s.cursor + s.ahead.length := by
  induction h with
  | refl => rfl
  | @advance t _ ih =>
    unfold State.advance
    split
    · exact ih
    · rename_i hahead
      rw [hahead, List.length_cons] at ih
      dsimp only
      omega
  | countNode _ ih => exact ih
  | report _ _ ih => exact ih

/-- No error is taken back. -/
theorem findings_suffix (h : Reaches s t) : s.findings <:+ t.findings := by
  induction h with
  | refl => exact List.suffix_refl _
  | advance _ ih => rwa [State.findings_advance]
  | countNode _ ih => exact ih
  | report _ _ ih => exact ih.trans (List.suffix_cons _ _)

end Reaches

/-- The state is one on the way through the tokens: those from the cursor on are ahead, and every error
    is at the token that it was reported at. -/
structure State.StandsIn (tokens : List Token) (last : Token) (s : State) : Prop where
  drop_eq : (tokens ++ [last]).drop s.cursor = s.ahead ++ [last]
  finish_eq : s.finish = last.position
  located : ∀ f ∈ s.findings, ∃ t, (tokens ++ [last])[f.index]? = some t ∧ t.position = f.position

namespace State.StandsIn
variable {tokens : List Token} {last : Token} {s t : State}

theorem start (tokens : List Token) (last : Token) : StandsIn tokens last (.start tokens last) :=
  ⟨rfl, rfl, fun _ hf => absurd hf List.not_mem_nil⟩

/-- There is a token at the cursor, and it is the one at hand. -/
theorem getElem?_cursor (h : StandsIn tokens last s) : ∃ t, (tokens ++ [last])[s.cursor]? = some t ∧
    t.position = s.position ∧ (last.kind = .endOfText → t.kind = s.kind) := by
  have hhead := congrArg List.head? h.drop_eq
  rw [List.head?_drop] at hhead
  rw [hhead]
  unfold State.position State.kind
  cases s.ahead with
  | nil => exact ⟨last, rfl, h.finish_eq.symm, id⟩
  | cons t ts => exact ⟨t, rfl, rfl, fun _ => rfl⟩

theorem advance (h : StandsIn tokens last s) : StandsIn tokens last s.advance := by
  obtain ⟨hdrop, hfinish, hlocated⟩ := h
  unfold State.advance
  split
  · exact ⟨hdrop, hfinish, hlocated⟩
  · rename_i hahead
    refine ⟨?_, hfinish, hlocated⟩
    have htail := congrArg List.tail hdrop
    rwa [List.tail_drop, hahead] at htail

theorem report (h : StandsIn tokens last s) (cause : SyntaxError) :
    StandsIn tokens last (s.report cause) := by
  refine ⟨h.drop_eq, h.finish_eq, fun f hf => ?_⟩
  rcases List.mem_cons.mp hf with rfl | hf
  · obtain ⟨t, ht, hposition, -⟩ := h.getElem?_cursor
    exact ⟨t, ht, hposition⟩
  · exact h.located f hf

theorem reaches (h : StandsIn tokens last s) (hst : Reaches s t) : StandsIn tokens last t := by
  induction hst with
  | refl => exact h
  | advance _ ih => exact ih.advance
  | countNode _ ih => exact ⟨ih.drop_eq, ih.finish_eq, ih.located⟩
  | report cause _ ih => exact ih.report cause

end State.StandsIn

/-- The errors so far are in the order of their tokens, the latest first, and none of them is about a token
    that is still ahead. -/
structure State.Ordered (s : State) : Prop where
  pairwise : s.findings.Pairwise fun later earlier => earlier.index ≤ later.index
  le_cursor : ∀ f ∈ s.findings, f.index ≤ s.cursor

theorem State.Ordered.start (tokens : List Token) (last : Token) : Ordered (.start tokens last) :=
  ⟨.nil, fun _ hf => absurd hf List.not_mem_nil⟩

theorem State.Ordered.reaches {s t : State} (h : Ordered s) (hst : Reaches s t) : Ordered t := by
  induction hst with
  | refl => exact h
  | @advance t _ ih =>
    have hle := (Reaches.refl (s := t)).advance.cursor_le
    refine ⟨?_, fun f hf => ?_⟩
    · rw [State.findings_advance]
      exact ih.pairwise
    · rw [State.findings_advance] at hf
      exact Nat.le_trans (ih.le_cursor f hf) hle
  | countNode _ ih => exact ⟨ih.pairwise, ih.le_cursor⟩
  | report _ _ ih =>
    exact ⟨.cons ih.le_cursor ih.pairwise, List.forall_mem_cons.mpr ⟨Nat.le_refl _, ih.le_cursor⟩⟩

/-! ### Expressions -/

mutual

theorem ReadsExpr.reaches {s t : State} {e : Expr} : ReadsExpr s e t → Reaches s t
  | .chain hp ho => hp.reaches.trans ho.reaches

theorem ReadsOperands.reaches {lhs e : Expr} {s t : State} : ReadsOperands lhs s e t → Reaches s t
  | .done _ => .refl
  | .more hop hp ho => ((Reaches.refl.acceptName hop).trans hp.reaches).countNode.trans ho.reaches

theorem ReadsPrimary.reaches {s t : State} {e : Expr} : ReadsPrimary s e t → Reaches s t
  | .int _ | .char _ => .countNode (.advance .refl)
  | .name _ _ => .countNode (.countNode (.advance .refl))
  | .call _ hopen ha hclose =>
    (((Reaches.refl.advance.countNode.accept hopen).trans ha.reaches).accept hclose).countNode
  | .openCall _ hopen ha _ =>
    (((Reaches.refl.advance.countNode.accept hopen).trans ha.reaches).reportMissing _).countNode
  | .unary _ hp => (Reaches.refl.advance.countNode.trans hp.reaches).countNode
  | .bracketed _ he hclose => (Reaches.refl.advance.trans he.reaches).accept hclose
  | .openBracket _ he _ => ((Reaches.refl.advance.trans he.reaches).reportMissing _).countNode
  | .unexpected _ => (Reaches.refl.report _).countNode

theorem ReadsArgument.reaches {s t : State} {a : Argument} : ReadsArgument s a t → Reaches s t
  | .blank _ => Reaches.refl.countNode
  | .var _ hname => Reaches.refl.countNode.advance.acceptName hname
  | .openVar _ _ => Reaches.refl.countNode.advance.reportMissing _
  | .value _ _ he => Reaches.refl.countNode.trans he.reaches

end

/-! ### Declarations -/

theorem ReadsSingleDeclaration.reaches {s t : State} {d : SingleDeclaration} :
    ReadsSingleDeclaration s d t → Reaches s t
  | .const _ hname htilde he =>
    ((Reaches.refl.advance.countNode.acceptName hname).accept htilde).trans he.reaches
  | .constWithoutName _ _ | .varWithoutName _ _ => Reaches.refl.advance.countNode.reportMissing _
  | .constWithoutTilde _ hname _ | .varWithoutColon _ hname _ =>
    (Reaches.refl.advance.countNode.acceptName hname).reportMissing _
  | .var _ hname hcolon htype =>
    ((Reaches.refl.advance.countNode.acceptName hname).accept hcolon).countNode.acceptName htype
  | .varWithoutType _ hname hcolon _ =>
    ((Reaches.refl.advance.countNode.acceptName hname).accept hcolon).countNode.reportMissing _
  | .unexpected _ _ => Reaches.refl.report _

theorem ReadsMoreDeclarations.reaches {s t : State} {ds : List SingleDeclaration}
    (h : ReadsMoreDeclarations s ds t) : Reaches s t := by
  induction h with
  | done => exact .refl
  | more hsep hd _ ih => exact ((Reaches.refl.accept hsep).trans hd.reaches).trans ih

theorem ReadsDeclaration.reaches {s t : State} {d : Declaration} : ReadsDeclaration s d t → Reaches s t
  | .chain hd hds => hd.reaches.trans hds.reaches

/-! ### Commands -/

theorem ReadsEnd.reaches {k : Token.Kind} {c c' : Command} {s t : State} :
    ReadsEnd k c s c' t → Reaches s t
  | .closed hend => Reaches.refl.accept hend
  | .unclosed _ => Reaches.refl.reportMissing _

theorem ReadsAssignmentOrCall.reaches {s t : State} {c : Command} : ReadsAssignmentOrCall s c t → Reaches s t
  | .call hopen ha hend =>
    ((Reaches.refl.advance.countNode.accept hopen).trans ha.reaches).trans hend.reaches
  | .assign _ hbecomes he => (Reaches.refl.advance.countNode.accept hbecomes).trans he.reaches
  | .neither _ _ => Reaches.refl.advance.countNode.reportMissing _

theorem ReadsCondition.reaches {k : Keyword} {s t : State} {c : Option Expr} :
    ReadsCondition k s c t → Reaches s t
  | .whole hopen he hclose hkey =>
    (((Reaches.refl.accept hopen).trans he.reaches).accept hclose).accept hkey
  | .withoutOpening _ => Reaches.refl.reportMissing _
  | .withoutClosing hopen he _ => ((Reaches.refl.accept hopen).trans he.reaches).reportMissing _
  | .withoutKeyword hopen he hclose _ =>
    (((Reaches.refl.accept hopen).trans he.reaches).accept hclose).reportMissing _

theorem ReadsBindings.reaches {s t : State} {d : Option Declaration} : ReadsBindings s d t → Reaches s t
  | .whole hd hin => hd.reaches.accept hin
  | .withoutIn hd _ => hd.reaches.reportMissing _

theorem ReadsCount.reaches {s t : State} {c : Option Count} : ReadsCount s c t → Reaches s t
  | .whole hname hbecomes hfirst hto hlast hdo =>
    (((((Reaches.refl.acceptName hname).countNode.accept hbecomes).trans hfirst.reaches).accept hto).trans
      hlast.reaches).accept hdo
  | .withoutName _ => Reaches.refl.reportMissing _
  | .withoutBecomes hname _ => (Reaches.refl.acceptName hname).countNode.reportMissing _
  | .withoutTo hname hbecomes hfirst _ =>
    (((Reaches.refl.acceptName hname).countNode.accept hbecomes).trans hfirst.reaches).reportMissing _
  | .withoutDo hname hbecomes hfirst hto hlast _ =>
    (((((Reaches.refl.acceptName hname).countNode.accept hbecomes).trans hfirst.reaches).accept hto).trans
      hlast.reaches).reportMissing _

mutual

theorem ReadsCommand.reaches {s t : State} {c : Command} : ReadsCommand s c t → Reaches s t
  | .chain hc hcs => hc.reaches.trans hcs.reaches

theorem ReadsMoreCommands.reaches {s t : State} {cs : List Command} : ReadsMoreCommands s cs t → Reaches s t
  | .done _ => .refl
  | .more hsep hc hcs => ((Reaches.refl.accept hsep).trans hc.reaches).trans hcs.reaches

theorem ReadsSingleCommand.reaches {s t : State} {c : Command} : ReadsSingleCommand s c t → Reaches s t
  | .simple _ h => h.reaches
  | .brokenIf _ h | .brokenWhile _ h => Reaches.refl.advance.trans h.reaches
  | .ifThen _ hcond hbody _ hend =>
    ((Reaches.refl.advance.trans hcond.reaches).trans hbody.reaches).trans hend.reaches
  | .ifElse _ hcond hpos helse hneg hend =>
    ((((Reaches.refl.advance.trans hcond.reaches).trans hpos.reaches).accept helse).trans
      hneg.reaches).trans hend.reaches
  | .while_ _ hcond hbody => (Reaches.refl.advance.trans hcond.reaches).trans hbody.reaches
  | .brokenLet _ h => Reaches.refl.advance.trans h.reaches
  | .let_ _ hdecl hbody => (Reaches.refl.advance.trans hdecl.reaches).trans hbody.reaches
  | .brokenFor _ h => Reaches.refl.advance.trans h.reaches
  | .for_ _ hcount hbody hend =>
    ((Reaches.refl.advance.trans hcount.reaches).trans hbody.reaches).trans hend.reaches
  | .begin_ _ hbody hend => (Reaches.refl.advance.trans hbody.reaches).trans hend.reaches
  | .blank _ => .refl

end

end TriangleCompiler.Parser
