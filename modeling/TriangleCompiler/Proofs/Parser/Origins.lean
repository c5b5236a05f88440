import TriangleCompiler.Proofs.Parser.Movement
import TriangleCompiler.Proofs.Parser.Names
import TriangleCompiler.Proofs.Program.Phrases

/-! Where the phrases of a tree come from. Every phrase starts at a token, and the name or the literal in it
    is a token itself. Nothing else is ever put into a tree, whatever errors there are. -/

namespace TriangleCompiler

namespace Phrase

/-- The phrase starts at one of the tokens, and what is written in it is one of them. -/
structure Stems (tokens : List Token) (x : Phrase) : Prop where
  located : ∃ t ∈ tokens, t.position = x.position
  word : ∀ w ∈ x.word?, Name.token w ∈ tokens

theorem stems_of_located {tokens : List Token} {x : Phrase} (h : ∃ t ∈ tokens, t.position = x.position)
    (hword : x.word? = none) : Stems tokens x := by
  refine ⟨h, fun w hw => ?_⟩
  rw [hword] at hw
  cases hw

theorem stems_of_word {tokens : List Token} {x : Phrase} {w : Token.Kind × Name}
    (h : ∃ t ∈ tokens, t.position = x.position) (hw : Name.token w ∈ tokens) (hword : x.word? = some w) :
    Stems tokens x := by
  refine ⟨h, fun w' hw' => ?_⟩
  rw [hword] at hw'
  cases hw'
  exact hw

end Phrase

namespace Parser

open Phrase (Stems Throughout stems_of_located stems_of_word)

/-- What can still be read are these tokens. -/
structure State.Yields (tokens : List Token) (s : State) : Prop where
  ahead : ∀ t ∈ s.ahead, t ∈ tokens
  finish : ∃ t ∈ tokens, t.position = s.finish

namespace State.Yields
variable {tokens : List Token} {s t : State} {k : Token.Kind} {name : Name}

theorem start (before : List Token) (last : Token) : Yields (before ++ [last]) (.start before last) :=
  ⟨fun _ ht => List.mem_append_left _ ht, last, List.mem_append_right _ (List.mem_singleton_self _), rfl⟩

theorem advance (h : Yields tokens s) : Yields tokens s.advance := by
  unfold State.advance
  split
  · exact h
  · rename_i hahead
    refine ⟨fun t ht => h.ahead t ?_, h.finish⟩
    rw [hahead]
    exact List.mem_cons_of_mem _ ht

theorem reaches (h : Yields tokens s) (hst : Reaches s t) : Yields tokens t := by
  induction hst with
  | refl => exact h
  | advance _ ih => exact ih.advance
  | countNode _ ih => exact ⟨ih.ahead, ih.finish⟩
  | report _ _ ih => exact ⟨ih.ahead, ih.finish⟩

theorem accept (h : Yields tokens s) (hk : s.accept? k = some t) : Yields tokens t :=
  h.reaches (Reaches.refl.accept hk)

theorem acceptName (h : Yields tokens s) (hk : s.acceptName? k = some (name, t)) : Yields tokens t :=
  h.reaches (Reaches.refl.acceptName hk)

theorem countNode (h : Yields tokens s) : Yields tokens s.countNode := ⟨h.ahead, h.finish⟩

theorem located (h : Yields tokens s) : ∃ t ∈ tokens, t.position = s.position := by
  unfold State.position
  split
  · exact h.finish
  · rename_i tok _ hahead
    refine ⟨tok, h.ahead tok ?_, rfl⟩
    rw [hahead]
    exact List.mem_cons_self

theorem mem_of_spans {ys : List Token} {entry : Token.Kind × Name} (h : Yields tokens s)
    (hspans : Spans s.ahead ys [entry]) : Name.token entry ∈ tokens := by
  obtain ⟨passed, hahead, hname⟩ := hspans
  refine h.ahead _ ?_
  rw [hahead]
  exact List.mem_append_left _ (hname.subset (List.mem_map_of_mem (List.mem_singleton_self entry)))

theorem name_mem (h : Yields tokens s) (hk : s.kind = k) (hne : k ≠ .endOfText) :
    Name.token (k, s.name) ∈ tokens := h.mem_of_spans (spans_name hk hne)

theorem acceptName_mem (h : Yields tokens s) (hne : k ≠ .endOfText) (hk : s.acceptName? k = some (name, t)) :
    Name.token (k, name) ∈ tokens := h.mem_of_spans (spans_acceptName hne hk)

end State.Yields

variable {tokens : List Token}

/-! ### Expressions -/

mutual

theorem ReadsExpr.stems {s t : State} {e : Expr} :
    ReadsExpr s e t → s.Yields tokens → Throughout (Stems tokens) [.expr e]
  | .chain hp ho, hs => ho.stems (hs.reaches hp.reaches) (hp.stems hs)
termination_by structural h => h

theorem ReadsOperands.stems {lhs e : Expr} {s t : State} :
    ReadsOperands lhs s e t → s.Yields tokens → Throughout (Stems tokens) [.expr lhs] →
      Throughout (Stems tokens) [.expr e]
  | .done _, _, hlhs => hlhs
  | .more hop hp ho, hs, hlhs => by
    have hword := hs.acceptName_mem (by decide) hop
    have hrhs := hp.stems (hs.acceptName hop)
    refine ho.stems ((hs.acceptName hop).reaches hp.reaches).countNode ?_
    -- a chain of operands starts where its first operand does
    exact .node (stems_of_word hlhs.self.located hword rfl) (hlhs.append hrhs)
termination_by structural h => h

theorem ReadsPrimary.stems {s t : State} {e : Expr} :
    ReadsPrimary s e t → s.Yields tokens → Throughout (Stems tokens) [.expr e]
  | .int hk, hs | .char hk, hs | .name hk _, hs =>
    .node (stems_of_word hs.located (hs.name_mem hk (by decide)) rfl) .nil
  | .call hk hopen ha _, hs =>
    .node (stems_of_word hs.located (hs.name_mem hk (by decide)) rfl)
      (ha.stems (hs.advance.countNode.accept hopen))
  | .openCall _ hopen ha _, hs =>
    .node (stems_of_located ((hs.advance.countNode.accept hopen).reaches ha.reaches).located rfl) .nil
  | .unary hk hp, hs =>
    .node (stems_of_word hs.located (hs.name_mem hk (by decide)) rfl) (hp.stems hs.advance.countNode)
  | .bracketed _ he _, hs => he.stems hs.advance
  | .openBracket _ he _, hs => .node (stems_of_located (hs.advance.reaches he.reaches).located rfl) .nil
  | .unexpected _, hs => .node (stems_of_located hs.located rfl) .nil
termination_by structural h => h

theorem ReadsArgument.stems {s t : State} {a : Argument} :
    ReadsArgument s a t → s.Yields tokens → Throughout (Stems tokens) [.argument a]
  | .blank _, hs | .openVar _ _, hs => .node (stems_of_located hs.located rfl) .nil
  | .var _ hname, hs =>
    .node (stems_of_word hs.located (hs.countNode.advance.acceptName_mem (by decide) hname) rfl) .nil
  | .value _ _ he, hs => .node (stems_of_located hs.located rfl) (he.stems hs.countNode)
termination_by structural h => h

end

/-! ### Declarations -/

theorem ReadsSingleDeclaration.stems {s t : State} {d : SingleDeclaration} (h : ReadsSingleDeclaration s d t)
    (hs : s.Yields tokens) : Throughout (Stems tokens) [.declaration d] := by
  have hnext := hs.advance.countNode
  cases h with
  | const _ hname htilde he =>
    have hword := hnext.acceptName_mem (by decide) hname
    have hvalue := he.stems ((hnext.acceptName hname).accept htilde)
    exact .node (stems_of_word hs.located hword rfl) hvalue
  | constWithoutName | varWithoutName => exact .node (stems_of_located hnext.located rfl) .nil
  | constWithoutTilde _ hname | varWithoutColon _ hname =>
    exact .node (stems_of_located (hnext.acceptName hname).located rfl) .nil
  | var _ hname hcolon htype =>
    have hword := hnext.acceptName_mem (by decide) hname
    have hcolon := ((hnext.acceptName hname).accept hcolon).countNode
    have htype := hcolon.acceptName_mem (by decide) htype
    exact .node (stems_of_word hs.located hword rfl) (.node (stems_of_word ⟨_, htype, rfl⟩ htype rfl) .nil)
  | varWithoutType _ hname hcolon =>
    exact .node (stems_of_located ((hnext.acceptName hname).accept hcolon).located rfl) .nil
  | unexpected => exact .node (stems_of_located hs.located rfl) .nil

theorem ReadsMoreDeclarations.stems {s t : State} {ds : List SingleDeclaration}
    (h : ReadsMoreDeclarations s ds t) (hs : s.Yields tokens) :
    Throughout (Stems tokens) (ds.map .declaration) := by
  induction h with
  | done => exact .nil
  | more hsep hd _ ih =>
    have hfirst := hd.stems (hs.accept hsep)
    exact hfirst.append (ih ((hs.accept hsep).reaches hd.reaches))

theorem ReadsDeclaration.stems {s t : State} {d : Declaration} (h : ReadsDeclaration s d t)
    (hs : s.Yields tokens) : Throughout (Stems tokens) [d.phrase] := by
  obtain ⟨hd, hds⟩ := h
  have hfirst := hd.stems hs
  have hrest := hds.stems (hs.reaches hd.reaches)
  rename_i rest
  cases rest with
  | nil => exact hfirst
  | cons => exact .node (stems_of_located hfirst.self.located rfl) (hfirst.append hrest)

/-! ### Commands -/

theorem ReadsEnd.stems {k : Token.Kind} {c c' : Command} {s t : State} (h : ReadsEnd k c s c' t)
    (hs : s.Yields tokens) (hc : Throughout (Stems tokens) [.command c]) :
    Throughout (Stems tokens) [.command c'] := by
  cases h with
  | closed => exact hc
  | unclosed => exact .node (stems_of_located hs.located rfl) .nil

theorem ReadsAssignmentOrCall.stems {s t : State} {c : Command} (hk : s.kind = .identifier)
    (h : ReadsAssignmentOrCall s c t) (hs : s.Yields tokens) : Throughout (Stems tokens) [.command c] := by
  have hname := hs.name_mem hk (by decide)
  have hnext := hs.advance.countNode
  cases h with
  | call hopen ha hend =>
    refine hend.stems ((hnext.accept hopen).reaches ha.reaches) ?_
    exact .node (stems_of_word hs.located hname rfl) (ha.stems (hnext.accept hopen))
  | assign _ hbecomes he =>
    have hvalue := he.stems (hnext.accept hbecomes)
    exact .node (stems_of_located hs.located rfl) (.cons (stems_of_word hs.located hname rfl) .nil hvalue)
  | neither => exact .node (stems_of_located hnext.located rfl) .nil

theorem ReadsCondition.stems {k : Keyword} {s t : State} {e : Expr} (h : ReadsCondition k s (some e) t)
    (hs : s.Yields tokens) : Throughout (Stems tokens) [.expr e] := by
  cases h with
  | whole hopen he => exact he.stems (hs.accept hopen)

theorem ReadsBindings.stems {s t : State} {d : Declaration} (h : ReadsBindings s (some d) t)
    (hs : s.Yields tokens) : Throughout (Stems tokens) [d.phrase] := by
  cases h with
  | whole hd => exact hd.stems hs

theorem ReadsCount.stems {s t : State} {x : Count} (h : ReadsCount s (some x) t) (hs : s.Yields tokens) :
    Throughout (Stems tokens) [.counter x.counter, .expr x.first, .expr x.last] := by
  cases h with
  | whole hname hbecomes hfirst hto hlast =>
    have hcounter := hs.acceptName_mem (by decide) hname
    have hbound := (hs.acceptName hname).countNode.accept hbecomes
    have hlast := hlast.stems ((hbound.reaches hfirst.reaches).accept hto)
    exact .cons (stems_of_word ⟨_, hcounter, rfl⟩ hcounter rfl) .nil ((hfirst.stems hbound).append hlast)

theorem stems_joinCommands {c : Command} {cs : List Command} (hc : Throughout (Stems tokens) [.command c])
    (hcs : Throughout (Stems tokens) (cs.map .command)) :
    Throughout (Stems tokens) [.command (joinCommands c cs)] := by
  cases cs with
  | nil => exact hc
  | cons => exact .node (stems_of_located hc.self.located rfl) (hc.append hcs)

mutual

theorem ReadsCommand.stems {s t : State} {c : Command} :
    ReadsCommand s c t → s.Yields tokens → Throughout (Stems tokens) [.command c]
  | .chain hc hcs, hs => stems_joinCommands (hc.stems hs) (hcs.stems (hs.reaches hc.reaches))
termination_by structural h => h

theorem ReadsMoreCommands.stems {s t : State} {cs : List Command} :
    ReadsMoreCommands s cs t → s.Yields tokens → Throughout (Stems tokens) (cs.map .command)
  | .done _, _ => .nil
  | .more hsep hc hcs, hs =>
    (hc.stems (hs.accept hsep)).append (hcs.stems ((hs.accept hsep).reaches hc.reaches))
termination_by structural h => h

theorem ReadsSingleCommand.stems {s t : State} {c : Command} :
    ReadsSingleCommand s c t → s.Yields tokens → Throughout (Stems tokens) [.command c]
  | .simple hk h, hs => h.stems hk hs
  | .brokenIf _ h, hs | .brokenWhile _ h, hs | .brokenLet _ h, hs | .brokenFor _ h, hs =>
    .node (stems_of_located (hs.advance.reaches h.reaches).located rfl) .nil
  | .ifThen _ hcond hbody _ hend, hs => by
    have hthen := hs.advance.reaches hcond.reaches
    refine hend.stems (hthen.reaches hbody.reaches) ?_
    exact .node (stems_of_located hs.located rfl) ((hcond.stems hs.advance).append (hbody.stems hthen))
  | .ifElse _ hcond hpos helse hneg hend, hs => by
    have hthen := hs.advance.reaches hcond.reaches
    have helse := (hthen.reaches hpos.reaches).accept helse
    refine hend.stems (helse.reaches hneg.reaches) ?_
    exact .node (stems_of_located hs.located rfl)
      ((hcond.stems hs.advance).append ((hpos.stems hthen).append (hneg.stems helse)))
  | .while_ _ hcond hbody, hs =>
    .node (stems_of_located hs.located rfl)
      ((hcond.stems hs.advance).append (hbody.stems (hs.advance.reaches hcond.reaches)))
  | .let_ _ hd hbody, hs =>
    .node (stems_of_located hs.located rfl)
      ((hd.stems hs.advance).append (hbody.stems (hs.advance.reaches hd.reaches)))
  | .for_ _ hcount hbody hend, hs => by
    have hdo := hs.advance.reaches hcount.reaches
    refine hend.stems (hdo.reaches hbody.reaches) ?_
    exact .node (stems_of_located hs.located rfl) ((hcount.stems hs.advance).append (hbody.stems hdo))
  | .begin_ _ hbody hend, hs => hend.stems (hs.advance.reaches hbody.reaches) (hbody.stems hs.advance)
  | .blank _, hs => .node (stems_of_located hs.located rfl) .nil
termination_by structural h => h

end

/-! ### Programs -/

/-- What is read from tokens is read from their start, and they end with the end of the text. -/
theorem exists_start_of_ofTokens {r : Result} (h : Program.ofTokens tokens = .ok r) :
    ∃ before last, tokens = before ++ [last] ∧ last.kind = .endOfText ∧ r = program (.start before last) := by
  rcases List.eq_nil_or_concat tokens with rfl | ⟨before, last, rfl⟩
  · cases h
  · rw [List.concat_eq_append] at h ⊢
    by_cases hlast : last.kind = .endOfText
    · rw [ofTokens_concat hlast] at h
      cases h
      exact ⟨before, last, rfl, hlast, rfl⟩
    · rw [Program.ofTokens, State.ofTokens, List.getLast?_concat] at h
      simp only [Token.isEnd, hlast] at h
      cases h

/-- Every phrase of a program stems from its tokens. -/
theorem stems_ofTokens {r : Result} (h : Program.ofTokens tokens = .ok r) :
    Throughout (Stems tokens) [.command r.program.command] := by
  obtain ⟨before, last, rfl, -, rfl⟩ := exists_start_of_ofTokens h
  exact (readsCommand_command _).stems (.start before last)

end Parser

end TriangleCompiler
