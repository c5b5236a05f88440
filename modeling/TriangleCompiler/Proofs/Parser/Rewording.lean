import TriangleCompiler.Program.Parser
import TriangleCompiler.Proofs.Parser.ReadingCommands
import TriangleCompiler.Proofs.Parser.Stream

/-! The same program in other words. Tokens may be moved to other places, and names may be spelled in
    another way: the reader looks at kinds only, so it goes the same way, hands out the same numbers and
    finds the same errors; what it reads is the tree in the new words. -/

namespace TriangleCompiler

/-- Where everything is moved to, and how the names are spelled, which may depend on where they were. The
    start of the text stays where it is. -/
structure Rewording where
  place : Position → Position
  respell : Position → String → String
  place_start : place .start = .start

/-- The names keep their spellings. -/
def Rewording.Keeps (w : Rewording) : Prop := ∀ position spelling, w.respell position spelling = spelling

/-- Whether a token of this kind is a name of something. -/
def Token.Kind.isName : Token.Kind → Bool
  | .identifier | .operator => true
  | _ => false

/-! ### Tokens and trees in other words -/

/-- A token in other words; all but the names keep their spelling. -/
def Token.reword (w : Rewording) (t : Token) : Token :=
  ⟨t.kind, if t.kind.isName then w.respell t.position t.spelling else t.spelling, w.place t.position⟩

def Tag.reword (w : Rewording) (tag : Tag) : Tag := ⟨tag.id, w.place tag.position⟩

def Name.reword (w : Rewording) (name : Name) : Name :=
  ⟨name.toTag.reword w, w.respell name.position name.spelling⟩

mutual

def Expr.reword (w : Rewording) : Expr → Expr
  | .int tag spelling => .int (tag.reword w) spelling
  | .char tag spelling => .char (tag.reword w) spelling
  | .name tag name => .name (tag.reword w) (name.reword w)
  | .call tag callee argument => .call (tag.reword w) (callee.reword w) (argument.reword w)
  | .unary tag op operand => .unary (tag.reword w) (op.reword w) (operand.reword w)
  | .binary tag op lhs rhs => .binary (tag.reword w) (op.reword w) (lhs.reword w) (rhs.reword w)
  | .error tag => .error (tag.reword w)

def Argument.reword (w : Rewording) : Argument → Argument
  | .blank tag => .blank (tag.reword w)
  | .value tag expr => .value (tag.reword w) (expr.reword w)
  | .var tag name => .var (tag.reword w) (name.reword w)
  | .error tag => .error (tag.reword w)

end

def TypeDenoter.reword (w : Rewording) (type : TypeDenoter) : TypeDenoter := ⟨type.id, type.name.reword w⟩

def SingleDeclaration.reword (w : Rewording) : SingleDeclaration → SingleDeclaration
  | .const tag name value => .const (tag.reword w) (name.reword w) (value.reword w)
  | .var tag name type => .var (tag.reword w) (name.reword w) (type.reword w)
  | .error position => .error (w.place position)

def Declaration.reword (w : Rewording) : Declaration → Declaration
  | .single declaration => .single (declaration.reword w)
  | .sequential position parts => .sequential (w.place position) (parts.map (·.reword w))

def LoopVariable.reword (w : Rewording) (counter : LoopVariable) : LoopVariable :=
  ⟨counter.id, counter.name.reword w⟩

mutual

def Command.reword (w : Rewording) : Command → Command
  | .assign position target value => .assign (w.place position) (target.reword w) (value.reword w)
  | .blank position => .blank (w.place position)
  | .call position callee argument => .call (w.place position) (callee.reword w) (argument.reword w)
  | .ifThen position condition body => .ifThen (w.place position) (condition.reword w) (body.reword w)
  | .ifElse position condition positive negative =>
    .ifElse (w.place position) (condition.reword w) (positive.reword w) (negative.reword w)
  | .while_ position condition body => .while_ (w.place position) (condition.reword w) (body.reword w)
  | .for_ position counter first last body =>
    .for_ (w.place position) (counter.reword w) (first.reword w) (last.reword w) (body.reword w)
  | .let_ position declaration body =>
    .let_ (w.place position) (declaration.reword w) (body.reword w)
  | .sequential position parts => .sequential (w.place position) (rewordCommands w parts)
  | .error position => .error (w.place position)

def rewordCommands (w : Rewording) : List Command → List Command
  | [] => []
  | c :: rest => c.reword w :: rewordCommands w rest

end

def Program.reword (w : Rewording) (p : Program) : Program := ⟨p.command.reword w, p.nodeCount⟩

section Lemmas
variable (w : Rewording)

@[simp] theorem Tag.id_reword (tag : Tag) : (tag.reword w).id = tag.id := rfl

@[simp] theorem Tag.position_reword (tag : Tag) : (tag.reword w).position = w.place tag.position := rfl

@[simp] theorem Name.id_reword (name : Name) : (name.reword w).id = name.id := rfl

@[simp] theorem Name.position_reword (name : Name) : (name.reword w).position = w.place name.position := rfl

@[simp] theorem Expr.tag_reword (e : Expr) : (e.reword w).tag = e.tag.reword w := by
  cases e <;> simp only [Expr.reword, Expr.tag]

@[simp] theorem Argument.tag_reword (a : Argument) : (a.reword w).tag = a.tag.reword w := by
  cases a <;> simp only [Argument.reword, Argument.tag]

@[simp] theorem SingleDeclaration.position_reword (d : SingleDeclaration) :
    (d.reword w).position = w.place d.position := by
  cases d <;> rfl

@[simp] theorem Declaration.parts_reword (d : Declaration) : (d.reword w).parts = d.parts.map (·.reword w) := by
  cases d <;> rfl

@[simp] theorem Command.position_reword (c : Command) : (c.reword w).position = w.place c.position := by
  cases c <;> simp only [Command.reword, Command.position]

end Lemmas

/-! ### The same words -/

/-- Everything stays where it is and keeps its spelling. -/
def Rewording.same : Rewording := ⟨id, fun _ spelling => spelling, id_eq _⟩

mutual

theorem Expr.reword_same : ∀ e : Expr, e.reword .same = e
  | .int _ _ | .char _ _ | .name _ _ | .error _ => by
    rw [Expr.reword]
    rfl
  | .call _ _ argument => by
    rw [Expr.reword, argument.reword_same]
    rfl
  | .unary _ _ operand => by
    rw [Expr.reword, operand.reword_same]
    rfl
  | .binary _ _ lhs rhs => by
    rw [Expr.reword, lhs.reword_same, rhs.reword_same]
    rfl

theorem Argument.reword_same : ∀ a : Argument, a.reword .same = a
  | .blank _ | .var _ _ | .error _ => by
    rw [Argument.reword]
    rfl
  | .value _ expr => by
    rw [Argument.reword, expr.reword_same]
    rfl

end

theorem SingleDeclaration.reword_same (d : SingleDeclaration) : d.reword .same = d := by
  cases d with
  | const _ _ value =>
    rw [SingleDeclaration.reword, value.reword_same]
    rfl
  | var | error => rfl

theorem map_reword_same (ds : List SingleDeclaration) : ds.map (·.reword .same) = ds := by
  induction ds with
  | nil => rfl
  | cons d ds ih => rw [List.map_cons, d.reword_same, ih]

theorem Declaration.reword_same (d : Declaration) : d.reword .same = d := by
  cases d with
  | single d => rw [Declaration.reword, d.reword_same]
  | sequential _ parts =>
    rw [Declaration.reword, map_reword_same]
    rfl

mutual

theorem Command.reword_same : ∀ c : Command, c.reword .same = c
  | .assign _ _ value => by
    rw [Command.reword, value.reword_same]
    rfl
  | .blank _ | .error _ => by
    rw [Command.reword]
    rfl
  | .call _ _ argument => by
    rw [Command.reword, argument.reword_same]
    rfl
  | .ifThen _ condition body | .while_ _ condition body => by
    rw [Command.reword, condition.reword_same, body.reword_same]
    rfl
  | .ifElse _ condition positive negative => by
    rw [Command.reword, condition.reword_same, positive.reword_same, negative.reword_same]
    rfl
  | .for_ _ _ first last body => by
    rw [Command.reword, first.reword_same, last.reword_same, body.reword_same]
    rfl
  | .let_ _ declaration body => by
    rw [Command.reword, declaration.reword_same, body.reword_same]
    rfl
  | .sequential _ parts => by
    rw [Command.reword, rewordCommands_same parts]
    rfl

theorem rewordCommands_same : ∀ cs : List Command, rewordCommands .same cs = cs
  | [] => by rw [rewordCommands]
  | c :: rest => by rw [rewordCommands, c.reword_same, rewordCommands_same rest]

end

theorem Name.spelling_reword {w : Rewording} (hw : w.Keeps) (name : Name) :
    (name.reword w).spelling = name.spelling := hw _ _

/-- The same error in other words. -/
def Rewording.Restates (w : Rewording) (d d' : Diagnostic) : Prop :=
  d'.position = w.place d.position ∧ (w.Keeps → d'.value = d.value)

namespace Parser

open State

/-! ### The reader's state in other words -/

def Finding.reword (w : Rewording) (f : Finding) : Finding := ⟨f.index, w.place f.position, f.cause⟩

def State.reword (w : Rewording) (s : State) : State :=
  ⟨s.ahead.map (·.reword w), w.place s.finish, s.cursor, s.nextId, s.findings.map (·.reword w)⟩

section Steps
variable (w : Rewording) {s t : State} {k : Token.Kind}

@[simp] theorem State.kind_reword (s : State) : (s.reword w).kind = s.kind := by
  unfold State.reword State.kind
  cases s.ahead <;> rfl

@[simp] theorem State.position_reword (s : State) : (s.reword w).position = w.place s.position := by
  unfold State.reword State.position
  cases s.ahead <;> rfl

@[simp] theorem State.nextId_reword (s : State) : (s.reword w).nextId = s.nextId := rfl

@[simp] theorem State.tag_reword (s : State) : (s.reword w).tag = s.tag.reword w := by
  rw [State.tag, State.position_reword]
  rfl

theorem State.spelling_reword (hk : s.kind.isName = false) : (s.reword w).spelling = s.spelling := by
  unfold State.kind at hk
  unfold State.reword State.spelling
  split at hk
  · simp only [*, List.map_nil]
  · simp only [*, List.map_cons, Token.reword]
    rfl

theorem State.name_reword (hk : s.kind.isName = true) : (s.reword w).name = s.name.reword w := by
  have hspelling : (s.reword w).spelling = w.respell s.position s.spelling := by
    unfold State.kind at hk
    unfold State.reword State.spelling State.position
    split at hk
    · cases hk
    · simp only [*, List.map_cons, Token.reword]
      rfl
  rw [State.name, State.tag_reword, hspelling]
  rfl

@[simp] theorem State.countNode_reword (s : State) : (s.reword w).countNode = s.countNode.reword w := rfl

@[simp] theorem State.advance_reword (s : State) : (s.reword w).advance = s.advance.reword w := by
  obtain ⟨ahead, finish, cursor, nextId, findings⟩ := s
  cases ahead <;> rfl

@[simp] theorem State.report_reword (s : State) (cause : SyntaxError) :
    (s.reword w).report cause = (s.report cause).reword w := by
  rw [State.report, State.position_reword]
  rfl

@[simp] theorem State.reportMissing_reword (s : State) (k : Token.Kind) :
    (s.reword w).reportMissing k = (s.reportMissing k).reword w := by
  rw [State.reportMissing, State.kind_reword, State.report_reword]
  rfl

@[simp] theorem State.accept?_reword (s : State) (k : Token.Kind) :
    (s.reword w).accept? k = (s.accept? k).map (·.reword w) := by
  obtain ⟨ahead, finish, cursor, nextId, findings⟩ := s
  cases ahead with
  | nil => rfl
  | cons tok rest =>
    by_cases hk : tok.kind = k
    · simp [State.accept?, State.reword, Token.reword, hk]
    · simp [State.accept?, State.reword, Token.reword, hk]

theorem accept?_reword_some (h : s.accept? k = some t) : (s.reword w).accept? k = some (t.reword w) := by
  rw [State.accept?_reword, h]
  rfl

theorem accept?_reword_none (h : s.accept? k = none) : (s.reword w).accept? k = none := by
  rw [State.accept?_reword, h]
  rfl

theorem acceptName?_reword_some {name : Name} (hk : k.isName = true) (h : s.acceptName? k = some (name, t)) :
    (s.reword w).acceptName? k = some (name.reword w, t.reword w) := by
  obtain ⟨u, hu, heq⟩ := Option.map_eq_some_iff.mp h
  cases heq
  obtain ⟨tok, hahead, hkind, -⟩ := State.of_accept? hu
  have hname : s.kind.isName = true := by rw [State.kind_eq_of_ahead hahead, hkind, hk]
  rw [State.acceptName?, accept?_reword_some w hu, State.name_reword w hname]
  rfl

theorem acceptName?_reword_none (h : s.acceptName? k = none) : (s.reword w).acceptName? k = none := by
  rw [State.acceptName?, Option.map_eq_none_iff] at h
  rw [State.acceptName?, accept?_reword_none w h]
  rfl

end Steps

/-! ### Reading in other words

One case for each rule: the rule holds of the state in other words, by the lemmas about the steps. -/

mutual

theorem ReadsExpr.reword (w : Rewording) {s t : State} {e : Expr} :
    ReadsExpr s e t → ReadsExpr (s.reword w) (e.reword w) (t.reword w)
  | .chain hp ho => .chain (hp.reword w) (ho.reword w)
termination_by structural h => h

theorem ReadsOperands.reword (w : Rewording) {lhs e : Expr} {s t : State} :
    ReadsOperands lhs s e t → ReadsOperands (lhs.reword w) (s.reword w) (e.reword w) (t.reword w)
  | .done hop => .done (acceptName?_reword_none w hop)
  | .more hop hp ho => by
    have hrest := ho.reword w
    simp only [Expr.reword] at hrest
    refine .more (acceptName?_reword_some w rfl hop) (hp.reword w) ?_
    simpa [Tag.reword] using hrest
termination_by structural h => h

theorem ReadsPrimary.reword (w : Rewording) {s t : State} {e : Expr} :
    ReadsPrimary s e t → ReadsPrimary (s.reword w) (e.reword w) (t.reword w)
  | .int hk => by
    have h := ReadsPrimary.int (s := s.reword w) (by simp [hk])
    simpa [Expr.reword, State.spelling_reword w (show s.kind.isName = false by rw [hk]; rfl)] using h
  | .char hk => by
    have h := ReadsPrimary.char (s := s.reword w) (by simp [hk])
    simpa [Expr.reword, State.spelling_reword w (show s.kind.isName = false by rw [hk]; rfl)] using h
  | .name hk hopen => by
    have h := ReadsPrimary.name (s := s.reword w) (by simp [hk]) (by simp [hopen])
    simpa [Expr.reword, Tag.reword, State.name_reword w (show s.kind.isName = true by rw [hk]; rfl)] using h
  | .call hk hopen ha hclose => by
    have h := ReadsPrimary.call (s := s.reword w) (by simp [hk]) (by simp [hopen]) (ha.reword w)
      (accept?_reword_some w hclose)
    simpa [Expr.reword, Tag.reword, State.name_reword w (show s.kind.isName = true by rw [hk]; rfl)] using h
  | .openCall hk hopen ha hclose => by
    have h := ReadsPrimary.openCall (s := s.reword w) (by simp [hk]) (by simp [hopen]) (ha.reword w)
      (accept?_reword_none w hclose)
    simpa [Expr.reword] using h
  | .unary hk hp => by
    have h := ReadsPrimary.unary (s := s.reword w) (by simp [hk]) (by simpa using hp.reword w)
    simpa [Expr.reword, Tag.reword, State.name_reword w (show s.kind.isName = true by rw [hk]; rfl)] using h
  | .bracketed hk he hclose =>
    .bracketed (by simp [hk]) (by simpa using he.reword w) (accept?_reword_some w hclose)
  | .openBracket hk he hclose => by
    have h := ReadsPrimary.openBracket (s := s.reword w) (by simp [hk]) (by simpa using he.reword w)
      (accept?_reword_none w hclose)
    simpa [Expr.reword] using h
  | .unexpected hk => by
    have h := ReadsPrimary.unexpected (s := s.reword w) (by simpa using hk)
    simpa [Expr.reword] using h
termination_by structural h => h

theorem ReadsArgument.reword (w : Rewording) {s t : State} {a : Argument} :
    ReadsArgument s a t → ReadsArgument (s.reword w) (a.reword w) (t.reword w)
  | .blank hk => by
    have h := ReadsArgument.blank (s := s.reword w) (by simp [hk])
    simpa [Argument.reword] using h
  | .var hk hname => by
    have h := ReadsArgument.var (s := s.reword w) (by simp [hk])
      (by simpa using acceptName?_reword_some w rfl hname)
    simpa [Argument.reword] using h
  | .openVar hk hname => by
    have h := ReadsArgument.openVar (s := s.reword w) (by simp [hk])
      (by simpa using acceptName?_reword_none w hname)
    simpa [Argument.reword] using h
  | .value hblank hvar he => by
    have h := ReadsArgument.value (s := s.reword w) (by simpa using hblank) (by simpa using hvar)
      (by simpa using he.reword w)
    simpa [Argument.reword] using h
termination_by structural h => h

end

theorem ReadsSingleDeclaration.reword (w : Rewording) {s t : State} {d : SingleDeclaration}
    (h : ReadsSingleDeclaration s d t) :
    ReadsSingleDeclaration (s.reword w) (d.reword w) (t.reword w) := by
  cases h with
  | const hk hname htilde he =>
    have h := ReadsSingleDeclaration.const (s := s.reword w) (by simp [hk])
      (by simpa using acceptName?_reword_some w rfl hname) (accept?_reword_some w htilde) (he.reword w)
    simpa [SingleDeclaration.reword] using h
  | constWithoutName hk hname =>
    have h := ReadsSingleDeclaration.constWithoutName (s := s.reword w) (by simp [hk])
      (by simpa using acceptName?_reword_none w hname)
    simpa [SingleDeclaration.reword] using h
  | constWithoutTilde hk hname htilde =>
    have h := ReadsSingleDeclaration.constWithoutTilde (s := s.reword w) (by simp [hk])
      (by simpa using acceptName?_reword_some w rfl hname) (accept?_reword_none w htilde)
    simpa [SingleDeclaration.reword] using h
  | var hk hname hcolon htype =>
    have h := ReadsSingleDeclaration.var (s := s.reword w) (by simp [hk])
      (by simpa using acceptName?_reword_some w rfl hname) (accept?_reword_some w hcolon)
      (by simpa using acceptName?_reword_some w rfl htype)
    simpa [SingleDeclaration.reword, TypeDenoter.reword] using h
  | varWithoutName hk hname =>
    have h := ReadsSingleDeclaration.varWithoutName (s := s.reword w) (by simp [hk])
      (by simpa using acceptName?_reword_none w hname)
    simpa [SingleDeclaration.reword] using h
  | varWithoutColon hk hname hcolon =>
    have h := ReadsSingleDeclaration.varWithoutColon (s := s.reword w) (by simp [hk])
      (by simpa using acceptName?_reword_some w rfl hname) (accept?_reword_none w hcolon)
    simpa [SingleDeclaration.reword] using h
  | varWithoutType hk hname hcolon htype =>
    have h := ReadsSingleDeclaration.varWithoutType (s := s.reword w) (by simp [hk])
      (by simpa using acceptName?_reword_some w rfl hname) (accept?_reword_some w hcolon)
      (by simpa using acceptName?_reword_none w htype)
    simpa [SingleDeclaration.reword] using h
  | unexpected hconst hvar =>
    have h := ReadsSingleDeclaration.unexpected (s := s.reword w) (by simpa using hconst)
      (by simpa using hvar)
    simpa [SingleDeclaration.reword] using h

theorem ReadsMoreDeclarations.reword (w : Rewording) {s t : State} {ds : List SingleDeclaration}
    (h : ReadsMoreDeclarations s ds t) :
    ReadsMoreDeclarations (s.reword w) (ds.map (·.reword w)) (t.reword w) := by
  induction h with
  | done hsep => exact .done (accept?_reword_none w hsep)
  | more hsep hd _ ih => exact .more (accept?_reword_some w hsep) (hd.reword w) ih

theorem joinDeclarations_reword (w : Rewording) (first : SingleDeclaration) (rest : List SingleDeclaration) :
    joinDeclarations (first.reword w) (rest.map (·.reword w)) = (joinDeclarations first rest).reword w := by
  cases rest <;> simp [joinDeclarations, Declaration.reword]

theorem ReadsDeclaration.reword (w : Rewording) {s t : State} {d : Declaration} :
    ReadsDeclaration s d t → ReadsDeclaration (s.reword w) (d.reword w) (t.reword w)
  | .chain h₁ h₂ => by
    rw [← joinDeclarations_reword]
    exact .chain (h₁.reword w) (h₂.reword w)

theorem ReadsEnd.reword (w : Rewording) {k : Token.Kind} {c c' : Command} {s t : State}
    (h : ReadsEnd k c s c' t) : ReadsEnd k (c.reword w) (s.reword w) (c'.reword w) (t.reword w) := by
  cases h with
  | closed hend => exact .closed (accept?_reword_some w hend)
  | unclosed hend =>
    have h := ReadsEnd.unclosed (c := c.reword w) (accept?_reword_none w hend)
    simpa [Command.reword] using h

/-- A name is at hand, so it is reworded as one. -/
theorem ReadsAssignmentOrCall.reword (w : Rewording) {s t : State} {c : Command} (hk : s.kind = .identifier)
    (h : ReadsAssignmentOrCall s c t) : ReadsAssignmentOrCall (s.reword w) (c.reword w) (t.reword w) := by
  have hname : (s.reword w).name = s.name.reword w := State.name_reword w (by rw [hk]; rfl)
  cases h with
  | call hopen ha hend =>
    refine .call (by simp [hopen]) (ha.reword w) ?_
    have hend := hend.reword w
    simpa [Command.reword, hname] using hend
  | assign hopen hbecomes he =>
    have h := ReadsAssignmentOrCall.assign (s := s.reword w) (by simp [hopen]) (by simp [hbecomes])
      (he.reword w)
    simpa [Command.reword, hname] using h
  | neither hopen hbecomes =>
    have h := ReadsAssignmentOrCall.neither (s := s.reword w) (by simp [hopen]) (by simp [hbecomes])
    simpa [Command.reword] using h

theorem ReadsCondition.reword (w : Rewording) {k : Keyword} {s t : State} {e : Option Expr}
    (h : ReadsCondition k s e t) : ReadsCondition k (s.reword w) (e.map (·.reword w)) (t.reword w) := by
  cases h with
  | whole hopen he hclose hend =>
    exact .whole (accept?_reword_some w hopen) (he.reword w) (accept?_reword_some w hclose)
      (accept?_reword_some w hend)
  | withoutOpening hopen =>
    simpa using ReadsCondition.withoutOpening (k := k) (accept?_reword_none w hopen)
  | withoutClosing hopen he hclose =>
    simpa using ReadsCondition.withoutClosing (k := k) (accept?_reword_some w hopen) (he.reword w)
      (accept?_reword_none w hclose)
  | withoutKeyword hopen he hclose hend =>
    simpa using ReadsCondition.withoutKeyword (k := k) (accept?_reword_some w hopen) (he.reword w)
      (accept?_reword_some w hclose) (accept?_reword_none w hend)

theorem ReadsBindings.reword (w : Rewording) {s t : State} {d : Option Declaration}
    (h : ReadsBindings s d t) : ReadsBindings (s.reword w) (d.map (·.reword w)) (t.reword w) := by
  cases h with
  | whole hd hin => exact .whole (hd.reword w) (accept?_reword_some w hin)
  | withoutIn hd hin => simpa using ReadsBindings.withoutIn (hd.reword w) (accept?_reword_none w hin)

def Count.reword (w : Rewording) (x : Count) : Count := ⟨x.counter.reword w, x.first.reword w, x.last.reword w⟩

theorem ReadsCount.reword (w : Rewording) {s t : State} {x : Option Count} (h : ReadsCount s x t) :
    ReadsCount (s.reword w) (x.map (·.reword w)) (t.reword w) := by
  cases h with
  | whole hname hbecomes hfirst hto hlast hdo =>
    have h := ReadsCount.whole (acceptName?_reword_some w rfl hname) (accept?_reword_some w hbecomes)
      (hfirst.reword w) (accept?_reword_some w hto) (hlast.reword w) (accept?_reword_some w hdo)
    simpa [Count.reword, LoopVariable.reword] using h
  | withoutName hname => simpa using ReadsCount.withoutName (acceptName?_reword_none w hname)
  | withoutBecomes hname hbecomes =>
    simpa using ReadsCount.withoutBecomes (acceptName?_reword_some w rfl hname)
      (accept?_reword_none w hbecomes)
  | withoutTo hname hbecomes hfirst hto =>
    simpa using ReadsCount.withoutTo (acceptName?_reword_some w rfl hname)
      (accept?_reword_some w hbecomes) (hfirst.reword w) (accept?_reword_none w hto)
  | withoutDo hname hbecomes hfirst hto hlast hdo =>
    simpa using ReadsCount.withoutDo (acceptName?_reword_some w rfl hname)
      (accept?_reword_some w hbecomes) (hfirst.reword w) (accept?_reword_some w hto) (hlast.reword w)
      (accept?_reword_none w hdo)

theorem joinCommands_reword (w : Rewording) (first : Command) (rest : List Command) :
    joinCommands (first.reword w) (rewordCommands w rest) = (joinCommands first rest).reword w := by
  cases rest <;> simp [joinCommands, rewordCommands, Command.reword]

mutual

theorem ReadsCommand.reword (w : Rewording) {s t : State} {c : Command} :
    ReadsCommand s c t → ReadsCommand (s.reword w) (c.reword w) (t.reword w)
  | .chain h₁ h₂ => by
    rw [← joinCommands_reword]
    exact .chain (h₁.reword w) (h₂.reword w)
termination_by structural h => h

theorem ReadsMoreCommands.reword (w : Rewording) {s t : State} {cs : List Command} :
    ReadsMoreCommands s cs t → ReadsMoreCommands (s.reword w) (rewordCommands w cs) (t.reword w)
  | .done hsep => by
    rw [rewordCommands]
    exact .done (accept?_reword_none w hsep)
  | .more hsep hc hcs => by
    rw [rewordCommands]
    exact .more (accept?_reword_some w hsep) (hc.reword w) (hcs.reword w)
termination_by structural h => h

theorem ReadsSingleCommand.reword (w : Rewording) {s t : State} {c : Command} :
    ReadsSingleCommand s c t → ReadsSingleCommand (s.reword w) (c.reword w) (t.reword w)
  | .simple hk h => .simple (by simp [hk]) (h.reword w hk)
  | .brokenIf hk h => by
    have h := ReadsSingleCommand.brokenIf (s := s.reword w) (by simp [hk]) (by simpa using h.reword w)
    simpa [Command.reword] using h
  | .ifThen hk hc hp helse hend => by
    refine .ifThen (by simp [hk]) (by simpa using hc.reword w) (hp.reword w) (accept?_reword_none w helse) ?_
    simpa [Command.reword] using hend.reword w
  | .ifElse hk hc hp helse hn hend => by
    refine .ifElse (by simp [hk]) (by simpa using hc.reword w) (hp.reword w) (accept?_reword_some w helse)
      (hn.reword w) ?_
    simpa [Command.reword] using hend.reword w
  | .brokenWhile hk h => by
    have h := ReadsSingleCommand.brokenWhile (s := s.reword w) (by simp [hk]) (by simpa using h.reword w)
    simpa [Command.reword] using h
  | .while_ hk hc hb => by
    have h := ReadsSingleCommand.while_ (s := s.reword w) (by simp [hk]) (by simpa using hc.reword w)
      (hb.reword w)
    simpa [Command.reword] using h
  | .brokenLet hk h => by
    have h := ReadsSingleCommand.brokenLet (s := s.reword w) (by simp [hk]) (by simpa using h.reword w)
    simpa [Command.reword] using h
  | .let_ hk hd hb => by
    have h := ReadsSingleCommand.let_ (s := s.reword w) (by simp [hk]) (by simpa using hd.reword w)
      (hb.reword w)
    simpa [Command.reword] using h
  | .brokenFor hk h => by
    have h := ReadsSingleCommand.brokenFor (s := s.reword w) (by simp [hk]) (by simpa using h.reword w)
    simpa [Command.reword] using h
  | .for_ (x := x) hk hx hb hend => by
    refine .for_ (x := x.reword w) (by simp [hk]) (by simpa using hx.reword w) (hb.reword w) ?_
    simpa [Command.reword, Count.reword] using hend.reword w
  | .begin_ hk hb hend => .begin_ (by simp [hk]) (by simpa using hb.reword w) (hend.reword w)
  | .blank hk => by
    have h := ReadsSingleCommand.blank (s := s.reword w) (by simpa using hk)
    simpa [Command.reword] using h
termination_by structural h => h

end

def Result.reword (w : Rewording) (r : Result) : Result := ⟨r.program.reword w, r.findings.map (·.reword w)⟩

theorem program_reword (w : Rewording) (s : State) : program (s.reword w) = (program s).reword w := by
  have hcommand := readsCommand_iff.mp ((readsCommand_command s).reword w)
  have hend : ∀ u : State, endOfText (u.reword w) = (endOfText u).reword w := by
    intro u
    unfold endOfText
    split <;> simp_all
  have hprogram : ∀ u : State, program u =
      ⟨⟨(command u).val.1, (command u).val.2.nextId⟩, (endOfText (command u).val.2).findings.reverse⟩ :=
    fun _ => rfl
  rw [hprogram, hprogram, hcommand, hend]
  simp [Result.reword, Program.reword, State.reword]

end Parser

/-- Tokens in other words are read as the program in these words. -/
theorem Program.ofTokens_reword (w : Rewording) (tokens : List Token) :
    Program.ofTokens (tokens.map (·.reword w)) = (Program.ofTokens tokens).map (·.reword w) := by
  have hstate : Parser.State.ofTokens (tokens.map (·.reword w)) =
      (Parser.State.ofTokens tokens).map (·.reword w) := by
    rw [Parser.State.ofTokens, Parser.State.ofTokens, List.getLast?_map, ← List.map_dropLast]
    cases tokens.getLast? with
    | none => rfl
    | some last =>
      have hsame : (last.reword w).isEnd = last.isEnd := rfl
      cases hend : last.isEnd with
      | true =>
        simp only [Option.map_some, hsame, hend, if_true]
        rfl
      | false =>
        simp only [Option.map_some, hsame, hend]
        rfl
  rw [Program.ofTokens, Program.ofTokens, hstate]
  cases Parser.State.ofTokens tokens with
  | error => rfl
  | ok s => exact congrArg Except.ok (Parser.program_reword w s)

end TriangleCompiler
