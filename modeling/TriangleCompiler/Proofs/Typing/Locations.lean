import TriangleCompiler.Proofs.Passes
import TriangleCompiler.Proofs.Program.Phrases
import TriangleCompiler.Typing

/-! Where the errors in types are reported. Every rule reports at a phrase that it is about or at the name in
    one, so the errors of a check are at the places of the phrases, whatever the links. -/

namespace TriangleCompiler

namespace Typing

open Pass (Keeps)

/-- The errors so far are at these places. -/
def ErrorsAt (places : Position → Prop) (s : State) : Prop := ∀ d ∈ s.errors.toList, places d.position

variable {places : Position → Prop} {position : Position}

/-! ### Reports and types -/

theorem keeps_report (h : places position) (cause : TypeError) : Keeps (ErrorsAt places) (report position cause) := by
  rintro s _ ⟨rfl, hs⟩
  refine .ok ⟨rfl, fun d hd => ?_⟩
  simp only [Array.toList_push, List.mem_append, List.mem_singleton] at hd
  rcases hd with hd | rfl
  · exact hs d hd
  · exact h

theorem keeps_reportIf (h : places position) (wrong : Bool) (cause : TypeError) :
    Keeps (ErrorsAt places) (reportIf wrong position cause) := by
  cases wrong with
  | true => exact keeps_report h cause
  | false => exact .pure ()

theorem keeps_reject (h : places position) (cause : TypeError) :
    Keeps (ErrorsAt places) (report position cause >>= fun _ => pure (none : Option SimpleType)) :=
  (keeps_report h cause).bind fun _ => .pure none

theorem keeps_typeOf (id : NodeId) : Keeps (ErrorsAt places) (typeOf id) := by
  rintro s _ ⟨rfl, hs⟩
  exact .ok ⟨rfl, hs⟩

theorem keeps_assign (id : NodeId) (type : SimpleType) : Keeps (ErrorsAt places) (assign id type) := by
  rintro s _ ⟨rfl, hs⟩
  unfold Typing.assign
  cases s.types.set id type with
  | error fault => exact .error ⟨rfl, hs⟩
  | ok types => exact .ok ⟨rfl, hs⟩

theorem keeps_decorate (id : NodeId) (type? : Option SimpleType) :
    Keeps (ErrorsAt places) (decorate id type?) := by
  cases type? with
  | none => exact .pure none
  | some type => exact (keeps_assign id type).bind fun _ => .pure (some type)

/-! ### Names, operators and calls -/

variable (links : Resolution)

theorem keeps_checkName (pending : Option NodeId) {name : Name} (h : places name.position) :
    Keeps (ErrorsAt places) (checkName links pending name) := by
  unfold checkName
  split
  · exact .pure none
  · split
    · exact .pure _
    · exact keeps_reject h _
  · split
    · exact keeps_reject h _
    · exact keeps_typeOf _
  · exact keeps_typeOf _

theorem keeps_checkVariable {name : Name} (h : places name.position) :
    Keeps (ErrorsAt places) (checkVariable links name) := by
  unfold checkVariable
  split
  · exact .pure none
  · exact keeps_typeOf _
  · exact keeps_reject h _

theorem keeps_checkOperand (op : Name) (expected : SimpleType) (actual : Option SimpleType)
    (h : places position) : Keeps (ErrorsAt places) (checkOperand op expected actual position) := by
  cases actual with
  | none => exact .pure ()
  | some actual => exact keeps_reportIf h _ _

theorem keeps_checkUnary {op : Name} (hop : places op.position) (operand : Option SimpleType)
    (h : places position) : Keeps (ErrorsAt places) (checkUnary links op operand position) := by
  unfold checkUnary
  split
  · exact .pure none
  · split
    · exact (keeps_checkOperand op _ operand h).bind fun _ => .pure _
    · exact keeps_reject hop _
  · exact keeps_reject hop _

theorem keeps_checkSame {op : Name} (hop : places op.position) (lhs rhs : Option SimpleType) :
    Keeps (ErrorsAt places) (checkSame op lhs rhs) := by
  unfold checkSame
  split
  · exact keeps_reportIf hop _ _
  · exact .pure ()

theorem keeps_checkBinary {op : Name} (hop : places op.position) (lhs rhs : Option SimpleType)
    {lhsPosition rhsPosition : Position} (hlhs : places lhsPosition) (hrhs : places rhsPosition) :
    Keeps (ErrorsAt places) (checkBinary links op lhs rhs lhsPosition rhsPosition) := by
  unfold checkBinary
  split
  · exact .pure none
  · split
    · exact (keeps_checkSame hop lhs rhs).bind fun _ => .pure _
    · exact (keeps_checkOperand op _ lhs hlhs).bind fun _ =>
        (keeps_checkOperand op _ rhs hrhs).bind fun _ => .pure _
    · exact keeps_reject hop _
  · exact keeps_reject hop _

theorem keeps_checkSite {callee : Name} (h : places callee.position) (result : SimpleType) (site : CallSite) :
    Keeps (ErrorsAt places) (checkSite callee result site) := by
  cases site <;> exact keeps_reportIf h _ _

theorem keeps_checkPassing (callee : Name) (byReference : Bool) {argument : Argument}
    (h : places argument.tag.position) : Keeps (ErrorsAt places) (checkPassing callee byReference argument) := by
  cases argument with
  | blank | error => exact .pure ()
  | value | var => exact keeps_reportIf h _ _

theorem keeps_checkArgumentType (callee : Name) (expected : SimpleType) (actual : Option SimpleType)
    (h : places position) : Keeps (ErrorsAt places) (checkArgumentType callee expected position actual) := by
  cases actual with
  | none => exact .pure ()
  | some actual => exact keeps_reportIf h _ _

theorem keeps_checkFormal {callee : Name} (hcallee : places callee.position) (formal : Option Builtin.Formal)
    {argument : Argument} (hargument : places argument.tag.position) (actual : Option SimpleType) :
    Keeps (ErrorsAt places) (checkFormal callee formal argument actual) := by
  unfold checkFormal
  split
  · exact .pure ()
  · exact keeps_report hcallee _
  · exact keeps_report hcallee _
  · exact (keeps_checkPassing callee _ hargument).bind fun _ => keeps_checkArgumentType callee _ actual hargument

theorem keeps_checkCall (site : CallSite) {callee : Name} (hcallee : places callee.position)
    {argument : Argument} (hargument : places argument.tag.position) (actual : Option SimpleType) :
    Keeps (ErrorsAt places) (checkCall links site callee argument actual) := by
  unfold checkCall
  split
  · exact .pure none
  · split
    · exact (keeps_checkSite hcallee _ site).bind fun _ =>
        (keeps_checkFormal hcallee _ hargument actual).bind fun _ => .pure _
    · exact keeps_reject hcallee _
  · exact keeps_reject hcallee _

end Typing

open Typing Pass
open Phrase (Placed Throughout)

/-! ### The tree -/

section Tree
variable {places : Position → Prop} (links : Resolution)

mutual

theorem Expr.keeps_check (pending : Option NodeId) : ∀ e : Expr, Throughout (Placed places) [.expr e] →
    Keeps (ErrorsAt places) (e.check links pending)
  | .int _ _, h | .char _ _, h => by
    simp only [Expr.check]
    exact (keeps_reportIf h.self.position _ _).bind fun _ => keeps_decorate _ _
  | .name _ _, h => by
    simp only [Expr.check]
    exact (keeps_checkName links pending (h.self.word _ rfl)).bind fun _ => keeps_decorate _ _
  | .call _ _ argument, h => by
    simp only [Expr.check]
    exact (argument.keeps_check pending h.below).bind fun _ =>
      (keeps_checkCall links _ (h.self.word _ rfl) h.below.self.position _).bind fun _ => keeps_decorate _ _
  | .unary _ _ operand, h => by
    simp only [Expr.check]
    exact (operand.keeps_check pending h.below).bind fun _ =>
      (keeps_checkUnary links (h.self.word _ rfl) _ h.below.self.position).bind fun _ => keeps_decorate _ _
  | .binary _ _ lhs rhs, h => by
    simp only [Expr.check]
    exact (lhs.keeps_check pending h.below.head).bind fun _ => (rhs.keeps_check pending h.below.tail).bind fun _ =>
      (keeps_checkBinary links (h.self.word _ rfl) _ _ h.below.self.position h.below.tail.self.position).bind
        fun _ => keeps_decorate _ _
  | .error _, _ => by
    simp only [Expr.check]
    exact .pure none

theorem Argument.keeps_check (pending : Option NodeId) : ∀ a : Argument,
    Throughout (Placed places) [.argument a] → Keeps (ErrorsAt places) (a.check links pending)
  | .blank _, _ | .error _, _ => by
    simp only [Argument.check]
    exact .pure none
  | .value _ expr, h => by
    simp only [Argument.check]
    exact (expr.keeps_check pending h.below).bind fun _ => keeps_decorate _ _
  | .var _ _, h => by
    simp only [Argument.check]
    exact (keeps_checkVariable links (h.self.word _ rfl)).bind fun _ => keeps_decorate _ _

end

theorem keeps_checkCondition {condition : Expr} (h : Throughout (Placed places) [.expr condition]) :
    Keeps (ErrorsAt places) (checkCondition links condition) := by
  refine (condition.keeps_check links none h).bind fun type? => ?_
  cases type? with
  | none => exact .pure ()
  | some type => exact keeps_reportIf h.self.position _ _

theorem keeps_checkLoopBound {bound : Expr} (h : Throughout (Placed places) [.expr bound]) :
    Keeps (ErrorsAt places) (checkLoopBound links bound) := by
  refine (bound.keeps_check links none h).bind fun type? => ?_
  cases type? with
  | none => exact .pure ()
  | some type => exact keeps_reportIf h.self.position _ _

theorem TypeDenoter.keeps_check {type : TypeDenoter} (h : places type.name.position) :
    Keeps (ErrorsAt places) (type.check links) := by
  unfold TypeDenoter.check
  split
  · exact .pure none
  · split
    · exact keeps_decorate _ _
    · exact keeps_reject h _
  · exact keeps_reject h _

theorem SingleDeclaration.keeps_check {d : SingleDeclaration} (h : Throughout (Placed places) [.declaration d]) :
    Keeps (ErrorsAt places) (d.check links) := by
  cases d with
  | const tag _ value =>
    exact (value.keeps_check links (some tag.id) h.below).bind fun _ => (keeps_decorate _ _).discard
  | var =>
    exact (TypeDenoter.keeps_check links h.below.self.position).bind fun _ => (keeps_decorate _ _).discard
  | error => exact .pure ()

theorem keeps_checkDeclarations {ds : List SingleDeclaration}
    (h : Throughout (Placed places) (ds.map .declaration)) :
    Keeps (ErrorsAt places) (checkDeclarations links ds) := by
  induction ds with
  | nil => exact .pure ()
  | cons d ds ih => exact (SingleDeclaration.keeps_check links h.head).bind fun _ => ih h.tail

theorem keeps_checkAssignment {target : Name} (htarget : places target.position) {position : Position}
    (h : places position) (actual : Option SimpleType) :
    Keeps (ErrorsAt places) (checkAssignment links target position actual) := by
  unfold checkAssignment
  split
  · exact .pure ()
  · refine (keeps_typeOf _).bind fun expected => ?_
    split
    · exact keeps_reportIf h _ _
    · exact .pure ()
  · exact keeps_report htarget _

mutual

theorem Command.keeps_check : ∀ c : Command, Throughout (Placed places) [.command c] →
    Keeps (ErrorsAt places) (c.check links)
  | .assign _ _ value, h => by
    simp only [Command.check]
    exact (value.keeps_check links none h.below.tail).bind fun _ =>
      keeps_checkAssignment links h.below.self.position h.below.tail.self.position _
  | .blank _, _ | .error _, _ => by
    simp only [Command.check]
    exact .pure ()
  | .call _ _ argument, h => by
    simp only [Command.check]
    exact (argument.keeps_check links none h.below).bind fun _ =>
      (keeps_checkCall links _ (h.self.word _ rfl) h.below.self.position _).discard
  | .ifThen _ _ body, h | .while_ _ _ body, h => by
    simp only [Command.check]
    exact (keeps_checkCondition links h.below.head).bind fun _ => body.keeps_check h.below.tail
  | .ifElse _ _ positive negative, h => by
    simp only [Command.check]
    exact (keeps_checkCondition links h.below.head).bind fun _ =>
      (positive.keeps_check h.below.tail.head).bind fun _ => negative.keeps_check h.below.tail.tail
  | .for_ _ _ _ _ body, h => by
    simp only [Command.check]
    have hbounds := h.below.tail
    exact (keeps_assign _ _).bind fun _ => (keeps_checkLoopBound links hbounds.head).bind fun _ =>
      (keeps_checkLoopBound links hbounds.tail.head).bind fun _ => body.keeps_check hbounds.tail.tail
  | .let_ _ _ body, h => by
    simp only [Command.check]
    exact (keeps_checkDeclarations links h.below.head.parts).bind fun _ => body.keeps_check h.below.tail
  | .sequential _ parts, h => by
    simp only [Command.check]
    exact keeps_checkCommands parts h.below

theorem keeps_checkCommands : ∀ cs : List Command, Throughout (Placed places) (cs.map .command) →
    Keeps (ErrorsAt places) (checkCommands links cs)
  | [], _ => by
    simp only [checkCommands]
    exact .pure ()
  | c :: rest, h => by
    simp only [checkCommands]
    exact (c.keeps_check h.head).bind fun _ => keeps_checkCommands rest h.tail

end

end Tree

/-- The errors in the types of a program are at the places of its phrases. -/
theorem Program.errorsAt_check {places : Position → Prop} {p : Program}
    (h : Throughout (Placed places) [.command p.command]) (links : Resolution) :
    ErrorsAt places ((p.check links).stateAfter (.start p)) :=
  Keeps.stateAfter (p.command.keeps_check links h) fun _ hd => by cases hd

end TriangleCompiler
