import Mathlib.Data.List.Forall2
import TriangleCompiler.Proofs.Parser.Numbering
import TriangleCompiler.Proofs.Parser.Rewording
import TriangleCompiler.Proofs.Passes
import TriangleCompiler.Typing

/-! The check of a program in other words. With the same links it gives the same types; it reports as many
    errors, each at its new place and, where the names keep their spellings, with the same message. This is
    one of several ways in which two checks can stay together, so what has to stay together is left open: any
    relation of states will do that reports keep, and that types keep where they are looked up or given. -/

namespace TriangleCompiler

/-- The declarations that names are linked to are among these nodes. -/
def Resolution.LeadsTo (nodes : NodeId → Prop) (links : Resolution) : Prop :=
  ∀ id node, links.get? id = some (.const node) ∨ links.get? id = some (.var node) → nodes node

namespace Typing

open Pass (Follows)

/-- States stay related where the same is reported in other words, where the type of a node of `reads` is
    looked up, and where one of `writes` is given its type. -/
structure Carried (w : Rewording) (reads writes : NodeId → Prop) (R : State → State → Prop) : Prop where
  report : ∀ (position : Position) {cause cause' : TypeError}, (w.Keeps → cause' = cause) →
    Follows R (report position cause) (report (w.place position) cause')
  typeOf : ∀ id, reads id → Follows R (typeOf id) (typeOf id)
  assign : ∀ id type, writes id → Follows R (assign id type) (assign id type)

structure Reworded (w : Rewording) (s t : State) : Prop where
  types_eq : t.types = s.types
  errors : List.Forall₂ w.Restates s.errors.toList t.errors.toList

theorem Reworded.start (w : Rewording) (p : Program) : Reworded w (.start p) (.start (p.reword w)) :=
  ⟨rfl, .nil⟩

theorem Reworded.carried (w : Rewording) : Carried w (fun _ => True) (fun _ => True) (Reworded w) where
  report := by
    intro position cause cause' h s t hR
    have hnew : w.Restates ⟨position, .type cause⟩ ⟨w.place position, .type cause'⟩ :=
      ⟨rfl, fun hw => congrArg ProgramError.type (h hw)⟩
    refine .ok ⟨hR.types_eq, ?_⟩
    simp only [Array.toList_push]
    exact List.rel_append hR.errors (.cons hnew .nil)
  typeOf := by
    intro id _ s t hR
    rw [Typing.typeOf, Typing.typeOf, hR.types_eq]
    exact .ok hR
  assign := by
    intro id type _ s t hR
    unfold Typing.assign
    rw [hR.types_eq]
    cases s.types.set id type with
    | error fault => exact .error hR
    | ok types => exact .ok ⟨rfl, hR.errors⟩

variable {w : Rewording} {reads writes : NodeId → Prop} {R : State → State → Prop}
  (hR : Carried w reads writes R)
include hR

/-! ### Reports and types -/

theorem follows_reportIf (wrong : Bool) (position : Position) {cause cause' : TypeError}
    (h : w.Keeps → cause' = cause) :
    Follows R (reportIf wrong position cause) (reportIf wrong (w.place position) cause') := by
  cases wrong with
  | true => exact hR.report position h
  | false => exact .pure ()

/-- A report about a name and nothing else. -/
theorem follows_reject (name : Name) (cause : String → TypeError) :
    Follows R (report name.position (cause name.spelling) >>= fun _ => pure (none : Option SimpleType))
      (report (name.reword w).position (cause (name.reword w).spelling) >>= fun _ => pure none) :=
  (hR.report name.position fun hw => by rw [name.spelling_reword hw]).bind fun _ => .pure none

theorem follows_decorate {id : NodeId} (hid : writes id) (type? : Option SimpleType) :
    Follows R (decorate id type?) (decorate id type?) := by
  cases type? with
  | none => exact .pure none
  | some type => exact (hR.assign id type hid).bind fun _ => .pure (some type)

/-! ### Names, operators and calls -/

variable (links : Resolution)

variable {links} in
theorem follows_checkName (hlinks : links.LeadsTo reads) (pending : Option NodeId) (name : Name) :
    Follows R (checkName links pending name) (checkName links pending (name.reword w)) := by
  unfold checkName
  rw [Name.id_reword]
  cases hlink : links.get? name.id with
  | none => exact .pure none
  | some link =>
    cases link with
    | builtin b =>
      dsimp only
      split
      · exact .pure _
      · exact follows_reject hR name (.notAValue · b.kind)
    | const id =>
      dsimp only
      split
      · exact follows_reject hR name .usedInOwnDeclaration
      · exact hR.typeOf id (hlinks _ _ (.inl hlink))
    | var id => exact hR.typeOf id (hlinks _ _ (.inr hlink))

variable {links} in
theorem follows_checkVariable (hlinks : links.LeadsTo reads) (name : Name) :
    Follows R (checkVariable links name) (checkVariable links (name.reword w)) := by
  unfold checkVariable
  rw [Name.id_reword]
  split
  · exact .pure none
  · exact hR.typeOf _ (hlinks _ _ (.inr ‹_›))
  · exact follows_reject hR name .notAVariable

theorem follows_checkOperand (op : Name) (expected : SimpleType) (actual : Option SimpleType)
    (position : Position) : Follows R (checkOperand op expected actual position)
      (checkOperand (op.reword w) expected actual (w.place position)) := by
  cases actual with
  | none => exact .pure ()
  | some actual => exact follows_reportIf hR _ _ fun hw => by rw [op.spelling_reword hw]

theorem follows_checkUnary (op : Name) (operand : Option SimpleType) (position : Position) :
    Follows R (checkUnary links op operand position)
      (checkUnary links (op.reword w) operand (w.place position)) := by
  unfold checkUnary
  rw [Name.id_reword]
  split
  · exact .pure none
  · split
    · exact (follows_checkOperand hR op _ operand position).bind fun _ => .pure _
    · exact follows_reject hR op .notAUnaryOperator
  · exact follows_reject hR op .notAUnaryOperator

theorem follows_checkSame (op : Name) (lhs rhs : Option SimpleType) :
    Follows R (checkSame op lhs rhs) (checkSame (op.reword w) lhs rhs) := by
  cases lhs with
  | none => exact .pure ()
  | some lhs =>
    cases rhs with
    | none => exact .pure ()
    | some rhs => exact follows_reportIf hR _ _ fun hw => by rw [op.spelling_reword hw]

theorem follows_checkBinary (op : Name) (lhs rhs : Option SimpleType) (lhsPosition rhsPosition : Position) :
    Follows R (checkBinary links op lhs rhs lhsPosition rhsPosition)
      (checkBinary links (op.reword w) lhs rhs (w.place lhsPosition) (w.place rhsPosition)) := by
  unfold checkBinary
  rw [Name.id_reword]
  split
  · exact .pure none
  · split
    · exact (follows_checkSame hR op lhs rhs).bind fun _ => .pure _
    · exact (follows_checkOperand hR op _ lhs lhsPosition).bind fun _ =>
        (follows_checkOperand hR op _ rhs rhsPosition).bind fun _ => .pure _
    · exact follows_reject hR op .notABinaryOperator
  · exact follows_reject hR op .notABinaryOperator

theorem follows_checkSite (callee : Name) (result : SimpleType) (site : CallSite) :
    Follows R (checkSite callee result site) (checkSite (callee.reword w) result site) := by
  cases site <;> exact follows_reportIf hR _ _ fun hw => by rw [callee.spelling_reword hw]

theorem follows_checkPassing (callee : Name) (byReference : Bool) (argument : Argument) :
    Follows R (checkPassing callee byReference argument)
      (checkPassing (callee.reword w) byReference (argument.reword w)) := by
  cases argument with
  | blank | error =>
    rw [Argument.reword]
    exact .pure ()
  | value tag expr =>
    rw [Argument.reword]
    exact follows_reportIf hR _ _ fun hw => by rw [callee.spelling_reword hw]
  | var tag name =>
    rw [Argument.reword]
    exact follows_reportIf hR _ _ fun hw => by rw [callee.spelling_reword hw]

theorem follows_checkArgumentType (callee : Name) (expected : SimpleType) (position : Position)
    (actual : Option SimpleType) : Follows R (checkArgumentType callee expected position actual)
      (checkArgumentType (callee.reword w) expected (w.place position) actual) := by
  cases actual with
  | none => exact .pure ()
  | some actual => exact follows_reportIf hR _ _ fun hw => by rw [callee.spelling_reword hw]

theorem follows_checkFormal (callee : Name) (formal : Option Builtin.Formal) (argument : Argument)
    (actual : Option SimpleType) : Follows R (checkFormal callee formal argument actual)
      (checkFormal (callee.reword w) formal (argument.reword w) actual) := by
  have harity : ∀ m n, Follows R (report callee.position (.arityMismatch callee.spelling m n))
      (report (w.place callee.position) (.arityMismatch (callee.reword w).spelling m n)) :=
    fun m n => hR.report _ fun hw => by rw [callee.spelling_reword hw]
  have hpassed : ∀ formal : Builtin.Formal, Follows R
      (checkPassing callee formal.byReference argument >>= fun _ =>
        checkArgumentType callee formal.type argument.tag.position actual)
      (checkPassing (callee.reword w) formal.byReference (argument.reword w) >>= fun _ =>
        checkArgumentType (callee.reword w) formal.type (w.place argument.tag.position) actual) :=
    fun formal => (follows_checkPassing hR callee formal.byReference argument).bind fun _ =>
      follows_checkArgumentType hR callee formal.type _ actual
  cases formal with
  | none =>
    cases argument with
    | blank =>
      rw [Argument.reword]
      exact .pure ()
    | value | var | error =>
      rw [Argument.reword]
      exact harity 0 1
  | some formal =>
    cases argument with
    | blank =>
      rw [Argument.reword]
      exact harity 1 0
    | value | var | error =>
      have h := hpassed formal
      rw [Argument.reword] at h ⊢
      exact h

theorem follows_checkCall (site : CallSite) (callee : Name) (argument : Argument)
    (actual : Option SimpleType) : Follows R (checkCall links site callee argument actual)
      (checkCall links site (callee.reword w) (argument.reword w) actual) := by
  unfold checkCall
  rw [Name.id_reword]
  split
  · exact .pure none
  · split
    · exact (follows_checkSite hR callee _ site).bind fun _ =>
        (follows_checkFormal hR callee _ argument actual).bind fun _ => .pure _
    · exact follows_reject hR callee .notCallable
  · exact follows_reject hR callee .notCallable

end Typing

open Typing Pass

/-! ### The tree -/

section Tree
variable {w : Rewording} {reads writes : NodeId → Prop} {R : Typing.State → Typing.State → Prop}
  (hR : Carried w reads writes R) {links : Resolution} (hlinks : links.LeadsTo reads)
include hR hlinks

mutual

theorem Expr.follows_check (pending : Option NodeId) : ∀ e : Expr, (∀ id ∈ e.ids, writes id) →
    Follows R (e.check links pending) ((e.reword w).check links pending)
  | .int tag spelling, hids | .char tag spelling, hids => by
    simp only [Expr.reword, Expr.check]
    exact (follows_reportIf hR _ _ fun _ => rfl).bind fun _ =>
      follows_decorate hR (hids tag.id List.mem_cons_self) _
  | .name tag name, hids => by
    simp only [Expr.ids, List.forall_mem_cons] at hids
    simp only [Expr.reword, Expr.check]
    exact (follows_checkName hR hlinks pending name).bind fun _ => follows_decorate hR hids.2.1 _
  | .call tag callee argument, hids => by
    simp only [Expr.ids, List.forall_mem_cons, List.forall_mem_append] at hids
    obtain ⟨-, hargument, htag, -⟩ := hids
    simp only [Expr.reword, Expr.check]
    exact (argument.follows_check pending hargument).bind fun actual =>
      (follows_checkCall hR links .expression callee argument actual).bind fun _ => follows_decorate hR htag _
  | .unary tag op operand, hids => by
    simp only [Expr.ids, List.forall_mem_cons, List.forall_mem_append] at hids
    obtain ⟨-, hoperand, htag, -⟩ := hids
    simp only [Expr.reword, Expr.check, Expr.tag_reword, Tag.position_reword]
    exact (operand.follows_check pending hoperand).bind fun type =>
      (follows_checkUnary hR links op type _).bind fun _ => follows_decorate hR htag _
  | .binary tag op lhs rhs, hids => by
    simp only [Expr.ids, List.forall_mem_cons, List.forall_mem_append] at hids
    obtain ⟨hlhs, -, hrhs, htag, -⟩ := hids
    simp only [Expr.reword, Expr.check, Expr.tag_reword, Tag.position_reword]
    exact (lhs.follows_check pending hlhs).bind fun _ => (rhs.follows_check pending hrhs).bind fun _ =>
      (follows_checkBinary hR links op _ _ _ _).bind fun _ => follows_decorate hR htag _
  | .error tag, _ => by
    simp only [Expr.reword, Expr.check]
    exact .pure none

theorem Argument.follows_check (pending : Option NodeId) : ∀ a : Argument, (∀ id ∈ a.ids, writes id) →
    Follows R (a.check links pending) ((a.reword w).check links pending)
  | .blank _, _ | .error _, _ => by
    simp only [Argument.reword, Argument.check]
    exact .pure none
  | .value tag expr, hids => by
    simp only [Argument.ids, List.forall_mem_cons] at hids
    simp only [Argument.reword, Argument.check]
    exact (expr.follows_check pending hids.2).bind fun _ => follows_decorate hR hids.1 _
  | .var tag name, hids => by
    simp only [Argument.reword, Argument.check]
    exact (follows_checkVariable hR hlinks name).bind fun _ =>
      follows_decorate hR (hids tag.id List.mem_cons_self) _

end

theorem follows_checkCondition (condition : Expr) (hids : ∀ id ∈ condition.ids, writes id) :
    Follows R (checkCondition links condition) (checkCondition links (condition.reword w)) := by
  unfold checkCondition
  rw [Expr.tag_reword, Tag.position_reword]
  refine (condition.follows_check hR hlinks none hids).bind fun type? => ?_
  cases type? with
  | none => exact .pure ()
  | some type => exact follows_reportIf hR _ _ fun _ => rfl

theorem follows_checkLoopBound (bound : Expr) (hids : ∀ id ∈ bound.ids, writes id) :
    Follows R (checkLoopBound links bound) (checkLoopBound links (bound.reword w)) := by
  unfold checkLoopBound
  rw [Expr.tag_reword, Tag.position_reword]
  refine (bound.follows_check hR hlinks none hids).bind fun type? => ?_
  cases type? with
  | none => exact .pure ()
  | some type => exact follows_reportIf hR _ _ fun _ => rfl

omit hlinks in
theorem TypeDenoter.follows_check (type : TypeDenoter) (hid : writes type.id) :
    Follows R (type.check links) ((type.reword w).check links) := by
  unfold TypeDenoter.check
  rw [TypeDenoter.reword, Name.id_reword, Name.position_reword]
  split
  · exact .pure none
  · split
    · exact follows_decorate hR hid _
    · exact follows_reject hR type.name .notAType
  · exact follows_reject hR type.name .notAType

theorem SingleDeclaration.follows_check (d : SingleDeclaration) (hids : ∀ id ∈ d.ids, writes id) :
    Follows R (d.check links) ((d.reword w).check links) := by
  cases d with
  | const tag name value =>
    simp only [SingleDeclaration.ids, List.forall_mem_cons] at hids
    exact (value.follows_check hR hlinks (some tag.id) hids.2.2).bind fun _ =>
      (follows_decorate hR hids.1 _).discard
  | var tag name type =>
    simp only [SingleDeclaration.ids, List.forall_mem_cons] at hids
    exact (type.follows_check hR hids.2.2.1).bind fun _ => (follows_decorate hR hids.1 _).discard
  | error => exact .pure ()

theorem follows_checkDeclarations (ds : List SingleDeclaration) (hids : ∀ id ∈ declarationIds ds, writes id) :
    Follows R (checkDeclarations links ds) (checkDeclarations links (ds.map (·.reword w))) := by
  induction ds with
  | nil => exact .pure ()
  | cons d ds ih =>
    simp only [declarationIds, List.forall_mem_append] at hids
    exact (d.follows_check hR hlinks hids.1).bind fun _ => ih hids.2

theorem follows_checkAssignment (target : Name) (position : Position) (actual : Option SimpleType) :
    Follows R (checkAssignment links target position actual)
      (checkAssignment links (target.reword w) (w.place position) actual) := by
  unfold checkAssignment
  rw [Name.id_reword]
  split
  · exact .pure ()
  · refine (hR.typeOf _ (hlinks _ _ (.inr ‹_›))).bind fun expected => ?_
    split
    · exact follows_reportIf hR _ _ fun hw => by rw [target.spelling_reword hw]
    · exact .pure ()
  · exact hR.report _ fun hw => by rw [target.spelling_reword hw]

omit hR hlinks

mutual

theorem Command.follows_check (hR : Carried w reads writes R) (hlinks : links.LeadsTo reads) :
    ∀ c : Command, (∀ id ∈ c.ids, writes id) → Follows R (c.check links) ((c.reword w).check links)
  | .assign _ target value, hids => by
    simp only [Command.ids, List.forall_mem_cons] at hids
    simp only [Command.reword, Command.check, Expr.tag_reword, Tag.position_reword]
    exact (value.follows_check hR hlinks none hids.2).bind fun _ => follows_checkAssignment hR hlinks _ _ _
  | .blank _, _ | .error _, _ => by
    simp only [Command.reword, Command.check]
    exact .pure ()
  | .call _ callee argument, hids => by
    simp only [Command.ids, List.forall_mem_cons] at hids
    simp only [Command.reword, Command.check]
    exact (argument.follows_check hR hlinks none hids.2).bind fun _ =>
      (follows_checkCall hR links _ _ _ _).discard
  | .ifThen _ condition body, hids | .while_ _ condition body, hids => by
    simp only [Command.ids, List.forall_mem_append] at hids
    simp only [Command.reword, Command.check]
    exact (follows_checkCondition hR hlinks condition hids.1).bind fun _ => body.follows_check hR hlinks hids.2
  | .ifElse _ condition positive negative, hids => by
    simp only [Command.ids, List.forall_mem_append] at hids
    simp only [Command.reword, Command.check]
    exact (follows_checkCondition hR hlinks condition hids.1).bind fun _ =>
      (positive.follows_check hR hlinks hids.2.1).bind fun _ => negative.follows_check hR hlinks hids.2.2
  | .for_ _ counter first last body, hids => by
    simp only [Command.ids, List.forall_mem_cons, List.forall_mem_append] at hids
    simp only [Command.reword, Command.check]
    obtain ⟨-, hcounter, hfirst, hlast, hbody⟩ := hids
    exact (hR.assign _ _ hcounter).bind fun _ => (follows_checkLoopBound hR hlinks first hfirst).bind fun _ =>
      (follows_checkLoopBound hR hlinks last hlast).bind fun _ => body.follows_check hR hlinks hbody
  | .let_ _ declaration body, hids => by
    simp only [Command.ids, List.forall_mem_append] at hids
    simp only [Command.reword, Command.check, Declaration.parts_reword]
    exact (follows_checkDeclarations hR hlinks declaration.parts hids.1).bind fun _ =>
      body.follows_check hR hlinks hids.2
  | .sequential _ parts, hids => by
    simp only [Command.ids] at hids
    simp only [Command.reword, Command.check]
    exact follows_checkCommands hR hlinks parts hids

theorem follows_checkCommands (hR : Carried w reads writes R) (hlinks : links.LeadsTo reads) :
    ∀ cs : List Command, (∀ id ∈ commandIds cs, writes id) →
      Follows R (checkCommands links cs) (checkCommands links (rewordCommands w cs))
  | [], _ => by
    simp only [rewordCommands, checkCommands]
    exact .pure ()
  | c :: rest, hids => by
    simp only [commandIds, List.forall_mem_append] at hids
    simp only [rewordCommands, checkCommands]
    exact (c.follows_check hR hlinks hids.1).bind fun _ => follows_checkCommands hR hlinks rest hids.2

end

end Tree

theorem Program.follows_check (w : Rewording) (links : Resolution) (p : Program) :
    Follows (Reworded w) (p.check links) ((p.reword w).check links) :=
  p.command.follows_check (Reworded.carried w) (fun _ _ _ => trivial) fun _ _ => trivial

end TriangleCompiler
