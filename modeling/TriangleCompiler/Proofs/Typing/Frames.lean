import TriangleCompiler.Proofs.Program.Frames
import TriangleCompiler.Proofs.Typing.Rewording

/-! The check around a place. Checking a tree comes to three parts: what is checked before an expression in it,
    the expression itself, and what is checked behind it. The last part learns no more of the expression than
    where it starts and which type it was found to have. -/

namespace TriangleCompiler

open Pass (Follows)
open Typing

namespace Typing

/-- What is checked behind an expression, once its place and its type are known. -/
abbrev Behind (α : Type) := Position → Option SimpleType → CheckM α

/-- The type of a condition is checked. -/
def judgeCondition : Behind Unit
  | position, some actual => reportIf (actual ≠ .boolean) position (.condition actual)
  | _, none => pure ()

/-- The type of a bound of a counting loop is checked. -/
def judgeLoopBound : Behind Unit
  | position, some actual => reportIf (actual ≠ .integer) position (.loopBound actual)
  | _, none => pure ()

/-- The call of a routine looks at its argument only from the outside. -/
def judgeCall (links : Resolution) (site : CallSite) (callee : Name) (argumentTag : Tag)
    (actual : Option SimpleType) : CheckM (Option SimpleType) :=
  checkCall links site callee (.value argumentTag (.error argumentTag)) actual

theorem checkCondition_eq (links : Resolution) (condition : Expr) : checkCondition links condition =
    condition.check links none >>= judgeCondition condition.tag.position := by
  refine bind_congr fun type? => ?_
  cases type? <;> rfl

theorem checkLoopBound_eq (links : Resolution) (bound : Expr) : checkLoopBound links bound =
    bound.check links none >>= judgeLoopBound bound.tag.position := by
  refine bind_congr fun type? => ?_
  cases type? <;> rfl

theorem checkCall_value (links : Resolution) (site : CallSite) (callee : Name) (tag : Tag) (e : Expr)
    (actual : Option SimpleType) :
    checkCall links site callee (.value tag e) actual = judgeCall links site callee tag actual := by
  have hformal : ∀ formal, checkFormal callee formal (.value tag e) actual =
      checkFormal callee formal (.value tag (.error tag)) actual := by
    intro formal
    cases formal <;> rfl
  unfold judgeCall checkCall
  simp only [hformal]

theorem checkDeclarations_append (links : Resolution) (ds ds' : List SingleDeclaration) :
    checkDeclarations links (ds ++ ds') =
      checkDeclarations links ds >>= fun _ => checkDeclarations links ds' := by
  induction ds with
  | nil => rfl
  | cons d ds ih => simp only [List.cons_append, checkDeclarations, ih, bind_assoc]

theorem checkCommands_append (links : Resolution) (cs cs' : List Command) :
    checkCommands links (cs ++ cs') = checkCommands links cs >>= fun _ => checkCommands links cs' := by
  induction cs with
  | nil => simp only [List.nil_append, checkCommands, pure_bind]
  | cons c cs ih => simp only [List.cons_append, checkCommands, ih, bind_assoc]

end Typing

/-! ### What is checked before the place, and behind it -/

/-- What is checked of an expression before the one at the place; it gives what is checked behind that. -/
def ExprFrame.check (links : Resolution) (pending : Option NodeId) :
    ExprFrame → CheckM (Behind (Option SimpleType))
  | argument tag callee argumentTag => pure fun _ type => do
    let actual ← decorate argumentTag.id type
    let result ← judgeCall links .expression callee argumentTag actual
    decorate tag.id result
  | operand tag op => pure fun position type => do
    let result ← checkUnary links op type position
    decorate tag.id result
  | lhs tag op other => pure fun position type => do
    let otherType ← other.check links pending
    let result ← checkBinary links op type otherType position other.tag.position
    decorate tag.id result
  | rhs tag op other => do
    let otherType ← other.check links pending
    pure fun position type => do
      let result ← checkBinary links op otherType type other.tag.position position
      decorate tag.id result

def ExprFrame.tag : ExprFrame → Tag
  | argument tag _ _ | operand tag _ | lhs tag _ _ | rhs tag _ _ => tag

/-- Where an expression inside of these frames makes the whole start. -/
def ExprFrame.start (fs : List ExprFrame) (position : Position) : Position :=
  match fs with
  | [] => position
  | f :: _ => f.tag.position

def ExprFrame.checkAll (links : Resolution) (pending : Option NodeId) :
    List ExprFrame → CheckM (Behind (Option SimpleType))
  | [] => pure fun _ type => pure type
  | f :: fs => do
    let outer ← f.check links pending
    let inner ← checkAll links pending fs
    pure fun position type => do
      let result ← inner position type
      outer (start fs position) result

/-- The constant whose own value the expression is. -/
def ExprSite.pending : ExprSite → Option NodeId
  | constant _ _ tag _ _ => some tag.id
  | _ => none

/-- What is checked of a command before the expression at the place; it gives what is checked behind that. -/
def ExprSite.check (links : Resolution) : ExprSite → CheckM (Behind Unit)
  | value _ target => pure fun position type => checkAssignment links target position type
  | argument _ callee argumentTag => pure fun _ type => do
    let actual ← decorate argumentTag.id type
    discard (judgeCall links .command callee argumentTag actual)
  | ifThen _ body | while_ _ body => pure fun position type => do
    judgeCondition position type
    body.check links
  | ifElse _ positive negative => pure fun position type => do
    judgeCondition position type
    positive.check links
    negative.check links
  | first _ counter bound body => do
    assign counter.id .integer
    pure fun position type => do
      judgeLoopBound position type
      checkLoopBound links bound
      body.check links
  | last _ counter bound body => do
    assign counter.id .integer
    checkLoopBound links bound
    pure fun position type => do
      judgeLoopBound position type
      body.check links
  | constant _ declaration tag _ body => do
    checkDeclarations links declaration.before
    pure fun _ type => do
      discard (decorate tag.id type)
      checkDeclarations links declaration.after
      body.check links

/-- What is checked of a command before the one at the place. -/
def CommandFrame.before (links : Resolution) : CommandFrame → CheckM Unit
  | ifThen _ condition | positive _ condition _ | while_ _ condition => checkCondition links condition
  | negative _ condition other => do
    checkCondition links condition
    other.check links
  | for_ _ counter first last => do
    assign counter.id .integer
    checkLoopBound links first
    checkLoopBound links last
  | let_ _ declaration => checkDeclarations links declaration.parts
  | part _ before _ => checkCommands links before

/-- What is checked of a command behind the one at the place. -/
def CommandFrame.behind (links : Resolution) : CommandFrame → CheckM Unit
  | positive _ _ other => other.check links
  | part _ _ after => checkCommands links after
  | _ => pure ()

def CommandFrame.checkAll (links : Resolution) (inner : CheckM (Behind Unit)) :
    List CommandFrame → CheckM (Behind Unit)
  | [] => inner
  | f :: fs => do
    f.before links
    let rest ← checkAll links inner fs
    pure fun position type => do
      rest position type
      f.behind links

def ExprPlace.pending (p : ExprPlace) : Option NodeId := p.site.pending

/-- What is checked before the expression at the place; it gives what is checked behind that. -/
def ExprPlace.check (links : Resolution) (p : ExprPlace) : CheckM (Behind Unit) :=
  CommandFrame.checkAll links (do
    let outer ← p.site.check links
    let inner ← ExprFrame.checkAll links p.pending p.exprs
    pure fun position type => do
      let result ← inner position type
      outer (ExprFrame.start p.exprs position) result) p.commands

section Fill
variable (links : Resolution)

theorem ExprFrame.check_plug (pending : Option NodeId) (f : ExprFrame) (e : Expr) :
    (f.plug e).check links pending =
      f.check links pending >>= fun behind => e.check links pending >>= behind e.tag.position := by
  cases f <;>
    simp only [plug, check, Expr.check, Argument.check, checkCall_value, pure_bind, bind_assoc]

theorem ExprFrame.position_plugAll (fs : List ExprFrame) (e : Expr) :
    (plugAll fs e).tag.position = start fs e.tag.position := by
  cases fs with
  | nil => rfl
  | cons f fs => cases f <;> rfl

theorem ExprFrame.check_plugAll (pending : Option NodeId) (fs : List ExprFrame) (e : Expr) :
    (plugAll fs e).check links pending =
      checkAll links pending fs >>= fun behind => e.check links pending >>= behind e.tag.position := by
  induction fs with
  | nil =>
    rw [checkAll, pure_bind]
    exact (bind_pure _).symm
  | cons f fs ih =>
    show (f.plug (plugAll fs e)).check links pending = _
    simp only [check_plug, ih, checkAll, position_plugAll, bind_assoc, pure_bind]

theorem ExprSite.check_plug (s : ExprSite) (e : Expr) : (s.plug e).check links =
    s.check links >>= fun behind => e.check links s.pending >>= behind e.tag.position := by
  cases s <;>
    simp only [plug, check, pending, Command.check, Argument.check, checkCall_value, checkCondition_eq,
      checkLoopBound_eq, DeclarationFrame.parts_plug, checkDeclarations_append, checkDeclarations,
      SingleDeclaration.check, pure_bind, bind_assoc]

theorem CommandFrame.check_plug (f : CommandFrame) (c : Command) : (f.plug c).check links =
    f.before links >>= fun _ => c.check links >>= fun _ => f.behind links := by
  cases f <;>
    simp only [plug, before, behind, Command.check, checkCommands_append, checkCommands, bind_assoc,
      bind_pure_unit]

theorem CommandFrame.check_plugAll {inner : CheckM (Behind Unit)} {c : Command} {x : CheckM (Option SimpleType)}
    {position : Position} (fs : List CommandFrame)
    (h : c.check links = inner >>= fun behind => x >>= behind position) :
    (plugAll fs c).check links = checkAll links inner fs >>= fun behind => x >>= behind position := by
  induction fs with
  | nil => exact h
  | cons f fs ih =>
    show (f.plug (plugAll fs c)).check links = _
    simp only [check_plug, ih, checkAll, bind_assoc, pure_bind]

/-- The check of a tree in three parts. -/
theorem ExprPlace.check_fill (p : ExprPlace) (e : Expr) : (p.fill e).check links =
    p.check links >>= fun behind => e.check links p.pending >>= behind e.tag.position := by
  refine CommandFrame.check_plugAll links p.commands ?_
  rw [ExprSite.check_plug]
  simp only [ExprFrame.check_plugAll, ExprFrame.position_plugAll, pending, bind_assoc, pure_bind]

end Fill

/-! ### Two checks behind the same expression -/

/-- From related states the rest of the check goes the same way, whatever is known of the expression. -/
def Typing.Behind.Steady {α : Type} (R : Typing.State → Typing.State → Prop) (behind : Behind α) : Prop :=
  ∀ position type, Follows R (behind position type) (behind position type)

section Steady
variable {reads writes : NodeId → Prop} {R : Typing.State → Typing.State → Prop}
  (hR : Carried .same reads writes R) {links : Resolution}
include hR

theorem Typing.steady_judgeCondition : judgeCondition.Steady R := by
  intro position type
  cases type with
  | none => exact .pure ()
  | some type => exact follows_reportIf hR _ _ fun _ => rfl

theorem Typing.steady_judgeLoopBound : judgeLoopBound.Steady R := by
  intro position type
  cases type with
  | none => exact .pure ()
  | some type => exact follows_reportIf hR _ _ fun _ => rfl

theorem Typing.follows_judgeCall (site : CallSite) (callee : Name) (argumentTag : Tag)
    (actual : Option SimpleType) : Follows R (judgeCall links site callee argumentTag actual)
      (judgeCall links site callee argumentTag actual) := by
  have h := follows_checkCall hR links site callee (.value argumentTag (.error argumentTag)) actual
  rwa [Argument.reword_same] at h

variable (hlinks : links.LeadsTo reads)
include hlinks

theorem Expr.follows_self (pending : Option NodeId) (e : Expr) (hids : ∀ id ∈ e.ids, writes id) :
    Follows R (e.check links pending) (e.check links pending) := by
  have h := e.follows_check hR hlinks pending hids
  rwa [Expr.reword_same] at h

theorem Typing.follows_checkLoopBound_self (bound : Expr) (hids : ∀ id ∈ bound.ids, writes id) :
    Follows R (checkLoopBound links bound) (checkLoopBound links bound) := by
  have h := follows_checkLoopBound hR hlinks bound hids
  rwa [Expr.reword_same] at h

theorem Typing.follows_checkDeclarations_self (ds : List SingleDeclaration)
    (hids : ∀ id ∈ declarationIds ds, writes id) :
    Follows R (checkDeclarations links ds) (checkDeclarations links ds) := by
  have h := follows_checkDeclarations hR hlinks ds hids
  rwa [map_reword_same] at h

theorem Command.follows_self (c : Command) (hids : ∀ id ∈ c.ids, writes id) :
    Follows R (c.check links) (c.check links) := by
  have h := c.follows_check hR hlinks hids
  rwa [Command.reword_same] at h

theorem Typing.follows_checkCommands_self (cs : List Command) (hids : ∀ id ∈ commandIds cs, writes id) :
    Follows R (checkCommands links cs) (checkCommands links cs) := by
  have h := follows_checkCommands hR hlinks cs hids
  rwa [rewordCommands_same] at h

theorem ExprFrame.steady_check (pending : Option NodeId) (f : ExprFrame) (hids : ∀ id ∈ f.ids, writes id) :
    (f.check links pending).Gives (Behind.Steady R) := by
  cases f with
  | argument tag callee argumentTag =>
    simp only [ids, List.forall_mem_cons] at hids
    refine .pure fun _ type => (follows_decorate hR hids.2.1 type).bind fun actual => ?_
    exact (follows_judgeCall hR _ callee argumentTag actual).bind fun _ => follows_decorate hR hids.2.2.1 _
  | operand tag op =>
    simp only [ids, List.forall_mem_cons] at hids
    exact .pure fun position type => (follows_checkUnary hR links op type position).bind fun _ =>
      follows_decorate hR hids.2.1 _
  | lhs tag op other =>
    simp only [ids, List.forall_mem_cons, List.forall_mem_append] at hids
    obtain ⟨-, hother, htag, -⟩ := hids
    exact .pure fun position type => (other.follows_self hR hlinks pending hother).bind fun _ =>
      (follows_checkBinary hR links op _ _ _ _).bind fun _ => follows_decorate hR htag _
  | rhs tag op other =>
    simp only [ids, List.forall_mem_cons, List.forall_mem_append] at hids
    obtain ⟨-, -, htag, -⟩ := hids
    exact .after fun _ => .pure fun position type =>
      (follows_checkBinary hR links op _ _ _ _).bind fun _ => follows_decorate hR htag _

theorem ExprFrame.steady_checkAll (pending : Option NodeId) (fs : List ExprFrame)
    (hids : ∀ id ∈ fs.flatMap ids, writes id) : (checkAll links pending fs).Gives (Behind.Steady R) := by
  induction fs with
  | nil => exact .pure fun _ type => .pure type
  | cons f fs ih =>
    rw [List.flatMap_cons, List.forall_mem_append] at hids
    refine (f.steady_check hR hlinks pending hids.1).bind fun outer houter => ?_
    refine (ih hids.2).bind fun inner hinner => .pure fun position type => ?_
    exact (hinner position type).bind fun _ => houter _ _

theorem ExprSite.steady_check (s : ExprSite) (hids : ∀ id ∈ s.ids, writes id) :
    (s.check links).Gives (Behind.Steady R) := by
  cases s with
  | value _ target => exact .pure fun position type => follows_checkAssignment hR hlinks target position type
  | argument _ callee argumentTag =>
    simp only [ids, List.forall_mem_cons] at hids
    exact .pure fun _ type => (follows_decorate hR hids.2.1 type).bind fun actual =>
      (follows_judgeCall hR _ callee argumentTag actual).discard
  | ifThen _ body | while_ _ body =>
    exact .pure fun position type => (steady_judgeCondition hR position type).bind fun _ =>
      body.follows_self hR hlinks hids
  | ifElse _ positive negative =>
    rw [ids, List.forall_mem_append] at hids
    exact .pure fun position type => (steady_judgeCondition hR position type).bind fun _ =>
      (positive.follows_self hR hlinks hids.1).bind fun _ => negative.follows_self hR hlinks hids.2
  | first _ counter bound body =>
    simp only [ids, List.forall_mem_cons, List.forall_mem_append] at hids
    obtain ⟨-, -, hbound, hbody⟩ := hids
    exact .after fun _ => .pure fun position type => (steady_judgeLoopBound hR position type).bind fun _ =>
      (follows_checkLoopBound_self hR hlinks bound hbound).bind fun _ => body.follows_self hR hlinks hbody
  | last _ counter bound body =>
    simp only [ids, List.forall_mem_cons, List.forall_mem_append] at hids
    obtain ⟨-, -, -, hbody⟩ := hids
    exact .after fun _ => .after fun _ => .pure fun position type =>
      (steady_judgeLoopBound hR position type).bind fun _ => body.follows_self hR hlinks hbody
  | constant _ declaration tag name body =>
    simp only [ids, List.forall_mem_cons, List.forall_mem_append] at hids
    obtain ⟨-, htag, -, hafter, hbody⟩ := hids
    exact .after fun _ => .pure fun _ type => (follows_decorate hR htag type).discard.bind fun _ =>
      (follows_checkDeclarations_self hR hlinks declaration.after hafter).bind fun _ =>
      body.follows_self hR hlinks hbody

theorem CommandFrame.follows_behind (f : CommandFrame) (hids : ∀ id ∈ f.ids, writes id) :
    Follows R (f.behind links) (f.behind links) := by
  cases f with
  | positive _ _ other =>
    rw [ids, List.forall_mem_append] at hids
    exact other.follows_self hR hlinks hids.2
  | part _ _ after =>
    rw [ids, List.forall_mem_append] at hids
    exact follows_checkCommands_self hR hlinks after hids.2
  | ifThen | negative | while_ | for_ | let_ => exact .pure ()

theorem CommandFrame.steady_checkAll {inner : CheckM (Behind Unit)} (h : inner.Gives (Behind.Steady R))
    (fs : List CommandFrame) (hids : ∀ id ∈ fs.flatMap ids, writes id) :
    (checkAll links inner fs).Gives (Behind.Steady R) := by
  induction fs with
  | nil => exact h
  | cons f fs ih =>
    rw [List.flatMap_cons, List.forall_mem_append] at hids
    refine .after fun _ => (ih hids.2).bind fun rest hrest => .pure fun position type => ?_
    exact (hrest position type).bind fun _ => f.follows_behind hR hlinks hids.1

/-- Behind the expression at a place the check goes the same way from related states. -/
theorem ExprPlace.steady_check (p : ExprPlace) (hids : ∀ id ∈ p.ids, writes id) :
    (p.check links).Gives (Behind.Steady R) := by
  simp only [ids, List.forall_mem_append] at hids
  obtain ⟨hcommands, hsite, hexprs⟩ := hids
  refine CommandFrame.steady_checkAll hR hlinks ?_ p.commands hcommands
  refine (p.site.steady_check hR hlinks hsite).bind fun outer houter => ?_
  refine (ExprFrame.steady_checkAll hR hlinks _ p.exprs hexprs).bind fun inner hinner => ?_
  exact .pure fun position type => (hinner position type).bind fun _ => houter _ _

end Steady

end TriangleCompiler
