import TriangleCompiler.Diagnostic
import TriangleCompiler.NodeTable
import TriangleCompiler.Pass
import TriangleCompiler.Program
import TriangleCompiler.Program.Literal

/-! The types of expressions, and the rules for names, operators, calls and literals. A check that
    involves a name without a link or an operand without a type is left out, because what is wrong with
    it was reported before. -/

namespace TriangleCompiler

namespace Typing

/-- The types given and the errors found so far. -/
structure State where
  types : Types
  errors : Array Diagnostic

/-- A pass that gives nodes their types. -/
abbrev CheckM := Pass State

/-- Where a call stands. -/
inductive CallSite where
  | command
  | expression
deriving DecidableEq, Repr

/-- Reports an error. -/
def report (position : Position) (cause : TypeError) : CheckM Unit :=
  fun s => .ok () { s with errors := s.errors.push ⟨position, .type cause⟩ }

/-- Reports an error if there is one. -/
def reportIf (wrong : Bool) (position : Position) (cause : TypeError) : CheckM Unit :=
  if wrong then report position cause else pure ()

/-- The type of a node, if it has one by now. -/
def typeOf (id : NodeId) : CheckM (Option SimpleType) :=
  fun s => .ok (s.types.get? id) s

/-- Gives a node its type. -/
def assign (id : NodeId) (type : SimpleType) : CheckM Unit := fun s =>
  match s.types.set id type with
  | .ok types => .ok () { s with types := types }
  | .error fault => .error fault s

/-- Gives a node its type if one was found, and passes on what was found. -/
def decorate (id : NodeId) : Option SimpleType → CheckM (Option SimpleType)
  | some type => do
    assign id type
    pure (some type)
  | none => pure none

/-- The type of the value that a name stands for. `pending` is the constant whose own value the name
    stands in. -/
def checkName (links : Resolution) (pending : Option NodeId) (name : Name) :
    CheckM (Option SimpleType) :=
  match links.get? name.id with
  | none => pure none
  | some (.builtin b) =>
    match b.kind with
    | .constant type _ => pure (some type)
    | kind => do
      report name.position (.notAValue name.spelling kind)
      pure none
  | some (.const id) =>
    if pending = some id then do
      report name.position (.usedInOwnDeclaration name.spelling)
      pure none
    else typeOf id
  | some (.var id) => typeOf id

/-- The type of a variable that is passed by reference. -/
def checkVariable (links : Resolution) (name : Name) : CheckM (Option SimpleType) :=
  match links.get? name.id with
  | none => pure none
  | some (.var id) => typeOf id
  | some _ => do
    report name.position (.notAVariable name.spelling)
    pure none

/-- Checks an operand against the type that its operator asks for. -/
def checkOperand (op : Name) (expected : SimpleType) (actual : Option SimpleType)
    (position : Position) : CheckM Unit :=
  match actual with
  | some actual => reportIf (actual ≠ expected) position (.operandMismatch op.spelling expected actual)
  | none => pure ()

/-- Checks the operand of a unary operator and gives the type of the result. -/
def checkUnary (links : Resolution) (op : Name) (operand : Option SimpleType) (position : Position) :
    CheckM (Option SimpleType) :=
  match links.get? op.id with
  | none => pure none
  | some (.builtin b) =>
    match b.kind with
    | .unary _ expected result => do
      checkOperand op expected operand position
      pure (some result)
    | _ => do
      report op.position (.notAUnaryOperator op.spelling)
      pure none
  | some _ => do
    report op.position (.notAUnaryOperator op.spelling)
    pure none

/-- Checks that two operands have the same type. -/
def checkSame (op : Name) : Option SimpleType → Option SimpleType → CheckM Unit
  | some lhs, some rhs => reportIf (lhs ≠ rhs) op.position (.operandsDiffer op.spelling lhs rhs)
  | _, _ => pure ()

/-- Checks the operands of a binary operator and gives the type of the result. Operands that may have
    any type must have the same one. -/
def checkBinary (links : Resolution) (op : Name) (lhs rhs : Option SimpleType)
    (lhsPosition rhsPosition : Position) : CheckM (Option SimpleType) :=
  match links.get? op.id with
  | none => pure none
  | some (.builtin b) =>
    match b.kind with
    | .binary _ .any _ result => do
      checkSame op lhs rhs
      pure (some result)
    | .binary _ expectedLhs expectedRhs result => do
      checkOperand op expectedLhs lhs lhsPosition
      checkOperand op expectedRhs rhs rhsPosition
      pure (some result)
    | _ => do
      report op.position (.notABinaryOperator op.spelling)
      pure none
  | some _ => do
    report op.position (.notABinaryOperator op.spelling)
    pure none

/-- Checks that a routine is called where it may be. -/
def checkSite (callee : Name) (result : SimpleType) : CallSite → CheckM Unit
  | .command => reportIf (result ≠ .void) callee.position (.functionAsCommand callee.spelling)
  | .expression => reportIf (result = .void) callee.position (.procedureAsExpression callee.spelling)

/-- Checks that an argument is passed the way its routine asks for. -/
def checkPassing (callee : Name) (byReference : Bool) : Argument → CheckM Unit
  | .var tag _ => reportIf (!byReference) tag.position (.unexpectedVarParameter callee.spelling)
  | .value tag _ => reportIf byReference tag.position (.expectedVarParameter callee.spelling)
  | .blank _ | .error _ => pure ()

/-- Checks the type of an argument against the one that its routine asks for. -/
def checkArgumentType (callee : Name) (expected : SimpleType) (position : Position) :
    Option SimpleType → CheckM Unit
  | some actual =>
    reportIf (actual ≠ expected) position (.argumentMismatch callee.spelling expected actual)
  | none => pure ()

/-- Checks the argument of a call, whose type is `actual`, against the parameter of the routine. -/
def checkFormal (callee : Name) (formal : Option Builtin.Formal) (argument : Argument)
    (actual : Option SimpleType) : CheckM Unit :=
  match formal, argument with
  | none, .blank _ => pure ()
  | none, _ => report callee.position (.arityMismatch callee.spelling 0 1)
  | some _, .blank _ => report callee.position (.arityMismatch callee.spelling 1 0)
  | some formal, argument => do
    checkPassing callee formal.byReference argument
    checkArgumentType callee formal.type argument.tag.position actual

/-- The type of the value that a call at a site has, if it has one. -/
def callResult (result : SimpleType) : CallSite → Option SimpleType
  | .command => none
  | .expression => if result = .void then none else some result

/-- Checks a call whose argument has the type `actual`, and gives the type of its value. -/
def checkCall (links : Resolution) (site : CallSite) (callee : Name) (argument : Argument)
    (actual : Option SimpleType) : CheckM (Option SimpleType) :=
  match links.get? callee.id with
  | none => pure none
  | some (.builtin b) =>
    match b.kind with
    | .routine _ result formal => do
      checkSite callee result site
      checkFormal callee formal argument actual
      pure (callResult result site)
    | _ => do
      report callee.position (.notCallable callee.spelling)
      pure none
  | some _ => do
    report callee.position (.notCallable callee.spelling)
    pure none

end Typing

open Typing

mutual

/-- Checks an expression and gives its type. `pending` is the constant whose own value the expression
    stands in. -/
def Expr.check (links : Resolution) (pending : Option NodeId) : Expr → CheckM (Option SimpleType)
  | .int tag spelling => do
    reportIf (Literal.intValue? spelling).isNone tag.position (.integerTooLarge spelling)
    decorate tag.id (some .integer)
  | .char tag spelling => do
    reportIf (Literal.charValue? spelling).isNone tag.position (.charOutOfRange spelling)
    decorate tag.id (some .char)
  | .name tag name => do
    let type ← checkName links pending name
    decorate tag.id type
  | .call tag callee argument => do
    let actual ← argument.check links pending
    let type ← checkCall links .expression callee argument actual
    decorate tag.id type
  | .unary tag op operand => do
    let operandType ← operand.check links pending
    let type ← checkUnary links op operandType operand.tag.position
    decorate tag.id type
  | .binary tag op lhs rhs => do
    let lhsType ← lhs.check links pending
    let rhsType ← rhs.check links pending
    let type ← checkBinary links op lhsType rhsType lhs.tag.position rhs.tag.position
    decorate tag.id type
  | .error _ => pure none

/-- Checks an argument and gives its type. -/
def Argument.check (links : Resolution) (pending : Option NodeId) :
    Argument → CheckM (Option SimpleType)
  | .blank _ | .error _ => pure none
  | .value tag expr => do
    let type ← expr.check links pending
    decorate tag.id type
  | .var tag name => do
    let type ← checkVariable links name
    decorate tag.id type

end

/-- Checks a condition. -/
def checkCondition (links : Resolution) (condition : Expr) : CheckM Unit := do
  match ← condition.check links none with
  | some actual => reportIf (actual ≠ .boolean) condition.tag.position (.condition actual)
  | none => pure ()

/-- Checks a bound of a counting loop. -/
def checkLoopBound (links : Resolution) (bound : Expr) : CheckM Unit := do
  match ← bound.check links none with
  | some actual => reportIf (actual ≠ .integer) bound.tag.position (.loopBound actual)
  | none => pure ()

/-- Checks the name of a type and gives the type. -/
def TypeDenoter.check (links : Resolution) (denoter : TypeDenoter) : CheckM (Option SimpleType) :=
  match links.get? denoter.name.id with
  | none => pure none
  | some (.builtin b) =>
    match b.kind with
    | .type denoted => decorate denoter.id (some denoted)
    | _ => do
      report denoter.name.position (.notAType denoter.name.spelling)
      pure none
  | some _ => do
    report denoter.name.position (.notAType denoter.name.spelling)
    pure none

/-- Checks a declaration and gives what it declares its type. -/
def SingleDeclaration.check (links : Resolution) : SingleDeclaration → CheckM Unit
  | .const tag _ value => do
    let type ← value.check links (some tag.id)
    discard (decorate tag.id type)
  | .var tag _ denoter => do
    let type ← denoter.check links
    discard (decorate tag.id type)
  | .error _ => pure ()

/-- Checks declarations, one after the other. -/
def checkDeclarations (links : Resolution) : List SingleDeclaration → CheckM Unit
  | [] => pure ()
  | d :: rest => do
    d.check links
    checkDeclarations links rest

/-- Checks that a value of type `actual` may be assigned to a name. -/
def checkAssignment (links : Resolution) (target : Name) (position : Position)
    (actual : Option SimpleType) : CheckM Unit :=
  match links.get? target.id with
  | none => pure ()
  | some (.var id) => do
    match ← typeOf id, actual with
    | some expected, some actual =>
      reportIf (expected ≠ actual) position (.assignmentMismatch target.spelling expected actual)
    | _, _ => pure ()
  | some _ => report target.position (.notAVariable target.spelling)

mutual

/-- Checks a command. -/
def Command.check (links : Resolution) : Command → CheckM Unit
  | .assign _ target value => do
    let actual ← value.check links none
    checkAssignment links target value.tag.position actual
  | .blank _ | .error _ => pure ()
  | .call _ callee argument => do
    let actual ← argument.check links none
    discard (checkCall links .command callee argument actual)
  | .ifThen _ condition body => do
    checkCondition links condition
    body.check links
  | .ifElse _ condition positive negative => do
    checkCondition links condition
    positive.check links
    negative.check links
  | .while_ _ condition body => do
    checkCondition links condition
    body.check links
  | .for_ _ counter first last body => do
    Typing.assign counter.id .integer
    checkLoopBound links first
    checkLoopBound links last
    body.check links
  | .let_ _ declaration body => do
    checkDeclarations links declaration.parts
    body.check links
  | .sequential _ parts => checkCommands links parts

/-- Checks commands, one after the other. -/
def checkCommands (links : Resolution) : List Command → CheckM Unit
  | [] => pure ()
  | c :: rest => do
    c.check links
    checkCommands links rest

end

/-- Checks a program whose names have the given links. -/
def Program.check (p : Program) (links : Resolution) : CheckM Unit :=
  p.command.check links

/-- The state before the first node of a program is checked. -/
def Typing.State.start (p : Program) : Typing.State :=
  ⟨NodeTable.empty p.nodeCount, #[]⟩

end TriangleCompiler
