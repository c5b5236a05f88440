import TriangleCompiler.Builtin
import TriangleCompiler.Token

/-! Errors in a program: what can be wrong with it at each stage of a compilation, how it is worded, and
    the list of all that was found. -/

namespace TriangleCompiler

open Text (quoted quotedChar quotedList)

/-! ### Causes -/

/-- What can be wrong with the characters of a program. -/
inductive LexicalError where
  | unknownInput (c : Char)
  | unacceptableSequence (spelling : String)
deriving DecidableEq, Repr

/-- What can be wrong with the order of its tokens. -/
inductive SyntaxError where
  | unexpected (expected actual : Token.Kind)
  | unexpectedInExpression (actual : Token.Kind)
  | unexpectedInDeclaration (actual : Token.Kind)
deriving DecidableEq, Repr

/-- What can be wrong with the declaration of a name. -/
inductive ScopeError where
  | duplicateDeclaration (name : String)
  | undeclared (name : String)
deriving DecidableEq, Repr

/-- What can be wrong with the use of a name, an operator or a literal. -/
inductive TypeError where
  | notAVariable (name : String)
  | notAType (name : String)
  | notAValue (name : String) (kind : Builtin.Kind)
  | usedInOwnDeclaration (name : String)
  | notCallable (name : String)
  | functionAsCommand (name : String)
  | procedureAsExpression (name : String)
  | arityMismatch (name : String) (expected actual : Nat)
  | argumentMismatch (name : String) (expected actual : SimpleType)
  | expectedVarParameter (name : String)
  | unexpectedVarParameter (name : String)
  | assignmentMismatch (name : String) (expected actual : SimpleType)
  | condition (actual : SimpleType)
  | loopBound (actual : SimpleType)
  | operandMismatch (op : String) (expected actual : SimpleType)
  | operandsDiffer (op : String) (lhs rhs : SimpleType)
  | notABinaryOperator (op : String)
  | notAUnaryOperator (op : String)
  | integerTooLarge (spelling : String)
  | charOutOfRange (spelling : String)
deriving DecidableEq, Repr

/-- What can be wrong with the size of a program. -/
inductive SizeError where
  | programTooLarge
  | scopeTooLarge
deriving DecidableEq, Repr

/-- What can be wrong with a program. -/
inductive ProgramError where
  | lexical (cause : LexicalError)
  | syntactic (cause : SyntaxError)
  | scope (cause : ScopeError)
  | type (cause : TypeError)
  | size (cause : SizeError)
deriving DecidableEq, Repr

/-! ### Wording -/

/-- The wording of a lexical error. -/
def LexicalError.message : LexicalError → String
  | unknownInput c => s!"unknown input {quotedChar c}"
  | unacceptableSequence spelling => s!"unacceptable character literal `{spelling}`"

/-- The wording of a syntax error. -/
def SyntaxError.message : SyntaxError → String
  | unexpected expected actual => s!"expected token {expected.text}, but got {actual.text}"
  | unexpectedInExpression actual => s!"unexpected token {actual.text} in expression"
  | unexpectedInDeclaration actual => s!"expected a declaration, but got {actual.text}"

/-- The wording of a scope error. -/
def ScopeError.message : ScopeError → String
  | duplicateDeclaration name => s!"`{name}` is already declared in current scope"
  | undeclared name => s!"`{name}` is not declared"

/-- The wording of a type error. -/
def TypeError.message : TypeError → String
  | notAVariable name => s!"`{name}` is not a variable"
  | notAType name => s!"`{name}` is not a type"
  | notAValue name kind => s!"`{name}` is a {kind.describe}, not a value"
  | usedInOwnDeclaration name => s!"`{name}` is used in its own declaration"
  | notCallable name => s!"`{name}` is not a function or procedure"
  | functionAsCommand name => s!"`{name}` is a function, its result must be used"
  | procedureAsExpression name => s!"`{name}` is a procedure and has no value"
  | arityMismatch name expected actual =>
    s!"`{name}` expects {expected} argument(s), but got {actual}"
  | argumentMismatch name expected actual =>
    s!"argument of `{name}` must be {expected.name}, but got {actual.name}"
  | expectedVarParameter name =>
    s!"`{name}` takes its argument by reference, pass a `var` parameter"
  | unexpectedVarParameter name =>
    s!"`{name}` takes its argument by value, `var` is not allowed"
  | assignmentMismatch name expected actual =>
    s!"cannot assign {actual.name} to `{name}` of type {expected.name}"
  | condition actual => s!"condition must be Boolean, but got {actual.name}"
  | loopBound actual => s!"loop bound must be Integer, but got {actual.name}"
  | operandMismatch op expected actual =>
    s!"operand of `{op}` must be {expected.name}, but got {actual.name}"
  | operandsDiffer op lhs rhs =>
    s!"operands of `{op}` must have the same type, but got {lhs.name} and {rhs.name}"
  | notABinaryOperator op => s!"`{op}` is not a binary operator"
  | notAUnaryOperator op => s!"`{op}` is not a unary operator"
  | integerTooLarge spelling => s!"integer literal {spelling} is too large"
  | charOutOfRange spelling => s!"character literal {spelling} is out of range"

/-- The wording of a size error. -/
def SizeError.message : SizeError → String
  | programTooLarge => "program too large"
  | scopeTooLarge => "too much memory taken by local declarations"

/-- The wording of an error. -/
def ProgramError.message : ProgramError → String
  | lexical cause => cause.message
  | syntactic cause => cause.message
  | scope cause => cause.message
  | type cause => cause.message
  | size cause => cause.message

/-! ### Stages -/

/-- The stages of a compilation, in their order. -/
inductive Stage where
  | scan
  | parse
  | resolve
  | check
  | generate
deriving DecidableEq, Repr

/-- The stage that reports an error. -/
def ProgramError.stage : ProgramError → Stage
  | lexical _ => .scan
  | syntactic _ => .parse
  | scope _ => .resolve
  | type _ => .check
  | size _ => .generate

/-! ### Lists of errors -/

/-- An error and the place it is reported at. -/
abbrev Diagnostic := Located ProgramError

/-- A diagnostic as `line:column: message`. -/
def Diagnostic.text (d : Diagnostic) : String :=
  Located.text ProgramError.message d

/-- The errors of a program in the order in which they were found. -/
abbrev Diagnostics := List Diagnostic

namespace Diagnostics

/-- One line for each error. -/
def lines (ds : Diagnostics) : List String :=
  ds.map Diagnostic.text

/-- The lines, each with its line feed. -/
def text (ds : Diagnostics) : String :=
  String.join (ds.lines.map (· ++ "\n"))

/-- The lines as a list of quoted strings. -/
def quotedText (ds : Diagnostics) : String :=
  quotedList ds.lines

end Diagnostics

/-- What is wrong with a token that is no word of the language. -/
def Token.lexicalError? (t : Token) : Option LexicalError :=
  match t.kind with
  | .unknownInput => some (.unknownInput (t.spelling.toList.headD '\x00'))
  | .unacceptableSequence => some (.unacceptableSequence t.spelling)
  | _ => none

/-- The errors of a list of tokens: one for each that is no word of the language, at its place. -/
def Token.diagnostics (tokens : List Token) : Diagnostics :=
  tokens.filterMap fun t => t.lexicalError?.map fun cause => ⟨t.position, .lexical cause⟩

end TriangleCompiler
