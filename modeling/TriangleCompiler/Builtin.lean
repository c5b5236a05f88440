import TriangleCompiler.Machine.Instruction
import TriangleCompiler.SimpleType

/-! The standard environment: the names that every program may use without declaring them. -/

namespace TriangleCompiler

open Machine (Primitive Word)

/-- What stands behind a name of the standard environment. -/
inductive Builtin where
  | integerType
  | charType
  | booleanType
  | trueConstant
  | falseConstant
  | add
  | subtract
  | multiply
  | divide
  | less
  | greater
  | equal
  | not
  | chr
  | ord
  | eof
  | eol
  | get
  | getint
  | put
  | putint
  | puteol
deriving DecidableEq, Repr

namespace Builtin

/-- The parameter of a routine; one that is taken by reference must be given a variable. -/
structure Formal where
  type : SimpleType
  byReference : Bool
deriving DecidableEq, Repr

/-- How a name of the standard environment may be used. -/
inductive Kind where
  | type (denoted : SimpleType)
  | constant (type : SimpleType) (value : Word)
  /-- A function, or a procedure if it gives back `void`. -/
  | routine (primitive : Primitive) (result : SimpleType) (formal : Option Formal)
  | binary (primitive : Primitive) (lhs rhs result : SimpleType)
  | unary (primitive : Primitive) (operand result : SimpleType)
deriving DecidableEq, Repr

/-- What sort of thing a kind is, in words. -/
def Kind.describe : Kind → String
  | .type _ => "type"
  | .constant _ _ => "constant"
  | .routine _ .void _ => "procedure"
  | .routine _ _ _ => "function"
  | .binary .. => "binary operator"
  | .unary .. => "unary operator"

/-- Everything in the standard environment, once. -/
def all : List Builtin :=
  [.integerType, .charType, .booleanType, .trueConstant, .falseConstant, .add, .subtract, .multiply,
   .divide, .less, .greater, .equal, .not, .chr, .ord, .eof, .eol, .get, .getint, .put, .putint, .puteol]

/-- The name that stands for a builtin. -/
def name : Builtin → String
  | integerType => "Integer"
  | charType => "Char"
  | booleanType => "Boolean"
  | trueConstant => "true"
  | falseConstant => "false"
  | add => "+"
  | subtract => "-"
  | multiply => "*"
  | divide => "/"
  | less => "<"
  | greater => ">"
  | equal => "="
  | not => "!"
  | chr => "chr"
  | ord => "ord"
  | eof => "eof"
  | eol => "eol"
  | get => "get"
  | getint => "getint"
  | put => "put"
  | putint => "putint"
  | puteol => "puteol"

/-- How a builtin may be used. -/
def kind : Builtin → Kind
  | integerType => .type .integer
  | charType => .type .char
  | booleanType => .type .boolean
  | trueConstant => .constant .boolean (Word.ofBool true)
  | falseConstant => .constant .boolean (Word.ofBool false)
  | add => .binary .add .integer .integer .integer
  | subtract => .binary .sub .integer .integer .integer
  | multiply => .binary .mult .integer .integer .integer
  | divide => .binary .div .integer .integer .integer
  | less => .binary .lt .integer .integer .boolean
  | greater => .binary .gt .integer .integer .boolean
  | equal => .binary .eq .any .any .boolean
  | not => .unary .not .boolean .boolean
  | chr => .routine .id .char (some ⟨.integer, false⟩)
  | ord => .routine .id .integer (some ⟨.char, false⟩)
  | eof => .routine .eof .boolean none
  | eol => .routine .eol .boolean none
  | get => .routine .get .void (some ⟨.char, true⟩)
  | getint => .routine .getInt .void (some ⟨.integer, true⟩)
  | put => .routine .put .void (some ⟨.char, false⟩)
  | putint => .routine .putInt .void (some ⟨.integer, false⟩)
  | puteol => .routine .putEol .void none

/-- What sort of thing a builtin is, in words. -/
def describe (b : Builtin) : String :=
  b.kind.describe

/-- The builtin with this name. -/
def ofName? (s : String) : Option Builtin :=
  all.find? (·.name = s)

end Builtin

end TriangleCompiler
