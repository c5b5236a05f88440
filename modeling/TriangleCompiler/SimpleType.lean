/-! The types of the language. -/

namespace TriangleCompiler

/-- The types of values, and two that no value has. -/
inductive SimpleType where
  | integer
  | char
  | boolean
  /-- What an operator asks of an operand that may have any type. -/
  | any
  /-- What a procedure gives back. -/
  | void
deriving DecidableEq, Repr

namespace SimpleType

/-- Every type, once. -/
def all : List SimpleType := [.integer, .char, .boolean, .any, .void]

/-- The name of a type. -/
def name : SimpleType → String
  | integer => "Integer"
  | char => "Char"
  | boolean => "Boolean"
  | any => "Any"
  | void => "Void"

/-- The type with this name. -/
def ofName? (s : String) : Option SimpleType :=
  all.find? (·.name = s)

/-- The number of words that a value of the type takes. -/
def size : SimpleType → UInt8
  | integer | char | boolean => 1
  | any | void => 0

end SimpleType

end TriangleCompiler
