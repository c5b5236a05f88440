import TriangleCompiler.Link
import TriangleCompiler.Position

/-! The trees of programs. What the later stages decorate carries a number that no other node of the
    tree has; what errors are reported at carries the place where it starts. Where a program is not
    well-formed the tree has an error node. -/

namespace TriangleCompiler

/-- The number of a node, and the place where the node starts. -/
structure Tag where
  id : NodeId
  position : Position
deriving DecidableEq, Repr

/-- A name or an operator where it stands in a program. -/
structure Name extends Tag where
  spelling : String
deriving DecidableEq, Repr

mutual

/-- Expressions. -/
inductive Expr where
  | int (tag : Tag) (spelling : String)
  | char (tag : Tag) (spelling : String)
  | name (tag : Tag) (name : Name)
  | call (tag : Tag) (callee : Name) (argument : Argument)
  | unary (tag : Tag) (op : Name) (operand : Expr)
  | binary (tag : Tag) (op : Name) (lhs rhs : Expr)
  | error (tag : Tag)

/-- What stands between the brackets of a call. -/
inductive Argument where
  | blank (tag : Tag)
  | value (tag : Tag) (expr : Expr)
  /-- A variable that is passed by reference. -/
  | var (tag : Tag) (name : Name)
  | error (tag : Tag)

end

/-- The number and the place of an expression. -/
def Expr.tag : Expr → Tag
  | int tag _ | char tag _ | name tag _ | call tag _ _ | unary tag _ _ | binary tag _ _ _ | error tag => tag

/-- The number and the place of an argument. -/
def Argument.tag : Argument → Tag
  | blank tag | value tag _ | var tag _ | error tag => tag

/-- A type where it is named in a declaration. -/
structure TypeDenoter where
  id : NodeId
  name : Name
deriving DecidableEq, Repr

/-- One declaration. -/
inductive SingleDeclaration where
  | const (tag : Tag) (name : Name) (value : Expr)
  | var (tag : Tag) (name : Name) (type : TypeDenoter)
  | error (position : Position)

/-- The place where a declaration starts. -/
def SingleDeclaration.position : SingleDeclaration → Position
  | const tag _ _ | var tag _ _ => tag.position
  | error position => position

/-- What stands between `let` and `in`: one declaration, or several. -/
inductive Declaration where
  | single (declaration : SingleDeclaration)
  | sequential (position : Position) (parts : List SingleDeclaration)

/-- The declarations one by one. -/
def Declaration.parts : Declaration → List SingleDeclaration
  | single declaration => [declaration]
  | sequential _ parts => parts

/-- The variable that a counting loop declares. -/
structure LoopVariable where
  id : NodeId
  name : Name
deriving DecidableEq, Repr

/-- Commands. -/
inductive Command where
  | assign (position : Position) (target : Name) (value : Expr)
  | blank (position : Position)
  | call (position : Position) (callee : Name) (argument : Argument)
  | ifThen (position : Position) (condition : Expr) (body : Command)
  | ifElse (position : Position) (condition : Expr) (positive negative : Command)
  | while_ (position : Position) (condition : Expr) (body : Command)
  | for_ (position : Position) (counter : LoopVariable) (first last : Expr) (body : Command)
  | let_ (position : Position) (declaration : Declaration) (body : Command)
  | sequential (position : Position) (parts : List Command)
  | error (position : Position)

/-- The place where a command starts. -/
def Command.position : Command → Position
  | assign p _ _ | blank p | call p _ _ | ifThen p _ _ | ifElse p _ _ _ | while_ p _ _
  | for_ p _ _ _ _ | let_ p _ _ | sequential p _ | error p => p

/-- A program: a command, and the number of node numbers handed out while it was read. -/
structure Program where
  command : Command
  nodeCount : Nat

end TriangleCompiler
