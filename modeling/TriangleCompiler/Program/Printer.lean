import TriangleCompiler.Buffer.Printer
import TriangleCompiler.Program.Outline

/-! Trees that are written into a buffer. A tree is written on the way through it, in small pieces, so that
    no text of the whole tree is built; where there is no room for a piece, nothing behind it is written. -/

namespace TriangleCompiler

open Printer (text texts)

/-- Writes a position. -/
def Position.print (p : Position) : Printer :=
  if p.isBuiltin then Printer.text "<builtin>" else texts [toString p.line, ":", toString p.column]

namespace Outline

/-- Writes what a node is and where it starts. -/
def printHead (what : String) (position : Position) : Printer := do
  texts [what, " ("]
  position.print
  text ")"

/-- Writes what a named node is, its name and where it starts. -/
def printNamedHead (what name : String) (position : Position) : Printer := do
  texts [what, " ", name, " ("]
  position.print
  text ")"

/-- Writes a line with two spaces for each level of its depth, and its line feed. -/
def printLine (depth : Nat) (content : Printer) : Printer := do
  texts (List.replicate (2 * depth) " ")
  content
  text "\n"

namespace Decoration

/-- Writes the declaration that a node declares, or the node's number if it declares none. -/
def printSite (d : Decoration) (id : NodeId) : Printer :=
  match d.sites[id]? with
  | some site => do
    texts [" ", site.name, "@"]
    site.position.print
  | none => texts [" ", NodeId.text id]

/-- Writes an arrow to what a name stands for, if it is linked. -/
def printLink (d : Decoration) (id : NodeId) : Printer :=
  match d.links.bind (·.get? id) with
  | none => pure ()
  | some (.builtin b) => texts [" -> builtin ", b.name]
  | some (.const target) => do
    texts [" -> ", "const"]
    d.printSite target
  | some (.var target) => do
    texts [" -> ", "var"]
    d.printSite target

/-- Writes the type of a node, if it has one. -/
def printType (d : Decoration) (id : NodeId) : Printer :=
  match d.types.bind (·.get? id) with
  | none => pure ()
  | some type => texts [" %: ", type.name]

end Decoration

end Outline

open Outline

mutual

/-- Writes an expression. -/
def Expr.print (d : Decoration) (depth : Nat) : Expr → Printer
  | .int tag spelling =>
    printLine depth do
      printNamedHead "int" spelling tag.position
      d.printType tag.id
  | .char tag spelling =>
    printLine depth do
      printNamedHead "char" spelling tag.position
      d.printType tag.id
  | .name tag name =>
    printLine depth do
      printNamedHead "ident" name.spelling tag.position
      d.printLink name.id
      d.printType tag.id
  | .call tag callee argument => do
    printLine depth do
      printNamedHead "call" callee.spelling tag.position
      d.printLink callee.id
      d.printType tag.id
    argument.print d (depth + 1)
  | .unary tag op operand => do
    printLine depth do
      printNamedHead "unary" op.spelling tag.position
      d.printLink op.id
      d.printType tag.id
    operand.print d (depth + 1)
  | .binary tag op lhs rhs => do
    printLine depth do
      printNamedHead "binary" op.spelling tag.position
      d.printLink op.id
      d.printType tag.id
    lhs.print d (depth + 1)
    rhs.print d (depth + 1)
  | .error tag => printLine depth (printHead "error" tag.position)

/-- Writes an argument. -/
def Argument.print (d : Decoration) (depth : Nat) : Argument → Printer
  | .blank tag => printLine depth (printHead "blank-param" tag.position)
  | .value tag expr => do
    printLine depth do
      printHead "param" tag.position
      d.printType tag.id
    expr.print d (depth + 1)
  | .var tag name =>
    printLine depth do
      printNamedHead "var-param" name.spelling tag.position
      d.printLink name.id
      d.printType tag.id
  | .error tag => printLine depth (printHead "error" tag.position)

end

/-- Writes one declaration. -/
def SingleDeclaration.print (d : Decoration) (depth : Nat) : SingleDeclaration → Printer
  | .const tag name value => do
    printLine depth do
      printNamedHead "const" name.spelling tag.position
      d.printType tag.id
    value.print d (depth + 1)
  | .var tag name type => do
    printLine depth do
      printNamedHead "var" name.spelling tag.position
      d.printType tag.id
    printLine (depth + 1) do
      printNamedHead "type" type.name.spelling type.name.position
      d.printLink type.name.id
      d.printType type.id
  | .error position => printLine depth (printHead "error" position)

/-- Writes what stands between `let` and `in`. -/
def Declaration.print (d : Decoration) (depth : Nat) : Declaration → Printer
  | .single declaration => declaration.print d depth
  | .sequential position parts => do
    printLine depth (printHead "sequential" position)
    parts.forM (SingleDeclaration.print d (depth + 1))

mutual

/-- Writes a command. -/
def Command.print (d : Decoration) (depth : Nat) : Command → Printer
  | .assign position target value => do
    printLine depth (printHead "assign" position)
    printLine (depth + 1) do
      printNamedHead "ident" target.spelling target.position
      d.printLink target.id
    value.print d (depth + 1)
  | .blank position => printLine depth (printHead "blank" position)
  | .call position callee argument => do
    printLine depth do
      printNamedHead "call" callee.spelling position
      d.printLink callee.id
    argument.print d (depth + 1)
  | .ifThen position condition body => do
    printLine depth (printHead "if" position)
    condition.print d (depth + 1)
    body.print d (depth + 1)
  | .ifElse position condition positive negative => do
    printLine depth (printHead "if-else" position)
    condition.print d (depth + 1)
    positive.print d (depth + 1)
    negative.print d (depth + 1)
  | .while_ position condition body => do
    printLine depth (printHead "while" position)
    condition.print d (depth + 1)
    body.print d (depth + 1)
  | .for_ position counter first last body => do
    printLine depth (printHead "for" position)
    printLine (depth + 1) do
      printNamedHead "var" counter.name.spelling counter.name.position
      d.printType counter.id
    first.print d (depth + 1)
    last.print d (depth + 1)
    body.print d (depth + 1)
  | .let_ position declaration body => do
    printLine depth (printHead "let" position)
    declaration.print d (depth + 1)
    body.print d (depth + 1)
  | .sequential position parts => do
    printLine depth (printHead "sequential" position)
    printCommands d (depth + 1) parts
  | .error position => printLine depth (printHead "error" position)

/-- Writes commands, one after the other. -/
def printCommands (d : Decoration) (depth : Nat) : List Command → Printer
  | [] => pure ()
  | c :: rest => do
    c.print d depth
    printCommands d depth rest

end

end TriangleCompiler
