import TriangleCompiler.Program
import TriangleCompiler.Program.Literal

/-! The numbered nodes of a program's tree. -/

namespace TriangleCompiler

/-- What a numbered node is. Where a place is given it is the one where the node starts. -/
inductive NodeKind where
  | identifier (spelling : String) (position : Position)
  | operator (spelling : String) (position : Position)
  | const (position : Position)
  | var (position : Position)
  | type
  | loopVariable
  | binary (position : Position)
  | unary (position : Position)
  | char (spelling : String) (position : Position)
  | int (spelling : String) (position : Position)
  | name (position : Position)
  | call (position : Position)
  | error (position : Position)
  | blankArgument (position : Position)
  | argument (position : Position)
  | varArgument (position : Position)
  | errorArgument (position : Position)
deriving DecidableEq, Repr

/-- A number and the node that has it. -/
structure Node where
  id : NodeId
  kind : NodeKind
deriving DecidableEq, Repr

/-- A name as an identifier node. -/
def Name.identifierNode (name : Name) : Node :=
  ⟨name.id, .identifier name.spelling name.position⟩

/-- A name as an operator node. -/
def Name.operatorNode (name : Name) : Node :=
  ⟨name.id, .operator name.spelling name.position⟩

mutual

/-- The nodes of an expression, behind those of `before`. -/
def Expr.nodesAfter (before : Array Node) : Expr → Array Node
  | .int tag spelling => before.push ⟨tag.id, .int spelling tag.position⟩
  | .char tag spelling => before.push ⟨tag.id, .char spelling tag.position⟩
  | .name tag name => (before.push ⟨tag.id, .name tag.position⟩).push name.identifierNode
  | .call tag callee argument =>
    argument.nodesAfter ((before.push ⟨tag.id, .call tag.position⟩).push callee.identifierNode)
  | .unary tag op operand =>
    operand.nodesAfter ((before.push ⟨tag.id, .unary tag.position⟩).push op.operatorNode)
  | .binary tag op lhs rhs =>
    rhs.nodesAfter
      (lhs.nodesAfter ((before.push ⟨tag.id, .binary tag.position⟩).push op.operatorNode))
  | .error tag => before.push ⟨tag.id, .error tag.position⟩

/-- The nodes of an argument, behind those of `before`. -/
def Argument.nodesAfter (before : Array Node) : Argument → Array Node
  | .blank tag => before.push ⟨tag.id, .blankArgument tag.position⟩
  | .value tag expr => expr.nodesAfter (before.push ⟨tag.id, .argument tag.position⟩)
  | .var tag name => (before.push ⟨tag.id, .varArgument tag.position⟩).push name.identifierNode
  | .error tag => before.push ⟨tag.id, .errorArgument tag.position⟩

end

/-- The nodes of a declaration, behind those of `before`. -/
def SingleDeclaration.nodesAfter (before : Array Node) : SingleDeclaration → Array Node
  | .const tag name value =>
    value.nodesAfter ((before.push ⟨tag.id, .const tag.position⟩).push name.identifierNode)
  | .var tag name type =>
    (((before.push ⟨tag.id, .var tag.position⟩).push name.identifierNode).push ⟨type.id, .type⟩).push
      type.name.identifierNode
  | .error _ => before

mutual

/-- The nodes of a command, behind those of `before`. -/
def Command.nodesAfter (before : Array Node) : Command → Array Node
  | .assign _ target value => value.nodesAfter (before.push target.identifierNode)
  | .blank _ | .error _ => before
  | .call _ callee argument => argument.nodesAfter (before.push callee.identifierNode)
  | .ifThen _ condition body => body.nodesAfter (condition.nodesAfter before)
  | .ifElse _ condition positive negative =>
    negative.nodesAfter (positive.nodesAfter (condition.nodesAfter before))
  | .while_ _ condition body => body.nodesAfter (condition.nodesAfter before)
  | .for_ _ counter first last body =>
    body.nodesAfter (last.nodesAfter (first.nodesAfter
      ((before.push ⟨counter.id, .loopVariable⟩).push counter.name.identifierNode)))
  | .let_ _ declaration body =>
    body.nodesAfter (declaration.parts.foldl SingleDeclaration.nodesAfter before)
  | .sequential _ parts => nodesOfCommandsAfter before parts

/-- The nodes of commands, behind those of `before`. -/
def nodesOfCommandsAfter (before : Array Node) : List Command → Array Node
  | [] => before
  | c :: rest => nodesOfCommandsAfter (c.nodesAfter before) rest

end

/-- The nodes of a program, each before those inside it. -/
def Program.nodes (p : Program) : List Node :=
  (p.command.nodesAfter #[]).toList

/-- The value of a literal in words. -/
def valueText : Option Machine.Word → String
  | some value => value.text
  | none => "none"

/-- What a node is, in words. -/
def NodeKind.text : NodeKind → String
  | identifier spelling p => s!"ident {spelling} @{p.text}"
  | operator spelling p => s!"operator {spelling} @{p.text}"
  | const p => s!"const @{p.text}"
  | var p => s!"var @{p.text}"
  | type => "type"
  | loopVariable => "loop-var"
  | binary p => s!"binary @{p.text}"
  | unary p => s!"unary @{p.text}"
  | char spelling p => s!"char {spelling} = {valueText (Literal.charValue? spelling)} @{p.text}"
  | int spelling p => s!"int {spelling} = {valueText (Literal.intValue? spelling)} @{p.text}"
  | name p => s!"id @{p.text}"
  | call p => s!"call @{p.text}"
  | error p => s!"error @{p.text}"
  | blankArgument p => s!"blank-param @{p.text}"
  | argument p => s!"param @{p.text}"
  | varArgument p => s!"var-param @{p.text}"
  | errorArgument p => s!"error-param @{p.text}"

/-- A node in words, with its number. -/
def Node.text (n : Node) : String :=
  s!"{NodeId.text n.id} {n.kind.text}"

end TriangleCompiler
