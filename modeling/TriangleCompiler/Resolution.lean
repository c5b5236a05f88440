import TriangleCompiler.Diagnostic
import TriangleCompiler.NodeTable
import TriangleCompiler.Pass
import TriangleCompiler.Program
import TriangleCompiler.SymbolTable

/-! From names to declarations: every use of a name is linked to the declaration that it stands for. A
    name that stands for nothing is reported and left without a link. One table holds the names in sight; a
    scope is opened in it before what is inside, and closed again behind it. -/

namespace TriangleCompiler

namespace Resolution

/-- The links made and the errors found so far. -/
structure State where
  links : Resolution
  errors : Array Diagnostic

/-- Reports an error. -/
def report (position : Position) (cause : ScopeError) : Pass State Unit :=
  fun s => .ok () { s with errors := s.errors.push ⟨position, .scope cause⟩ }

/-- Links a node to a declaration. -/
def link (id : NodeId) (target : Link) : Pass State Unit := fun s =>
  match s.links.set id target with
  | .ok links => .ok () { s with links := links }
  | .error fault => .error fault s

/-- On the way through a program: the names in sight, and what was done so far. -/
structure Resolver where
  scopes : SymbolTable
  state : State

/-- A pass that links names. -/
abbrev ResolveM := Pass Resolver

/-- A step that the names in sight have no part in. -/
def record {α : Type} (x : Pass State α) : ResolveM α := fun r =>
  match x r.state with
  | .ok a s => .ok a { r with state := s }
  | .error fault s => .error fault { r with state := s }

/-- Links a name to what it stands for. -/
def use (name : Name) : ResolveM Unit := do
  match (← get).scopes.retrieve? name.spelling with
  | some target => record (link name.id target)
  | none => record (report name.position (.undeclared name.spelling))

/-- Declares a name in the innermost scope. A name that is declared there already keeps its first
    declaration. -/
def declare (name : Name) (target : Link) : ResolveM Unit := do
  match (← get).scopes.enter name.spelling target with
  | .ok scopes => modify fun r => { r with scopes := scopes }
  | .error _ => record (report name.position (.duplicateDeclaration name.spelling))

/-- Opens a scope inside the others. -/
def openScope : ResolveM Unit :=
  modify fun r => { r with scopes := r.scopes.openScope }

/-- Closes the innermost scope. -/
def closeScope : ResolveM Unit := fun r =>
  match r.scopes.closeScope with
  | .ok scopes => .ok () { r with scopes := scopes }
  | .error fault => .error fault r

/-- Does something in a scope of its own. -/
def inScope (x : ResolveM Unit) : ResolveM Unit := do
  openScope
  x
  closeScope

end Resolution

open Resolution

mutual

/-- Links the names in an expression. -/
def Expr.resolve : Expr → ResolveM Unit
  | .int _ _ | .char _ _ | .error _ => pure ()
  | .name _ name => use name
  | .call _ callee argument => do
    use callee
    argument.resolve
  | .unary _ op operand => do
    use op
    operand.resolve
  | .binary _ op lhs rhs => do
    lhs.resolve
    use op
    rhs.resolve

/-- Links the names in an argument. -/
def Argument.resolve : Argument → ResolveM Unit
  | .blank _ | .error _ => pure ()
  | .value _ expr => expr.resolve
  | .var _ name => use name

end

/-- Links the names in a declaration. A name is in sight in its own declaration. -/
def SingleDeclaration.resolve : SingleDeclaration → ResolveM Unit
  | .const tag name value => do
    declare name (.const tag.id)
    value.resolve
  | .var tag name type => do
    declare name (.var tag.id)
    use type.name
  | .error _ => pure ()

/-- Links the names in declarations, one after the other. -/
def resolveDeclarations : List SingleDeclaration → ResolveM Unit
  | [] => pure ()
  | d :: rest => do
    d.resolve
    resolveDeclarations rest

mutual

/-- Links the names in a command. A declaration is in sight up to the end of its command, and the
    variable of a counting loop also in the bounds of the loop. -/
def Command.resolve : Command → ResolveM Unit
  | .assign _ target value => do
    value.resolve
    use target
  | .blank _ | .error _ => pure ()
  | .call _ callee argument => do
    argument.resolve
    use callee
  | .ifThen _ condition body => do
    condition.resolve
    body.resolve
  | .ifElse _ condition positive negative => do
    condition.resolve
    positive.resolve
    negative.resolve
  | .while_ _ condition body => do
    condition.resolve
    body.resolve
  | .for_ _ counter first last body => inScope do
    declare counter.name (.var counter.id)
    first.resolve
    last.resolve
    body.resolve
  | .let_ _ declaration body => inScope do
    resolveDeclarations declaration.parts
    body.resolve
  | .sequential _ parts => resolveCommands parts

/-- Links the names in commands, one after the other. -/
def resolveCommands : List Command → ResolveM Unit
  | [] => pure ()
  | c :: rest => do
    c.resolve
    resolveCommands rest

end

/-- Links the names in a program, on top of the links and errors that there are. The standard environment
    is in the outermost scope of a table of its own. -/
def Program.resolve (p : Program) : Pass State Unit := fun s =>
  match SymbolTable.ofBuiltins Builtin.all with
  | .error fault => .error fault s
  | .ok scopes =>
    match p.command.resolve ⟨scopes, s⟩ with
    | .ok _ r => .ok () r.state
    | .error fault r => .error fault r.state

/-- The state before the first name of a program is linked. -/
def Resolution.State.start (p : Program) : Resolution.State :=
  ⟨NodeTable.empty p.nodeCount, #[]⟩

end TriangleCompiler
