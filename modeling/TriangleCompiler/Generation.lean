import TriangleCompiler.Diagnostic
import TriangleCompiler.Machine.Code
import TriangleCompiler.Machine.Storage
import TriangleCompiler.NodeTable
import TriangleCompiler.Pass
import TriangleCompiler.Program
import TriangleCompiler.Program.Literal

/-! From programs to code. A jump forward is emitted before its target is known and completed when the
    target is reached. Once the code is full nothing more is emitted, but the rest of the program is
    still visited. -/

namespace TriangleCompiler

open Machine (Code Entity Instruction Storage Word)

namespace Generation

/-- The code so far; the storage in use; what the declared names are at run time; the place of the
    command at hand; whether an instruction found no room; and the errors so far. -/
structure State where
  code : Code
  storage : Storage
  entities : NodeTable Entity
  position : Position
  overflowed : Bool
  errors : Array Diagnostic

/-- A pass that emits code. -/
abbrev GenerateM := Pass State

/-- What is known of the nodes of a program. -/
structure Context where
  links : Resolution
  types : Types

/-! ### Emitting -/

/-- Emits an instruction and gives its address. The first one that finds no room is reported. -/
def emit (i : Instruction) : GenerateM (Option Nat) := fun s =>
  if s.overflowed then .ok none s
  else
    let address := s.code.size
    match s.code.emit? i with
    | some code => .ok (some address) { s with code := code }
    | none =>
      .ok none { s with
        overflowed := true
        errors := s.errors.push ⟨s.position, .size .programTooLarge⟩ }

/-- Makes the jump at an address go on at the next address. A jump that found no room has no
    address. -/
def patch : Option Nat → GenerateM Unit
  | none => pure ()
  | some address => fun s =>
    match s.code.patch address with
    | .ok code => .ok () { s with code := code }
    | .error fault => .error fault s

/-- The address of the instruction that is emitted next. -/
def nextAddress : GenerateM Word :=
  fun s => .ok s.code.nextAddress s

/-- The operand of a jump whose target is not known yet. -/
def unknownTarget : Word := -1

/-- Moves on to a command. -/
def visit (position : Position) : GenerateM Unit :=
  fun s => .ok () { s with position := position }

/-! ### Storage -/

/-- Opens a scope. -/
def openScope : GenerateM Unit :=
  fun s => .ok () { s with storage := s.storage.openScope }

/-- Drops what the innermost scope declared, and closes it. -/
def closeScope : GenerateM Unit := do
  discard (emit (.pop (Int16.ofNat (← get).storage.localSize)))
  fun s =>
    match s.storage.closeScope with
    | .error fault => .error fault s
    | .ok (_, storage) => .ok () { s with storage := storage }

/-- Takes storage in the innermost scope and gives its place. What finds no room is reported and put
    behind everything else. -/
def allocate (size : UInt8) : GenerateM Word := fun s =>
  match s.storage.allocate size.toNat with
  | .error fault => .error fault s
  | .ok (some offset, storage) => .ok (Int16.ofNat offset) { s with storage := storage }
  | .ok (none, storage) =>
    .ok (Int16.ofNat storage.totalSize) { s with
      storage := storage
      errors := s.errors.push ⟨s.position, .size .scopeTooLarge⟩ }

/-- Says what a declared name is at run time. -/
def define (id : NodeId) (entity : Entity) : GenerateM Unit := fun s =>
  match s.entities.set id entity with
  | .ok entities => .ok () { s with entities := entities }
  | .error fault => .error fault s

/-- Makes room for a variable. -/
def declareVariable (id : NodeId) (type : SimpleType) : GenerateM Entity := do
  discard (emit (.push type.size))
  let offset ← allocate type.size
  let entity := Entity.var offset type.size
  define id entity
  pure entity

/-! ### Names -/

/-- The declaration that a name stands for. -/
def linkOf (cx : Context) (id : NodeId) : GenerateM Link :=
  Pass.require .unchecked (cx.links.get? id)

/-- The type of a node. -/
def typeOf (cx : Context) (id : NodeId) : GenerateM SimpleType :=
  Pass.require .unchecked (cx.types.get? id)

/-- What a declared name is at run time. -/
def entityOf (id : NodeId) : GenerateM Entity := do
  Pass.require .noEntity ((← get).entities.get? id)

/-- What the variable that a name stands for is at run time. -/
def variableOf (cx : Context) (name : Name) : GenerateM Entity := do
  match ← linkOf cx name.id with
  | .var id => entityOf id
  | link => Pass.fault (.notAVariable link)

/-- Calls the routine behind a name or an operator. -/
def call (cx : Context) (name : Name) : GenerateM Unit := do
  match ← linkOf cx name.id with
  | .builtin b =>
    match b.kind with
    | .routine primitive _ _ | .binary primitive _ _ _ | .unary primitive _ _ =>
      discard (emit (.call primitive))
    | _ => Pass.fault (.notCallable (.builtin b))
  | link => Pass.fault (.notCallable link)

/-- Pushes the value that a name stands for. -/
def load (cx : Context) (name : Name) : GenerateM Unit := do
  match ← linkOf cx name.id with
  | .builtin b =>
    match b.kind with
    | .constant _ value => discard (emit (.loadLiteral value))
    | _ => Pass.fault (.notAValue b)
  | .const id | .var id => discard (emit (← entityOf id).load)

/-- Pushes the address of the variable that a name stands for. -/
def loadAddress (cx : Context) (name : Name) : GenerateM Unit := do
  let entity ← variableOf cx name
  discard (emit (← Pass.require .noAddress entity.loadAddress?))

/-- Pops a value into a variable. -/
def store (entity : Entity) : GenerateM Unit := do
  discard (emit (← Pass.require .notStorable entity.store?))

/-- The value of an expression that is a literal. -/
def literal? : Expr → Option Word
  | .int _ spelling => Literal.intValue? spelling
  | .char _ spelling => Literal.charValue? spelling
  | _ => none

end Generation

open Generation

mutual

/-- Emits code that pushes the value of an expression. -/
def Expr.generate (cx : Context) : Expr → GenerateM Unit
  | .int _ spelling => do
    discard (emit (.loadLiteral (← Pass.require .unchecked (Literal.intValue? spelling))))
  | .char _ spelling => do
    discard (emit (.loadLiteral (← Pass.require .unchecked (Literal.charValue? spelling))))
  | .name _ name => load cx name
  | .call _ callee argument => do
    argument.generate cx
    call cx callee
  | .unary _ op operand => do
    operand.generate cx
    call cx op
  | .binary _ op lhs rhs => do
    lhs.generate cx
    rhs.generate cx
    call cx op
  | .error _ => Pass.fault .errorNode

/-- Emits code that pushes an argument. -/
def Argument.generate (cx : Context) : Argument → GenerateM Unit
  | .blank _ => pure ()
  | .value _ expr => expr.generate cx
  | .var _ name => loadAddress cx name
  | .error _ => Pass.fault .errorNode

end

/-- Emits code that makes room for what a declaration declares. A constant whose value is a literal
    needs none. -/
def SingleDeclaration.generate (cx : Context) : SingleDeclaration → GenerateM Unit
  | .const tag _ value =>
    match literal? value with
    | some known => define tag.id (.known known)
    | none => do
      value.generate cx
      let type ← typeOf cx tag.id
      let offset ← allocate type.size
      define tag.id (.stored offset type.size)
  | .var tag _ _ => do
    discard (declareVariable tag.id (← typeOf cx tag.id))
  | .error _ => Pass.fault .errorNode

/-- Emits code for declarations, one after the other. -/
def generateDeclarations (cx : Context) : List SingleDeclaration → GenerateM Unit
  | [] => pure ()
  | d :: rest => do
    d.generate cx
    generateDeclarations cx rest

mutual

/-- Emits code that carries a command out. -/
def Command.generate (cx : Context) : Command → GenerateM Unit
  | .assign position target value => do
    visit position
    value.generate cx
    store (← variableOf cx target)
  | .blank position => visit position
  | .call position callee argument => do
    visit position
    argument.generate cx
    call cx callee
  | .ifThen position condition body => do
    visit position
    condition.generate cx
    let skip ← emit (.jumpIf (Word.ofBool false) unknownTarget)
    body.generate cx
    patch skip
  | .ifElse position condition positive negative => do
    visit position
    condition.generate cx
    let toNegative ← emit (.jumpIf (Word.ofBool false) unknownTarget)
    positive.generate cx
    let toEnd ← emit (.jump unknownTarget)
    patch toNegative
    negative.generate cx
    patch toEnd
  | .while_ position condition body => do
    visit position
    let toTest ← emit (.jump unknownTarget)
    let top ← nextAddress
    body.generate cx
    patch toTest
    condition.generate cx
    discard (emit (.jumpIf (Word.ofBool true) top))
  | .for_ position counter first last body => do
    visit position
    openScope
    let entity ← declareVariable counter.id .integer
    first.generate cx
    store entity
    let toTest ← emit (.jump unknownTarget)
    let top ← nextAddress
    body.generate cx
    discard (emit entity.load)
    discard (emit (.call .succ))
    store entity
    patch toTest
    discard (emit entity.load)
    last.generate cx
    discard (emit (.call .le))
    discard (emit (.jumpIf (Word.ofBool true) top))
    closeScope
  | .let_ position declaration body => do
    visit position
    openScope
    generateDeclarations cx declaration.parts
    body.generate cx
    closeScope
  | .sequential position parts => do
    visit position
    generateCommands cx parts
  | .error position => do
    visit position
    Pass.fault .errorNode

/-- Emits code for commands, one after the other. -/
def generateCommands (cx : Context) : List Command → GenerateM Unit
  | [] => pure ()
  | c :: rest => do
    c.generate cx
    generateCommands cx rest

end

/-- Emits code that carries a program out and then stops the machine. -/
def Program.generate (p : Program) (cx : Context) : GenerateM Unit := do
  p.command.generate cx
  discard (emit .halt)

/-- The state before the first instruction of a program, which goes into `code`. -/
def Generation.State.start (p : Program) (code : Code) : Generation.State :=
  ⟨code, Storage.empty, NodeTable.empty p.nodeCount, .start, false, #[]⟩

end TriangleCompiler
