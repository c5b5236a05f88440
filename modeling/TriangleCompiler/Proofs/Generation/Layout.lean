import TriangleCompiler.Generation

/-! The code of a program, phrase by phrase. The code of a phrase depends on where the declared names are
    at run time and on the address where the code starts; the addresses of jumps come from the lengths of
    the parts, so nothing is completed later. -/

namespace TriangleCompiler

open Machine (Entity Instruction Primitive Word)

/-- The built-in routine that a call or an operator of this kind comes down to. -/
def Builtin.Kind.primitive? : Builtin.Kind → Option Primitive
  | .routine primitive _ _ | .binary primitive _ _ _ | .unary primitive _ _ => some primitive
  | _ => none

/-- The type of what a name of this kind stands for or gives back. -/
def Builtin.Kind.valueType : Builtin.Kind → SimpleType
  | .type t | .constant t _ | .routine _ t _ | .binary _ _ _ t | .unary _ _ t => t

namespace Generation

/-- What a declared name is at run time: a constant that is known beforehand, or a word at a distance from
    the bottom of the stack. -/
inductive Place where
  | known (value : Word)
  /-- Only what is assignable is a variable. -/
  | slot (assignable : Bool) (offset : Nat)
deriving DecidableEq, Repr

namespace Place

/-- The distance from the bottom of the stack. -/
def offset? : Place → Option Nat
  | known _ => none
  | slot _ offset => some offset

/-- A place as instructions address it. -/
def entity : Place → Entity
  | known value => .known value
  | slot true offset => .var (Int16.ofNat offset) 1
  | slot false offset => .stored (Int16.ofNat offset) 1

end Place

/-- Where the names declared so far are, and the number of words that they take. No two of them share a
    word. -/
structure Layout where
  place? : NodeId → Option Place
  size : Nat
  inside : ∀ id k, (place? id).bind Place.offset? = some k → k < size
  apart : ∀ id id' k, (place? id).bind Place.offset? = some k →
    (place? id').bind Place.offset? = some k → id = id'

namespace Layout

/-- Nothing is declared. -/
def empty : Layout where
  place? _ := none
  size := 0
  inside _ _ h := by cases h
  apart _ _ _ h := by cases h

/-- One more name, which is known and takes no room. -/
def define (L : Layout) (id : NodeId) (value : Word) : Layout where
  place? id' := if id' = id then some (.known value) else L.place? id'
  size := L.size
  inside id' k h := by
    split at h
    · cases h
    · exact L.inside id' k h
  apart id₁ id₂ k h₁ h₂ := by
    split at h₁
    · cases h₁
    · split at h₂
      · cases h₂
      · exact L.apart id₁ id₂ k h₁ h₂

/-- One more name, which takes a word behind the others. -/
def allocate (L : Layout) (id : NodeId) (assignable : Bool) : Layout where
  place? id' := if id' = id then some (.slot assignable L.size) else L.place? id'
  size := L.size + 1
  inside id' k h := by
    split at h
    · cases h
      omega
    · have := L.inside id' k h
      omega
  apart id₁ id₂ k h₁ h₂ := by
    -- the new word is behind every other one
    split at h₁ <;> split at h₂
    · simp_all
    · cases h₁
      have := L.inside id₂ _ h₂
      omega
    · cases h₂
      have := L.inside id₁ _ h₁
      omega
    · exact L.apart id₁ id₂ k h₁ h₂

end Layout

variable (links : Resolution) (L : Layout)

/-- The instruction that `f` gives for the constant or the variable that a name stands for. -/
def placeCode (f : Entity → Option Instruction) (name : Name) : List Instruction :=
  match links.get? name.id with
  | some (.const id) | some (.var id) => ((L.place? id).bind fun p => f p.entity).toList
  | _ => []

/-- Pushes the value of a name. -/
def loadCode (name : Name) : List Instruction :=
  match links.get? name.id with
  | some (.builtin b) =>
    match b.kind with
    | .constant _ value => [.loadLiteral value]
    | _ => []
  | _ => placeCode links L (fun e => some e.load) name

/-- Calls what a name or an operator stands for. -/
def callCode (name : Name) : List Instruction :=
  match links.get? name.id with
  | some (.builtin b) => b.kind.primitive?.toList.map .call
  | _ => []

/-- Pushes a literal, if it has a value. -/
def literalCode (value : Option Word) : List Instruction :=
  value.toList.map .loadLiteral

/-- Pushes the word at an offset. -/
def loadSlot (offset : Nat) : Instruction := ⟨.load, .sb, 1, Int16.ofNat offset⟩

/-- Pops a word into the place at an offset. -/
def storeSlot (offset : Nat) : Instruction := ⟨.store, .sb, 1, Int16.ofNat offset⟩

end Generation

open Generation

mutual

/-- The code that pushes the value of an expression. -/
def Expr.code (links : Resolution) (L : Layout) : Expr → List Instruction
  | .int _ spelling => literalCode (Literal.intValue? spelling)
  | .char _ spelling => literalCode (Literal.charValue? spelling)
  | .name _ name => loadCode links L name
  | .call _ callee argument => argument.code links L ++ callCode links callee
  | .unary _ op operand => operand.code links L ++ callCode links op
  | .binary _ op lhs rhs => lhs.code links L ++ (rhs.code links L ++ callCode links op)
  | .error _ => []

/-- The code that pushes an argument. -/
def Argument.code (links : Resolution) (L : Layout) : Argument → List Instruction
  | .blank _ | .error _ => []
  | .value _ expr => expr.code links L
  | .var _ name => placeCode links L Entity.loadAddress? name

end

/-- The code that makes room for what a declaration declares. -/
def SingleDeclaration.code (links : Resolution) (L : Layout) : SingleDeclaration → List Instruction
  | .const _ _ value =>
    match literal? value with
    | some _ => []
    | none => value.code links L
  | .var _ _ _ => [.push 1]
  | .error _ => []

/-- The layout behind a declaration. -/
def SingleDeclaration.layoutAfter (L : Layout) : SingleDeclaration → Layout
  | .const tag _ value =>
    match literal? value with
    | some known => L.define tag.id known
    | none => L.allocate tag.id false
  | .var tag _ _ => L.allocate tag.id true
  | .error _ => L

/-- The code of declarations, one after the other. -/
def declarationsCode (links : Resolution) (L : Layout) : List SingleDeclaration → List Instruction
  | [] => []
  | d :: rest => d.code links L ++ declarationsCode links (d.layoutAfter L) rest

/-- The layout behind declarations. -/
def layoutAfterDeclarations (L : Layout) : List SingleDeclaration → Layout
  | [] => L
  | d :: rest => layoutAfterDeclarations (d.layoutAfter L) rest

mutual

/-- The code that carries a command out; it starts at the address `start`, and a jump to the address `a`
    has the operand `target a`. -/
def Command.code (links : Resolution) (target : Nat → Word) (L : Layout) (start : Nat) :
    Command → List Instruction
  | .assign _ name value => value.code links L ++ placeCode links L Entity.store? name
  | .blank _ | .error _ => []
  | .call _ callee argument => argument.code links L ++ callCode links callee
  | .ifThen _ condition body =>
    let test := condition.code links L
    let inside := start + test.length + 1
    let taken := body.code links target L inside
    test ++ .jumpIf (Word.ofBool false) (target (inside + taken.length)) :: taken
  | .ifElse _ condition positive negative =>
    let test := condition.code links L
    let inside := start + test.length + 1
    let taken := positive.code links target L inside
    let otherwise := inside + taken.length + 1
    let other := negative.code links target L otherwise
    test ++ .jumpIf (Word.ofBool false) (target otherwise) ::
      (taken ++ .jump (target (otherwise + other.length)) :: other)
  | .while_ _ condition body =>
    -- the condition is behind the body, and the loop starts with it
    let top := start + 1
    let loop := body.code links target L top
    .jump (target (top + loop.length)) ::
      (loop ++ (condition.code links L ++ [.jumpIf (Word.ofBool true) (target top)]))
  | .for_ _ counter first last body =>
    let inner := L.allocate counter.id true
    let init := .push 1 :: (first.code links inner ++ [storeSlot L.size])
    let top := start + init.length + 1
    let loop := body.code links target inner top ++ [loadSlot L.size, .call .succ, storeSlot L.size]
    init ++ .jump (target (top + loop.length)) ::
      (loop ++ loadSlot L.size :: (last.code links inner ++
        [.call .le, .jumpIf (Word.ofBool true) (target top), .pop (Int16.ofNat 1)]))
  | .let_ _ declaration body =>
    let inner := layoutAfterDeclarations L declaration.parts
    let init := declarationsCode links L declaration.parts
    init ++ (body.code links target inner (start + init.length) ++
      [.pop (Int16.ofNat (inner.size - L.size))])
  | .sequential _ parts => commandsCode links target L start parts

/-- The code of commands, one after the other. -/
def commandsCode (links : Resolution) (target : Nat → Word) (L : Layout) (start : Nat) :
    List Command → List Instruction
  | [] => []
  | c :: rest =>
    let first := c.code links target L start
    first ++ commandsCode links target L (start + first.length) rest

end

/-- The code of a program. -/
def Program.fullCode (p : Program) (links : Resolution) (target : Nat → Word) : List Instruction :=
  p.command.code links target .empty 0 ++ [.halt]

end TriangleCompiler
