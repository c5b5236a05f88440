import TriangleCompiler.NodeTable
import TriangleCompiler.Program
import TriangleCompiler.Program.Literal
import TriangleCompiler.Proofs.Machine.Execution

/-! What a program means, read off its tree and the links of its names. Every declaration has a word of
    its own in a store, so there is no stack and there are no addresses. Loops may go on forever: they are
    given fuel, and the evaluation says so when there is too little of it. -/

namespace TriangleCompiler

open Machine (Interpretation Word)

namespace Evaluation

/-- What comes of an evaluation. It fails where a built-in routine is undefined or a tree is not that of a
    program. -/
inductive Outcome (α : Type) where
  | finished (value : α)
  | failed
  | outOfFuel
deriving DecidableEq, Repr

namespace Outcome

variable {α β : Type}

/-- Goes on where the evaluation is finished. -/
def bind : Outcome α → (α → Outcome β) → Outcome β
  | finished a, f => f a
  | failed, _ => failed
  | outOfFuel, _ => outOfFuel

instance : Monad Outcome where
  pure := finished
  bind := bind

/-- An evaluation that fails where there is no value. -/
def ofOption : Option α → Outcome α
  | some a => finished a
  | none => failed

end Outcome

/-- The words of the constants and variables, by the nodes that declare them. -/
abbrev Store := NodeId → Word

/-- Another word for a declaration. -/
def Store.set (store : Store) (id : NodeId) (w : Word) : Store :=
  fun id' => if id' = id then w else store id'

theorem Store.set_self (store : Store) (id : NodeId) (w : Word) : store.set id w id = w := if_pos rfl

theorem Store.set_of_ne {id id' : NodeId} (h : id' ≠ id) (store : Store) (w : Word) :
    store.set id w id' = store id' := if_neg h

/-- What commands change: the store, and the state of input and output. -/
structure World (σ : Type) where
  store : Store
  io : σ

variable {σ : Type} (I : Interpretation σ) (links : Resolution)

/-- The value of a name. -/
def valueOf? (store : Store) (name : Name) : Option Word :=
  match links.get? name.id with
  | some (.builtin b) =>
    match b.kind with
    | .constant _ value => some value
    | _ => none
  | some (.const id) | some (.var id) => some (store id)
  | none => none

/-- Applies the built-in routine that a name or an operator stands for. -/
def apply (name : Name) (operands : List Word) (io : σ) : Outcome (Word × σ) :=
  match links.get? name.id with
  | some (.builtin b) =>
    match b.kind with
    | .routine p _ _ | .binary p _ _ _ | .unary p _ _ => .ofOption (I p operands io)
    | _ => .failed
  | _ => .failed

/-- Gives the variable that a name stands for another word. -/
def assign (name : Name) (w : Word) (s : World σ) : Outcome (World σ) :=
  match links.get? name.id with
  | some (.var id) => .finished ⟨s.store.set id w, s.io⟩
  | _ => .failed

/-- A variable that is passed by reference is given the word that the routine leads to. -/
def receive (argument : Argument) (w : Word) (s : World σ) : Outcome (World σ) :=
  match argument with
  | .var _ name => assign links name w s
  | _ => .finished s

/-- Carries a body out as long as the test before it gives `true`, with fuel for so many tests. -/
def iterate (test : World σ → Outcome (Word × σ)) (body : World σ → Outcome (World σ)) :
    Nat → World σ → Outcome (World σ)
  | 0, _ => .outOfFuel
  | fuel + 1, s => do
    let (w, io) ← test s
    if w = Word.ofBool true then
      let s ← body ⟨s.store, io⟩
      iterate test body fuel s
    else
      return ⟨s.store, io⟩

end Evaluation

open Evaluation

section
variable {σ : Type} (I : Interpretation σ) (links : Resolution)

mutual

/-- The value of an expression; operands are evaluated from left to right. -/
def Expr.eval (store : Store) : Expr → σ → Outcome (Word × σ)
  | .int _ spelling, io => do return (← .ofOption (Literal.intValue? spelling), io)
  | .char _ spelling, io => do return (← .ofOption (Literal.charValue? spelling), io)
  | .name _ name, io => do return (← .ofOption (valueOf? links store name), io)
  | .call _ callee argument, io => do
    let (operands, io) ← argument.eval store io
    apply I links callee operands io
  | .unary _ op operand, io => do
    let (w, io) ← operand.eval store io
    apply I links op [w] io
  | .binary _ op lhs rhs, io => do
    let (l, io) ← lhs.eval store io
    let (r, io) ← rhs.eval store io
    apply I links op [l, r] io
  | .error _, _ => .failed

/-- The operands in an argument; a variable that is passed by reference is none. -/
def Argument.eval (store : Store) : Argument → σ → Outcome (List Word × σ)
  | .blank _, io | .var _ _, io => return ([], io)
  | .value _ expr, io => do
    let (w, io) ← expr.eval store io
    return ([w], io)
  | .error _, _ => .failed

end

/-- Gives what is declared its first value; that of a variable is 0. -/
def SingleDeclaration.eval (s : World σ) : SingleDeclaration → Outcome (World σ)
  | .const tag _ value => do
    let (w, io) ← value.eval I links s.store s.io
    return ⟨s.store.set tag.id w, io⟩
  | .var tag _ _ => return ⟨s.store.set tag.id 0, s.io⟩
  | .error _ => .failed

/-- Evaluates declarations, one after the other. -/
def evalDeclarations (s : World σ) : List SingleDeclaration → Outcome (World σ)
  | [] => return s
  | d :: rest => do
    let s ← d.eval I links s
    evalDeclarations s rest

mutual

/-- Carries a command out, with fuel for each of its loops. -/
def Command.eval (fuel : Nat) : Command → World σ → Outcome (World σ)
  | .assign _ target value, s => do
    let (w, io) ← value.eval I links s.store s.io
    assign links target w ⟨s.store, io⟩
  | .blank _, s => return s
  | .call _ callee argument, s => do
    let (operands, io) ← argument.eval I links s.store s.io
    let (w, io) ← apply I links callee operands io
    receive links argument w ⟨s.store, io⟩
  -- a condition that is neither `true` nor `false` counts as `true` here, and as `false` in a loop
  | .ifThen _ condition body, s => do
    let (w, io) ← condition.eval I links s.store s.io
    if w = Word.ofBool false then return ⟨s.store, io⟩ else body.eval fuel ⟨s.store, io⟩
  | .ifElse _ condition positive negative, s => do
    let (w, io) ← condition.eval I links s.store s.io
    if w = Word.ofBool false then negative.eval fuel ⟨s.store, io⟩ else positive.eval fuel ⟨s.store, io⟩
  | .while_ _ condition body, s =>
    iterate (fun s => condition.eval I links s.store s.io) (fun s => body.eval fuel s) fuel s
  | .for_ _ counter first last body, s => do
    let store := s.store.set counter.id 0
    let (w, io) ← first.eval I links store s.io
    iterate
      (fun s => do
        let (bound, io) ← last.eval I links s.store s.io
        .ofOption (I .le [s.store counter.id, bound] io))
      (fun s => do
        let s ← body.eval fuel s
        let (w, io) ← .ofOption (I .succ [s.store counter.id] s.io)
        return ⟨s.store.set counter.id w, io⟩)
      fuel ⟨store.set counter.id w, io⟩
  | .let_ _ declaration body, s => do
    let s ← evalDeclarations I links s declaration.parts
    body.eval fuel s
  | .sequential _ parts, s => evalCommands fuel parts s
  | .error _, _ => .failed

/-- Carries commands out, one after the other. -/
def evalCommands (fuel : Nat) : List Command → World σ → Outcome (World σ)
  | [], s => return s
  | c :: rest, s => do
    let s ← c.eval fuel s
    evalCommands fuel rest s

end

/-- Carries a program out, and gives the state of input and output behind it. -/
def Program.eval (p : Program) (fuel : Nat) (io : σ) : Outcome σ := do
  return (← p.command.eval I links fuel ⟨fun _ => 0, io⟩).io

end

namespace Program

variable {σ : Type} (I : Interpretation σ) (links : Resolution) (p : Program)

/-- From the state `io` of input and output the program comes to its end, in the state `io'`. -/
def Terminates (io io' : σ) : Prop := ∃ fuel, p.eval I links fuel io = .finished io'

/-- From the state `io` of input and output the program comes to a routine that is undefined. -/
def Fails (io : σ) : Prop := ∃ fuel, p.eval I links fuel io = .failed

/-- From the state `io` of input and output the program goes on forever: no fuel is enough. -/
def Diverges (io : σ) : Prop := ∀ fuel, p.eval I links fuel io = .outOfFuel

end Program

end TriangleCompiler
