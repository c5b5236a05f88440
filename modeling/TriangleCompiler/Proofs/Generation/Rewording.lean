import TriangleCompiler.Proofs.Generation.Steps
import TriangleCompiler.Proofs.Parser.Rewording

/-! The code of a program in other words. What is emitted depends on links, types and literals, and on no
    place and no spelling of a name; only the errors are reported at their new places. -/

namespace TriangleCompiler

namespace Generation

open Pass (Follows)
open Machine (Entity Instruction)

def State.reword (w : Rewording) (s : State) : State :=
  { s with
    position := w.place s.position
    errors := s.errors.map fun d => ⟨w.place d.position, d.value⟩ }

/-- The one state is the other in other words. -/
def Reworded (w : Rewording) (s t : State) : Prop := t = s.reword w

theorem Reworded.start (w : Rewording) (p : Program) (code : Machine.Code) :
    Reworded w (.start p code) (.start (p.reword w) code) := by
  simp [Reworded, State.reword, State.start, w.place_start, Program.reword]

variable {w : Rewording}

/-! ### Elementary steps -/

theorem follows_get {α : Type} {f : State → Pass State α} {g : State → Pass State α}
    (h : ∀ s, Follows (Reworded w) (f s) (g (s.reword w))) :
    Follows (Reworded w) (get >>= f) (get >>= g) := by
  rintro s _ rfl
  exact h s s _ rfl

theorem follows_emit (i : Instruction) : Follows (Reworded w) (emit i) (emit i) := by
  rintro s _ rfl
  cases hfull : s.overflowed with
  | true =>
    rw [emit_of_overflowed i hfull, emit_of_overflowed (s := s.reword w) i hfull]
    exact .ok rfl
  | false =>
    by_cases hroom : s.code.size < s.code.limit
    · rw [emit_of_room i hfull hroom, emit_of_room (s := s.reword w) i hfull hroom]
      exact .ok rfl
    · rw [emit_of_full i hfull hroom, emit_of_full (s := s.reword w) i hfull hroom]
      exact .ok (by simp [Reworded, State.reword])

theorem follows_patch (address? : Option Nat) : Follows (Reworded w) (patch address?) (patch address?) := by
  cases address? with
  | none => exact .pure ()
  | some address =>
    rintro s _ rfl
    simp only [patch, State.reword]
    cases s.code.patch address with
    | ok code => exact .ok rfl
    | error fault => exact .error rfl

theorem follows_nextAddress : Follows (Reworded w) nextAddress nextAddress := by
  rintro s _ rfl
  exact .ok rfl

theorem follows_visit (position : Position) :
    Follows (Reworded w) (visit position) (visit (w.place position)) := by
  rintro s _ rfl
  exact .ok rfl

theorem follows_openScope : Follows (Reworded w) openScope openScope := by
  rintro s _ rfl
  exact .ok rfl

theorem follows_closeScope : Follows (Reworded w) closeScope closeScope := by
  unfold closeScope
  refine follows_get fun s => (follows_emit _).discard.bind fun _ => ?_
  rintro s _ rfl
  simp only [State.reword]
  cases s.storage.closeScope with
  | error fault => exact .error rfl
  | ok closed => exact .ok rfl

theorem follows_allocate (size : UInt8) : Follows (Reworded w) (allocate size) (allocate size) := by
  rintro s _ rfl
  simp only [allocate, State.reword]
  split
  · exact .error rfl
  · exact .ok rfl
  · exact .ok (by simp [Reworded, State.reword])

theorem follows_define (id : NodeId) (entity : Entity) :
    Follows (Reworded w) (define id entity) (define id entity) := by
  rintro s _ rfl
  simp only [define, State.reword]
  cases s.entities.set id entity with
  | ok entities => exact .ok rfl
  | error fault => exact .error rfl

theorem follows_declareVariable (id : NodeId) (type : SimpleType) :
    Follows (Reworded w) (declareVariable id type) (declareVariable id type) :=
  (follows_emit _).discard.bind fun _ => (follows_allocate _).bind fun _ =>
    (follows_define _ _).bind fun _ => .pure _

/-! ### Names -/

variable (cx : Context)

theorem follows_entityOf (id : NodeId) : Follows (Reworded w) (entityOf id) (entityOf id) :=
  follows_get fun _ => .require _ _

theorem follows_variableOf (name : Name) :
    Follows (Reworded w) (variableOf cx name) (variableOf cx (name.reword w)) := by
  refine Follows.bind (.require _ _) fun link => ?_
  cases link with
  | var id => exact follows_entityOf id
  | builtin | const => exact .fault _

theorem follows_call (name : Name) : Follows (Reworded w) (call cx name) (call cx (name.reword w)) := by
  refine Follows.bind (.require _ _) fun link => ?_
  cases link with
  | builtin b =>
    dsimp only
    split
    · exact (follows_emit _).discard
    · exact (follows_emit _).discard
    · exact (follows_emit _).discard
    · exact .fault _
  | const | var => exact .fault _

theorem follows_load (name : Name) : Follows (Reworded w) (load cx name) (load cx (name.reword w)) := by
  refine Follows.bind (.require _ _) fun link => ?_
  cases link with
  | builtin b =>
    dsimp only
    split
    · exact (follows_emit _).discard
    · exact .fault _
  | const id | var id => exact (follows_entityOf id).bind fun _ => (follows_emit _).discard

theorem follows_loadAddress (name : Name) :
    Follows (Reworded w) (loadAddress cx name) (loadAddress cx (name.reword w)) :=
  (follows_variableOf cx name).bind fun _ => Follows.bind (.require _ _) fun _ => (follows_emit _).discard

theorem follows_store (entity : Entity) : Follows (Reworded w) (store entity) (store entity) :=
  Follows.bind (.require _ _) fun _ => (follows_emit _).discard

theorem literal?_reword (e : Expr) : literal? (e.reword w) = literal? e := by
  cases e <;> simp only [Expr.reword, literal?]

end Generation

open Generation Pass

/-! ### The tree -/

section Tree
variable (w : Rewording) (cx : Context)

mutual

theorem Expr.follows_generate :
    ∀ e : Expr, Follows (Generation.Reworded w) (e.generate cx) ((e.reword w).generate cx)
  | .int _ _ | .char _ _ => by
    simp only [Expr.reword, Expr.generate]
    exact Follows.bind (.require _ _) fun _ => (follows_emit _).discard
  | .name _ name => by
    simp only [Expr.reword, Expr.generate]
    exact follows_load cx name
  | .call _ callee argument => by
    simp only [Expr.reword, Expr.generate]
    exact argument.follows_generate.bind fun _ => follows_call cx callee
  | .unary _ op operand => by
    simp only [Expr.reword, Expr.generate]
    exact operand.follows_generate.bind fun _ => follows_call cx op
  | .binary _ op lhs rhs => by
    simp only [Expr.reword, Expr.generate]
    exact lhs.follows_generate.bind fun _ => rhs.follows_generate.bind fun _ => follows_call cx op
  | .error _ => by
    simp only [Expr.reword, Expr.generate]
    exact .fault _

theorem Argument.follows_generate :
    ∀ a : Argument, Follows (Generation.Reworded w) (a.generate cx) ((a.reword w).generate cx)
  | .blank _ => by
    simp only [Argument.reword, Argument.generate]
    exact .pure ()
  | .value _ expr => by
    simp only [Argument.reword, Argument.generate]
    exact expr.follows_generate
  | .var _ name => by
    simp only [Argument.reword, Argument.generate]
    exact follows_loadAddress cx name
  | .error _ => by
    simp only [Argument.reword, Argument.generate]
    exact .fault _

end

theorem SingleDeclaration.follows_generate (d : SingleDeclaration) :
    Follows (Generation.Reworded w) (d.generate cx) ((d.reword w).generate cx) := by
  cases d with
  | const tag name value =>
    simp only [SingleDeclaration.reword, SingleDeclaration.generate, literal?_reword]
    cases literal? value with
    | some known => exact follows_define _ _
    | none =>
      exact (value.follows_generate w cx).bind fun _ => Follows.bind (.require _ _) fun _ =>
        (follows_allocate _).bind fun _ => follows_define _ _
  | var tag name type =>
    exact Follows.bind (.require _ _) fun _ => (follows_declareVariable _ _).discard
  | error => exact .fault _

theorem follows_generateDeclarations (ds : List SingleDeclaration) : Follows (Generation.Reworded w)
    (generateDeclarations cx ds) (generateDeclarations cx (ds.map (·.reword w))) := by
  induction ds with
  | nil => exact .pure ()
  | cons d ds ih => exact (d.follows_generate w cx).bind fun _ => ih

mutual

theorem Command.follows_generate :
    ∀ c : Command, Follows (Generation.Reworded w) (c.generate cx) ((c.reword w).generate cx)
  | .assign position target value => by
    simp only [Command.reword, Command.generate]
    exact (follows_visit position).bind fun _ => (value.follows_generate w cx).bind fun _ =>
      (follows_variableOf cx target).bind fun _ => follows_store _
  | .blank position => by
    simp only [Command.reword, Command.generate]
    exact follows_visit position
  | .call position callee argument => by
    simp only [Command.reword, Command.generate]
    exact (follows_visit position).bind fun _ => (argument.follows_generate w cx).bind fun _ =>
      follows_call cx callee
  | .ifThen position condition body => by
    simp only [Command.reword, Command.generate]
    exact (follows_visit position).bind fun _ => (condition.follows_generate w cx).bind fun _ =>
      (follows_emit _).bind fun _ => body.follows_generate.bind fun _ => follows_patch _
  | .ifElse position condition positive negative => by
    simp only [Command.reword, Command.generate]
    exact (follows_visit position).bind fun _ => (condition.follows_generate w cx).bind fun _ =>
      (follows_emit _).bind fun _ => positive.follows_generate.bind fun _ =>
      (follows_emit _).bind fun _ => (follows_patch _).bind fun _ =>
      negative.follows_generate.bind fun _ => follows_patch _
  | .while_ position condition body => by
    simp only [Command.reword, Command.generate]
    exact (follows_visit position).bind fun _ => (follows_emit _).bind fun _ =>
      follows_nextAddress.bind fun _ => body.follows_generate.bind fun _ =>
      (follows_patch _).bind fun _ => (condition.follows_generate w cx).bind fun _ =>
      (follows_emit _).discard
  | .for_ position counter first last body => by
    simp only [Command.reword, Command.generate]
    exact (follows_visit position).bind fun _ => follows_openScope.bind fun _ =>
      (follows_declareVariable _ _).bind fun _ => (first.follows_generate w cx).bind fun _ =>
      (follows_store _).bind fun _ => (follows_emit _).bind fun _ =>
      follows_nextAddress.bind fun _ => body.follows_generate.bind fun _ =>
      (follows_emit _).discard.bind fun _ => (follows_emit _).discard.bind fun _ =>
      (follows_store _).bind fun _ => (follows_patch _).bind fun _ =>
      (follows_emit _).discard.bind fun _ => (last.follows_generate w cx).bind fun _ =>
      (follows_emit _).discard.bind fun _ => (follows_emit _).discard.bind fun _ => follows_closeScope
  | .let_ position declaration body => by
    simp only [Command.reword, Command.generate, Declaration.parts_reword]
    exact (follows_visit position).bind fun _ => follows_openScope.bind fun _ =>
      (follows_generateDeclarations w cx declaration.parts).bind fun _ =>
      body.follows_generate.bind fun _ => follows_closeScope
  | .sequential position parts => by
    simp only [Command.reword, Command.generate]
    exact (follows_visit position).bind fun _ => follows_generateCommands parts
  | .error position => by
    simp only [Command.reword, Command.generate]
    exact (follows_visit position).bind fun _ => .fault _

theorem follows_generateCommands : ∀ cs : List Command, Follows (Generation.Reworded w)
    (generateCommands cx cs) (generateCommands cx (rewordCommands w cs))
  | [] => by
    simp only [rewordCommands, generateCommands]
    exact .pure ()
  | c :: rest => by
    simp only [rewordCommands, generateCommands]
    exact c.follows_generate.bind fun _ => follows_generateCommands rest

end

theorem Program.follows_generate (p : Program) :
    Follows (Generation.Reworded w) (p.generate cx) ((p.reword w).generate cx) :=
  (p.command.follows_generate w cx).bind fun _ => (follows_emit _).discard

end Tree

end TriangleCompiler
