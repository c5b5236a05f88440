import TriangleCompiler.Generation
import TriangleCompiler.Proofs.Passes
import TriangleCompiler.Proofs.Program.Phrases

/-! The steps of generation. Seven operations change its state, and what each of them does to a state is
    said here. The code of every phrase is put together from these steps in a way that shows which places it
    moves to, which jumps it completes, and which instructions come before a word of storage is taken. What
    holds along every run of the generation follows from that and from the single steps. -/

namespace TriangleCompiler

namespace Generation

open Machine (Entity Instruction Storage Word)

/-- Gives up the storage of the innermost scope. -/
def dropScope : GenerateM Unit := fun s =>
  match s.storage.closeScope with
  | .error fault => .error fault s
  | .ok (_, storage) => .ok () { s with storage := storage }

theorem closeScope_eq : closeScope = get >>= fun s =>
    discard (emit (.pop (Int16.ofNat s.storage.localSize))) >>= fun _ => dropScope := rfl

/-! ### What a step does -/

section Steps
variable {s : State}

theorem emit_of_overflowed (i : Instruction) (h : s.overflowed = true) : emit i s = .ok none s :=
  if_pos h

theorem emit_of_room (i : Instruction) (h : s.overflowed = false) (hroom : s.code.size < s.code.limit) :
    emit i s = .ok (some s.code.size) { s with code := s.code.append i hroom } := by
  simp only [emit, h, Machine.Code.emit?, dif_pos hroom]
  rfl

theorem emit_of_full (i : Instruction) (h : s.overflowed = false) (hfull : ¬s.code.size < s.code.limit) :
    emit i s = .ok none { s with
      overflowed := true
      errors := s.errors.push ⟨s.position, .size .programTooLarge⟩ } := by
  simp only [emit, h, Machine.Code.emit?, dif_neg hfull]
  rfl

/-- An instruction is left out once there was no room for one; it is put behind the others; or it is the
    first one that finds no room. -/
theorem emit_cases (i : Instruction) (s : State) :
    (s.overflowed = true ∧ emit i s = .ok none s) ∨
    (s.overflowed = false ∧ ∃ hroom, emit i s = .ok (some s.code.size) { s with code := s.code.append i hroom }) ∨
    (s.overflowed = false ∧ emit i s = .ok none { s with
      overflowed := true
      errors := s.errors.push ⟨s.position, .size .programTooLarge⟩ }) := by
  cases h : s.overflowed with
  | true => exact .inl ⟨rfl, emit_of_overflowed i h⟩
  | false =>
    by_cases hroom : s.code.size < s.code.limit
    · exact .inr (.inl ⟨rfl, hroom, h ▸ emit_of_room i h hroom⟩)
    · exact .inr (.inr ⟨rfl, emit_of_full i h hroom⟩)

theorem patch_of_jump {address : Nat} (h : s.code.refusal? address = none) :
    patch (some address) s = .ok () { s with code := s.code.retarget address } := by
  simp only [patch, Machine.Code.patch, h]
  rfl

theorem patch_cases (address : Nat) (s : State) :
    (∃ fault, patch (some address) s = .error fault s) ∨
      patch (some address) s = .ok () { s with code := s.code.retarget address } := by
  cases h : s.code.refusal? address with
  | some fault => exact .inl ⟨fault, by simp only [patch, Machine.Code.patch, h]⟩
  | none => exact .inr (patch_of_jump h)

/-- Words are taken in the innermost scope, if there is one. What finds no room takes all that there is. -/
theorem allocate_cases (size : UInt8) (s : State) : (∃ fault, allocate size s = .error fault s) ∨
    ∃ inner rest, s.storage.sizes = inner :: rest ∧
      ((s.storage.totalSize + size.toNat ≤ Word.max ∧ allocate size s = .ok (Int16.ofNat s.storage.totalSize)
        { s with storage := ⟨(inner + size.toNat) :: rest⟩ }) ∨
      (Word.max < s.storage.totalSize + size.toNat ∧ ∃ offset storage, allocate size s = .ok offset { s with
        storage := storage
        errors := s.errors.push ⟨s.position, .size .scopeTooLarge⟩ })) := by
  cases hsizes : s.storage.sizes with
  | nil => exact .inl ⟨.noScopeToAllocate, by simp only [allocate, Storage.allocate, hsizes]⟩
  | cons inner rest =>
    refine .inr ⟨inner, rest, rfl, ?_⟩
    by_cases hfits : s.storage.totalSize + size.toNat ≤ Word.max
    · exact .inl ⟨hfits, by simp only [allocate, Storage.allocate, hsizes, if_pos hfits]⟩
    · exact .inr ⟨Nat.lt_of_not_le hfits, _, _, by simp only [allocate, Storage.allocate, hsizes, if_neg hfits]; rfl⟩

theorem dropScope_cases (s : State) : (∃ fault, dropScope s = .error fault s) ∨
    ∃ inner rest, s.storage.sizes = inner :: rest ∧ dropScope s = .ok () { s with storage := ⟨rest⟩ } := by
  cases hsizes : s.storage.sizes with
  | nil => exact .inl ⟨.noScopeToClose, by simp only [dropScope, Storage.closeScope, hsizes]⟩
  | cons inner rest => exact .inr ⟨inner, rest, rfl, by simp only [dropScope, Storage.closeScope, hsizes]⟩

theorem define_of_free {id : NodeId} (h : s.entities.refusal? id = none) (entity : Entity) :
    define id entity s = .ok () { s with entities := s.entities.write id entity } := by
  simp only [define, NodeTable.set_of_no_refusal h]

theorem define_cases (id : NodeId) (entity : Entity) (s : State) :
    (∃ fault, define id entity s = .error fault s) ∨
      define id entity s = .ok () { s with entities := s.entities.write id entity } := by
  cases h : s.entities.refusal? id with
  | some fault => exact .inl ⟨fault, by simp only [define, NodeTable.set_of_refusal h]⟩
  | none => exact .inr (define_of_free h entity)

end Steps

/-! ### Passes that are put together from steps -/

/-- The pass leaves the state as it is, whether it ends or stops with a fault. -/
def Still {α : Type} (x : GenerateM α) : Prop := ∀ s, (∃ a, x s = .ok a s) ∨ ∃ fault, x s = .error fault s

theorem Still.eq_of_ok {α : Type} {x : GenerateM α} (h : Still x) {s t : State} {a : α} (hok : x s = .ok a t) :
    t = s := by
  rcases h s with ⟨b, h⟩ | ⟨fault, h⟩ <;> rw [h] at hok <;> cases hok
  rfl

/-- `Composed places pending n m x` says that the pass `x` is put together from steps. It moves to places of
    `places` only. Of the jumps from before it, it completes those of `pending`, each of them once. If before
    it `n` instructions were emitted for words of storage that are not taken yet, then `m` behind it. -/
inductive Composed (places : Position → Prop) : {α : Type} → List Nat → Nat → Nat → GenerateM α → Prop where
  | emit {n : Nat} (i : Instruction) : Composed places [] n (n + 1) (emit i)
  /-- A jump that is completed later on. -/
  | jump {β : Type} {pending : List Nat} {n m : Nat} {g : Option Nat → GenerateM β} (i : Instruction) :
      (∀ address, Composed places (pending ++ address.toList) (n + 1) m (g address)) →
      Composed places pending n m (Generation.emit i >>= g)
  | patch {n : Nat} (address : Option Nat) : Composed places address.toList n n (patch address)
  | visit {n : Nat} {position : Position} : places position → Composed places [] n n (visit position)
  | openScope {n : Nat} : Composed places [] n n openScope
  | dropScope {n : Nat} : Composed places [] n n dropScope
  | allocate {n : Nat} {size : UInt8} : size.toNat ≤ 1 → Composed places [] (n + 1) n (allocate size)
  | define {n : Nat} (id : NodeId) (entity : Entity) : Composed places [] n n (define id entity)
  | still {α : Type} {n : Nat} {x : GenerateM α} : Still x → Composed places [] n n x
  | fault {α : Type} {n m : Nat} (f : Fault) : Composed places [] n m (Pass.fault f : GenerateM α)
  | bind {α β : Type} {p q : List Nat} {n m k : Nat} {x : GenerateM α} {g : α → GenerateM β} :
      Composed places p n m x → (∀ a, Composed places q m k (g a)) → Composed places (p ++ q) n k (x >>= g)
  | fewer {α : Type} {p : List Nat} {n m k : Nat} {x : GenerateM α} :
      Composed places p n m x → k ≤ m → Composed places p n k x

namespace Composed
variable {α β : Type} {places : Position → Prop} {p : List Nat} {n m k : Nat} {x : GenerateM α}
  {g : α → GenerateM β}

/-- A pass that completes no jump from before it. -/
theorem next (hx : Composed places [] n m x) (hg : ∀ a, Composed places p m k (g a)) :
    Composed places p n k (x >>= g) := hx.bind hg

/-- A pass behind which no jump is completed that is from before it. -/
theorem last (hx : Composed places p n m x) (hg : ∀ a, Composed places [] m k (g a)) :
    Composed places p n k (x >>= g) := by
  rw [← List.append_nil p]
  exact hx.bind hg

theorem pure (a : α) : Composed places [] n n (Pure.pure a : GenerateM α) := .still fun _ => .inl ⟨a, rfl⟩

theorem require (f : Fault) (a? : Option α) : Composed places [] n n (Pass.require f a? : GenerateM α) := by
  cases a? with
  | none => exact .fault f
  | some a => exact pure a

theorem get : Composed places [] n n (MonadState.get : GenerateM State) := .still fun s => .inl ⟨s, rfl⟩

theorem nextAddress : Composed places [] n n nextAddress := .still fun _ => .inl ⟨_, rfl⟩

theorem discard (hx : Composed places p n m x) : Composed places p n m (Functor.discard x) := by
  rw [Pass.discard_eq_bind]
  exact hx.last fun _ => pure ()

/-- An instruction whose address is not needed. -/
theorem instruction (i : Instruction) : Composed places [] n (n + 1) (Functor.discard (Generation.emit i)) :=
  (Composed.emit i).discard

/-! #### Names and scopes -/

theorem entityOf (id : NodeId) : Composed places [] n n (entityOf id) :=
  get.next fun _ => require _ _

theorem variableOf (cx : Context) (name : Name) : Composed places [] n n (variableOf cx name) := by
  refine (require _ _).next fun link => ?_
  cases link with
  | var id => exact entityOf id
  | builtin | const => exact .fault _

theorem closeScope : Composed places [] n n closeScope := by
  rw [closeScope_eq]
  exact get.next fun _ => (instruction _).next fun _ => dropScope.fewer (Nat.le_succ n)

theorem size_le (type : SimpleType) : type.size.toNat ≤ 1 := by
  cases type <;> decide

theorem declareVariable (id : NodeId) (type : SimpleType) : Composed places [] n n (declareVariable id type) :=
  (instruction _).next fun _ => (allocate (size_le type)).next fun _ => (define _ _).next fun _ => pure _

theorem call (cx : Context) (name : Name) : Composed places [] n (n + 1) (call cx name) := by
  refine (require _ _).next fun link => ?_
  cases link with
  | builtin b =>
    dsimp only
    split
    · exact instruction _
    · exact instruction _
    · exact instruction _
    · exact .fault _
  | const | var => exact .fault _

theorem load (cx : Context) (name : Name) : Composed places [] n (n + 1) (load cx name) := by
  refine (require _ _).next fun link => ?_
  cases link with
  | builtin b =>
    dsimp only
    split
    · exact instruction _
    · exact .fault _
  | const id | var id => exact (entityOf id).next fun _ => instruction _

theorem loadAddress (cx : Context) (name : Name) : Composed places [] n (n + 1) (loadAddress cx name) :=
  (variableOf cx name).next fun _ => (require _ _).next fun _ => instruction _

theorem store (entity : Entity) : Composed places [] n n (store entity) :=
  (require _ _).next fun _ => (instruction _).fewer (Nat.le_succ n)

end Composed

end Generation

open Generation
open Phrase (Placed Throughout)

/-! ### Phrases -/

section Phrases
variable {places : Position → Prop} (cx : Context) {n : Nat}

mutual

/-- The code of an expression has an instruction for its value. -/
theorem Expr.composed {n : Nat} : ∀ e : Expr, Composed places [] n (n + 1) (e.generate cx)
  | .int _ _ | .char _ _ => by
    rw [Expr.generate]
    exact (Composed.require _ _).next fun _ => .instruction _
  | .name _ name => by
    rw [Expr.generate]
    exact .load cx name
  | .call _ callee argument => by
    rw [Expr.generate]
    exact argument.composed.next fun _ => .call cx callee
  | .unary _ op operand => by
    rw [Expr.generate]
    exact (operand.composed.fewer (Nat.le_succ n)).next fun _ => .call cx op
  | .binary _ op lhs rhs => by
    rw [Expr.generate]
    exact (lhs.composed.fewer (Nat.le_succ n)).next fun _ =>
      (rhs.composed.fewer (Nat.le_succ n)).next fun _ => .call cx op
  | .error _ => by
    rw [Expr.generate]
    exact .fault _

theorem Argument.composed {n : Nat} : ∀ a : Argument, Composed places [] n n (a.generate cx)
  | .blank _ => by
    rw [Argument.generate]
    exact .pure ()
  | .value _ expr => by
    rw [Argument.generate]
    exact expr.composed.fewer (Nat.le_succ n)
  | .var _ name => by
    rw [Argument.generate]
    exact (Composed.loadAddress cx name).fewer (Nat.le_succ n)
  | .error _ => by
    rw [Argument.generate]
    exact .fault _

end

/-- A word is taken behind the instruction that pushes its value. -/
theorem SingleDeclaration.composed (d : SingleDeclaration) : Composed places [] n n (d.generate cx) := by
  cases d with
  | const tag name value =>
    rw [SingleDeclaration.generate]
    split
    · exact .define _ _
    · exact (value.composed cx).next fun _ => (Composed.require _ _).next fun type =>
        (Composed.allocate (Composed.size_le type)).next fun _ => .define _ _
  | var tag name type =>
    rw [SingleDeclaration.generate]
    exact (Composed.require _ _).next fun _ => (Composed.declareVariable _ _).discard
  | error => exact .fault _

theorem composed_generateDeclarations (ds : List SingleDeclaration) :
    Composed places [] n n (generateDeclarations cx ds) := by
  induction ds with
  | nil => exact .pure ()
  | cons d ds ih => exact (d.composed cx).next fun _ => ih

mutual

/-- Every command moves to its own place first and completes the jumps that it emits. -/
theorem Command.composed {n : Nat} :
    ∀ c : Command, Throughout (Placed places) [.command c] → Composed places [] n n (c.generate cx)
  | .assign _ target value, h => by
    rw [Command.generate]
    exact (Composed.visit h.self.position).next fun _ => ((value.composed cx).fewer (Nat.le_succ n)).next fun _ =>
      (Composed.variableOf cx target).next fun entity => .store entity
  | .blank _, h => by
    rw [Command.generate]
    exact .visit h.self.position
  | .call _ callee argument, h => by
    rw [Command.generate]
    exact (Composed.visit h.self.position).next fun _ => (argument.composed cx).next fun _ =>
      (Composed.call cx callee).fewer (Nat.le_succ n)
  | .ifThen _ condition body, h => by
    rw [Command.generate]
    refine (Composed.visit h.self.position).next fun _ => (condition.composed cx).next fun _ =>
      .jump _ fun skip => ?_
    exact (body.composed h.below.tail).next fun _ => (Composed.patch skip).fewer (Nat.le_add_right n 2)
  | .ifElse _ condition positive negative, h => by
    rw [Command.generate]
    refine (Composed.visit h.self.position).next fun _ => (condition.composed cx).next fun _ =>
      .jump _ fun toNegative => (positive.composed h.below.tail.head).next fun _ => .jump _ fun toEnd => ?_
    exact (Composed.patch toNegative).bind fun _ => (negative.composed h.below.tail.tail).next fun _ =>
      (Composed.patch toEnd).fewer (Nat.le_add_right n 3)
  | .while_ _ condition body, h => by
    rw [Command.generate]
    refine (Composed.visit h.self.position).next fun _ => .jump _ fun toTest =>
      Composed.nextAddress.next fun top => (body.composed h.below.tail).next fun _ => ?_
    exact (Composed.patch toTest).last fun _ => (condition.composed cx).next fun _ =>
      (Composed.instruction _).fewer (Nat.le_add_right n 3)
  | .for_ _ counter first last body, h => by
    rw [Command.generate]
    refine (Composed.visit h.self.position).next fun _ => Composed.openScope.next fun _ =>
      (Composed.declareVariable _ _).next fun entity => (first.composed cx).next fun _ =>
      (Composed.store entity).next fun _ => .jump _ fun toTest => Composed.nextAddress.next fun top => ?_
    refine (body.composed h.below.tail.tail.tail).next fun _ => (Composed.instruction _).next fun _ =>
      (Composed.instruction _).next fun _ => (Composed.store entity).next fun _ => ?_
    exact (Composed.patch toTest).last fun _ => (Composed.instruction _).next fun _ =>
      (last.composed cx).next fun _ => (Composed.instruction _).next fun _ =>
      (Composed.instruction _).next fun _ => Composed.closeScope.fewer (Nat.le_add_right n 8)
  | .let_ _ declaration body, h => by
    rw [Command.generate]
    exact (Composed.visit h.self.position).next fun _ => Composed.openScope.next fun _ =>
      (composed_generateDeclarations cx declaration.parts).next fun _ =>
      (body.composed h.below.tail).next fun _ => .closeScope
  | .sequential _ parts, h => by
    rw [Command.generate]
    exact (Composed.visit h.self.position).next fun _ => composed_generateCommands parts h.below
  | .error _, h => by
    rw [Command.generate]
    exact (Composed.visit h.self.position).next fun _ => .fault _

theorem composed_generateCommands {n : Nat} : ∀ cs : List Command, Throughout (Placed places) (cs.map .command) →
    Composed places [] n n (generateCommands cx cs)
  | [], _ => by
    rw [generateCommands]
    exact .pure ()
  | c :: rest, h => by
    rw [generateCommands]
    exact (c.composed h.head).next fun _ => composed_generateCommands rest h.tail

end

theorem Program.composed {p : Program} (h : Throughout (Placed places) [.command p.command]) :
    Composed places [] n n (p.generate cx) :=
  (p.command.composed cx h).next fun _ => (Composed.instruction _).fewer (Nat.le_succ n)

/-- Where the places do not matter. -/
theorem Program.composed_anywhere (p : Program) : Composed (fun _ => True) [] n n (p.generate cx) :=
  Program.composed cx fun _ _ => ⟨trivial, fun _ _ => trivial⟩

end Phrases

end TriangleCompiler
