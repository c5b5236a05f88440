import TriangleCompiler.Program
import TriangleCompiler.Token

/-! The phrases of a program: the parts of its tree that are shown one by one. It is said once which phrases
    stand directly below a phrase; from this alone come the order in which all of them are visited and what
    it is for a property to hold throughout a tree. -/

namespace TriangleCompiler

/-- A part of a program that is shown as a node of its own. -/
inductive Phrase where
  | command (command : Command)
  /-- Several declarations between `let` and `in`. -/
  | declarations (position : Position) (parts : List SingleDeclaration)
  | declaration (declaration : SingleDeclaration)
  | expr (expr : Expr)
  | argument (argument : Argument)
  /-- The name that a value is assigned to. -/
  | target (name : Name)
  | counter (counter : LoopVariable)
  | type (type : TypeDenoter)

/-- What stands between `let` and `in`, as a phrase. -/
def Declaration.phrase : Declaration → Phrase
  | .single declaration => .declaration declaration
  | .sequential position parts => .declarations position parts

namespace Phrase

/-- The place where a phrase starts. -/
def position : Phrase → Position
  | .command c => c.position
  | .declarations position _ => position
  | .declaration d => d.position
  | .expr e => e.tag.position
  | .argument a => a.tag.position
  | .target name => name.position
  | .counter i => i.name.position
  | .type t => t.name.position

/-- The name or the literal in a phrase itself, and the kind of token that it is. -/
def word? : Phrase → Option (Token.Kind × Name)
  | .expr (.int tag spelling) => some (.intLiteral, ⟨tag, spelling⟩)
  | .expr (.char tag spelling) => some (.charLiteral, ⟨tag, spelling⟩)
  | .expr (.unary _ op _) | .expr (.binary _ op _ _) => some (.operator, op)
  | .command (.call _ callee _) | .expr (.call _ callee _) => some (.identifier, callee)
  | .declaration (.const _ name _) | .declaration (.var _ name _) | .expr (.name _ name)
  | .argument (.var _ name) | .target name => some (.identifier, name)
  | .counter i => some (.identifier, i.name)
  | .type t => some (.identifier, t.name)
  | _ => none

/-- The phrase starts at one of the places, and so does the name or the literal in it. -/
structure Placed (places : Position → Prop) (x : Phrase) : Prop where
  position : places x.position
  word : ∀ w ∈ x.word?, places w.2.position

end Phrase

/-! ### The phrases below a phrase -/

def Expr.children : Expr → List Phrase
  | .int _ _ | .char _ _ | .name _ _ | .error _ => []
  | .call _ _ argument => [.argument argument]
  | .unary _ _ operand => [.expr operand]
  | .binary _ _ lhs rhs => [.expr lhs, .expr rhs]

def Argument.children : Argument → List Phrase
  | .blank _ | .var _ _ | .error _ => []
  | .value _ expr => [.expr expr]

def SingleDeclaration.children : SingleDeclaration → List Phrase
  | .const _ _ value => [.expr value]
  | .var _ _ type => [.type type]
  | .error _ => []

def Command.children : Command → List Phrase
  | .assign _ target value => [.target target, .expr value]
  | .blank _ | .error _ => []
  | .call _ _ argument => [.argument argument]
  | .ifThen _ condition body | .while_ _ condition body => [.expr condition, .command body]
  | .ifElse _ condition positive negative => [.expr condition, .command positive, .command negative]
  | .for_ _ counter first last body => [.counter counter, .expr first, .expr last, .command body]
  | .let_ _ declaration body => [declaration.phrase, .command body]
  | .sequential _ parts => parts.map .command

def Phrase.children : Phrase → List Phrase
  | .command c => c.children
  | .declarations _ parts => parts.map .declaration
  | .declaration d => d.children
  | .expr e => e.children
  | .argument a => a.children
  | .target _ | .counter _ | .type _ => []

namespace Phrase
variable {x y : Phrase} {xs ys : List Phrase}

/-- The phrase is one of these or stands somewhere below one of them. -/
inductive Inside (x : Phrase) : List Phrase → Prop where
  | here {xs : List Phrase} : Inside x (x :: xs)
  | under {y : Phrase} {xs : List Phrase} : Inside x y.children → Inside x (y :: xs)
  | behind {y : Phrase} {xs : List Phrase} : Inside x xs → Inside x (y :: xs)

/-- These phrases and all below them, each with its depth, and each before those below it. -/
inductive Visits : Nat → List Phrase → List (Nat × Phrase) → Prop where
  | nil {depth : Nat} : Visits depth [] []
  | cons {depth : Nat} {x : Phrase} {xs : List Phrase} {below behind : List (Nat × Phrase)} :
      Visits (depth + 1) x.children below → Visits depth xs behind →
      Visits depth (x :: xs) ((depth, x) :: (below ++ behind))

theorem inside_nil : ¬Inside x [] := by
  intro h
  cases h

theorem inside_cons : Inside x (y :: ys) ↔ x = y ∨ Inside x y.children ∨ Inside x ys := by
  constructor
  · intro h
    cases h with
    | here => exact .inl rfl
    | under h => exact .inr (.inl h)
    | behind h => exact .inr (.inr h)
  · rintro (rfl | h | h)
    · exact .here
    · exact .under h
    · exact .behind h

theorem inside_append : Inside x (xs ++ ys) ↔ Inside x xs ∨ Inside x ys := by
  induction xs with
  | nil => simp only [List.nil_append, inside_nil, false_or]
  | cons z xs ih => simp only [List.cons_append, inside_cons, ih, or_assoc]

namespace Visits
variable {depth : Nat} {us vs : List (Nat × Phrase)}

theorem append (h : Visits depth xs us) (h' : Visits depth ys vs) : Visits depth (xs ++ ys) (us ++ vs) := by
  induction h with
  | nil => exact h'
  | @cons _ x xs below behind hbelow _ _ ih =>
    rw [List.cons_append, List.cons_append, List.append_assoc]
    exact .cons hbelow (ih h')

theorem unique (h : Visits depth xs us) (h' : Visits depth xs vs) : us = vs := by
  induction h generalizing vs with
  | nil =>
    cases h'
    rfl
  | cons _ _ ihbelow ihbehind =>
    cases h' with
    | cons hbelow hbehind => rw [ihbelow hbelow, ihbehind hbehind]

/-- What is visited is what is there. -/
theorem inside_iff (h : Visits depth xs us) : Inside x xs ↔ ∃ n, (n, x) ∈ us := by
  induction h with
  | nil => simp only [inside_nil, List.not_mem_nil, exists_false]
  | cons _ _ ihbelow ihbehind =>
    simp only [inside_cons, ihbelow, ihbehind, List.mem_cons, List.mem_append, Prod.mk.injEq, exists_or,
      exists_and_right, exists_eq, true_and]

end Visits

/-! ### Properties of all phrases -/

/-- All of these phrases have the property, and all below them. -/
def Throughout (P : Phrase → Prop) (xs : List Phrase) : Prop := ∀ x, Inside x xs → P x

namespace Throughout
variable {P Q : Phrase → Prop}

theorem nil : Throughout P [] := fun _ h => absurd h inside_nil

theorem cons_iff : Throughout P (x :: xs) ↔ P x ∧ Throughout P x.children ∧ Throughout P xs := by
  simp only [Throughout, inside_cons, or_imp, forall_and, forall_eq]

theorem append_iff : Throughout P (xs ++ ys) ↔ Throughout P xs ∧ Throughout P ys := by
  simp only [Throughout, inside_append, or_imp, forall_and]

theorem cons (hx : P x) (hbelow : Throughout P x.children) (hxs : Throughout P xs) : Throughout P (x :: xs) :=
  cons_iff.mpr ⟨hx, hbelow, hxs⟩

theorem node (hx : P x) (hbelow : Throughout P x.children) : Throughout P [x] := .cons hx hbelow .nil

theorem append (hxs : Throughout P xs) (hys : Throughout P ys) : Throughout P (xs ++ ys) :=
  append_iff.mpr ⟨hxs, hys⟩

theorem self (h : Throughout P (x :: xs)) : P x := h x .here

theorem below (h : Throughout P (x :: xs)) : Throughout P x.children := (cons_iff.mp h).2.1

theorem tail (h : Throughout P (x :: xs)) : Throughout P xs := (cons_iff.mp h).2.2

theorem head (h : Throughout P (x :: xs)) : Throughout P [x] := .node h.self h.below

/-- What holds between `let` and `in` holds of each declaration there. -/
theorem parts {d : Declaration} (h : Throughout P [d.phrase]) : Throughout P (d.parts.map .declaration) := by
  cases d with
  | single => exact h
  | sequential => exact h.below

end Throughout

end Phrase

end TriangleCompiler
