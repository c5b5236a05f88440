import TriangleCompiler.NodeTable
import TriangleCompiler.Program
import TriangleCompiler.Program.Literal

/-! The rules for well-typed programs. The names of a program have their links; an environment says which
    declarations are behind a phrase and what types they have. Each rule also gives the types of the
    nodes in a phrase: one for every expression, for every argument, for every type that is named and for
    everything that is declared. -/

namespace TriangleCompiler.Typing

/-- The types of the constants and variables that are declared before a phrase. -/
abbrev Environment := Link → Option SimpleType

namespace Environment

/-- Nothing is declared. -/
def empty : Environment := fun _ => none

/-- One more declaration. -/
def declare (Γ : Environment) (declared : Link) (type : SimpleType) : Environment :=
  fun link => if link = declared then some type else Γ link

end Environment

/-- Nodes and their types. -/
abbrev Decoration := List (NodeId × SimpleType)

/-- A binary operator of the given kind takes operands of the types `lhs` and `rhs`. -/
inductive TakesOperands : Builtin.Kind → SimpleType → SimpleType → SimpleType → Prop where
  | declared {p : Machine.Primitive} {lhs rhs result : SimpleType} : lhs ≠ .any →
      TakesOperands (.binary p lhs rhs result) lhs rhs result
  /-- Operands that may have any type have the same one. -/
  | same {p : Machine.Primitive} {type result : SimpleType} :
      TakesOperands (.binary p .any .any result) type type result

mutual

/-- The expression has the type. -/
inductive HasType (links : Resolution) (Γ : Environment) : Expr → SimpleType → Decoration → Prop where
  /-- The number fits a word. -/
  | int {tag : Tag} {spelling : String} {n : Int} : Literal.integer? spelling.toList = some n →
      -32768 ≤ n → n ≤ 32767 → HasType links Γ (.int tag spelling) .integer [(tag.id, .integer)]
  /-- The code point fits a word. -/
  | char {tag : Tag} {spelling : String} : (Literal.charOf spelling).toNat ≤ 32767 →
      HasType links Γ (.char tag spelling) .char [(tag.id, .char)]
  /-- The name is `true` or `false`. -/
  | truth {tag : Tag} {name : Name} {b : Builtin} {type : SimpleType} {value : Machine.Word} :
      links.get? name.id = some (.builtin b) → b.kind = .constant type value →
      HasType links Γ (.name tag name) type [(tag.id, type)]
  /-- The name is declared; in the value of a constant this is not that constant, which is declared
      behind its value. -/
  | declared {tag : Tag} {name : Name} {link : Link} {type : SimpleType} :
      links.get? name.id = some link → Γ link = some type →
      HasType links Γ (.name tag name) type [(tag.id, type)]
  /-- The routine is a function. -/
  | call {tag : Tag} {callee : Name} {argument : Argument} {b : Builtin} {p : Machine.Primitive}
      {result : SimpleType} {formal : Option Builtin.Formal} {ds : Decoration} :
      links.get? callee.id = some (.builtin b) → b.kind = .routine p result formal → result ≠ .void →
      Accepts links Γ formal argument ds →
      HasType links Γ (.call tag callee argument) result (ds ++ [(tag.id, result)])
  | unary {tag : Tag} {op : Name} {operand : Expr} {b : Builtin} {p : Machine.Primitive}
      {type result : SimpleType} {ds : Decoration} : links.get? op.id = some (.builtin b) →
      b.kind = .unary p type result → HasType links Γ operand type ds →
      HasType links Γ (.unary tag op operand) result (ds ++ [(tag.id, result)])
  | binary {tag : Tag} {op : Name} {lhs rhs : Expr} {b : Builtin} {type type' result : SimpleType}
      {ds ds' : Decoration} : links.get? op.id = some (.builtin b) →
      TakesOperands b.kind type type' result → HasType links Γ lhs type ds →
      HasType links Γ rhs type' ds' →
      HasType links Γ (.binary tag op lhs rhs) result (ds ++ (ds' ++ [(tag.id, result)]))

/-- A routine with the given parameter, or with none, accepts the argument. -/
inductive Accepts (links : Resolution) (Γ : Environment) :
    Option Builtin.Formal → Argument → Decoration → Prop where
  | none {tag : Tag} : Accepts links Γ none (.blank tag) []
  | value {tag : Tag} {e : Expr} {type : SimpleType} {ds : Decoration} : HasType links Γ e type ds →
      Accepts links Γ (some ⟨type, false⟩) (.value tag e) (ds ++ [(tag.id, type)])
  | reference {tag : Tag} {name : Name} {id : NodeId} {type : SimpleType} :
      links.get? name.id = some (.var id) → Γ (.var id) = some type →
      Accepts links Γ (some ⟨type, true⟩) (.var tag name) [(tag.id, type)]

end

/-- The declaration is well-typed, and the second environment is the one behind it. -/
inductive Declares (links : Resolution) (Γ : Environment) :
    SingleDeclaration → Environment → Decoration → Prop where
  | const {tag : Tag} {name : Name} {value : Expr} {type : SimpleType} {ds : Decoration} :
      HasType links Γ value type ds →
      Declares links Γ (.const tag name value) (Γ.declare (.const tag.id) type) (ds ++ [(tag.id, type)])
  /-- The type is one of those of the standard environment. -/
  | var {tag : Tag} {name : Name} {denoter : TypeDenoter} {b : Builtin} {type : SimpleType} :
      links.get? denoter.name.id = some (.builtin b) → b.kind = .type type →
      Declares links Γ (.var tag name denoter) (Γ.declare (.var tag.id) type)
        [(denoter.id, type), (tag.id, type)]

/-- The declarations are well-typed, each with those before it. -/
inductive DeclaresAll (links : Resolution) :
    Environment → List SingleDeclaration → Environment → Decoration → Prop where
  | nil {Γ : Environment} : DeclaresAll links Γ [] Γ []
  | cons {Γ Γ₁ Γ₂ : Environment} {d : SingleDeclaration} {rest : List SingleDeclaration}
      {ds ds' : Decoration} : Declares links Γ d Γ₁ ds → DeclaresAll links Γ₁ rest Γ₂ ds' →
      DeclaresAll links Γ (d :: rest) Γ₂ (ds ++ ds')

mutual

/-- The command is well-typed. -/
inductive WellTyped (links : Resolution) : Environment → Command → Decoration → Prop where
  | assign {Γ : Environment} {position : Position} {target : Name} {value : Expr} {id : NodeId}
      {type : SimpleType} {ds : Decoration} : links.get? target.id = some (.var id) →
      Γ (.var id) = some type → HasType links Γ value type ds →
      WellTyped links Γ (.assign position target value) ds
  | blank {Γ : Environment} {position : Position} : WellTyped links Γ (.blank position) []
  /-- The routine is a procedure. -/
  | call {Γ : Environment} {position : Position} {callee : Name} {argument : Argument} {b : Builtin}
      {p : Machine.Primitive} {formal : Option Builtin.Formal} {ds : Decoration} :
      links.get? callee.id = some (.builtin b) → b.kind = .routine p .void formal →
      Accepts links Γ formal argument ds → WellTyped links Γ (.call position callee argument) ds
  | ifThen {Γ : Environment} {position : Position} {condition : Expr} {body : Command}
      {ds ds' : Decoration} : HasType links Γ condition .boolean ds → WellTyped links Γ body ds' →
      WellTyped links Γ (.ifThen position condition body) (ds ++ ds')
  | ifElse {Γ : Environment} {position : Position} {condition : Expr} {positive negative : Command}
      {ds ds₁ ds₂ : Decoration} : HasType links Γ condition .boolean ds →
      WellTyped links Γ positive ds₁ → WellTyped links Γ negative ds₂ →
      WellTyped links Γ (.ifElse position condition positive negative) (ds ++ (ds₁ ++ ds₂))
  | while_ {Γ : Environment} {position : Position} {condition : Expr} {body : Command}
      {ds ds' : Decoration} : HasType links Γ condition .boolean ds → WellTyped links Γ body ds' →
      WellTyped links Γ (.while_ position condition body) (ds ++ ds')
  /-- The variable is declared in the bounds as well. -/
  | for_ {Γ : Environment} {position : Position} {counter : LoopVariable} {first last : Expr}
      {body : Command} {ds ds₁ ds₂ : Decoration} :
      HasType links (Γ.declare (.var counter.id) .integer) first .integer ds →
      HasType links (Γ.declare (.var counter.id) .integer) last .integer ds₁ →
      WellTyped links (Γ.declare (.var counter.id) .integer) body ds₂ →
      WellTyped links Γ (.for_ position counter first last body)
        ((counter.id, .integer) :: (ds ++ (ds₁ ++ ds₂)))
  | let_ {Γ Γ₁ : Environment} {position : Position} {declaration : Declaration} {body : Command}
      {ds ds' : Decoration} : DeclaresAll links Γ declaration.parts Γ₁ ds →
      WellTyped links Γ₁ body ds' → WellTyped links Γ (.let_ position declaration body) (ds ++ ds')
  | sequential {Γ : Environment} {position : Position} {parts : List Command} {ds : Decoration} :
      AllWellTyped links Γ parts ds → WellTyped links Γ (.sequential position parts) ds

/-- The commands are well-typed. -/
inductive AllWellTyped (links : Resolution) : Environment → List Command → Decoration → Prop where
  | nil {Γ : Environment} : AllWellTyped links Γ [] []
  | cons {Γ : Environment} {c : Command} {rest : List Command} {ds ds' : Decoration} :
      WellTyped links Γ c ds → AllWellTyped links Γ rest ds' → AllWellTyped links Γ (c :: rest) (ds ++ ds')

end

/-! ### The literals of well-typed programs have a value -/

theorem intValue?_eq {spelling : String} {n : Int} (h : Literal.integer? spelling.toList = some n)
    (hlo : -32768 ≤ n) (hhi : n ≤ 32767) : Literal.intValue? spelling = some (Int16.ofInt n) := by
  simp [Literal.intValue?, h, Machine.Word.ofInt?, hlo, hhi]

theorem charValue?_eq {spelling : String} (h : (Literal.charOf spelling).toNat ≤ 32767) :
    Literal.charValue? spelling = some (Int16.ofInt (Literal.charOf spelling).toNat) := by
  rw [Literal.charValue?, Machine.Word.ofInt?, if_pos (by omega)]

end TriangleCompiler.Typing
