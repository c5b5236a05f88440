import Mathlib.Data.List.Nodup
import TriangleCompiler.NodeTable
import TriangleCompiler.Proofs.Parser.Numbering
import TriangleCompiler.Proofs.Passes

/-! Names of a constant that are replaced by its literal: in one tree, at nodes that are chosen; and between two
    trees, which are the same up to the numbers and the places of their nodes, except that some of the names that
    stand for the constant in the one are the literal in the other. A name that is the whole value of a constant
    stays. -/

namespace TriangleCompiler

/-- A constant that is declared: its node and its value. -/
structure Constant where
  id : NodeId
  value : Expr

/-- The same literal, with whatever number and at whatever place. -/
def Expr.sameLiteral : Expr → Expr → Bool
  | .int _ spelling, .int _ spelling' => spelling = spelling'
  | .char _ spelling, .char _ spelling' => spelling = spelling'
  | _, _ => false

def Expr.isName : Expr → Bool
  | .name _ _ => true
  | _ => false

/-! ### Replacing names that are chosen -/

/-- The literal, in the place of a name; if the value of the constant is no literal the name stays. -/
def Constant.inPlaceOf (k : Constant) (tag : Tag) (name : Name) : Expr :=
  match k.value with
  | .int _ spelling => .int tag spelling
  | .char _ spelling => .char tag spelling
  | _ => .name tag name

section
variable (links : Resolution) (k : Constant) (chosen : NodeId → Bool)

mutual

/-- The expression with the literal for the names that are linked to the constant and chosen. -/
def Expr.withLiteral : Expr → Expr
  | .name tag name =>
    if links.get? name.id = some (.const k.id) ∧ chosen tag.id then k.inPlaceOf tag name else .name tag name
  | .call tag callee argument => .call tag callee argument.withLiteral
  | .unary tag op operand => .unary tag op operand.withLiteral
  | .binary tag op lhs rhs => .binary tag op lhs.withLiteral rhs.withLiteral
  | e => e

def Argument.withLiteral : Argument → Argument
  | .value tag expr => .value tag expr.withLiteral
  | a => a

end

def SingleDeclaration.withLiteral : SingleDeclaration → SingleDeclaration
  | .const tag name value =>
    .const tag name (if value.isName then value else value.withLiteral links k chosen)
  | d => d

def Declaration.withLiteral : Declaration → Declaration
  | .single d => .single (d.withLiteral links k chosen)
  | .sequential position parts => .sequential position (parts.map (·.withLiteral links k chosen))

mutual

def Command.withLiteral : Command → Command
  | .assign position target value => .assign position target (value.withLiteral links k chosen)
  | .call position callee argument => .call position callee (argument.withLiteral links k chosen)
  | .ifThen position condition body =>
    .ifThen position (condition.withLiteral links k chosen) body.withLiteral
  | .ifElse position condition positive negative =>
    .ifElse position (condition.withLiteral links k chosen) positive.withLiteral negative.withLiteral
  | .while_ position condition body =>
    .while_ position (condition.withLiteral links k chosen) body.withLiteral
  | .for_ position counter first last body =>
    .for_ position counter (first.withLiteral links k chosen) (last.withLiteral links k chosen) body.withLiteral
  | .let_ position declaration body =>
    .let_ position (declaration.withLiteral links k chosen) body.withLiteral
  | .sequential position parts => .sequential position (commandsWithLiteral parts)
  | c => c

def commandsWithLiteral : List Command → List Command
  | [] => []
  | c :: rest => c.withLiteral :: commandsWithLiteral rest

end

def Program.withLiteral (p : Program) : Program := ⟨p.command.withLiteral links k chosen, p.nodeCount⟩

end

/-! ### Trees that differ in the names of a constant -/

section
variable (links : Resolution) (k : Constant)

mutual

/-- The second expression is the first one, with some of the names that are linked to the constant `k`
    replaced by its literal. -/
def Expr.replaces : Expr → Expr → Bool
  | .int _ spelling, .int _ spelling' => spelling = spelling'
  | .char _ spelling, .char _ spelling' => spelling = spelling'
  | .name _ name, .name _ name' => name.spelling = name'.spelling
  | .name _ name, .int tag spelling =>
    links.get? name.id = some (.const k.id) && k.value.sameLiteral (.int tag spelling)
  | .name _ name, .char tag spelling =>
    links.get? name.id = some (.const k.id) && k.value.sameLiteral (.char tag spelling)
  | .call _ callee argument, .call _ callee' argument' =>
    callee.spelling = callee'.spelling && argument.replaces argument'
  | .unary _ op operand, .unary _ op' operand' => op.spelling = op'.spelling && operand.replaces operand'
  | .binary _ op lhs rhs, .binary _ op' lhs' rhs' =>
    op.spelling = op'.spelling && lhs.replaces lhs' && rhs.replaces rhs'
  | .error _, .error _ => true
  | _, _ => false

def Argument.replaces : Argument → Argument → Bool
  | .blank _, .blank _ | .error _, .error _ => true
  | .value _ expr, .value _ expr' => expr.replaces expr'
  | .var _ name, .var _ name' => name.spelling = name'.spelling
  | _, _ => false

end

def SingleDeclaration.replaces : SingleDeclaration → SingleDeclaration → Bool
  | .const _ name value, .const _ name' value' =>
    name.spelling = name'.spelling && value.replaces links k value' && value.isName = value'.isName
  | .var _ name type, .var _ name' type' =>
    name.spelling = name'.spelling && type.name.spelling = type'.name.spelling
  | .error _, .error _ => true
  | _, _ => false

def declarationsReplace : List SingleDeclaration → List SingleDeclaration → Bool
  | [], [] => true
  | d :: rest, d' :: rest' => d.replaces links k d' && declarationsReplace rest rest'
  | _, _ => false

mutual

def Command.replaces : Command → Command → Bool
  | .assign _ target value, .assign _ target' value' =>
    target.spelling = target'.spelling && value.replaces links k value'
  | .blank _, .blank _ | .error _, .error _ => true
  | .call _ callee argument, .call _ callee' argument' =>
    callee.spelling = callee'.spelling && argument.replaces links k argument'
  | .ifThen _ condition body, .ifThen _ condition' body' =>
    condition.replaces links k condition' && body.replaces body'
  | .ifElse _ condition positive negative, .ifElse _ condition' positive' negative' =>
    condition.replaces links k condition' && positive.replaces positive' && negative.replaces negative'
  | .while_ _ condition body, .while_ _ condition' body' =>
    condition.replaces links k condition' && body.replaces body'
  | .for_ _ counter first last body, .for_ _ counter' first' last' body' =>
    counter.name.spelling = counter'.name.spelling && first.replaces links k first' &&
      last.replaces links k last' && body.replaces body'
  | .let_ _ declaration body, .let_ _ declaration' body' =>
    declarationsReplace links k declaration.parts declaration'.parts && body.replaces body'
  | .sequential _ parts, .sequential _ parts' => commandsReplace parts parts'
  | _, _ => false

def commandsReplace : List Command → List Command → Bool
  | [], [] => true
  | c :: rest, c' :: rest' => c.replaces c' && commandsReplace rest rest'
  | _, _ => false

end

end

/-! ### What is replaced in place -/

section
variable (links : Resolution) (k : Constant) (chosen : NodeId → Bool)

theorem Constant.replaces_inPlaceOf {k : Constant} {links : Resolution} {name : Name}
    (h : links.get? name.id = some (.const k.id)) (tag : Tag) :
    (Expr.name tag name).replaces links k (k.inPlaceOf tag name) = true := by
  unfold inPlaceOf
  split
  · simp [Expr.replaces, Expr.sameLiteral, *]
  · simp [Expr.replaces, Expr.sameLiteral, *]
  · exact decide_eq_true rfl

mutual

theorem Expr.replaces_withLiteral : ∀ e : Expr, e.replaces links k (e.withLiteral links k chosen) = true
  | .int _ _ | .char _ _ => decide_eq_true rfl
  | .error _ => rfl
  | .name tag name => by
    rw [Expr.withLiteral]
    split
    · rename_i h
      exact Constant.replaces_inPlaceOf h.1 tag
    · exact decide_eq_true rfl
  | .call _ _ argument => by simp [Expr.withLiteral, Expr.replaces, argument.replaces_withLiteral]
  | .unary _ _ operand => by simp [Expr.withLiteral, Expr.replaces, operand.replaces_withLiteral]
  | .binary _ _ lhs rhs => by
    simp [Expr.withLiteral, Expr.replaces, lhs.replaces_withLiteral, rhs.replaces_withLiteral]

theorem Argument.replaces_withLiteral : ∀ a : Argument, a.replaces links k (a.withLiteral links k chosen) = true
  | .blank _ | .error _ => rfl
  | .var _ _ => decide_eq_true rfl
  | .value _ e => e.replaces_withLiteral

end

theorem SingleDeclaration.replaces_withLiteral (d : SingleDeclaration) :
    d.replaces links k (d.withLiteral links k chosen) = true := by
  cases d with
  | const tag name value =>
    have hvalue := value.replaces_withLiteral links k chosen
    cases value with
    | name => simp [SingleDeclaration.withLiteral, SingleDeclaration.replaces, Expr.isName, Expr.replaces]
    | _ => simp_all [SingleDeclaration.withLiteral, SingleDeclaration.replaces, Expr.isName, Expr.withLiteral]
  | var => simp [SingleDeclaration.withLiteral, SingleDeclaration.replaces]
  | error => rfl

theorem declarationsReplace_withLiteral (ds : List SingleDeclaration) :
    declarationsReplace links k ds (ds.map (·.withLiteral links k chosen)) = true := by
  induction ds with
  | nil => rfl
  | cons d ds ih => simp [declarationsReplace, d.replaces_withLiteral, ih]

theorem Declaration.parts_withLiteral (d : Declaration) :
    (d.withLiteral links k chosen).parts = d.parts.map (·.withLiteral links k chosen) := by
  cases d <;> rfl

mutual

theorem Command.replaces_withLiteral : ∀ c : Command, c.replaces links k (c.withLiteral links k chosen) = true
  | .blank _ | .error _ => rfl
  | .assign _ _ value => by simp [Command.withLiteral, Command.replaces, value.replaces_withLiteral]
  | .call _ _ argument => by simp [Command.withLiteral, Command.replaces, argument.replaces_withLiteral]
  | .ifThen _ condition body | .while_ _ condition body => by
    simp [Command.withLiteral, Command.replaces, condition.replaces_withLiteral, body.replaces_withLiteral]
  | .ifElse _ condition positive negative => by
    simp [Command.withLiteral, Command.replaces, condition.replaces_withLiteral, positive.replaces_withLiteral,
      negative.replaces_withLiteral]
  | .for_ _ _ first last body => by
    simp [Command.withLiteral, Command.replaces, first.replaces_withLiteral, last.replaces_withLiteral,
      body.replaces_withLiteral]
  | .let_ _ declaration body => by
    simp [Command.withLiteral, Command.replaces, Declaration.parts_withLiteral, declarationsReplace_withLiteral,
      body.replaces_withLiteral]
  | .sequential _ parts => by
    simp [Command.withLiteral, Command.replaces, commandsReplace_withLiteral parts]

theorem commandsReplace_withLiteral :
    ∀ cs : List Command, commandsReplace links k cs (commandsWithLiteral links k chosen cs) = true
  | [] => rfl
  | c :: rest => by
    simp [commandsWithLiteral, commandsReplace, c.replaces_withLiteral, commandsReplace_withLiteral rest]

end

/-! A literal has the number of the name in whose place it stands. -/

mutual

theorem Expr.ids_withLiteral : ∀ e : Expr, (e.withLiteral links k chosen).ids.Sublist e.ids
  | .int _ _ | .char _ _ | .error _ => .refl _
  | .name tag name => by
    rw [Expr.withLiteral]
    split
    · unfold Constant.inPlaceOf
      split
      · exact .cons _ (.refl _)
      · exact .cons _ (.refl _)
      · exact .refl _
    · exact .refl _
  | .call _ _ argument => .cons_cons _ (argument.ids_withLiteral.append_right _)
  | .unary _ _ operand => .cons_cons _ (operand.ids_withLiteral.append_right _)
  | .binary _ _ lhs rhs => lhs.ids_withLiteral.append (.cons_cons _ (rhs.ids_withLiteral.append_right _))

theorem Argument.ids_withLiteral : ∀ a : Argument, (a.withLiteral links k chosen).ids.Sublist a.ids
  | .blank _ | .error _ | .var _ _ => .refl _
  | .value _ e => .cons_cons _ e.ids_withLiteral

end

theorem SingleDeclaration.ids_withLiteral (d : SingleDeclaration) :
    (d.withLiteral links k chosen).ids.Sublist d.ids := by
  cases d with
  | const tag name value =>
    rw [SingleDeclaration.withLiteral]
    split
    · exact .refl _
    · exact .cons_cons _ (.cons_cons _ (value.ids_withLiteral links k chosen))
  | var | error => exact .refl _

theorem declarationIds_withLiteral (ds : List SingleDeclaration) :
    (declarationIds (ds.map (·.withLiteral links k chosen))).Sublist (declarationIds ds) := by
  induction ds with
  | nil => exact .refl _
  | cons d ds ih => exact (d.ids_withLiteral links k chosen).append ih

mutual

theorem Command.ids_withLiteral : ∀ c : Command, (c.withLiteral links k chosen).ids.Sublist c.ids
  | .blank _ | .error _ => .refl _
  | .assign _ _ value => .cons_cons _ (value.ids_withLiteral links k chosen)
  | .call _ _ argument => .cons_cons _ (argument.ids_withLiteral links k chosen)
  | .ifThen _ condition body | .while_ _ condition body =>
    (condition.ids_withLiteral links k chosen).append body.ids_withLiteral
  | .ifElse _ condition positive negative =>
    (condition.ids_withLiteral links k chosen).append (positive.ids_withLiteral.append negative.ids_withLiteral)
  | .for_ _ _ first last body =>
    .cons_cons _ (.cons_cons _ ((first.ids_withLiteral links k chosen).append
      ((last.ids_withLiteral links k chosen).append body.ids_withLiteral)))
  | .let_ _ declaration body => by
    rw [Command.withLiteral, Command.ids, Command.ids, Declaration.parts_withLiteral]
    exact (declarationIds_withLiteral links k chosen declaration.parts).append body.ids_withLiteral
  | .sequential _ parts => commandIds_withLiteral parts

theorem commandIds_withLiteral :
    ∀ cs : List Command, (commandIds (commandsWithLiteral links k chosen cs)).Sublist (commandIds cs)
  | [] => .refl _
  | c :: rest => c.ids_withLiteral.append (commandIds_withLiteral rest)

end

theorem Program.counted_withLiteral {p : Program} (h : Parser.Counted p.command.ids 0 p.nodeCount) :
    Parser.Counted (p.withLiteral links k chosen).command.ids 0 (p.withLiteral links k chosen).nodeCount :=
  ⟨h.1, (p.command.ids_withLiteral links k chosen).trans h.2⟩

end

/-! ### Constants -/

def SingleDeclaration.constants : SingleDeclaration → List Constant
  | .const tag _ value => [⟨tag.id, value⟩]
  | .var _ _ _ | .error _ => []

mutual

/-- The constants that are declared in a command. -/
def Command.constants : Command → List Constant
  | .assign _ _ _ | .blank _ | .call _ _ _ | .error _ => []
  | .ifThen _ _ body | .while_ _ _ body | .for_ _ _ _ _ body => body.constants
  | .ifElse _ _ positive negative => positive.constants ++ negative.constants
  | .let_ _ declaration body => declaration.parts.flatMap SingleDeclaration.constants ++ body.constants
  | .sequential _ parts => commandConstants parts

def commandConstants : List Command → List Constant
  | [] => []
  | c :: rest => c.constants ++ commandConstants rest

end

theorem SingleDeclaration.within_constants (d : SingleDeclaration) :
    Within (d.constants.map Constant.id) d.ids := by
  intro id
  cases d <;> simp only [SingleDeclaration.constants, SingleDeclaration.ids, List.map_cons, List.map_nil,
    List.count_cons, List.count_nil] <;> omega

theorem within_declarationConstants (ds : List SingleDeclaration) :
    Within ((ds.flatMap SingleDeclaration.constants).map Constant.id) (declarationIds ds) := by
  intro id
  induction ds with
  | nil => exact Nat.le_refl _
  | cons d ds ih =>
    have hd := d.within_constants id
    rw [List.flatMap_cons, List.map_append, declarationIds, List.count_append, List.count_append]
    omega

mutual

theorem Command.within_constants : ∀ c : Command, Within (c.constants.map Constant.id) c.ids
  | .assign _ _ _ | .blank _ | .call _ _ _ | .error _ => fun id => by simp [Command.constants]
  | .ifThen _ _ body | .while_ _ _ body => fun id => by
    have hbody := body.within_constants id
    rw [Command.constants, Command.ids, List.count_append]
    omega
  | .ifElse _ _ positive negative => fun id => by
    have hpositive := positive.within_constants id
    have hnegative := negative.within_constants id
    rw [Command.constants, Command.ids, List.map_append]
    simp only [List.count_append]
    omega
  | .for_ _ counter _ _ body => fun id => by
    have hbody := body.within_constants id
    rw [Command.constants, Command.ids]
    simp only [List.count_append, List.count_cons]
    omega
  | .let_ _ declaration body => fun id => by
    have hparts := within_declarationConstants declaration.parts id
    have hbody := body.within_constants id
    rw [Command.constants, Command.ids, List.map_append, List.count_append, List.count_append]
    omega
  | .sequential _ parts => fun id => by
    rw [Command.constants, Command.ids]
    exact within_commandConstants parts id

theorem within_commandConstants :
    ∀ cs : List Command, Within ((commandConstants cs).map Constant.id) (commandIds cs)
  | [] => fun id => by simp [commandConstants]
  | c :: rest => fun id => by
    have hc := c.within_constants id
    have hrest := within_commandConstants rest id
    rw [commandConstants, commandIds, List.map_append, List.count_append, List.count_append]
    omega

end

/-- A constant is declared once, and has one value. -/
theorem Command.constant_unique {c : Command} (hids : c.ids.Nodup) {k k' : Constant} (hk : k ∈ c.constants)
    (hk' : k' ∈ c.constants) (h : k.id = k'.id) : k = k' :=
  List.inj_on_of_nodup_map (c.within_constants.nodup hids) hk hk' h

end TriangleCompiler
