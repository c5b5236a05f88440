import TriangleCompiler.Program.Nodes
import TriangleCompiler.Proofs.Parser.Numbering

/-! Counting the nodes that a tree is said to have. The list of them is gathered front to back, so what a
    phrase adds to it is stated as a sum: what was counted before, and what the phrase has. -/

namespace TriangleCompiler

/-- How often a number is that of a node of the kinds `q`. -/
def countNodes (q : NodeKind → Bool) (nodes : Array Node) (id : NodeId) : Nat :=
  nodes.toList.countP fun n => q n.kind && n.id == id

theorem countNodes_push (q : NodeKind → Bool) (nodes : Array Node) (n : Node) (id : NodeId) :
    countNodes q (nodes.push n) id = countNodes q nodes id + if q n.kind && n.id == id then 1 else 0 := by
  rw [countNodes, Array.toList_push, List.countP_append, List.countP_singleton, countNodes]

theorem countNodes_pos {q : NodeKind → Bool} {nodes : Array Node} {id : NodeId} :
    0 < countNodes q nodes id ↔ ∃ n ∈ nodes.toList, q n.kind = true ∧ n.id = id := by
  simp [countNodes]

/-- How often a number is that of a node. -/
abbrev numberCount : Array Node → NodeId → Nat := countNodes fun _ => true

theorem numberCount_push (nodes : Array Node) (n : Node) (id : NodeId) :
    numberCount (nodes.push n) id = numberCount nodes id + if n.id == id then 1 else 0 := by
  rw [numberCount, countNodes_push, Bool.true_and]

mutual

theorem Expr.numberCount_nodesAfter (before : Array Node) (id : NodeId) : (e : Expr) →
    numberCount (e.nodesAfter before) id = numberCount before id + e.ids.count id
  | .int _ _ | .char _ _ | .error _ => by
    simp only [Expr.nodesAfter, Expr.ids, numberCount_push, List.count_cons, List.count_nil, Nat.zero_add]
  | .name tag name => by
    simp only [Expr.nodesAfter, Expr.ids, numberCount_push, Name.identifierNode, List.count_cons,
      List.count_nil]
    omega
  | .call tag callee argument => by
    simp only [Expr.nodesAfter, Expr.ids, argument.numberCount_nodesAfter, numberCount_push,
      Name.identifierNode, List.count_cons, List.count_nil, List.count_append]
    omega
  | .unary tag op operand => by
    simp only [Expr.nodesAfter, Expr.ids, operand.numberCount_nodesAfter, numberCount_push,
      Name.operatorNode, List.count_cons, List.count_nil, List.count_append]
    omega
  | .binary tag op lhs rhs => by
    simp only [Expr.nodesAfter, Expr.ids, rhs.numberCount_nodesAfter, lhs.numberCount_nodesAfter,
      numberCount_push, Name.operatorNode, List.count_cons, List.count_nil, List.count_append]
    omega

theorem Argument.numberCount_nodesAfter (before : Array Node) (id : NodeId) : (a : Argument) →
    numberCount (a.nodesAfter before) id = numberCount before id + a.ids.count id
  | .blank _ | .error _ => by
    simp only [Argument.nodesAfter, Argument.ids, numberCount_push, List.count_cons, List.count_nil,
      Nat.zero_add]
  | .value tag expr => by
    simp only [Argument.nodesAfter, Argument.ids, expr.numberCount_nodesAfter, numberCount_push,
      List.count_cons]
    omega
  | .var tag name => by
    simp only [Argument.nodesAfter, Argument.ids, numberCount_push, Name.identifierNode, List.count_cons,
      List.count_nil]
    omega

end

theorem SingleDeclaration.numberCount_nodesAfter (before : Array Node) (id : NodeId)
    (d : SingleDeclaration) :
    numberCount (d.nodesAfter before) id = numberCount before id + d.ids.count id := by
  cases d with
  | const tag name value =>
    simp only [SingleDeclaration.nodesAfter, SingleDeclaration.ids, value.numberCount_nodesAfter,
      numberCount_push, Name.identifierNode, List.count_cons]
    omega
  | var tag name type =>
    simp only [SingleDeclaration.nodesAfter, SingleDeclaration.ids, numberCount_push, Name.identifierNode,
      List.count_cons,
      List.count_nil]
    omega
  | error => rfl

theorem numberCount_declarations (before : Array Node) (id : NodeId) (ds : List SingleDeclaration) :
    numberCount (ds.foldl SingleDeclaration.nodesAfter before) id =
      numberCount before id + (declarationIds ds).count id := by
  induction ds generalizing before with
  | nil => rfl
  | cons d ds ih =>
    rw [List.foldl_cons, ih, d.numberCount_nodesAfter, declarationIds, List.count_append, Nat.add_assoc]

mutual

theorem Command.numberCount_nodesAfter (before : Array Node) (id : NodeId) : (c : Command) →
    numberCount (c.nodesAfter before) id = numberCount before id + c.ids.count id
  | .blank _ | .error _ => rfl
  | .assign _ target value => by
    simp only [Command.nodesAfter, Command.ids, value.numberCount_nodesAfter, numberCount_push,
      Name.identifierNode, List.count_cons]
    omega
  | .call _ callee argument => by
    simp only [Command.nodesAfter, Command.ids, argument.numberCount_nodesAfter, numberCount_push,
      Name.identifierNode, List.count_cons]
    omega
  | .ifThen _ condition body | .while_ _ condition body => by
    simp only [Command.nodesAfter, Command.ids, body.numberCount_nodesAfter,
      condition.numberCount_nodesAfter, List.count_append]
    omega
  | .ifElse _ condition positive negative => by
    simp only [Command.nodesAfter, Command.ids, negative.numberCount_nodesAfter,
      positive.numberCount_nodesAfter, condition.numberCount_nodesAfter, List.count_append]
    omega
  | .for_ _ counter first last body => by
    simp only [Command.nodesAfter, Command.ids, body.numberCount_nodesAfter, last.numberCount_nodesAfter,
      first.numberCount_nodesAfter, numberCount_push, Name.identifierNode, List.count_cons,
      List.count_append]
    omega
  | .let_ _ declaration body => by
    simp only [Command.nodesAfter, Command.ids, body.numberCount_nodesAfter, numberCount_declarations,
      List.count_append]
    omega
  | .sequential _ parts => numberCount_commands before id parts

theorem numberCount_commands (before : Array Node) (id : NodeId) : (cs : List Command) →
    numberCount (nodesOfCommandsAfter before cs) id = numberCount before id + (commandIds cs).count id
  | [] => rfl
  | c :: rest => by
    simp only [nodesOfCommandsAfter, commandIds, numberCount_commands, c.numberCount_nodesAfter,
      List.count_append]
    omega

end

/-- The numbers of a program's nodes are those in its command, in another order. -/
theorem Program.nodes_perm (p : Program) : (p.nodes.map Node.id).Perm p.command.ids := by
  rw [List.perm_iff_count]
  intro id
  have hcount := p.command.numberCount_nodesAfter #[] id
  rw [show numberCount #[] id = 0 from rfl, Nat.zero_add] at hcount
  rw [← hcount, List.count_eq_countP, List.countP_map, numberCount, countNodes]
  simp only [Bool.true_and]
  rfl

end TriangleCompiler
