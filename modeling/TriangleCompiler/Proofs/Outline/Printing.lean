import TriangleCompiler.Program.Outline
import TriangleCompiler.Proofs.Program.Phrases

/-! What is printed for a phrase: what it is and where it starts; then the link of the name that it uses, and
    then its type. A printed tree has one such text for each phrase, in the order in which the phrases are
    visited and at their depth. -/

namespace TriangleCompiler

open Outline

/-! ### The texts of phrases -/

namespace Phrase

/-- The word that says what a phrase is. -/
def what : Phrase → String
  | .command (.assign _ _ _) => "assign"
  | .command (.blank _) => "blank"
  | .command (.call _ _ _) | .expr (.call _ _ _) => "call"
  | .command (.ifThen _ _ _) => "if"
  | .command (.ifElse _ _ _ _) => "if-else"
  | .command (.while_ _ _ _) => "while"
  | .command (.for_ _ _ _ _ _) => "for"
  | .command (.let_ _ _ _) => "let"
  | .command (.sequential _ _) | .declarations _ _ => "sequential"
  | .command (.error _) | .declaration (.error _) | .expr (.error _) | .argument (.error _) => "error"
  | .declaration (.const _ _ _) => "const"
  | .declaration (.var _ _ _) | .counter _ => "var"
  | .expr (.int _ _) => "int"
  | .expr (.char _ _) => "char"
  | .expr (.name _ _) | .target _ => "ident"
  | .expr (.unary _ _ _) => "unary"
  | .expr (.binary _ _ _ _) => "binary"
  | .argument (.blank _) => "blank-param"
  | .argument (.value _ _) => "param"
  | .argument (.var _ _) => "var-param"
  | .type _ => "type"

/-- What a phrase is, what is written in it and where it starts. -/
def label (x : Phrase) : String :=
  match x.word? with
  | none => head x.what x.position
  | some w => namedHead x.what w.2.spelling x.position

/-- The name that a phrase uses itself, and not in the phrases below it. -/
def use? : Phrase → Option Name
  | .command (.call _ callee _) | .expr (.call _ callee _) => some callee
  | .expr (.name _ name) | .argument (.var _ name) | .target name => some name
  | .expr (.unary _ op _) | .expr (.binary _ op _ _) => some op
  | .type t => some t.name
  | _ => none

/-- The node whose type is shown next to a phrase. -/
def typed? : Phrase → Option NodeId
  | .expr (.error _) => none
  | .expr e => some e.tag.id
  | .argument (.value tag _) | .argument (.var tag _) => some tag.id
  | .declaration (.const tag _ _) | .declaration (.var tag _ _) => some tag.id
  | .counter i => some i.id
  | .type t => some t.id
  | _ => none

/-- The type that is shown next to a phrase. -/
def typeText (d : Decoration) (x : Phrase) : String := x.typed?.elim "" d.type

/-- What is printed for a phrase. -/
def text (d : Decoration) (x : Phrase) : String :=
  x.label ++ x.use?.elim "" (d.link ·.id) ++ x.typeText d

/-- The line of a phrase at its depth. -/
def line (d : Decoration) (visit : Nat × Phrase) : Line := ⟨visit.1, visit.2.text d⟩

/-! ### Trees are printed in the order of their phrases -/

/-- Printing goes through these phrases and all below them, and adds the line of each. -/
def Prints (d : Decoration) (depth : Nat) (xs : List Phrase) (print : Array Line → Array Line) : Prop :=
  ∃ visits, Visits depth xs visits ∧
    ∀ before, (print before).toList = before.toList ++ visits.map (line d)

namespace Prints
variable {d : Decoration} {depth : Nat} {x : Phrase} {xs ys : List Phrase} {f g : Array Line → Array Line}

theorem nil : Prints d depth [] id := ⟨[], .nil, fun before => (List.append_nil before.toList).symm⟩

theorem append (hf : Prints d depth xs f) (hg : Prints d depth ys g) :
    Prints d depth (xs ++ ys) fun before => g (f before) := by
  obtain ⟨us, hus, hf⟩ := hf
  obtain ⟨vs, hvs, hg⟩ := hg
  refine ⟨us ++ vs, hus.append hvs, fun before => ?_⟩
  rw [hg, hf, List.map_append, List.append_assoc]

/-- The line of a phrase comes before those of the phrases below it. -/
theorem node {text : String} (htext : x.text d = text) (hf : Prints d (depth + 1) x.children f)
    (hprint : ∀ before, g before = f (before.push ⟨depth, text⟩)) : Prints d depth [x] g := by
  obtain ⟨us, hus, hf⟩ := hf
  refine ⟨(depth, x) :: us, ?_, fun before => ?_⟩
  · rw [← List.append_nil us]
    exact .cons hus .nil
  · rw [hprint, hf, Array.toList_push, List.append_assoc, ← htext]
    rfl

end Prints

theorem text_plain {d : Decoration} {x : Phrase} (huse : x.use? = none) (htyped : x.typed? = none) :
    x.text d = x.label := by
  rw [text, typeText, huse, htyped]
  simp

theorem text_typed {d : Decoration} {x : Phrase} {id : NodeId} (huse : x.use? = none)
    (htyped : x.typed? = some id) : x.text d = x.label ++ d.type id := by
  rw [text, typeText, huse, htyped]
  simp

theorem text_linked {d : Decoration} {x : Phrase} {name : Name} (huse : x.use? = some name)
    (htyped : x.typed? = none) : x.text d = x.label ++ d.link name.id := by
  rw [text, typeText, huse, htyped]
  simp

end Phrase

open Phrase (Prints Visits text_plain text_typed text_linked)

mutual

theorem Expr.prints (d : Decoration) (depth : Nat) : ∀ e : Expr,
    Prints d depth [.expr e] fun before => e.outlineAfter d depth before
  | .int _ _ | .char _ _ => .node (text_typed rfl rfl) .nil fun _ => rfl
  | .name _ _ => .node rfl .nil fun _ => rfl
  | .call _ _ argument => .node rfl (argument.prints d (depth + 1)) fun _ => rfl
  | .unary _ _ operand => .node rfl (operand.prints d (depth + 1)) fun _ => rfl
  | .binary _ _ lhs rhs =>
    .node rfl ((lhs.prints d (depth + 1)).append (rhs.prints d (depth + 1))) fun _ => rfl
  | .error _ => .node (text_plain rfl rfl) .nil fun _ => rfl

theorem Argument.prints (d : Decoration) (depth : Nat) : ∀ a : Argument,
    Prints d depth [.argument a] fun before => a.outlineAfter d depth before
  | .blank _ | .error _ => .node (text_plain rfl rfl) .nil fun _ => rfl
  | .value _ expr => .node (text_typed rfl rfl) (expr.prints d (depth + 1)) fun _ => rfl
  | .var _ _ => .node rfl .nil fun _ => rfl

end

theorem SingleDeclaration.prints (d : Decoration) (depth : Nat) (declaration : SingleDeclaration) :
    Prints d depth [.declaration declaration] fun before => declaration.outlineAfter d depth before := by
  cases declaration with
  | const _ _ value => exact .node (text_typed rfl rfl) (value.prints d (depth + 1)) fun _ => rfl
  | var _ _ type =>
    have htype : Prints d (depth + 1) [.type type] _ := .node rfl .nil fun _ => rfl
    exact .node (text_typed rfl rfl) htype fun _ => rfl
  | error => exact .node (text_plain rfl rfl) .nil fun _ => rfl

theorem prints_declarations (d : Decoration) (depth : Nat) (parts : List SingleDeclaration) :
    Prints d depth (parts.map .declaration)
      fun before => parts.foldl (SingleDeclaration.outlineAfter d depth) before := by
  induction parts with
  | nil => exact .nil
  | cons part parts ih => exact (part.prints d depth).append ih

theorem Declaration.prints (d : Decoration) (depth : Nat) (declaration : Declaration) :
    Prints d depth [declaration.phrase] fun before => declaration.outlineAfter d depth before := by
  cases declaration with
  | single declaration => exact declaration.prints d depth
  | sequential _ parts =>
    exact .node (text_plain rfl rfl) (prints_declarations d (depth + 1) parts) fun _ => rfl

mutual

theorem Command.prints (d : Decoration) (depth : Nat) : ∀ c : Command,
    Prints d depth [.command c] fun before => c.outlineAfter d depth before
  | .assign _ target value =>
    have htarget : Prints d (depth + 1) [.target target] _ := .node (text_linked rfl rfl) .nil fun _ => rfl
    .node (text_plain rfl rfl) (htarget.append (value.prints d (depth + 1))) fun _ => rfl
  | .blank _ | .error _ => .node (text_plain rfl rfl) .nil fun _ => rfl
  | .call _ _ argument => .node (text_linked rfl rfl) (argument.prints d (depth + 1)) fun _ => rfl
  | .ifThen _ condition body | .while_ _ condition body =>
    .node (text_plain rfl rfl) ((condition.prints d (depth + 1)).append (body.prints d (depth + 1))) fun _ => rfl
  | .ifElse _ condition positive negative =>
    .node (text_plain rfl rfl) ((condition.prints d (depth + 1)).append
      ((positive.prints d (depth + 1)).append (negative.prints d (depth + 1)))) fun _ => rfl
  | .for_ _ counter first last body =>
    have hcounter : Prints d (depth + 1) [.counter counter] _ := .node (text_typed rfl rfl) .nil fun _ => rfl
    .node (text_plain rfl rfl) (hcounter.append ((first.prints d (depth + 1)).append
      ((last.prints d (depth + 1)).append (body.prints d (depth + 1))))) fun _ => rfl
  | .let_ _ declaration body =>
    .node (text_plain rfl rfl) ((declaration.prints d (depth + 1)).append (body.prints d (depth + 1))) fun _ => rfl
  | .sequential _ parts => .node (text_plain rfl rfl) (prints_commands d (depth + 1) parts) fun _ => rfl

theorem prints_commands (d : Decoration) (depth : Nat) : ∀ parts : List Command,
    Prints d depth (parts.map .command) fun before => outlineOfCommandsAfter d depth before parts
  | [] => .nil
  | c :: rest => (c.prints d depth).append (prints_commands d depth rest)

end

/-- The lines of a printed tree are those of its phrases, in the order in which these are visited. -/
theorem Program.outline_eq (p : Program) (links : Option Resolution) (types : Option Types) :
    ∃ visits, Visits 0 [.command p.command] visits ∧
      p.outline links types = visits.map (Phrase.line ⟨links, types, p.sites⟩) := by
  obtain ⟨visits, hvisits, hprint⟩ := p.command.prints ⟨links, types, p.sites⟩ 0
  refine ⟨visits, hvisits, ?_⟩
  rw [Program.outline, hprint]
  rfl

end TriangleCompiler
