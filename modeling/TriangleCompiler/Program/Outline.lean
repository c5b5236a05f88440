import Std.Data.TreeMap
import TriangleCompiler.NodeTable
import TriangleCompiler.Program

/-! Printed trees: one line for each node, indented by its depth, with what the later stages found out
    about it. -/

namespace TriangleCompiler

namespace Outline

/-- A line of a printed tree. -/
structure Line where
  depth : Nat
  text : String
deriving DecidableEq, Repr

/-- A text of `n` spaces. -/
def spaces (n : Nat) : String :=
  "".pushn ' ' n

theorem toList_spaces (n : Nat) : (spaces n).toList = List.replicate n ' ' := by
  rw [spaces, String.pushn_eq_repeat_push]
  induction n with
  | zero => rfl
  | succ n ih => rw [Nat.repeat, String.toList_push, ih, List.replicate_succ']

/-- A line with two spaces for each level of its depth, and its line feed. -/
def Line.render (l : Line) : String :=
  spaces (2 * l.depth) ++ l.text ++ "\n"

/-- The name that is declared somewhere, and the place of its declaration. -/
structure Site where
  name : String
  position : Position
deriving DecidableEq, Repr

/-- Declarations by the numbers of their nodes. -/
abbrev Sites := Std.TreeMap NodeId Site

/-- What is shown next to the nodes. -/
structure Decoration where
  links : Option Resolution
  types : Option Types
  /-- The declarations of the program itself. -/
  sites : Sites

namespace Decoration

/-- The declaration that a node declares, or the node's number if it declares none. -/
def siteText (d : Decoration) (id : NodeId) : String :=
  match d.sites[id]? with
  | some site => s!" {site.name}@{site.position.text}"
  | none => s!" {NodeId.text id}"

/-- An arrow to what a name stands for, if it is linked. -/
def link (d : Decoration) (id : NodeId) : String :=
  match d.links.bind (·.get? id) with
  | none => ""
  | some (.builtin b) => s!" -> builtin {b.name}"
  | some (.const target) => " -> const" ++ d.siteText target
  | some (.var target) => " -> var" ++ d.siteText target

/-- The type of a node, if it has one. -/
def type (d : Decoration) (id : NodeId) : String :=
  match d.types.bind (·.get? id) with
  | none => ""
  | some type => s!" %: {type.name}"

end Decoration

/-- What a node is and where it starts. -/
def head (what : String) (position : Position) : String :=
  s!"{what} ({position.text})"

/-- What a named node is, its name and where it starts. -/
def namedHead (what name : String) (position : Position) : String :=
  s!"{what} {name} ({position.text})"

end Outline

open Outline

mutual

/-- The lines of an expression, behind those of `before`. -/
def Expr.outlineAfter (d : Decoration) (depth : Nat) (before : Array Line) : Expr → Array Line
  | .int tag spelling =>
    before.push ⟨depth, namedHead "int" spelling tag.position ++ d.type tag.id⟩
  | .char tag spelling =>
    before.push ⟨depth, namedHead "char" spelling tag.position ++ d.type tag.id⟩
  | .name tag name =>
    before.push
      ⟨depth, namedHead "ident" name.spelling tag.position ++ d.link name.id ++ d.type tag.id⟩
  | .call tag callee argument =>
    argument.outlineAfter d (depth + 1) <| before.push
      ⟨depth, namedHead "call" callee.spelling tag.position ++ d.link callee.id ++ d.type tag.id⟩
  | .unary tag op operand =>
    operand.outlineAfter d (depth + 1) <| before.push
      ⟨depth, namedHead "unary" op.spelling tag.position ++ d.link op.id ++ d.type tag.id⟩
  | .binary tag op lhs rhs =>
    rhs.outlineAfter d (depth + 1) <| lhs.outlineAfter d (depth + 1) <| before.push
      ⟨depth, namedHead "binary" op.spelling tag.position ++ d.link op.id ++ d.type tag.id⟩
  | .error tag => before.push ⟨depth, head "error" tag.position⟩

/-- The lines of an argument, behind those of `before`. -/
def Argument.outlineAfter (d : Decoration) (depth : Nat) (before : Array Line) :
    Argument → Array Line
  | .blank tag => before.push ⟨depth, head "blank-param" tag.position⟩
  | .value tag expr =>
    expr.outlineAfter d (depth + 1) <| before.push
      ⟨depth, head "param" tag.position ++ d.type tag.id⟩
  | .var tag name =>
    before.push
      ⟨depth, namedHead "var-param" name.spelling tag.position ++ d.link name.id ++ d.type tag.id⟩
  | .error tag => before.push ⟨depth, head "error" tag.position⟩

end

/-- The lines of one declaration, behind those of `before`. -/
def SingleDeclaration.outlineAfter (d : Decoration) (depth : Nat) (before : Array Line) :
    SingleDeclaration → Array Line
  | .const tag name value =>
    value.outlineAfter d (depth + 1) <| before.push
      ⟨depth, namedHead "const" name.spelling tag.position ++ d.type tag.id⟩
  | .var tag name type =>
    (before.push ⟨depth, namedHead "var" name.spelling tag.position ++ d.type tag.id⟩).push
      ⟨depth + 1, namedHead "type" type.name.spelling type.name.position ++ d.link type.name.id ++
        d.type type.id⟩
  | .error position => before.push ⟨depth, head "error" position⟩

/-- The lines of what stands between `let` and `in`, behind those of `before`. -/
def Declaration.outlineAfter (d : Decoration) (depth : Nat) (before : Array Line) :
    Declaration → Array Line
  | .single declaration => declaration.outlineAfter d depth before
  | .sequential position parts =>
    parts.foldl (SingleDeclaration.outlineAfter d (depth + 1))
      (before.push ⟨depth, head "sequential" position⟩)

mutual

/-- The lines of a command, behind those of `before`. -/
def Command.outlineAfter (d : Decoration) (depth : Nat) (before : Array Line) : Command → Array Line
  | .assign position target value =>
    value.outlineAfter d (depth + 1) <|
      (before.push ⟨depth, head "assign" position⟩).push
        ⟨depth + 1, namedHead "ident" target.spelling target.position ++ d.link target.id⟩
  | .blank position => before.push ⟨depth, head "blank" position⟩
  | .call position callee argument =>
    argument.outlineAfter d (depth + 1) <| before.push
      ⟨depth, namedHead "call" callee.spelling position ++ d.link callee.id⟩
  | .ifThen position condition body =>
    body.outlineAfter d (depth + 1) <| condition.outlineAfter d (depth + 1) <|
      before.push ⟨depth, head "if" position⟩
  | .ifElse position condition positive negative =>
    negative.outlineAfter d (depth + 1) <| positive.outlineAfter d (depth + 1) <|
      condition.outlineAfter d (depth + 1) <| before.push ⟨depth, head "if-else" position⟩
  | .while_ position condition body =>
    body.outlineAfter d (depth + 1) <| condition.outlineAfter d (depth + 1) <|
      before.push ⟨depth, head "while" position⟩
  | .for_ position counter first last body =>
    body.outlineAfter d (depth + 1) <| last.outlineAfter d (depth + 1) <|
      first.outlineAfter d (depth + 1) <|
        (before.push ⟨depth, head "for" position⟩).push
          ⟨depth + 1, namedHead "var" counter.name.spelling counter.name.position ++
            d.type counter.id⟩
  | .let_ position declaration body =>
    body.outlineAfter d (depth + 1) <| declaration.outlineAfter d (depth + 1) <|
      before.push ⟨depth, head "let" position⟩
  | .sequential position parts =>
    outlineOfCommandsAfter d (depth + 1) (before.push ⟨depth, head "sequential" position⟩) parts
  | .error position => before.push ⟨depth, head "error" position⟩

/-- The lines of commands, behind those of `before`. -/
def outlineOfCommandsAfter (d : Decoration) (depth : Nat) (before : Array Line) :
    List Command → Array Line
  | [] => before
  | c :: rest => outlineOfCommandsAfter d depth (c.outlineAfter d depth before) rest

end

/-! ### Declarations -/

/-- The declaration of a name, added to `sites`. -/
def SingleDeclaration.sitesAfter (sites : Outline.Sites) : SingleDeclaration → Outline.Sites
  | .const tag name _ | .var tag name _ => sites.insert tag.id ⟨name.spelling, tag.position⟩
  | .error _ => sites

mutual

/-- The declarations in a command, added to `sites`. -/
def Command.sitesAfter (sites : Outline.Sites) : Command → Outline.Sites
  | .assign .. | .blank _ | .call .. | .error _ => sites
  | .ifThen _ _ body | .while_ _ _ body => body.sitesAfter sites
  | .ifElse _ _ positive negative => negative.sitesAfter (positive.sitesAfter sites)
  | .for_ _ counter _ _ body =>
    body.sitesAfter (sites.insert counter.id ⟨counter.name.spelling, counter.name.position⟩)
  | .let_ _ declaration body =>
    body.sitesAfter (declaration.parts.foldl SingleDeclaration.sitesAfter sites)
  | .sequential _ parts => sitesOfCommandsAfter sites parts

/-- The declarations in commands, added to `sites`. -/
def sitesOfCommandsAfter (sites : Outline.Sites) : List Command → Outline.Sites
  | [] => sites
  | c :: rest => sitesOfCommandsAfter (c.sitesAfter sites) rest

end

/-- The declarations in a program. -/
def Program.sites (p : Program) : Outline.Sites :=
  p.command.sitesAfter ∅

/-- The printed tree of a program, line by line. -/
def Program.outline (p : Program) (links : Option Resolution) (types : Option Types) : List Line :=
  (p.command.outlineAfter ⟨links, types, p.sites⟩ 0 #[]).toList

/-- The printed tree of a program. -/
def Program.render (p : Program) (links : Option Resolution) (types : Option Types) : String :=
  String.join ((p.outline links types).map Line.render)

end TriangleCompiler
