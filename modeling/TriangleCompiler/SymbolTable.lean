import Std.Data.TreeMap
import TriangleCompiler.Fault

/-! Lexical scopes: what the names that are in sight stand for. A name is declared once in a scope, and an
    inner scope may declare it again. -/

namespace TriangleCompiler

/-- What the names declared in one scope stand for. -/
abbrev Scope := Std.TreeMap String Link

/-- The scopes that are open, from the innermost outwards. The outermost one is never closed, so there
    is always one. -/
structure SymbolTable where
  inner : Scope
  outer : List Scope

namespace SymbolTable

/-- A table with one scope, without names. -/
def empty : SymbolTable := ⟨∅, []⟩

/-- The number of open scopes. -/
def depth (t : SymbolTable) : Nat :=
  t.outer.length + 1

/-- Opens a scope inside the others. -/
def openScope (t : SymbolTable) : SymbolTable :=
  ⟨∅, t.inner :: t.outer⟩

/-- Closes the innermost scope. -/
def closeScope (t : SymbolTable) : Except Fault SymbolTable :=
  match t.outer with
  | [] => .error .outermostScope
  | scope :: rest => .ok ⟨scope, rest⟩

/-- Declares a name in the innermost scope; if that scope declares it already, tells what it stands
    for there. -/
def enter (t : SymbolTable) (name : String) (link : Link) : Except Link SymbolTable :=
  match t.inner[name]? with
  | some existing => .error existing
  | none => .ok { t with inner := t.inner.insert name link }

/-- What a name stands for: the declaration in the innermost of the scopes that declare it. -/
def retrieve? (t : SymbolTable) (name : String) : Option Link :=
  (t.inner :: t.outer).findSome? (·[name]?)

/-- Enters builtins, none of which may have the name of another one. -/
def enterBuiltins (t : SymbolTable) : List Builtin → Except Fault SymbolTable
  | [] => .ok t
  | b :: rest =>
    match t.enter b.name (.builtin b) with
    | .ok t => t.enterBuiltins rest
    | .error existing => .error (.builtinDeclared existing)

/-- A table with builtins in its only scope. -/
def ofBuiltins (bs : List Builtin) : Except Fault SymbolTable :=
  empty.enterBuiltins bs

end SymbolTable

end TriangleCompiler
