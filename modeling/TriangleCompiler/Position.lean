/-! Places in a source text. -/

namespace TriangleCompiler

/-- A line and a column, both counted from 1. In a text of less than 2^31 characters both are signed words
    of 32 bits; longer texts are out of scope. -/
structure Position where
  line : Int
  column : Int
deriving DecidableEq, Repr

namespace Position

/-- The place of what no source text declares. -/
def builtin : Position := ⟨-1, -1⟩

/-- The place of the first character of a text. -/
def start : Position := ⟨1, 1⟩

/-- Whether `p` is the place of what no source text declares. -/
def isBuiltin (p : Position) : Bool :=
  p = builtin

/-- The place after a character `c` at `p`: a line feed starts the next line, anything else takes one
    column. -/
def after (p : Position) (c : Char) : Position :=
  if c = '\n' then ⟨p.line + 1, 1⟩ else ⟨p.line, p.column + 1⟩

/-- The place after the characters `cs`, of which the first is at `p`. -/
def afterAll (p : Position) (cs : List Char) : Position :=
  cs.foldl after p

/-- A position as `line:column`. -/
def text (p : Position) : String :=
  if p.isBuiltin then "<builtin>" else s!"{p.line}:{p.column}"

/-- A position with the word that says what it is. -/
def label (p : Position) : String :=
  s!"Position({p.text})"

end Position

/-- A value together with the place it belongs to. -/
structure Located (α : Type) where
  position : Position
  value : α
deriving DecidableEq, Repr

/-- The place and then the value, written by `render`. -/
def Located.text {α : Type} (render : α → String) (x : Located α) : String :=
  s!"{x.position.text}: {render x.value}"

end TriangleCompiler
