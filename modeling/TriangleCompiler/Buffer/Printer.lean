/-! Buffers of a fixed size, and output that is written into them piece by piece. The first piece for which
    there is no room ends the output. -/

namespace TriangleCompiler

/-- The bytes that were written, and the number of bytes that there is room for in all. -/
structure Buffer where
  capacity : Nat
  bytes : Array UInt8
deriving DecidableEq, Repr

/-- Why output could not be written. -/
inductive WriteError where
  | full
deriving DecidableEq, Repr

/-- The wording of a write error. -/
def WriteError.message : WriteError → String
  | full => "failed to write whole buffer"

namespace Buffer

/-- A buffer without bytes. -/
def empty (capacity : Nat) : Buffer := ⟨capacity, #[]⟩

/-- Writes bytes behind those that there are. If there is no room for all of them, as many as there is
    room for are still written. -/
def write (b : Buffer) (bytes : List UInt8) : Option WriteError × Buffer :=
  let room := b.capacity - b.bytes.size
  (if bytes.length ≤ room then none else some .full, ⟨b.capacity, b.bytes ++ bytes.take room⟩)

end Buffer

/-- Output on its way into a buffer. It ends at the first error, and what was written before stays. -/
abbrev Printer := EStateM WriteError Buffer Unit

namespace Printer

/-- Writes a text. -/
def text (s : String) : Printer := fun b =>
  match b.write s.toUTF8.data.toList with
  | (none, b) => .ok () b
  | (some e, b) => .error e b

/-- Writes texts, one after the other. -/
def texts (pieces : List String) : Printer :=
  pieces.forM text

/-- The error that ended the output, if there is one, and the buffer behind it. -/
def outcome (x : Printer) (b : Buffer) : Option WriteError × Buffer :=
  match x b with
  | .ok _ b => (none, b)
  | .error e b => (some e, b)

end Printer

end TriangleCompiler
