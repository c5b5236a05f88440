import TriangleCompiler.Machine.Listing
import TriangleCompiler.Program.Printer

/-! Writing trees and code into buffers. A tree is written piece by piece, and code in one piece. -/

namespace TriangleCompiler

/-- Writes the printed tree of a program. -/
def Program.write (p : Program) (links : Option Resolution) (types : Option Types) (b : Buffer) :
    Option WriteError × Buffer :=
  (p.command.print ⟨links, types, p.sites⟩ 0).outcome b

/-- Writes code in one of its forms. -/
def Machine.Code.write (c : Machine.Code) (format : Machine.Format) (b : Buffer) :
    Option WriteError × Buffer :=
  b.write (c.bytes format)

end TriangleCompiler
