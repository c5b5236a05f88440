import TriangleCompiler.Machine.Code
import TriangleCompiler.Text.Quoted

/-! The two forms in which code is written to a file: a listing to read, and an image of five bytes for
    each instruction. -/

namespace TriangleCompiler.Machine

/-- The forms of written code. -/
inductive Format where
  | text
  | binary
deriving DecidableEq, Repr

namespace Format

/-- Every form, once. -/
def all : List Format := [.text, .binary]

/-- The name of a form. -/
def name : Format → String
  | text => "text"
  | binary => "binary"

/-- The extension of the files that hold a form. -/
def extension : Format → String
  | text => "txt"
  | binary => "tam"

end Format

/-- The address, the words and the numbers of an instruction; the first two are padded to four and
    twenty characters. -/
def Instruction.line (address : Nat) (i : Instruction) : String :=
  let number := String.ofList (List.leftpad 4 ' ' (toString address).toList)
  let words := String.ofList (List.rightpad 20 ' ' i.mnemonic.toList)
  s!"{number}: {words} ({i.fields})\n"

namespace Code

/-- The lines of a listing, one for each instruction. -/
def lines (c : Code) : List String :=
  c.instructions.toList.zipIdx.map fun (i, address) => i.line address

/-- Code as a listing. -/
def text (c : Code) : String :=
  String.join c.lines

/-- Code as an image. -/
def binary (c : Code) : List UInt8 :=
  c.instructions.toList.flatMap Instruction.bytes

/-- The mnemonics of the instructions as a list of quoted strings. -/
def quotedText (c : Code) : String :=
  Text.quotedList (c.instructions.toList.map Instruction.mnemonic)

/-- Code as the bytes of a file. -/
def bytes (c : Code) : Format → List UInt8
  | .text => c.text.toUTF8.toList
  | .binary => c.binary

end Code

end TriangleCompiler.Machine
