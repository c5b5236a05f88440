import TriangleCompiler.Machine.Instruction

/-! The values of literals. A literal is kept as it is written; its value is a machine word, if it fits
    into one. -/

namespace TriangleCompiler.Literal

open Machine (Word)

/-- The number that decimal digits stand for; none if there is no digit or something else is among
    them. -/
def natural? (digits : List Char) : Option Nat :=
  if !digits.isEmpty && digits.all Char.isDigit then
    some (digits.foldl (fun n c => 10 * n + (c.toNat - '0'.toNat)) 0)
  else none

/-- The number that an optional sign and decimal digits stand for. -/
def integer? : List Char → Option Int
  | '-' :: digits => (natural? digits).map fun n => -(n : Int)
  | '+' :: digits => (natural? digits).map Int.ofNat
  | digits => (natural? digits).map Int.ofNat

/-- The word that an integer literal stands for. -/
def intValue? (spelling : String) : Option Word :=
  (integer? spelling.toList).bind Word.ofInt?

/-- The character of a character literal: the one behind its first quote. -/
def charOf (spelling : String) : Char :=
  (spelling.toList[1]?).getD '\x00'

/-- The word that a character literal stands for: the code point of its character. -/
def charValue? (spelling : String) : Option Word :=
  Word.ofInt? (charOf spelling).toNat

end TriangleCompiler.Literal
