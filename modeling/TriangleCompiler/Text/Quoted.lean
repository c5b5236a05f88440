import TriangleCompiler.Text.Combining
import TriangleCompiler.Text.Unprintable

/-! Quoted text: a character or a string between quotes, with everything that a reader could not see or
    would take for the end of the text written as an escape. -/

namespace TriangleCompiler.Text

/-- The code point of `c` in lower-case hexadecimal between braces, after a backslash and a `u`. -/
def codePointEscape (c : Char) : List Char :=
  "\\u\x7b".toList ++ Nat.toDigits 16 c.toNat ++ ['\x7d']

/-- How `c` is written inside text that stands between two `quote`s. -/
def escape (quote c : Char) : List Char :=
  if c = '\x00' then ['\\', '0']
  else if c = '\t' then ['\\', 't']
  else if c = '\r' then ['\\', 'r']
  else if c = '\n' then ['\\', 'n']
  else if c = '\\' ∨ c = quote then ['\\', c]
  else if isCombining c ∨ isUnprintable c then codePointEscape c
  else [c]

/-- The characters `cs` between two `quote`s. -/
def between (quote : Char) (cs : List Char) : String :=
  String.ofList (quote :: cs.flatMap (escape quote) ++ [quote])

/-- The string `s` in double quotes; a single quote in it stands for itself. -/
def quoted (s : String) : String :=
  between '\x22' s.toList

/-- The character `c` in single quotes; a double quote stands for itself. -/
def quotedChar (c : Char) : String :=
  between '\x27' [c]

/-- The list of quoted strings between brackets. -/
def quotedList (xs : List String) : String :=
  "[" ++ ", ".intercalate (xs.map quoted) ++ "]"

end TriangleCompiler.Text
