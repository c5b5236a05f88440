import TriangleCompiler.Position
import TriangleCompiler.Text.Quoted

/-! Tokens: the words of a source text, each with the place where it starts. -/

namespace TriangleCompiler

/-! ### Keywords -/

/-- The reserved words. -/
inductive Keyword where
  | if_
  | then_
  | else_
  | endif
  | while_
  | let_
  | in_
  | begin_
  | end_
  | for_
  | to_
  | do_
  | const
  | var
  | next
deriving DecidableEq, Repr

namespace Keyword

/-- Every keyword, once. -/
def all : List Keyword :=
  [.if_, .then_, .else_, .endif, .while_, .let_, .in_, .begin_, .end_, .for_, .to_, .do_, .const, .var,
   .next]

/-- How a keyword is written in a source text. -/
def spelling : Keyword → String
  | if_ => "if"
  | then_ => "then"
  | else_ => "else"
  | endif => "endif"
  | while_ => "while"
  | let_ => "let"
  | in_ => "in"
  | begin_ => "begin"
  | end_ => "end"
  | for_ => "for"
  | to_ => "to"
  | do_ => "do"
  | const => "const"
  | var => "var"
  | next => "next"

/-- How messages name a keyword. -/
def text : Keyword → String
  | if_ => "If"
  | then_ => "Then"
  | else_ => "Else"
  | endif => "EndIf"
  | while_ => "While"
  | let_ => "Let"
  | in_ => "In"
  | begin_ => "Begin"
  | end_ => "End"
  | for_ => "For"
  | to_ => "To"
  | do_ => "Do"
  | const => "Const"
  | var => "Var"
  | next => "Next"

/-- The keyword with this spelling. -/
def ofSpelling? (word : String) : Option Keyword :=
  all.find? (·.spelling = word)

end Keyword

namespace Token

/-! ### Kinds of tokens -/

/-- What a token is. -/
inductive Kind where
  | intLiteral
  | identifier
  /-- One of `+ - * / < > = !`. -/
  | operator
  | charLiteral
  | keyword (word : Keyword)
  /-- The two characters `:=`. -/
  | becomes
  | colon
  | semicolon
  /-- The sign `~` between a constant and its value. -/
  | tilde
  | leftBracket
  | rightBracket
  | endOfText
  /-- A character that starts no token. -/
  | unknownInput
  /-- A quote that no single graphic character and closing quote follow. -/
  | unacceptableSequence
deriving DecidableEq, Repr

namespace Kind

/-- Every kind, once. -/
def all : List Kind :=
  [.intLiteral, .identifier, .operator, .charLiteral] ++ Keyword.all.map .keyword ++
    [.becomes, .colon, .semicolon, .tilde, .leftBracket, .rightBracket, .endOfText, .unknownInput,
     .unacceptableSequence]

/-- How messages name a kind. -/
def text : Kind → String
  | intLiteral => "IntLiteral"
  | identifier => "Identifier"
  | operator => "Operator"
  | charLiteral => "CharLiteral"
  | keyword word => word.text
  | becomes => "Becomes"
  | colon => "Colon"
  | semicolon => "Semicolon"
  | tilde => "Is"
  | leftBracket => "LeftBracket"
  | rightBracket => "RightBracket"
  | endOfText => "EndOfText"
  | unknownInput => "ErrorUnknownInput"
  | unacceptableSequence => "ErrorUnacceptableSequence"

/-- The kind with this name. -/
def ofText? (name : String) : Option Kind :=
  all.find? (·.text = name)

/-- Whether a token of this kind is no word of the language. -/
def isError : Kind → Bool
  | unknownInput | unacceptableSequence => true
  | _ => false

end Kind
end Token

/-! ### Tokens -/

/-- A word of a source text and the place of its first character. -/
structure Token where
  kind : Token.Kind
  spelling : String
  position : Position
deriving DecidableEq, Repr

namespace Token

/-- Whether a token marks the end of the text. -/
def isEnd (t : Token) : Bool :=
  t.kind = .endOfText

/-- A token as a sentence says it. -/
def text (t : Token) : String :=
  s!"{t.kind.text} {Text.quoted t.spelling} at {t.position.text}"

/-- A token as a line of a token dump shows it. -/
def dump (t : Token) : String :=
  s!"Token({t.kind.text}, {Text.quoted t.spelling}, {t.position.text})"

end Token

end TriangleCompiler
