import ListLang.Integer
import ListLang.ListOperation
import ListLang.Operator
import ListLang.Ty

/-!
# Tokens

The units a program's text is cut into. Words that the language reserves are tokens of
their own; every other word is an identifier. Line ends and blanks are tokens as well,
though a parser never sees them.

## Main definitions

* `Token` — the units.
* `Token.spelling` — a token as it is written in a program.
* `Token.text` — a token as it is named in messages.
* `Token.ofWord` — the token a word stands for.
-/

namespace ListLang

/-- Something with the line it starts on. -/
structure Located (α : Type) where
  item : α
  line : Nat
  deriving DecidableEq, Repr, Inhabited

/-- The reserved words that structure expressions. -/
inductive Keyword where
  | ifWord
  | thenWord
  | elseWord
  | letWord
  | recWord
  | inWord
  | listWord
  deriving DecidableEq, Repr, Inhabited

namespace Keyword

/-- Every keyword. -/
def all : List Keyword := [ifWord, thenWord, elseWord, letWord, recWord, inWord, listWord]

/-- The keyword as it is written. -/
def spelling : Keyword → String
  | ifWord => "if"
  | thenWord => "then"
  | elseWord => "else"
  | letWord => "let"
  | recWord => "rec"
  | inWord => "in"
  | listWord => "List"

end Keyword

/-- Punctuation marks. -/
inductive Mark where
  | leftParen
  | rightParen
  | leftBracket
  | rightBracket
  | comma
  | colon
  | backslash
  | arrow
  | fatArrow
  | equals
  deriving DecidableEq, Repr, Inhabited

/-- The mark as it is written. -/
def Mark.spelling : Mark → String
  | leftParen => "("
  | rightParen => ")"
  | leftBracket => "["
  | rightBracket => "]"
  | comma => ","
  | colon => ":"
  | backslash => "\\"
  | arrow => "->"
  | fatArrow => "=>"
  | equals => "="

/-- The units of a program's text. -/
inductive Token where
  | keyword (k : Keyword)
  | typeName (t : BaseTy)
  | listOperation (op : ListOperation)
  | bool (b : Bool)
  | integer (n : Int64)
  | string (s : String)
  | identifier (name : String)
  | mark (m : Mark)
  | operator (op : Operator)
  | lineEnd
  | blank
  | endOfInput
  deriving DecidableEq, Repr, Inhabited

namespace Token

/-- The token as it is written. A blank stands for any run of blanks and the end of
input has no writing. -/
def spelling : Token → String
  | keyword k => k.spelling
  | typeName t => t.name
  | listOperation op => op.keyword
  | bool b => if b then "true" else "false"
  | integer n => Integer.text n
  | string s => "\"" ++ s ++ "\""
  | identifier name => name
  | mark m => m.spelling
  | operator op => op.spelling
  | lineEnd => "\n"
  | blank => " "
  | endOfInput => ""

/-- The token as it is named in messages. -/
def text : Token → String
  | bool b => "boolean '" ++ (bool b).spelling ++ "'"
  | integer n => "integer '" ++ (integer n).spelling ++ "'"
  | string s => "string " ++ (string s).spelling
  | identifier name => "identifier '" ++ name ++ "'"
  | lineEnd => "newline"
  | blank => "whitespace"
  | endOfInput => "end of input"
  | token => "'" ++ token.spelling ++ "'"

/-- The tokens that are written as words, identifiers apart. -/
def reserved : List Token :=
  Keyword.all.map keyword ++ BaseTy.all.map typeName ++
    ListOperation.all.map listOperation ++ [bool true, bool false]

/-- The token that the word `w` stands for. -/
def ofWord (w : String) : Token :=
  (reserved.find? (·.spelling == w)).getD (identifier w)

/-- Whether the token only separates others. -/
def isLayout (t : Token) : Bool := t == lineEnd || t == blank

/-- The operator that the token writes. -/
def operator? : Token → Option Operator
  | operator op => some op
  | _ => none

end Token

end ListLang
