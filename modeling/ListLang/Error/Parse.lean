import ListLang.Error.Category
import ListLang.Expr.Basic
import ListLang.Token.Lexeme

/-!
# Parse errors

Why a text is no program. An error is a cause and the line it is reported on; the
wording of all causes stands in `ParseError.Cause.text`.
-/

namespace ListLang

/-- What a parser was about to read. -/
inductive Expectation where
  | token (t : Token)
  | binder
  | listOperation
  deriving DecidableEq, Repr, Inhabited

/-- The expectation's name in messages. -/
def Expectation.text : Expectation → String
  | token t => t.text
  | binder => "a binder"
  | listOperation => "a list operation"

/-- The words of a fault. -/
def Fault.text : Fault → String
  | unterminatedString => "Unterminated string literal."
  | literalTooLarge => "Literal is too large."
  | unexpectedCharacter c => "Unexpected character '" ++ String.singleton c ++ "'."

/-- Why a text is no program. -/
inductive ParseError.Cause where
  | fault (f : Fault)
  | unexpectedToken (expected : Expectation) (found : Token)
  | expectedExpression (found : Token)
  | expectedType (found : Token)
  | missingArgument (op : ListOperation)
  | emptyList
  | malformedList
  | mixedList (expected found : Tag)
  | trailingTokens (token : Token)
  deriving DecidableEq, Repr, Inhabited

/-- A cause and the line it is reported on. -/
structure ParseError where
  line : Nat
  cause : ParseError.Cause
  deriving DecidableEq, Repr, Inhabited

namespace ParseError

/-- The words of a cause. -/
def Cause.text : Cause → String
  | fault f => f.text
  | unexpectedToken expected found =>
    "Expected " ++ expected.text ++ " but saw " ++ found.text ++ "."
  | expectedExpression found => "Expected an expression but saw " ++ found.text ++ "."
  | expectedType found => "Expected a type but saw " ++ found.text ++ "."
  | missingArgument op =>
    "Missing argument for " ++ op.keyword ++ ", which takes " ++ toString op.arity ++
      " operand(s)."
  | emptyList => "List literals need at least one element."
  | malformedList => "Malformed list literal."
  | mixedList expected found =>
    "Every element of a list has to be the same kind; expected " ++ expected.text ++
      " but found " ++ found.text ++ "."
  | trailingTokens token =>
    "Extra tokens after expression, starting at " ++ token.text ++ "."

/-- The category of a cause. A list literal of mixed forms counts as a type mismatch. -/
def Cause.category : Cause → Category
  | mixedList .. => .typeMismatch
  | _ => .syntaxError

/-- The message of an error. -/
def message (e : ParseError) : String :=
  "Error on line " ++ toString e.line ++ ": " ++ e.cause.text

/-- The category of an error. -/
def category (e : ParseError) : Category := e.cause.category

end ParseError

end ListLang
