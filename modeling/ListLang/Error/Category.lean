/-!
# Categories of errors

Every error, of parsing or of evaluation, belongs to one of eight categories.
-/

namespace ListLang

/-- What an error is about. -/
inductive Category where
  | syntaxError
  | typeMismatch
  | unboundVariable
  | indexOutOfRange
  | arityOrShape
  | notAFunction
  | arithmetic
  | invalidArgument
  deriving DecidableEq, Repr, Inhabited

/-- The category's name. -/
def Category.text : Category → String
  | syntaxError => "syntax error"
  | typeMismatch => "type mismatch"
  | unboundVariable => "unbound variable"
  | indexOutOfRange => "index out of range"
  | arityOrShape => "arity or shape error"
  | notAFunction => "not a function"
  | arithmetic => "arithmetic error"
  | invalidArgument => "invalid argument"

end ListLang
