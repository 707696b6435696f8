import ListLang.Error.Category
import ListLang.Value.Basic

/-!
# Evaluation errors

Why a program has no value. An error is a cause and the line it is reported on; the
wording of all causes stands in `EvalError.Cause.text`.
-/

namespace ListLang

/-- Why a program has no value. -/
inductive EvalError.Cause where
  | unboundVariable (name : String)
  | typeMismatch (context : String) (expected found : Kind)
  | incompatibleOperands (op : Operator) (left right : Kind)
  | elementMismatch (op : ListOperation) (expected found : Kind)
  | unsupportedElement (tag : Tag)
  | notAFunction (found : Kind)
  | indexOutOfRange (op : ListOperation) (index : Int64) (size : Nat)
  | wrongArity (op : ListOperation) (given : Nat)
  | emptyLiteral
  | foldShape
  | foldSize (size : Nat)
  | divisionByZero
  | overflow (op : Operator)
  | noFirstChar
  | noCharOfCode (code : Int64)
  deriving DecidableEq, Repr, Inhabited

/-- A cause and the line it is reported on. -/
structure EvalError where
  line : Nat
  cause : EvalError.Cause
  deriving DecidableEq, Repr, Inhabited

namespace EvalError

/-- The words of a cause. -/
def Cause.text : Cause → String
  | unboundVariable name => "Unbound variable '" ++ name ++ "'."
  | typeMismatch context expected found =>
    "Type mismatch in " ++ context ++ ": expected " ++ expected.expectation ++
      " but found " ++ found.text ++ "."
  | incompatibleOperands op left right =>
    "Cannot use " ++ op.spelling ++ " on " ++ left.text ++ " and " ++ right.text ++ "."
  | elementMismatch op expected found =>
    op.keyword ++ " cannot put a " ++ found.text ++ " into a list of " ++ expected.text ++ "."
  | unsupportedElement tag => "Unsupported data type in list literal: " ++ tag.text ++ "."
  | notAFunction found => "A value of type " ++ found.text ++ " is not a function."
  | indexOutOfRange op index size =>
    op.keyword ++ " index " ++ Integer.text index ++ " is out of range for a list of size " ++
      toString size ++ "."
  | wrongArity op given =>
    op.keyword ++ " takes " ++ toString op.arity ++ " operand(s) but was given " ++
      toString given ++ "."
  | emptyLiteral => "A list literal needs at least one element."
  | foldShape => "ListFold needs a function of the form \\acc => \\x => ...."
  | foldSize size =>
    "ListFold needs at least 2 elements but the list has " ++ toString size ++ "."
  | divisionByZero => "Division by zero."
  | overflow op => "Integer overflow while computing " ++ op.spelling ++ "."
  | noFirstChar =>
    "Invalid argument to " ++ Builtin.charCode.name ++ ": the string is empty."
  | noCharOfCode code =>
    "Invalid argument to " ++ Builtin.codeChar.name ++ ": " ++ Integer.text code ++
      " is not a character code."

/-- The category of a cause. -/
def Cause.category : Cause → Category
  | unboundVariable _ => .unboundVariable
  | typeMismatch .. | incompatibleOperands .. | elementMismatch .. | unsupportedElement _ =>
    .typeMismatch
  | notAFunction _ => .notAFunction
  | indexOutOfRange .. => .indexOutOfRange
  | wrongArity .. | emptyLiteral | foldShape | foldSize _ => .arityOrShape
  | divisionByZero | overflow _ => .arithmetic
  | noFirstChar | noCharOfCode _ => .invalidArgument

/-- The message of an error. -/
def message (e : EvalError) : String :=
  "Error on line " ++ toString e.line ++ ": " ++ e.cause.text

/-- The category of an error. -/
def category (e : EvalError) : Category := e.cause.category

end EvalError

end ListLang
