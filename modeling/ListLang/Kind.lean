/-!
# Kinds of values

Every value has one of five kinds, and every list has one kind for all its elements.
-/

namespace ListLang

/-- The kind of a value. -/
inductive Kind where
  | int
  | bool
  | string
  | list
  | function
  deriving DecidableEq, Repr, Inhabited

namespace Kind

/-- The kind's name in messages. -/
def text : Kind → String
  | int => "Int"
  | bool => "Bool"
  | string => "String"
  | list => "List"
  | function => "Function"

/-- The kind as something a message says was expected. -/
def expectation : Kind → String
  | function => "a function"
  | kind => kind.text

end Kind

end ListLang
