/-!
# Type annotations

A lambda's parameter may carry a type. Annotations are read and kept in the tree; they
do not restrict what the program computes.
-/

namespace ListLang

/-- The types that have a name. -/
inductive BaseTy where
  | int
  | bool
  | string
  deriving DecidableEq, Repr, Inhabited

/-- The name of a base type. -/
def BaseTy.name : BaseTy → String
  | int => "Int"
  | bool => "Bool"
  | string => "String"

/-- Every base type. -/
def BaseTy.all : List BaseTy := [.int, .bool, .string]

/-- A base type or a function type. -/
inductive Ty where
  | base (name : BaseTy)
  | function (argument result : Ty)
  deriving DecidableEq, Repr, Inhabited

/-- A type as it is written: the arrow groups to the right, so only a function type on
its left stands in parentheses. -/
def Ty.text : Ty → String
  | base b => b.name
  | function (base b) result => b.name ++ " -> " ++ result.text
  | function argument result => "(" ++ argument.text ++ ") -> " ++ result.text

end ListLang
