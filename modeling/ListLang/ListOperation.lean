/-!
# List operations

The ten operations on lists. Each is a keyword of the language followed by a fixed
number of operands, the first of which is the list.
-/

namespace ListLang

/-- The operations on lists. -/
inductive ListOperation where
  | getSize
  | isEmpty
  | join
  | append
  | removeAtPosition
  | getValue
  | insertAt
  | map
  | filter
  | fold
  deriving DecidableEq, Repr, Inhabited

namespace ListOperation

/-- Every operation. -/
def all : List ListOperation :=
  [getSize, isEmpty, join, append, removeAtPosition, getValue, insertAt, map, filter, fold]

/-- The operation's name without the leading `List`. -/
def name : ListOperation → String
  | getSize => "GetSize"
  | isEmpty => "IsEmpty"
  | join => "Join"
  | append => "Append"
  | removeAtPosition => "RemoveAtPosition"
  | getValue => "GetValue"
  | insertAt => "InsertAt"
  | map => "Map"
  | filter => "Filter"
  | fold => "Fold"

/-- The word that stands for the operation in a program and in messages. -/
def keyword (op : ListOperation) : String := "List" ++ op.name

/-- The number of operands. -/
def arity : ListOperation → Nat
  | getSize | isEmpty => 1
  | join | append | removeAtPosition | getValue | map | filter | fold => 2
  | insertAt => 3

end ListOperation

end ListLang
