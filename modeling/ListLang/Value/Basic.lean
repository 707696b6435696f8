import ListLang.Expr.Basic
import ListLang.Integer

/-!
# Values

Integers, booleans, strings and builtin functions are values by themselves. Lists and
closures live in a store, and as values they are the places where they live: two values
with one place are the same list, and a change of it shows through both.

## Main definitions

* `Value` — values.
* `Value.kind` — the kind of a value.
* `Builtin` — the functions that every program can use.
-/

namespace ListLang

/-- The functions that every program can use. -/
inductive Builtin where
  | firstChar
  | remainingChars
  | charCode
  | codeChar
  deriving DecidableEq, Repr, Inhabited

namespace Builtin

/-- Every builtin. -/
def all : List Builtin := [firstChar, remainingChars, charCode, codeChar]

/-- The name that a program calls the builtin by. -/
def name : Builtin → String
  | firstChar => "firstChar"
  | remainingChars => "remainingChars"
  | charCode => "charCode"
  | codeChar => "codeChar"

/-- The builtin called `name`. -/
def ofName? (name : String) : Option Builtin := all.find? (·.name == name)

end Builtin

/-- The place of a list in a store. -/
structure ListId where
  index : Nat
  deriving DecidableEq, Repr, Inhabited

/-- The place of a closure in a store. -/
structure ClosureId where
  index : Nat
  deriving DecidableEq, Repr, Inhabited

/-- The results of expressions. -/
inductive Value where
  | int (n : Int64)
  | bool (b : Bool)
  | string (s : String)
  | list (id : ListId)
  | closure (id : ClosureId)
  | builtin (b : Builtin)
  deriving DecidableEq, Repr, Inhabited

/-- The kind of a value. -/
def Value.kind : Value → Kind
  | int _ => .int
  | bool _ => .bool
  | string _ => .string
  | list _ => .list
  | closure _ | builtin _ => .function

/-- The value that a constant writes. -/
def Literal.value : Literal → Value
  | integer n => .int n
  | bool b => .bool b
  | string s => .string s

end ListLang
