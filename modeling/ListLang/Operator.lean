/-!
# Binary operators

An operator binds its operands with two powers: the left one decides whether an
expression read so far is taken as its left operand, the right one is the least power
of the operators inside its right operand. Where the right power is the greater, a
chain groups to the left; `==` alone groups to the right.
-/

namespace ListLang

/-- The operators written between two operands. -/
inductive Operator where
  | equality
  | add
  | sub
  | concat
  | mul
  | div
  | mod
  deriving DecidableEq, Repr, Inhabited

namespace Operator

/-- The operator as it is written in a program. -/
def spelling : Operator → String
  | equality => "=="
  | add => "+"
  | sub => "-"
  | concat => "#"
  | mul => "*"
  | div => "/"
  | mod => "%"

/-- The power with which an operator takes what stands on its left. -/
def leftPower : Operator → Nat
  | equality => 2
  | add | sub | concat => 3
  | mul | div | mod => 5

/-- The least left power of the operators in the right operand. -/
def rightPower : Operator → Nat
  | equality => 1
  | add | sub | concat => 4
  | mul | div | mod => 6

end Operator

end ListLang
