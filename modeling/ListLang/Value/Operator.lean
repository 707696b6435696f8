import ListLang.Value.Access

/-!
# Operators on values

Equality compares two integers, two booleans or two strings; `#` joins two strings; the
other operators compute with two integers. An integer result is computed exactly and has
to be in range. Division goes toward zero. A remainder is never negative, and it takes a
quotient in range.
-/

namespace ListLang.Operator

/-- The integer result of an operator, if the operator has one and it is in range. -/
def result? : Operator → Int64 → Int64 → Option Int64
  | add, a, b => Integer.ofInt? (a.toInt + b.toInt)
  | sub, a, b => Integer.ofInt? (a.toInt - b.toInt)
  | mul, a, b => Integer.ofInt? (a.toInt * b.toInt)
  | div, a, b => Integer.ofInt? (a.toInt.tdiv b.toInt)
  | mod, a, b =>
    (Integer.ofInt? (a.toInt.tdiv b.toInt)).bind fun _ =>
      Integer.ofInt? (a.toInt.emod b.toInt)
  | equality, _, _ | concat, _, _ => none

/-- Whether an operator divides by its right operand. -/
def divides : Operator → Bool
  | div | mod => true
  | _ => false

/-- An operator on two integers. -/
def arithmetic (op : Operator) (a b : Int64) : Except EvalError.Cause Value :=
  if op.divides ∧ b = 0 then .error .divisionByZero
  else match op.result? a b with
    | some n => .ok (.int n)
    | none => .error (.overflow op)

/-- An operator on two values. -/
def apply (op : Operator) (left right : Value) : Except EvalError.Cause Value :=
  match op, left, right with
  | equality, .int a, .int b => .ok (.bool (a == b))
  | equality, .bool a, .bool b => .ok (.bool (a == b))
  | equality, .string a, .string b => .ok (.bool (a == b))
  | concat, .string a, .string b => .ok (.string (a ++ b))
  | add, .int a, .int b => arithmetic add a b
  | sub, .int a, .int b => arithmetic sub a b
  | mul, .int a, .int b => arithmetic mul a b
  | div, .int a, .int b => arithmetic div a b
  | mod, .int a, .int b => arithmetic mod a b
  | op, left, right => .error (.incompatibleOperands op left.kind right.kind)

end ListLang.Operator
