import ListLang.Value.Access

/-!
# Builtin functions on values

The builtins take strings apart and put them together by characters, which are Unicode
scalar values.
-/

namespace ListLang.Builtin

/-- A builtin applied to a value. -/
def apply (b : Builtin) (argument : Value) : Except EvalError.Cause Value :=
  match b with
  | firstChar => do
    let s ← argument.asString b.name
    .ok (.string (String.ofList (s.toList.take 1)))
  | remainingChars => do
    let s ← argument.asString b.name
    .ok (.string (String.ofList (s.toList.drop 1)))
  | charCode => do
    let s ← argument.asString b.name
    match s.toList with
    | [] => .error .noFirstChar
    | c :: _ => .ok (.int (Integer.ofChar c))
  | codeChar => do
    let n ← argument.asInt b.name
    match Integer.toChar? n with
    | some c => .ok (.string (String.singleton c))
    | none => .error (.noCharOfCode n)

end ListLang.Builtin
