import ListLang.Error.Eval

/-!
# Using values of a kind

A value that something in a program needs to be of one kind. `context` says in the
message what needed it.
-/

namespace ListLang.Value

/-- The failure of a value to be of the kind `expected` that `context` needs. -/
def mismatch (v : Value) (expected : Kind) (context : String) : EvalError.Cause :=
  .typeMismatch context expected v.kind

/-- The integer that `context` needs. -/
def asInt (v : Value) (context : String) : Except EvalError.Cause Int64 :=
  match v with
  | .int n => .ok n
  | _ => .error (v.mismatch .int context)

/-- The boolean that `context` needs. -/
def asBool (v : Value) (context : String) : Except EvalError.Cause Bool :=
  match v with
  | .bool b => .ok b
  | _ => .error (v.mismatch .bool context)

/-- The string that `context` needs. -/
def asString (v : Value) (context : String) : Except EvalError.Cause String :=
  match v with
  | .string s => .ok s
  | _ => .error (v.mismatch .string context)

/-- The list that `context` needs. -/
def asList (v : Value) (context : String) : Except EvalError.Cause ListId :=
  match v with
  | .list id => .ok id
  | _ => .error (v.mismatch .list context)

/-- Fails unless the value is the function that `context` needs. -/
def asFunction (v : Value) (context : String) : Except EvalError.Cause Unit :=
  if v.kind = .function then .ok () else .error (v.mismatch .function context)

end ListLang.Value
