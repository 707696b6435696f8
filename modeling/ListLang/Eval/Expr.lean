import ListLang.Eval.List
import ListLang.Value.Builtin
import ListLang.Value.Operator

/-!
# Evaluating expressions

Evaluation is strict and goes from left to right, and functions are lexically scoped: a
body is evaluated in the environment that the function captured, extended by its
argument. A recursive `let` binds the name in the captured environment of its value,
provided that is a closure, before its body is evaluated.

`evalWith` gives the value of an expression by way of the evaluator for the expressions
inside it and for the bodies of functions; `eval` ties the knot by recursion on how deep
evaluations may nest. An evaluation that gives a result or an error at some depth gives
the same at every greater depth.

## Main definitions

* `eval` — the value of an expression in an environment.
* `apply` — the result of a function on an argument.
-/

namespace ListLang

namespace Eval

variable {m : Type → Type} [Monad m] [MonadStateOf Store m] [MonadExceptOf Halt m]

/-- The result of a function on an argument, with `eval` for the bodies of closures. -/
def applyWith (eval : Environment → Expr → m Value) (function argument : Value)
    (line : Nat) : m Value := do
  match function with
  | .closure id =>
    let c ← closure id
    eval (c.env.extend c.param argument) c.body
  | .builtin b => orFail line (b.apply argument)
  | v => fail line (.notAFunction v.kind)

/-- The values of the elements of a list literal, all of which have to write data. -/
def elementsWith (eval : Expr → m Value) : List Expr → m (List Value)
  | [] => pure []
  | e :: rest => do
    if e.tag.dataKind?.isSome then
      let v ← eval e
      let vs ← elementsWith eval rest
      pure (v :: vs)
    else fail e.line (.unsupportedElement e.tag)

/-- Fails unless `op` takes `given` operands. -/
def checkArity (op : ListOperation) (given line : Nat) : m Unit :=
  if op.arity = given then pure () else fail line (.wrongArity op given)

/-- Binds `name` to the value of a recursive `let` in the environment that the value
captured, if it is a closure. -/
def bindSelf (recursive : Bool) (name : String) (v : Value) : m Unit :=
  match recursive, v with
  | true, .closure id => modify (·.bindName id name v)
  | _, _ => pure ()

/-- The value of an expression, with `eval` for the expressions inside it and for the
bodies of closures. -/
def evalWith (eval : Environment → Expr → m Value) (env : Environment) :
    Expr → m Value
  | .literal value _ => pure value.value
  | .var name line =>
    match env.lookup name with
    | some v => pure v
    | none => fail line (.unboundVariable name)
  | .lam param _ body _ => newClosure env param body
  | .app function argument line => do
    let f ← eval env function
    if f.kind = .function then
      let a ← eval env argument
      applyWith eval f a line
    else fail line (.notAFunction f.kind)
  | .cond condition consequent alternative line => do
    let v ← eval env condition
    if ← orFail line (v.asBool "if condition") then eval env consequent
    else eval env alternative
  | .binary op left right line => do
    let a ← eval env left
    let b ← eval env right
    orFail line (op.apply a b)
  | .letIn recursive name value body _ => do
    let v ← eval env value
    bindSelf recursive name v
    eval (env.extend name v) body
  | .list _ elements line => do
    match ← elementsWith (eval env) elements with
    | [] => fail line .emptyLiteral
    | v :: vs => newList v.kind (v :: vs)
  | .listOp1 op first line => do
    checkArity op 1 line
    let v ← eval env first
    let id ← orFail line (v.asList op.keyword)
    listOp1 op id line
  | .listOp2 op first second line => do
    checkArity op 2 line
    let v ← eval env first
    let id ← orFail line (v.asList op.keyword)
    let second ← eval env second
    listOp2 (applyWith eval · · line) op id second line
  | .listOp3 op first second third line => do
    checkArity op 3 line
    let v ← eval env first
    let id ← orFail line (v.asList op.keyword)
    let second ← eval env second
    let third ← eval env third
    let n ← orFail line (third.asInt op.keyword)
    listOp3 op id second n line

end Eval

/-- The value of an expression, found by evaluations nested at most `depth` deep. -/
def eval : Nat → Environment → Expr → Eval Value
  | 0, _, _ => throw .tooDeep
  | depth + 1, env, e => Eval.evalWith (eval depth) env e

/-- The result of a function on an argument, found by evaluations nested at most `depth`
deep. -/
def apply (depth : Nat) (function argument : Value) (line : Nat) : Eval Value :=
  Eval.applyWith (eval depth) function argument line

end ListLang
