import ListLang.Error.Eval
import ListLang.Value.Store

/-!
# Evaluations

An evaluation works on a store and gives a result, or it halts. What it did to the store
before it halted stays done. The evaluator is written over any monad that holds a store and
can halt; `Eval` is the one in which programs are run.

## Main definitions

* `Eval` — evaluations.
* `Halt` — why an evaluation has no result.
* `Eval.list`, `Eval.closure`, `Eval.newList`, `Eval.newClosure`, `Eval.setItems` — the
  steps by which an evaluation uses the store.
-/

namespace ListLang

/-- Why an evaluation has no result: an error of the program, or a nesting of
evaluations deeper than allowed or of lists without end. -/
inductive Halt where
  | failed (e : EvalError)
  | tooDeep
  deriving DecidableEq, Repr, Inhabited

/-- Evaluations, which work on a store. -/
abbrev Eval := EStateM Halt Store

namespace Eval

variable {m : Type → Type} [Monad m] [MonadStateOf Store m] [MonadExceptOf Halt m]

/-- Fails on line `line`. -/
def fail {α : Type} (line : Nat) (cause : EvalError.Cause) : m α :=
  throw (.failed ⟨line, cause⟩)

/-- A result that needs no store, whose failure is reported on line `line`. -/
def orFail {α : Type} (line : Nat) : Except EvalError.Cause α → m α
  | .ok a => pure a
  | .error cause => fail line cause

/-- The list at `id`. -/
def list (id : ListId) : m ListCell := do
  let s ← get
  pure (s.list id)

/-- The closure at `id`. -/
def closure (id : ClosureId) : m Closure := do
  let s ← get
  pure (s.closure id)

/-- Makes a list. -/
def newList (contentKind : Kind) (items : List Value) : m Value := do
  let id ← modifyGet (·.addList ⟨contentKind, items⟩)
  pure (.list id)

/-- Makes a closure. -/
def newClosure (env : Environment) (param : String) (body : Expr) : m Value := do
  let id ← modifyGet (·.addClosure ⟨env, param, body⟩)
  pure (.closure id)

/-- Replaces the items of the list at `id`. -/
def setItems (id : ListId) (items : List Value) : m Unit :=
  modify (·.setItems id items)

end Eval

end ListLang
