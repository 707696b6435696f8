import ListLang.Eval.Expr
import ListLang.Parser.Expr
import ListLang.Value.Snapshot

/-!
# Programs

The whole way from a program's text to its answer.

## Main definitions

* `tokenize` — the tokens of a text.
* `parse` — the expression that a program writes.
* `run` — a program's value in an environment and a store.
* `evaluate` — a program's answer.
-/

namespace ListLang

/-- Why a program has no answer. -/
inductive Error where
  | parse (e : ParseError)
  | eval (e : EvalError)
  | tooDeep
  deriving DecidableEq, Repr, Inhabited

namespace Error

/-- The error that halted an evaluation. -/
def ofHalt : Halt → Error
  | .failed e => eval e
  | .tooDeep => tooDeep

/-- The message of an error. -/
def message : Error → String
  | parse e => e.message
  | eval e => e.message
  | tooDeep => "The program nests too deeply."

end Error

/-- The tokens of a text, the last one the end of input. -/
def tokenize (source : String) : Except ParseError (List (Located Token)) :=
  (TokenStream.ofSource source).tokens.mapError fun f => ⟨f.line, .fault f.item⟩

/-- The expression that a program writes. -/
def parse (source : String) : Except ParseError Expr :=
  match Parser.program (TokenStream.ofSource source) with
  | .ok e _ => .ok e
  | .error e _ => .error e

/-- The value of a program in an environment and a store, found by evaluations nested at
most `depth` deep. -/
def run (depth : Nat) (env : Environment) (source : String) : EStateM Error Store Value :=
  fun s => match parse source with
    | .error e => .error (.parse e) s
    | .ok e => match eval depth env e s with
      | .ok v s => .ok v s
      | .error h s => .error (.ofHalt h) s

/-- A program's answer, found by evaluations nested at most `depth` deep. -/
def evaluate (depth : Nat) (source : String) : Except Error Snapshot :=
  match run depth .initial source .empty with
  | .ok v s => .ok (s.snapshot v)
  | .error e _ => .error e

/-- How deep evaluations may nest where nothing else is said. -/
def depthLimit : Nat := 1000000000

end ListLang
