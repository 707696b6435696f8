import ListLang.Parser.Ty

/-!
# Parsing expressions

```text
program     = expression <end of input>
expression  = application {operator application}
application = atom {atom}
atom        = literal | identifier | "(" expression ")"
            | "List" "[" atom {"," atom} "]" | operation atom ...
            | "\" binder [":" type] "=>" expression
            | "let" ["rec"] binder "=" expression "in" expression
            | "if" expression "then" expression "else" expression
```

Operators are grouped by their binding powers. An atom that ends in an expression takes
as much as it can.

The parsers are written over the parser for the atoms inside them, and `atomWithin` ties
the knot by recursion on a bound of the number of tokens that an atom takes. The size of the
source is such a bound: it counts the end of input, where there is no atom to read. The loops
count down the same bound, because each of their rounds takes a token.

## Main definitions

* `Parser.atom`, `Parser.application`, `Parser.binary`, `Parser.expression`,
  `Parser.program` — the parsers of the grammar above.
* `Parser.listLiteral`, `Parser.listOperation`, `Parser.lambda`, `Parser.letIn`,
  `Parser.cond` — the parsers of single forms of atoms.
-/

namespace ListLang.Parser

variable {σ : Type} [TokenSource σ]

/-- An atom, which has to be there. -/
def requiredWith (atom : ParserOn σ (Option Expr)) : ParserOn σ Expr := do
  match ← atom with
  | some e => pure e
  | none =>
    let found ← lookahead
    fail found.line (.expectedExpression found.item)

/-- Applies `function` to at most `bound` atoms, one after the other. -/
def argumentsWith (atom : ParserOn σ (Option Expr)) : Nat → Expr → ParserOn σ Expr
  | 0, function => pure function
  | bound + 1, function => do
    match ← atom with
    | some argument =>
      argumentsWith atom bound (.app function argument function.line)
    | none => pure function

/-- An atom and the atoms it is applied to. -/
def applicationWith (atom : ParserOn σ (Option Expr)) (bound : Nat) : ParserOn σ Expr := do
  let function ← requiredWith atom
  argumentsWith atom bound function

/-- Extends `left` to the right by operators of left power at least `power`. -/
def climbWith (operand : ParserOn σ Expr) : Nat → Nat → Expr → ParserOn σ Expr
  | 0, _, left => pure left
  | bound + 1, power, left => do
    let found ← lookahead
    match found.item with
    | .operator op =>
      if power ≤ op.leftPower then
        let _ ← next
        let first ← operand
        let right ← climbWith operand bound op.rightPower first
        climbWith operand bound power (.binary op left right found.line)
      else pure left
    | _ => pure left

/-- Operands joined by operators of left power at least `power`. -/
def binaryWith (atom : ParserOn σ (Option Expr)) (bound power : Nat) : ParserOn σ Expr := do
  let first ← applicationWith atom bound
  climbWith (applicationWith atom bound) bound power first

/-- An expression. -/
def expressionWith (atom : ParserOn σ (Option Expr)) (bound : Nat) : ParserOn σ Expr :=
  binaryWith atom bound 0

/-- An expression in parentheses. -/
def groupingWith (expression : ParserOn σ Expr) : ParserOn σ Expr := do
  let _ ← expect (.mark .leftParen)
  let inner ← expression
  let _ ← expect (.mark .rightParen)
  pure inner

/-- The elements of a list literal behind the first one, all of the form `tag`. -/
def elementsWith (atom : ParserOn σ (Option Expr)) (tag : Tag) : Nat → ParserOn σ (List Expr)
  | 0 => pure []
  | bound + 1 => do
    let found ← lookahead
    if found.item = .mark .rightBracket then pure []
    else
      let _ ← expect (.mark .comma)
      let found ← lookahead
      if found.item = .mark .comma ∨ found.item = .mark .rightBracket then
        fail found.line .malformedList
      else
        let element ← requiredWith atom
        if element.tag = tag then
          let rest ← elementsWith atom tag bound
          pure (element :: rest)
        else fail element.line (.mixedList tag element.tag)

/-- A list literal, which has at least one element. -/
def listLiteralWith (atom : ParserOn σ (Option Expr)) (bound : Nat) : ParserOn σ Expr := do
  let line ← expect (.keyword .listWord)
  let _ ← expect (.mark .leftBracket)
  let found ← lookahead
  match found.item with
  | .mark .rightBracket => fail found.line .emptyList
  | .mark .comma => fail found.line .malformedList
  | _ =>
    let element ← requiredWith atom
    let rest ← elementsWith atom element.tag bound
    let _ ← expect (.mark .rightBracket)
    pure (.list element.tag (element :: rest) line)

/-- An operand of the list operation `op`, whose keyword stands on line `line`. -/
def operandWith (atom : ParserOn σ (Option Expr)) (op : ListOperation) (line : Nat) :
    ParserOn σ Expr := do
  match ← atom with
  | some e => pure e
  | none => fail line (.missingArgument op)

/-- A list operation with as many operands as it takes. -/
def listOperationWith (atom : ParserOn σ (Option Expr)) : ParserOn σ Expr := do
  let found ← next
  match found.item with
  | .listOperation op =>
    let first ← operandWith atom op found.line
    match op.arity with
    | 1 => pure (.listOp1 op first found.line)
    | 2 =>
      let second ← operandWith atom op found.line
      pure (.listOp2 op first second found.line)
    | _ =>
      let second ← operandWith atom op found.line
      let third ← operandWith atom op found.line
      pure (.listOp3 op first second third found.line)
  | t => fail found.line (.unexpectedToken .listOperation t)

/-- The type of a parameter, if one is given. -/
def annotatedTy : ParserOn σ (Option Ty) := do
  if ← accept (.mark .colon) then
    let t ← ty
    pure (some t)
  else pure none

/-- A lambda. -/
def lambdaWith (expression : ParserOn σ Expr) : ParserOn σ Expr := do
  let line ← expect (.mark .backslash)
  let param ← binder
  let paramTy ← annotatedTy
  let _ ← expect (.mark .fatArrow)
  let body ← expression
  pure (.lam param paramTy body line)

/-- A `let` expression. -/
def letInWith (expression : ParserOn σ Expr) : ParserOn σ Expr := do
  let line ← expect (.keyword .letWord)
  let recursive ← accept (.keyword .recWord)
  let name ← binder
  let _ ← expect (.mark .equals)
  let value ← expression
  let _ ← expect (.keyword .inWord)
  let body ← expression
  pure (.letIn recursive name value body line)

/-- An `if` expression. -/
def condWith (expression : ParserOn σ Expr) : ParserOn σ Expr := do
  let line ← expect (.keyword .ifWord)
  let condition ← expression
  let _ ← expect (.keyword .thenWord)
  let consequent ← expression
  let _ ← expect (.keyword .elseWord)
  let alternative ← expression
  pure (.cond condition consequent alternative line)

/-- Takes the first token ahead, which makes the atom `atom` of its line. -/
def tokenAtom (atom : Nat → Expr) : ParserOn σ Expr := do
  let found ← next
  pure (atom found.line)

/-- An atom, if the first token ahead starts one. -/
def atomWith (atom : ParserOn σ (Option Expr)) (bound : Nat) : ParserOn σ (Option Expr) := do
  let found ← lookahead
  match found.item with
  | .integer n => some <$> tokenAtom (.literal (.integer n))
  | .bool b => some <$> tokenAtom (.literal (.bool b))
  | .string s => some <$> tokenAtom (.literal (.string s))
  | .identifier name => some <$> tokenAtom (.var name)
  | .mark .leftParen => some <$> groupingWith (expressionWith atom bound)
  | .mark .backslash => some <$> lambdaWith (expressionWith atom bound)
  | .keyword .listWord => some <$> listLiteralWith atom bound
  | .keyword .letWord => some <$> letInWith (expressionWith atom bound)
  | .keyword .ifWord => some <$> condWith (expressionWith atom bound)
  | .listOperation _ => some <$> listOperationWith atom
  | _ => pure none

/-- An atom of at most `bound` tokens, if the first token ahead starts one. -/
def atomWithin : Nat → ParserOn σ (Option Expr)
  | 0 => pure none
  | bound + 1 => atomWith (atomWithin bound) bound

/-- An atom, if the first token ahead starts one. -/
def atom : ParserOn σ (Option Expr) := do
  let bound ← remaining
  atomWithin bound

/-- An atom and the atoms it is applied to. -/
def application : ParserOn σ Expr := do
  let bound ← remaining
  applicationWith (atomWithin bound) bound

/-- Operands joined by operators of left power at least `power`. -/
def binary (power : Nat) : ParserOn σ Expr := do
  let bound ← remaining
  binaryWith (atomWithin bound) bound power

/-- An expression. -/
def expression : ParserOn σ Expr := binary 0

/-- A list literal. -/
def listLiteral : ParserOn σ Expr := do
  let bound ← remaining
  listLiteralWith (atomWithin bound) bound

/-- A list operation with its operands. -/
def listOperation : ParserOn σ Expr := do
  let bound ← remaining
  listOperationWith (atomWithin bound)

/-- A lambda. -/
def lambda : ParserOn σ Expr := lambdaWith expression

/-- A `let` expression. -/
def letIn : ParserOn σ Expr := letInWith expression

/-- An `if` expression. -/
def cond : ParserOn σ Expr := condWith expression

/-- An expression that is the whole rest of the source. -/
def program : ParserOn σ Expr := do
  let e ← expression
  let found ← lookahead
  if found.item = .endOfInput then pure e
  else fail found.line (.trailingTokens found.item)

end ListLang.Parser
