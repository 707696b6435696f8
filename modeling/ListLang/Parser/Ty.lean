import ListLang.Parser.Basic

/-!
# Parsing type annotations

```text
type = atom ["->" type]        atom = "Int" | "Bool" | "String" | "(" type ")"
```

The parsers recurse on a bound of the number of tokens that a type takes. The size of the
source is such a bound: it counts the end of input, where there is no type to read.
-/

namespace ListLang.Parser

variable {σ : Type} [TokenSource σ]

/-- A type atom, with `ty` for the type between parentheses. -/
def tyAtomWith (ty : ParserOn σ Ty) : ParserOn σ Ty := do
  let found ← next
  match found.item with
  | .typeName b => pure (.base b)
  | .mark .leftParen =>
    let inner ← ty
    let _ ← expect (.mark .rightParen)
    pure inner
  | t => fail found.line (.expectedType t)

/-- Refuses the first token ahead as a type. -/
def noTy : ParserOn σ Ty := do
  let found ← next
  fail found.line (.expectedType found.item)

/-- A type of at most `bound` tokens. -/
def tyWithin : Nat → ParserOn σ Ty
  | 0 => noTy
  | bound + 1 => do
    let argument ← tyAtomWith (tyWithin bound)
    if ← accept (.mark .arrow) then
      let result ← tyWithin bound
      pure (.function argument result)
    else pure argument

/-- A type. -/
def ty : ParserOn σ Ty := do
  let bound ← remaining
  tyWithin bound

/-- A type atom. -/
def tyAtom : ParserOn σ Ty := do
  let bound ← remaining
  tyAtomWith (tyWithin bound)

end ListLang.Parser
