import ListLang.Error.Parse
import ListLang.Token.Stream

/-!
# Parsers

A parser reads tokens from the front of a source of tokens and gives a result or a parse
error; in both cases the source is left where reading stopped. Programs are read from token
streams. There, meeting a fault is an error that takes the fault from the stream, whether
the parser wanted to read it or only to look at it, and behind the last token the end of
input can be read any number of times.

## Main definitions

* `TokenSource` — what tokens are read from.
* `ParserOn` — parsers that read from a source of some type.
* `Parser` — parsers that read from token streams.
* `Parser.next`, `Parser.lookahead` — the first token ahead, taken or left.
* `Parser.expect`, `Parser.accept` — a given token, demanded or optional.
-/

namespace ListLang

/-- Parsers, which read from a source of type `σ`. -/
abbrev ParserOn (σ : Type) := EStateM ParseError σ

/-- Parsers, which read from a token stream. -/
abbrev Parser := ParserOn TokenStream

/-- What tokens are read from, one after the other. -/
class TokenSource (σ : Type) where
  /-- Takes the first token ahead. -/
  next : ParserOn σ (Located Token)
  /-- Looks at the first token ahead and leaves it. -/
  lookahead : ParserOn σ (Located Token)
  /-- A bound of the number of tokens and faults ahead, the end of input among them. -/
  size : σ → Nat

namespace TokenStream

/-- Takes the first token ahead. -/
def next : Parser (Located Token) := fun s =>
  match s.ahead with
  | [] => .ok s.ending s
  | ⟨.token t, line⟩ :: rest => .ok ⟨t, line⟩ { s with ahead := rest }
  | ⟨.fault f, line⟩ :: rest => .error ⟨line, .fault f⟩ { s with ahead := rest }

/-- Looks at the first token ahead and leaves it. -/
def lookahead : Parser (Located Token) := fun s =>
  match s.ahead with
  | [] => .ok s.ending s
  | ⟨.token t, line⟩ :: _ => .ok ⟨t, line⟩ s
  | ⟨.fault f, line⟩ :: rest => .error ⟨line, .fault f⟩ { s with ahead := rest }

instance : TokenSource TokenStream where
  next := next
  lookahead := lookahead
  size s := s.ahead.length + 1

end TokenStream

namespace Parser

export TokenSource (next lookahead)

variable {σ : Type}

/-- Fails on line `line`. -/
def fail {α : Type} (line : Nat) (cause : ParseError.Cause) : ParserOn σ α :=
  throw ⟨line, cause⟩

variable [TokenSource σ]

/-- A bound of the number of tokens and faults ahead. -/
def remaining : ParserOn σ Nat := do
  let s ← get
  pure (TokenSource.size s)

/-- Takes the token `t` and gives its line. -/
def expect (t : Token) : ParserOn σ Nat := do
  let found ← next
  if found.item = t then pure found.line
  else fail found.line (.unexpectedToken (.token t) found.item)

/-- Takes the token `t` if it is ahead, and tells whether it was. -/
def accept (t : Token) : ParserOn σ Bool := do
  let found ← lookahead
  if found.item = t then
    let _ ← next
    pure true
  else pure false

/-- Takes the name that a lambda or a `let` binds. -/
def binder : ParserOn σ String := do
  let found ← next
  match found.item with
  | .identifier name => pure name
  | t => fail found.line (.unexpectedToken .binder t)

end Parser

end ListLang
