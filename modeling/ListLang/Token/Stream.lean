import ListLang.Token.Lexeme

/-!
# Token streams

What is left to read of a program: the tokens and faults ahead, each with the line it
starts on, and the line on which the text ends. A line is one more than the number of
line ends before it, counting those inside strings. An unterminated string takes the
rest of the text without its line ends being counted.

## Main definitions

* `TokenStream` — the tokens and faults ahead.
* `TokenStream.ofChars` — the stream of a whole text.
* `TokenStream.tokens` — all tokens ahead, or the first fault.
-/

namespace ListLang

/-- What is left to read of a program. -/
structure TokenStream where
  ahead : List (Located Reading)
  lastLine : Nat
  deriving Repr, Inhabited

namespace Lexeme

/-- The number of line ends by which a lexeme moves the line forward. -/
def lineEnds (l : Lexeme) : Nat :=
  match l.reading with
  | .token _ => l.text.count '\n'
  | .fault _ => 0

/-- The line behind `lexemes` that start on line `line`. -/
def lineAfter (line : Nat) (lexemes : List Lexeme) : Nat :=
  lexemes.foldl (fun line l => line + l.lineEnds) line

/-- The readings of `lexemes` with their lines, the first one on line `line`. -/
def locate (line : Nat) : List Lexeme → List (Located Reading)
  | [] => []
  | l :: rest => ⟨l.reading, line⟩ :: locate (line + l.lineEnds) rest

end Lexeme

namespace TokenStream

/-- Whether a reading is a fault or a token that a parser sees. -/
def isVisible (reading : Located Reading) : Bool :=
  match reading.item with
  | .token t => !t.isLayout
  | .fault _ => true

/-- The stream of lexemes that start on line `line`. -/
def ofLexemes (line : Nat) (lexemes : List Lexeme) : TokenStream where
  ahead := (Lexeme.locate line lexemes).filter isVisible
  lastLine := Lexeme.lineAfter line lexemes

/-- The stream of a text, which starts on line 1. -/
def ofChars (cs : List Char) : TokenStream := ofLexemes 1 (Lexeme.scan cs)

/-- The stream of a program. -/
def ofSource (source : String) : TokenStream := ofChars source.toList

/-- The end of input as a token of the stream. -/
def ending (s : TokenStream) : Located Token := ⟨.endOfInput, s.lastLine⟩

/-- The located tokens of `ahead` up to the end of input, or the first fault. -/
def drain (ending : Located Token) :
    List (Located Reading) → Except (Located Fault) (List (Located Token))
  | [] => .ok [ending]
  | ⟨.token t, line⟩ :: rest => (drain ending rest).map (⟨t, line⟩ :: ·)
  | ⟨.fault f, line⟩ :: _ => .error ⟨f, line⟩

/-- All tokens ahead up to the end of input, or the first fault. -/
def tokens (s : TokenStream) : Except (Located Fault) (List (Located Token)) :=
  drain s.ending s.ahead

end TokenStream

end ListLang
