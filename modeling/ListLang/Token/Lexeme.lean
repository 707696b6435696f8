import ListLang.Token.Basic

/-!
# Lexemes

A program's text is cut from left to right, at each place into the longest piece that is
a token there. Where no token can be read, the piece is a fault: a character that starts
no token, a run of digits whose value is out of range, or an opening quote without a
closing one, which takes all the text that is left. The pieces, one after the other, are
the whole text.

## Main definitions

* `Lexeme` — a piece of text with what it is read as.
* `Lexeme.first` — the piece at the start of a text.
* `Lexeme.scan` — all pieces of a text.
-/

namespace ListLang

/-- The reasons why a piece of text is no token. -/
inductive Fault where
  | unterminatedString
  | literalTooLarge
  | unexpectedCharacter (c : Char)
  deriving DecidableEq, Repr, Inhabited

/-- What a piece of text is read as. -/
inductive Reading where
  | token (t : Token)
  | fault (f : Fault)
  deriving DecidableEq, Repr, Inhabited

/-- A piece of a program's text and what it is read as. -/
structure Lexeme where
  text : List Char
  reading : Reading
  deriving DecidableEq, Repr, Inhabited

namespace Lexeme

/-- Whether a word can start with the character. -/
def startsWord (c : Char) : Bool :=
  ('a' ≤ c && c ≤ 'z') || ('A' ≤ c && c ≤ 'Z') || c == '_' || c == '$'

/-- Whether a word can go on with the character. -/
def continuesWord (c : Char) : Bool := startsWord c || c.isDigit

/-- Whether the character separates tokens within a line. -/
def isBlank (c : Char) : Bool := c == ' ' || c == '\t' || c == '\r' || c == '\x0c'

/-- The number that decimal digits write. -/
def numeral (digits : List Char) : Nat :=
  digits.foldl (fun n d => 10 * n + (d.toNat - '0'.toNat)) 0

/-- The digits `digits` as an integer literal. -/
def ofDigits (digits : List Char) : Lexeme where
  text := digits
  reading := match Integer.ofInt? (numeral digits) with
    | some n => .token (.integer n)
    | none => .fault .literalTooLarge

/-- The word `word` as a keyword or an identifier. -/
def ofWord (word : List Char) : Lexeme := ⟨word, .token (.ofWord (String.ofList word))⟩

/-- The string literal whose opening quote `cs` follows. -/
def ofQuote (cs : List Char) : Lexeme :=
  if '"' ∈ cs then
    ⟨'"' :: cs.takeWhile (· != '"') ++ ['"'],
      .token (.string (String.ofList (cs.takeWhile (· != '"'))))⟩
  else ⟨'"' :: cs, .fault .unterminatedString⟩

/-- The mark or operator written with `c` alone. -/
def symbol? : Char → Option Token
  | '(' => some (.mark .leftParen)
  | ')' => some (.mark .rightParen)
  | '[' => some (.mark .leftBracket)
  | ']' => some (.mark .rightBracket)
  | ',' => some (.mark .comma)
  | ':' => some (.mark .colon)
  | '\\' => some (.mark .backslash)
  | '=' => some (.mark .equals)
  | '+' => some (.operator .add)
  | '-' => some (.operator .sub)
  | '*' => some (.operator .mul)
  | '/' => some (.operator .div)
  | '%' => some (.operator .mod)
  | '#' => some (.operator .concat)
  | _ => none

/-- The mark or operator written with `c` and `d`. -/
def symbolPair? : Char → Char → Option Token
  | '-', '>' => some (.mark .arrow)
  | '=', '>' => some (.mark .fatArrow)
  | '=', '=' => some (.operator .equality)
  | _, _ => none

/-- The mark or operator written with `c` alone, if there is one. -/
def ofChar (c : Char) : Lexeme :=
  match symbol? c with
  | some t => ⟨[c], .token t⟩
  | none => ⟨[c], .fault (.unexpectedCharacter c)⟩

/-- The longest mark or operator that starts with `c`, which `cs` follows. -/
def ofSymbol (c : Char) : List Char → Lexeme
  | [] => ofChar c
  | d :: _ => match symbolPair? c d with
    | some t => ⟨[c, d], .token t⟩
    | none => ofChar c

/-- The piece at the start of the text `c :: cs`. -/
def first (c : Char) (cs : List Char) : Lexeme :=
  if startsWord c then ofWord (c :: cs.takeWhile continuesWord)
  else if c.isDigit then ofDigits (c :: cs.takeWhile Char.isDigit)
  else if c = '"' then ofQuote cs
  else if isBlank c then ⟨c :: cs.takeWhile isBlank, .token .blank⟩
  else if c = '\n' then ⟨[c], .token .lineEnd⟩
  else ofSymbol c cs

/-- The pieces of a text whose first `skip` characters belong to a piece already cut. -/
def scanFrom : Nat → List Char → List Lexeme
  | _, [] => []
  | skip + 1, _ :: cs => scanFrom skip cs
  | 0, c :: cs => first c cs :: scanFrom ((first c cs).text.length - 1) cs

/-- The pieces of a text. -/
def scan (cs : List Char) : List Lexeme := scanFrom 0 cs

theorem quoted_prefix {cs : List Char} (quote : '"' ∈ cs) :
    cs.takeWhile (· != '"') ++ ['"'] <+: cs := by
  induction cs with
  | nil => simp at quote
  | cons c cs ih =>
    by_cases hc : c = '"'
    · simp [hc]
    · simp_all [Ne.symm hc]

theorem text_ofQuote (cs : List Char) :
    ∃ piece, piece <+: cs ∧ (ofQuote cs).text = '"' :: piece := by
  by_cases quote : '"' ∈ cs
  · exact ⟨_, quoted_prefix quote, by simp [ofQuote, quote]⟩
  · exact ⟨cs, List.prefix_rfl, by simp [ofQuote, quote]⟩

theorem text_ofChar (c : Char) : (ofChar c).text = [c] := by
  unfold ofChar
  split <;> rfl

theorem text_ofSymbol (c : Char) (cs : List Char) :
    ∃ piece, piece <+: cs ∧ (ofSymbol c cs).text = c :: piece := by
  cases cs with
  | nil => exact ⟨[], List.prefix_rfl, text_ofChar c⟩
  | cons d cs =>
    simp only [ofSymbol]
    split
    · exact ⟨[d], by simp, rfl⟩
    · exact ⟨[], List.nil_prefix, text_ofChar c⟩

/-- The piece at the start of a text is a beginning of it that is not empty. -/
theorem text_first (c : Char) (cs : List Char) :
    ∃ piece, piece <+: cs ∧ (first c cs).text = c :: piece := by
  unfold first
  split
  · exact ⟨_, List.takeWhile_prefix _, rfl⟩
  split
  · exact ⟨_, List.takeWhile_prefix _, rfl⟩
  split
  · rename_i hc
    exact hc ▸ text_ofQuote cs
  split
  · exact ⟨_, List.takeWhile_prefix _, rfl⟩
  split
  · exact ⟨[], List.nil_prefix, rfl⟩
  · exact text_ofSymbol c cs

theorem scanFrom_eq_scan_drop (skip : Nat) (cs : List Char) :
    scanFrom skip cs = scan (cs.drop skip) := by
  induction cs generalizing skip with
  | nil => cases skip <;> rfl
  | cons c cs ih => cases skip with
    | zero => rfl
    | succ skip => exact ih skip

theorem scan_cons (c : Char) (cs : List Char) :
    scan (c :: cs) = first c cs :: scan (cs.drop ((first c cs).text.length - 1)) := by
  rw [← scanFrom_eq_scan_drop]
  rfl

/-- The pieces of a text, one after the other, are the text. -/
theorem flatMap_text_scan (cs : List Char) : (scan cs).flatMap text = cs := by
  match cs with
  | [] => rfl
  | c :: cs =>
    obtain ⟨piece, ⟨rest, rfl⟩, text⟩ := text_first c cs
    have shorter : rest.length < (c :: (piece ++ rest)).length := by
      rw [List.length_cons, List.length_append]
      omega
    simp [scan_cons, text, flatMap_text_scan rest]
termination_by cs.length

end Lexeme

end ListLang
