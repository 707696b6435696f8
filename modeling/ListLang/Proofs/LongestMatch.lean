import ListLang.Program
import ListLang.Proofs.Spelling
import Mathlib.Computability.Language
import Mathlib.Data.Nat.Digits.Defs

/-!
# The longest match

The tokens of the language are given by a table of rules: words and marks that are written in
one way, and four patterns. A text is cut from left to right, at each place into the longest
piece that any rule matches; where a word or mark and a pattern match the same piece, the word
or mark is read. Where that ends before the text does, what is left starts with a character
that starts no token, a number out of range or a string that is not closed.

## Main definitions

* `Rule`, `Rule.table` — the rules and what each one matches.
* `Rule.Longest` — the rule that reads a text, and the piece it reads.
* `Munches` — the pieces of a text, up to what is left of it.
* `Offends` — how a text starts where no token can be read.

## Main statements

* `Rule.longest_first` — the scanner reads the longest match.
* `tokenize_munches` — tokens and faults are those of the longest matches.
-/

namespace ListLang

open scoped Computability

/-! ## Rules -/

/-- The texts of one character that has the property `p`. -/
def oneOf (p : Char → Bool) : Language Char := {cs | ∃ c, p c ∧ cs = [c]}

/-- The rules by which tokens are read: an exact text, or one of four patterns. -/
inductive Rule where
  | exactly (text : String) (t : Token)
  | integer
  | string
  | identifier
  | blank
  deriving DecidableEq

namespace Rule

/-- The texts that the rule matches. -/
def language : Rule → Language Char
  | exactly text _ => {text.toList}
  | integer => oneOf Char.isDigit * (oneOf Char.isDigit)∗
  | string => oneOf (· == '"') * ((oneOf (· != '"'))∗ * oneOf (· == '"'))
  | identifier => oneOf Lexeme.startsWord * (oneOf Lexeme.continuesWord)∗
  | blank => oneOf Lexeme.isBlank * (oneOf Lexeme.isBlank)∗

/-- Whether the rule is an exact text. -/
def isExact : Rule → Bool
  | exactly _ _ => true
  | _ => false

/-- The reserved words, with their tokens. -/
def words : List (String × Token) :=
  [("if", .keyword .ifWord), ("then", .keyword .thenWord), ("else", .keyword .elseWord),
    ("let", .keyword .letWord), ("rec", .keyword .recWord), ("in", .keyword .inWord),
    ("Int", .typeName .int), ("Bool", .typeName .bool), ("String", .typeName .string),
    ("List", .keyword .listWord), ("ListGetSize", .listOperation .getSize),
    ("ListIsEmpty", .listOperation .isEmpty), ("ListJoin", .listOperation .join),
    ("ListAppend", .listOperation .append),
    ("ListRemoveAtPosition", .listOperation .removeAtPosition),
    ("ListGetValue", .listOperation .getValue), ("ListInsertAt", .listOperation .insertAt),
    ("ListMap", .listOperation .map), ("ListFilter", .listOperation .filter),
    ("ListFold", .listOperation .fold), ("true", .bool true), ("false", .bool false)]

/-- The marks and operators and the line end, with their tokens. -/
def marks : List (String × Token) :=
  [("(", .mark .leftParen), (")", .mark .rightParen), ("[", .mark .leftBracket),
    ("]", .mark .rightBracket), (",", .mark .comma), (":", .mark .colon),
    ("\\", .mark .backslash), ("->", .mark .arrow), ("=>", .mark .fatArrow),
    ("=", .mark .equals), ("==", .operator .equality), ("+", .operator .add),
    ("-", .operator .sub), ("*", .operator .mul), ("/", .operator .div),
    ("%", .operator .mod), ("#", .operator .concat), ("\n", .lineEnd)]

/-- All rules. -/
def table : List Rule :=
  (words ++ marks).map (fun entry => exactly entry.1 entry.2) ++
    [integer, string, identifier, blank]

end Rule

/-- The number that decimal digits write, the last of which counts once. -/
def decimal (digits : List Char) : Nat :=
  Nat.ofDigits 10 (digits.reverse.map fun d => d.toNat - '0'.toNat)

namespace Rule

/-- The rule reads the text that it matches as the token. -/
def Reads : Rule → List Char → Token → Prop
  | exactly _ t, _, u => u = t
  | integer, cs, u => ∃ n : Int64, n.toInt = decimal cs ∧ u = .integer n
  | string, cs, u => ∃ body, cs = '"' :: body ++ ['"'] ∧ u = .string (String.ofList body)
  | identifier, cs, u => u = .identifier (String.ofList cs)
  | blank, _, u => u = .blank

/-- The rule reads `text` at the start of `cs`: no rule matches more of `cs`, and where an exact
text is matched, the rule is one. -/
structure Longest (cs : List Char) (rule : Rule) (text : List Char) : Prop where
  listed : rule ∈ table
  starts : text <+: cs
  matched : text ∈ rule.language
  longest : ∀ r ∈ table, ∀ piece, piece <+: cs → piece ∈ r.language →
    piece.length ≤ text.length
  exact_first : ∀ r ∈ table, text ∈ r.language → r.isExact → rule.isExact

end Rule

/-- `cs` is cut into the longest matches `pieces`, each with its token, and `rest`. -/
inductive Munches : List Char → List (List Char × Token) → List Char → Prop
  | nil (rest : List Char) : Munches rest [] rest
  | cons {cs rest text : List Char} {pieces : List (List Char × Token)} {rule : Rule} {t : Token} :
    rule.Longest (text ++ cs) text → rule.Reads text t → Munches cs pieces rest →
    Munches (text ++ cs) ((text, t) :: pieces) rest

/-- The text starts with what the fault is about: a quote that no other follows, a longest run
of digits out of range, or a character that no rule matches at the start of any text. -/
def Offends : Fault → List Char → Prop
  | .unterminatedString, rest => ∃ cs, rest = '"' :: cs ∧ '"' ∉ cs
  | .literalTooLarge, rest => ∃ digits cs, rest = digits ++ cs ∧
      digits ∈ Rule.integer.language ∧ (∀ c ∈ cs.head?, ¬ c.isDigit) ∧
      Int64.maxValue.toInt < decimal digits
  | .unexpectedCharacter c, rest => ∃ cs, rest = c :: cs ∧
      ∀ rule ∈ Rule.table, ∀ text, c :: text ∉ rule.language

/-! ## What rules match -/

theorem mem_oneOf_mul {p : Char → Bool} {L : Language Char} {cs : List Char} :
    cs ∈ oneOf p * L ↔ ∃ c rest, cs = c :: rest ∧ p c ∧ rest ∈ L := by
  rw [Language.mem_mul]
  constructor
  · rintro ⟨_, ⟨c, hc, rfl⟩, rest, hrest, rfl⟩
    exact ⟨c, rest, rfl, hc, hrest⟩
  · rintro ⟨c, rest, rfl, hc, hrest⟩
    exact ⟨[c], ⟨c, hc, rfl⟩, rest, hrest, rfl⟩

theorem mem_kstar_oneOf {p : Char → Bool} {cs : List Char} :
    cs ∈ (oneOf p)∗ ↔ ∀ c ∈ cs, p c := by
  induction cs with
  | nil => simp [Language.nil_mem_kstar]
  | cons c cs ih =>
    rw [← Language.one_add_self_mul_kstar_eq_kstar, Language.mem_add, mem_oneOf_mul,
      List.forall_mem_cons, ← ih]
    simp

theorem mem_run {p q : Char → Bool} {c : Char} {cs : List Char} :
    c :: cs ∈ oneOf p * (oneOf q)∗ ↔ p c ∧ ∀ d ∈ cs, q d := by
  simp [mem_oneOf_mul, mem_kstar_oneOf]

theorem mem_string {c : Char} {cs : List Char} :
    c :: cs ∈ Rule.string.language ↔ c = '"' ∧ ∃ body, '"' ∉ body ∧ cs = body ++ ['"'] := by
  rw [Rule.language, mem_oneOf_mul]
  constructor
  · rintro ⟨_, _, ⟨⟩, quote, rest⟩
    obtain ⟨body, plain, _, ⟨d, closes, rfl⟩, rfl⟩ := Language.mem_mul.mp rest
    rw [mem_kstar_oneOf] at plain
    refine ⟨by simpa using quote, body, fun mem => by simpa using plain _ mem, ?_⟩
    rw [beq_iff_eq.mp closes]
  · rintro ⟨rfl, body, plain, rfl⟩
    refine ⟨'"', _, rfl, rfl, Language.mem_mul.mpr ⟨body, ?_, _, ⟨'"', rfl, rfl⟩, rfl⟩⟩
    rw [mem_kstar_oneOf]
    intro c mem
    simpa using ne_of_mem_of_not_mem mem plain

theorem numeral_eq_decimal (digits : List Char) : Lexeme.numeral digits = decimal digits := by
  induction digits using List.reverseRecOn with
  | nil => rfl
  | append_singleton digits d ih =>
    rw [Lexeme.numeral, List.foldl_append, decimal, List.reverse_append, List.map_append]
    change 10 * Lexeme.numeral digits + _ = Nat.ofDigits 10 (_ :: _)
    rw [Nat.ofDigits_cons, ih, Nat.add_comm]
    rfl

/-! ## Which rules match where -/

namespace Rule

open Lexeme (startsWord continuesWord isBlank)

theorem mem_table {rule : Rule} (mem : rule ∈ table) :
    (∃ entry ∈ words ++ marks, rule = exactly entry.1 entry.2) ∨
      rule ∈ [integer, string, identifier, blank] := by
  rcases List.mem_append.mp mem with exact | pattern
  · obtain ⟨entry, listed, rfl⟩ := List.mem_map.mp exact
    exact .inl ⟨entry, listed, rfl⟩
  · exact .inr pattern

theorem exactly_mem_table {entry : String × Token} (mem : entry ∈ words ++ marks) :
    exactly entry.1 entry.2 ∈ table :=
  List.mem_append_left _ (List.mem_map_of_mem mem)

/-- The reserved words are the words of the table. -/
theorem mem_words_iff {w : String} {t : Token} :
    (w, t) ∈ words ↔ t ∈ Token.reserved ∧ t.spelling = w := by
  have listed : ∀ entry ∈ words, entry.2 ∈ Token.reserved ∧ entry.2.spelling = entry.1 := by decide
  have all : ∀ t ∈ Token.reserved, (t.spelling, t) ∈ words := by decide
  constructor
  · exact listed (w, t)
  · rintro ⟨mem, rfl⟩
    exact all t mem

/-- No rule but those of marks matches a text that starts with the character. -/
structure StartsMark (c : Char) : Prop where
  noWord : startsWord c = false
  noDigit : c.isDigit = false
  noQuote : c ≠ '"'
  noBlank : isBlank c = false

theorem not_startsWord_of_isBlank {c : Char} (blank : isBlank c) :
    startsWord c = false ∧ c.isDigit = false ∧ c ≠ '"' := by
  simp only [isBlank, Bool.or_eq_true, beq_iff_eq] at blank
  rcases blank with ((rfl | rfl) | rfl) | rfl <;> decide

theorem startsMark_of_mem_marks {text : String} {t : Token} (mem : (text, t) ∈ marks) {c : Char}
    {cs : List Char} (same : text.toList = c :: cs) : StartsMark c := by
  have all : marks.all fun entry => entry.1.toList.head?.all fun c =>
      !startsWord c && !c.isDigit && c != '"' && !isBlank c := by decide
  have first := List.all_eq_true.mp all _ mem
  simp only [same, List.head?_cons, Option.all_some, Bool.and_eq_true, Bool.not_eq_true',
    bne_iff_ne, and_assoc] at first
  exact ⟨first.1, first.2.1, first.2.2.1, first.2.2.2⟩

/-- An exact text is a word or a mark. -/
theorem word_or_mark_of_exact {rule : Rule} (mem : rule ∈ table) (exact : rule.isExact) {c : Char}
    {cs : List Char} (matched : c :: cs ∈ rule.language) :
    ∃ text t, rule = exactly text t ∧ text.toList = c :: cs ∧
      ((text, t) ∈ words ∧ startsWord c ∧ (∀ d ∈ cs, continuesWord d) ∨
        (text, t) ∈ marks ∧ StartsMark c) := by
  have isWord : ∀ entry ∈ words, Lexeme.isWord entry.1.toList := by decide
  obtain ⟨⟨text, t⟩, listed, rfl⟩ | pattern := mem_table mem
  · have same : text.toList = c :: cs := (Set.mem_singleton_iff.mp matched).symm
    refine ⟨text, t, rfl, same, ?_⟩
    rcases List.mem_append.mp listed with word | mark
    · have form := isWord _ word
      rw [same] at form
      exact .inl ⟨word, by simpa [Lexeme.isWord] using form⟩
    · exact .inr ⟨mark, startsMark_of_mem_marks mark same⟩
  · simp only [List.mem_cons, List.not_mem_nil, or_false] at pattern
    obtain rfl | rfl | rfl | rfl := pattern <;> cases exact

/-- How a text goes on that starts with the character `c` and that a rule matches. -/
inductive Form (c : Char) (cs : List Char) : Prop
  | word (starts : startsWord c) (rest : ∀ d ∈ cs, continuesWord d)
  | digits (noWord : startsWord c = false) (first : c.isDigit) (rest : ∀ d ∈ cs, d.isDigit)
  | quoted (noWord : startsWord c = false) (noDigit : c.isDigit = false) (quote : c = '"')
    (body : List Char) (plain : '"' ∉ body) (closed : cs = body ++ ['"'])
  | blanks (noWord : startsWord c = false) (noDigit : c.isDigit = false) (noQuote : c ≠ '"')
    (first : isBlank c) (rest : ∀ d ∈ cs, isBlank d)
  | mark (starts : StartsMark c) (text : String) (t : Token) (listed : (text, t) ∈ marks)
    (same : text.toList = c :: cs)

/-- The first character of a text that a rule matches says how the text goes on. -/
theorem form_of_mem {rule : Rule} (mem : rule ∈ table) {c : Char} {cs : List Char}
    (matched : c :: cs ∈ rule.language) : Form c cs := by
  cases exact : rule.isExact with
  | true =>
    obtain ⟨text, t, -, same, ⟨-, starts, rest⟩ | ⟨mark, starts⟩⟩ :=
      word_or_mark_of_exact mem exact matched
    · exact .word starts rest
    · exact .mark starts text t mark same
  | false =>
    cases rule with
    | exactly => cases exact
    | integer =>
      obtain ⟨digit, digits⟩ := mem_run.mp matched
      exact .digits (Lexeme.not_startsWord_of_isDigit digit) digit digits
    | string =>
      obtain ⟨rfl, body, plain, closed⟩ := mem_string.mp matched
      exact .quoted rfl rfl rfl body plain closed
    | identifier =>
      obtain ⟨starts, rest⟩ := mem_run.mp matched
      exact .word starts rest
    | blank =>
      obtain ⟨blank, blanks⟩ := mem_run.mp matched
      obtain ⟨noWord, noDigit, noQuote⟩ := not_startsWord_of_isBlank blank
      exact .blanks noWord noDigit noQuote blank blanks

/-! ## The piece at the start of a text -/

/-- A run of characters is the longest match where every match is such a run. -/
theorem Longest.of_run {rule : Rule} {q : Char → Bool} {c : Char} {cs : List Char}
    (listed : rule ∈ table) (matched : c :: cs.takeWhile q ∈ rule.language)
    (runs : ∀ r ∈ table, ∀ piece, c :: piece ∈ r.language → ∀ d ∈ piece, q d)
    (exact_first : ∀ r ∈ table, c :: cs.takeWhile q ∈ r.language → r.isExact → rule.isExact) :
    rule.Longest (c :: cs) (c :: cs.takeWhile q) where
  listed := listed
  starts := (List.prefix_cons_inj c).mpr (List.takeWhile_prefix q)
  matched := matched
  longest := by
    intro r mem piece starts other
    cases piece with
    | nil => exact Nat.zero_le _
    | cons d piece =>
      obtain ⟨rfl, rest, rfl⟩ := List.cons_prefix_cons.mp starts
      rw [List.takeWhile_append_of_pos (runs r mem piece other)]
      simp
  exact_first := exact_first

/-- A word is read as the reserved word that it is, or as an identifier. -/
theorem longest_word {c : Char} {cs : List Char} (starts : startsWord c) :
    ∃ rule : Rule, rule.Longest (c :: cs) (c :: cs.takeWhile continuesWord) ∧
      rule.Reads (c :: cs.takeWhile continuesWord)
        (.ofWord (String.ofList (c :: cs.takeWhile continuesWord))) := by
  have runs : ∀ r ∈ table, ∀ piece, c :: piece ∈ r.language → ∀ d ∈ piece, continuesWord d := by
    intro r mem piece matched
    cases form_of_mem mem matched with
    | word _ rest => exact rest
    | digits noWord | quoted noWord | blanks noWord => simp [starts] at noWord
    | mark other => exact absurd starts (by simp [other.noWord])
  unfold Token.ofWord
  cases found : Token.reserved.find? (·.spelling == String.ofList
    (c :: cs.takeWhile continuesWord)) with
  | some t =>
    have same : t.spelling = String.ofList (c :: cs.takeWhile continuesWord) := by
      simpa using List.find?_some found
    have word : (t.spelling, t) ∈ words :=
      mem_words_iff.mpr ⟨List.mem_of_find?_eq_some found, rfl⟩
    refine ⟨exactly t.spelling t, .of_run ?_ ?_ runs fun _ _ _ _ => rfl, rfl⟩
    · exact exactly_mem_table (List.mem_append_left _ word)
    · exact Set.mem_singleton_iff.mpr (by rw [same, String.toList_ofList])
  | none =>
    refine ⟨identifier, .of_run (by decide) ?_ runs ?_, rfl⟩
    · exact mem_run.mpr ⟨starts, fun d mem => List.mem_takeWhile_imp mem⟩
    · -- A reserved word would have been found.
      intro r mem matched exact
      obtain ⟨text, t, rfl, same, ⟨word, -⟩ | ⟨-, other⟩⟩ := word_or_mark_of_exact mem exact matched
      · obtain ⟨reserved, rfl⟩ := mem_words_iff.mp word
        have differs := List.find?_eq_none.mp found t reserved
        rw [← same, String.ofList_toList] at differs
        simp at differs
      · exact absurd starts (by simp [other.noWord])

/-- What starts neither words nor marks is matched by patterns only. -/
theorem not_isExact {r : Rule} (mem : r ∈ table) {c : Char} {cs : List Char}
    (matched : c :: cs ∈ r.language) (noWord : startsWord c = false) (noMark : ¬ StartsMark c) :
    ¬ r.isExact := by
  intro exact
  obtain ⟨_, _, -, -, ⟨-, word, -⟩ | ⟨-, mark⟩⟩ := word_or_mark_of_exact mem exact matched
  · simp [word] at noWord
  · exact noMark mark

theorem longest_digits {c : Char} {cs : List Char} (digit : c.isDigit) :
    integer.Longest (c :: cs) (c :: cs.takeWhile Char.isDigit) := by
  have noWord := Lexeme.not_startsWord_of_isDigit digit
  refine .of_run (by decide) (mem_run.mpr ⟨digit, fun d mem => List.mem_takeWhile_imp mem⟩) ?_ ?_
  · intro r mem piece matched
    cases form_of_mem mem matched with
    | word starts => simp [noWord] at starts
    | digits _ _ rest => exact rest
    | quoted _ noDigit | blanks _ noDigit => simp [digit] at noDigit
    | mark other => exact absurd digit (by simp [other.noDigit])
  · intro r mem matched exact
    exact absurd exact (not_isExact mem matched noWord fun mark => by simp [mark.noDigit] at digit)

theorem longest_blank {c : Char} {cs : List Char} (blank : isBlank c) :
    Rule.blank.Longest (c :: cs) (c :: cs.takeWhile isBlank) := by
  obtain ⟨noWord, noDigit, noQuote⟩ := not_startsWord_of_isBlank blank
  refine .of_run (by decide) (mem_run.mpr ⟨blank, fun d mem => List.mem_takeWhile_imp mem⟩) ?_ ?_
  · intro r mem piece matched
    cases form_of_mem mem matched with
    | word starts => simp [noWord] at starts
    | digits _ first => simp [noDigit] at first
    | quoted _ _ quote => exact absurd quote noQuote
    | blanks _ _ _ _ rest => exact rest
    | mark other => exact absurd blank (by simp [other.noBlank])
  · intro r mem matched exact
    exact absurd exact (not_isExact mem matched noWord fun mark => by simp [mark.noBlank] at blank)

/-- A string ends at the first quote behind the one that opens it. -/
theorem longest_string {cs : List Char} (quote : '"' ∈ cs) :
    string.Longest ('"' :: cs) ('"' :: (cs.takeWhile (· != '"') ++ ['"'])) where
  listed := by decide
  starts := (List.prefix_cons_inj _).mpr (Lexeme.quoted_prefix quote)
  matched := mem_string.mpr ⟨rfl, _, fun mem => by simpa using List.mem_takeWhile_imp mem, rfl⟩
  longest := by
    intro r mem piece starts matched
    cases piece with
    | nil => exact Nat.zero_le _
    | cons c piece =>
      obtain ⟨rfl, rest, rfl⟩ := List.cons_prefix_cons.mp starts
      cases form_of_mem mem matched with
      | word starts => cases starts
      | digits _ first => cases first
      | quoted _ _ _ body plain closed =>
        subst closed
        have body_eq : (body ++ ['"'] ++ rest).takeWhile (· != '"') = body := by
          rw [List.append_assoc]
          refine Lexeme.takeWhile_append_stop (fun d mem => ?_) (by simp)
          simpa using ne_of_mem_of_not_mem mem plain
        rw [body_eq]
      | blanks _ _ noQuote => exact absurd rfl noQuote
      | mark other => exact absurd rfl other.noQuote
  exact_first r mem matched exact :=
    absurd exact (not_isExact mem matched rfl fun mark => mark.noQuote rfl)

/-! ### Marks -/

open Lexeme (symbol? symbolPair?)

/-- Marks are the symbols of one or two characters, and the line end. -/
theorem symbol_of_mem_marks {text : String} {t : Token} (mem : (text, t) ∈ marks) {c : Char}
    {cs : List Char} (same : text.toList = c :: cs) :
    ((symbol? c).isSome ∨ c = '\n') ∧
      (cs = [] ∨ ∃ d, cs = [d] ∧ symbolPair? c d = some t) := by
  have firsts : marks.all fun entry =>
      entry.1.toList.head?.all fun c => (symbol? c).isSome || c == '\n' := by decide
  have lengths : ∀ entry ∈ marks, entry.1.toList.length ≤ 2 := by decide
  have pairs : marks.all fun entry => entry.1.toList[0]?.all fun c =>
      entry.1.toList[1]?.all fun d => symbolPair? c d == some entry.2 := by decide
  have short := lengths _ mem
  have pair := List.all_eq_true.mp pairs _ mem
  simp only [same] at short pair
  refine ⟨by simpa [same] using List.all_eq_true.mp firsts _ mem, ?_⟩
  cases cs with
  | nil => exact .inl rfl
  | cons d cs =>
    obtain rfl : cs = [] := by
      simp only [List.length_cons] at short
      exact List.eq_nil_of_length_eq_zero (by omega)
    exact .inr ⟨d, rfl, by simpa using pair⟩

theorem mem_marks_of_symbol? {c : Char} {t : Token} (symbol : symbol? c = some t) :
    (String.ofList [c], t) ∈ marks := by
  unfold symbol? at symbol
  split at symbol <;> cases symbol <;> decide

theorem mem_marks_of_symbolPair? {c d : Char} {t : Token} (symbol : symbolPair? c d = some t) :
    (String.ofList [c, d], t) ∈ marks := by
  unfold symbolPair? at symbol
  split at symbol <;> cases symbol <;> decide

/-- A mark is the longest match, unless a mark of two characters could be read in its place. -/
theorem longest_mark {t : Token} {c : Char} {piece cs : List Char}
    (mark : (String.ofList (c :: piece), t) ∈ marks) (starts : piece <+: cs)
    (only : ∀ d ∈ cs.head?, symbolPair? c d ≠ none → piece ≠ []) :
    (exactly (String.ofList (c :: piece)) t).Longest (c :: cs) (c :: piece) := by
  have listed := exactly_mem_table (List.mem_append_right words mark)
  have matched : c :: piece ∈ (exactly (String.ofList (c :: piece)) t).language :=
    Set.mem_singleton_iff.mpr String.toList_ofList.symm
  have starter := startsMark_of_mem_marks mark String.toList_ofList
  refine ⟨listed, (List.prefix_cons_inj c).mpr starts, matched, ?_, fun _ _ _ _ => rfl⟩
  intro r mem other begins found
  cases other with
  | nil => exact Nat.zero_le _
  | cons e other =>
    obtain ⟨rfl, rest, rfl⟩ := List.cons_prefix_cons.mp begins
    obtain ⟨noWord, noDigit, noQuote, noBlank⟩ := starter
    cases form_of_mem mem found with
    | word word => simp [noWord] at word
    | digits _ digit => simp [noDigit] at digit
    | quoted _ _ quote => exact absurd quote noQuote
    | blanks _ _ _ blank => simp [noBlank] at blank
    | mark _ text u listed' same =>
      obtain ⟨-, rfl | ⟨d, rfl, pair⟩⟩ := symbol_of_mem_marks listed' same
      · simp
      · have longer := List.length_pos_iff.mpr (only d (by simp) (by simp [pair]))
        simp only [List.length_cons, List.length_nil]
        omega

/-- A text that starts with a mark is read as the longest mark at its start. -/
theorem longest_symbol {c : Char} {cs : List Char} {t : Token}
    (read : (Lexeme.ofSymbol c cs).reading = .token t) :
    ∃ rule : Rule, rule.Longest (c :: cs) (Lexeme.ofSymbol c cs).text ∧
      rule.Reads (Lexeme.ofSymbol c cs).text t := by
  have single : (Lexeme.ofChar c).reading = .token t → (∀ d ∈ cs.head?, symbolPair? c d = none) →
      ∃ rule : Rule, rule.Longest (c :: cs) (Lexeme.ofChar c).text ∧
        rule.Reads (Lexeme.ofChar c).text t := by
    intro read alone
    unfold Lexeme.ofChar at read ⊢
    cases symbol : symbol? c with
    | some u =>
      simp only [symbol] at read
      cases read
      refine ⟨_, longest_mark (mem_marks_of_symbol? symbol) List.nil_prefix ?_, rfl⟩
      intro d mem pair
      exact absurd (alone d mem) pair
    | none =>
      simp only [symbol] at read
      cases read
  cases cs with
  | nil => exact single read (by simp)
  | cons d cs =>
    simp only [Lexeme.ofSymbol] at read ⊢
    cases pair : symbolPair? c d with
    | some u =>
      simp only [pair] at read
      cases read
      exact ⟨_, longest_mark (mem_marks_of_symbolPair? pair) (by simp) (by simp), rfl⟩
    | none =>
      simp only [pair] at read
      exact single read (by simpa using pair)

/-- The piece that is cut off a text is the longest match, read by its rule. -/
theorem longest_first {c : Char} {cs : List Char} {t : Token}
    (read : (Lexeme.first c cs).reading = .token t) :
    ∃ rule : Rule, rule.Longest (c :: cs) (Lexeme.first c cs).text ∧
      rule.Reads (Lexeme.first c cs).text t := by
  unfold Lexeme.first at read ⊢
  by_cases word : startsWord c
  · rw [if_pos word] at read ⊢
    cases read
    exact longest_word word
  rw [if_neg word] at read ⊢
  by_cases digit : c.isDigit
  · rw [if_pos digit] at read ⊢
    refine ⟨integer, longest_digits digit, ?_⟩
    simp only [Lexeme.ofDigits] at read ⊢
    split at read
    · next n fits =>
      cases read
      exact ⟨n, by rw [Integer.ofInt?_eq_some_iff.mp fits, numeral_eq_decimal], rfl⟩
    · cases read
  rw [if_neg digit] at read ⊢
  by_cases quote : c = '"'
  · subst quote
    rw [if_pos rfl] at read ⊢
    unfold Lexeme.ofQuote at read ⊢
    by_cases closed : '"' ∈ cs
    · rw [if_pos closed] at read ⊢
      cases read
      exact ⟨string, longest_string closed, _, rfl, rfl⟩
    · rw [if_neg closed] at read
      cases read
  rw [if_neg quote] at read ⊢
  by_cases blank : isBlank c
  · rw [if_pos blank] at read ⊢
    cases read
    exact ⟨Rule.blank, longest_blank blank, rfl⟩
  rw [if_neg blank] at read ⊢
  by_cases lineEnd : c = '\n'
  · subst lineEnd
    rw [if_pos rfl] at read ⊢
    cases read
    have mark : (String.ofList ['\n'], Token.lineEnd) ∈ marks := by decide
    refine ⟨_, longest_mark mark List.nil_prefix fun d _ pair => ?_, rfl⟩
    exact absurd rfl pair
  · rw [if_neg lineEnd] at read ⊢
    exact longest_symbol read

theorem fault_ofSymbol {c : Char} {cs : List Char} {f : Fault}
    (read : (Lexeme.ofSymbol c cs).reading = .fault f) :
    symbol? c = none ∧ f = .unexpectedCharacter c := by
  have single : (Lexeme.ofChar c).reading = .fault f →
      symbol? c = none ∧ f = .unexpectedCharacter c := by
    intro read
    unfold Lexeme.ofChar at read
    split at read
    · cases read
    · next none =>
      cases read
      exact ⟨none, rfl⟩
  cases cs with
  | nil => exact single read
  | cons d cs =>
    simp only [Lexeme.ofSymbol] at read
    split at read
    · cases read
    · exact single read

/-- Where no token is cut off a text, the text starts with what the fault is about. -/
theorem offends_first {c : Char} {cs : List Char} {f : Fault}
    (read : (Lexeme.first c cs).reading = .fault f) : Offends f (c :: cs) := by
  unfold Lexeme.first at read
  split at read
  · cases read
  next noWord =>
  split at read
  · next digit =>
    simp only [Lexeme.ofDigits] at read
    split at read
    · cases read
    · next large =>
      cases read
      refine ⟨c :: cs.takeWhile Char.isDigit, cs.dropWhile Char.isDigit, ?_, ?_, ?_, ?_⟩
      · simp
      · exact mem_run.mpr ⟨digit, fun d mem => List.mem_takeWhile_imp mem⟩
      · intro d mem
        have stops := List.head?_dropWhile_not Char.isDigit cs
        rw [mem] at stops
        simpa using stops
      · rw [← numeral_eq_decimal]
        simp only [Integer.ofInt?, ite_eq_right_iff, reduceCtorEq, imp_false, not_and,
          Int.not_le] at large
        refine large (Int.le_trans ?_ (Int.natCast_nonneg _))
        decide
  next noDigit =>
  split at read
  · next quote =>
    subst quote
    unfold Lexeme.ofQuote at read
    split at read
    · cases read
    · next opened =>
      cases read
      exact ⟨cs, rfl, opened⟩
  next noQuote =>
  split at read
  · cases read
  next noBlank =>
  split at read
  · cases read
  next noLineEnd =>
  obtain ⟨none, rfl⟩ := fault_ofSymbol read
  refine ⟨cs, rfl, fun rule mem text matched => ?_⟩
  cases form_of_mem mem matched with
  | word word => exact noWord word
  | digits _ digit => exact noDigit digit
  | quoted _ _ quote => exact noQuote quote
  | blanks _ _ _ blank => exact noBlank blank
  | mark _ entry t listed same =>
    obtain ⟨some | lineEnd, -⟩ := symbol_of_mem_marks listed same
    · simp [none] at some
    · exact noLineEnd lineEnd

end Rule

/-! ## The whole text -/

theorem Munches.flatMap_append {cs rest : List Char} {pieces : List (List Char × Token)}
    (munches : Munches cs pieces rest) : pieces.flatMap Prod.fst ++ rest = cs := by
  induction munches with
  | nil => rfl
  | cons _ _ _ ih => rw [List.flatMap_cons, List.append_assoc, ih]

/-- A token that a rule reads is not the end of input, and an identifier is the text itself
where that is no reserved word. -/
theorem Rule.Longest.token {cs text : List Char} {rule : Rule} {t : Token}
    (longest : rule.Longest cs text) (reads : rule.Reads text t) :
    t ≠ .endOfInput ∧ ∀ name, t = .identifier name →
      name = String.ofList text ∧ ∀ entry ∈ Rule.words, entry.1 ≠ name := by
  have plain : ∀ entry ∈ Rule.words ++ Rule.marks,
      entry.2 ≠ .endOfInput ∧ ∀ name, entry.2 ≠ .identifier name := by
    simp [Rule.words, Rule.marks]
  cases rule with
  | exactly w u =>
    obtain rfl : t = u := reads
    obtain ⟨entry, listed, same⟩ | other := Rule.mem_table longest.listed
    · cases same
      obtain ⟨notEnd, notName⟩ := plain entry listed
      exact ⟨notEnd, fun name eq => absurd eq (notName name)⟩
    · simp at other
  | integer =>
    obtain ⟨n, -, rfl⟩ := reads
    exact ⟨nofun, nofun⟩
  | string =>
    obtain ⟨body, -, rfl⟩ := reads
    exact ⟨nofun, nofun⟩
  | identifier =>
    obtain rfl : t = .identifier (String.ofList text) := reads
    refine ⟨nofun, ?_⟩
    rintro _ ⟨⟩
    refine ⟨rfl, fun entry word same => ?_⟩
    have listed := Rule.exactly_mem_table (List.mem_append_left _ word)
    have matched : text ∈ (Rule.exactly entry.1 entry.2).language :=
      Set.mem_singleton_iff.mpr (by rw [same, String.toList_ofList])
    cases longest.exact_first _ listed matched rfl
  | blank =>
    obtain rfl : t = .blank := reads
    exact ⟨nofun, nofun⟩

theorem Munches.tokens {cs rest : List Char} {pieces : List (List Char × Token)}
    (munches : Munches cs pieces rest) {piece : List Char × Token} (mem : piece ∈ pieces) :
    piece.2 ≠ .endOfInput ∧ ∀ name, piece.2 = .identifier name →
      name = String.ofList piece.1 ∧ ∀ entry ∈ Rule.words, entry.1 ≠ name := by
  induction munches with
  | nil => cases mem
  | cons longest reads _ ih =>
    rcases List.mem_cons.mp mem with rfl | mem
    · exact longest.token reads
    · exact ih mem

namespace TokenStream

variable {c : Char} {cs : List Char} (line : Nat)

theorem tokens_ofText_token {t : Token} (read : (Lexeme.first c cs).reading = .token t) :
    ∃ line', (ofText line (c :: cs)).tokens =
      if t.isLayout then (ofText line' (cs.drop ((Lexeme.first c cs).text.length - 1))).tokens
      else (ofText line' (cs.drop ((Lexeme.first c cs).text.length - 1))).tokens.map
        (⟨t, line⟩ :: ·) := by
  refine ⟨line + (Lexeme.first c cs).lineEnds, ?_⟩
  cases layout : t.isLayout <;>
    simp [ofText, Lexeme.scan_cons, ofLexemes, Lexeme.locate, isVisible, read, layout, tokens,
      drain, ending, Lexeme.lineAfter]

theorem tokens_ofText_fault {f : Fault} (read : (Lexeme.first c cs).reading = .fault f) :
    (ofText line (c :: cs)).tokens = .error ⟨f, line⟩ := by
  have visible : isVisible ⟨.fault f, line⟩ = true := rfl
  simp only [ofText, Lexeme.scan_cons, ofLexemes, Lexeme.locate, read,
    List.filter_cons_of_pos visible, tokens, drain]

end TokenStream

/-- The tokens of pieces, layout left out. -/
def visibleTokens (pieces : List (List Char × Token)) : List Token :=
  (pieces.map Prod.snd).filter fun t => !t.isLayout

/-- A text is cut into longest matches, to its end or up to where no token can be read. -/
theorem munches_ofText (line : Nat) (cs : List Char) :
    (∃ pieces ts, Munches cs pieces [] ∧ (TokenStream.ofText line cs).tokens = .ok ts ∧
      ts.map Located.item = visibleTokens pieces ++ [Token.endOfInput]) ∨
    ∃ pieces rest f line', Munches cs pieces rest ∧ Offends f rest ∧
      (TokenStream.ofText line cs).tokens = .error ⟨f, line'⟩ := by
  match cs with
  | [] => exact .inl ⟨[], _, .nil [], rfl, rfl⟩
  | c :: cs =>
    cases read : (Lexeme.first c cs).reading with
    | fault f =>
      exact .inr ⟨[], c :: cs, f, line, .nil _, Rule.offends_first read,
        TokenStream.tokens_ofText_fault line read⟩
    | token t =>
      obtain ⟨rule, longest, reads⟩ := Rule.longest_first read
      obtain ⟨line', tokens⟩ := TokenStream.tokens_ofText_token line read
      have split : (Lexeme.first c cs).text ++
          cs.drop ((Lexeme.first c cs).text.length - 1) = c :: cs := by
        obtain ⟨piece, ⟨rest, rfl⟩, text⟩ := Lexeme.text_first c cs
        simp [text]
      rw [← split] at longest
      -- The rest is shorter, because the piece has the character `c`.
      obtain ⟨pieces, ts, munches, rest, items⟩ | ⟨pieces, rest, f, l, munches, offends, fault⟩ :=
        munches_ofText line' (cs.drop ((Lexeme.first c cs).text.length - 1))
      · have munches := Munches.cons longest reads munches
        rw [split] at munches
        rw [tokens, rest]
        cases layout : t.isLayout with
        | true => exact .inl ⟨_, ts, munches, rfl, by simpa [visibleTokens, layout] using items⟩
        | false =>
          refine .inl ⟨_, ⟨t, line⟩ :: ts, munches, rfl, ?_⟩
          simpa [visibleTokens, layout] using items
      · have munches := Munches.cons longest reads munches
        rw [split] at munches
        refine .inr ⟨_, rest, f, l, munches, offends, ?_⟩
        rw [tokens, fault]
        cases t.isLayout <;> rfl
termination_by cs.length
decreasing_by
  rw [List.length_drop, List.length_cons]
  omega

/-- A text that is read as tokens is made of longest matches, and its tokens are those of the
pieces without layout, and the end of input. Where a text is not, what comes before the fault
is made of longest matches, and what is left starts with what the fault is about. -/
theorem tokenize_munches (source : String) :
    (∀ ts, tokenize source = .ok ts → ∃ pieces, Munches source.toList pieces [] ∧
      pieces.flatMap Prod.fst = source.toList ∧
      ts.map Located.item = visibleTokens pieces ++ [Token.endOfInput] ∧
      ∀ piece ∈ pieces, piece.2 ≠ .endOfInput ∧ ∀ name, piece.2 = .identifier name →
        name = String.ofList piece.1 ∧ ∀ entry ∈ Rule.words, entry.1 ≠ name) ∧
    ∀ err, tokenize source = .error err → ∃ pieces rest f, Munches source.toList pieces rest ∧
      pieces.flatMap Prod.fst ++ rest = source.toList ∧ err.cause = .fault f ∧
      Offends f rest := by
  have stream : TokenStream.ofSource source = .ofText 1 source.toList := rfl
  unfold tokenize
  rw [stream]
  obtain ⟨pieces, ts, munches, tokens, items⟩ | ⟨pieces, rest, f, line, munches, offends, fault⟩ :=
    munches_ofText 1 source.toList
  · rw [tokens]
    refine ⟨fun _ read => ?_, fun _ failed => nomatch failed⟩
    cases read
    refine ⟨pieces, munches, ?_, items, fun piece mem => munches.tokens mem⟩
    simpa using munches.flatMap_append
  · rw [fault]
    refine ⟨fun _ read => (nomatch read), fun _ failed => ?_⟩
    cases failed
    exact ⟨pieces, rest, f, munches, munches.flatMap_append, rfl, offends⟩

/-- Words, marks, digits and quotes that touch are cut where the longest match ends, and a number
out of range stops at the letter behind it. -/
theorem tokenize_munches_touching :
    (∃ pieces, Munches "ListMapper==007in\"if\n\"->-".toList pieces [] ∧
      visibleTokens pieces = [.identifier "ListMapper", .operator .equality, .integer 7,
        .keyword .inWord, .string "if\n", .mark .arrow, .operator .sub]) ∧
    ∃ pieces rest, Munches "x=>9223372036854775808y".toList pieces rest ∧
      Offends .literalTooLarge rest := by
  have read : tokenize "ListMapper==007in\"if\n\"->-" = .ok [⟨.identifier "ListMapper", 1⟩,
      ⟨.operator .equality, 1⟩, ⟨.integer 7, 1⟩, ⟨.keyword .inWord, 1⟩, ⟨.string "if\n", 1⟩,
      ⟨.mark .arrow, 2⟩, ⟨.operator .sub, 2⟩, ⟨.endOfInput, 2⟩] := by decide +kernel
  have fault : tokenize "x=>9223372036854775808y" = .error ⟨1, .fault .literalTooLarge⟩ := by
    decide +kernel
  constructor
  · obtain ⟨pieces, munches, -, items, -⟩ := (tokenize_munches _).1 _ read
    exact ⟨pieces, munches, List.append_cancel_right items.symm⟩
  · obtain ⟨pieces, rest, f, munches, -, cause, offends⟩ := (tokenize_munches _).2 _ fault
    cases cause
    exact ⟨pieces, rest, munches, offends⟩

end ListLang
