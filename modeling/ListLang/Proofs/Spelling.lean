import ListLang.Token.Stream
import Mathlib.Data.List.TakeWhile

/-!
# Spelling

A token that can be written is read back from its spelling, as long as the character behind
it does not continue it; blanks and line ends between tokens are skipped. In the other
direction, what a text is read as can be written.

## Main definitions

* `Token.isName` — the words that are not reserved.
* `Token.Writable` — the tokens that some text is read as, layout apart.

## Main statements

* `TokenStream.ofText_token` — a token is read from its spelling.
* `TokenStream.writable_of_mem_ofText` — a text is read as tokens that can be written.
-/

namespace ListLang

/-! ## Tokens in front of a stream -/

namespace TokenStream

/-- The stream with the token `t` in front. -/
def cons (t : Located Token) (s : TokenStream) : TokenStream :=
  { s with ahead := ⟨.token t.item, t.line⟩ :: s.ahead }

/-- The stream with the tokens `ts` in front. -/
def after (ts : List (Located Token)) (s : TokenStream) : TokenStream := ts.foldr cons s

@[simp] theorem ahead_cons (t : Located Token) (s : TokenStream) :
    (s.cons t).ahead = ⟨.token t.item, t.line⟩ :: s.ahead := rfl

@[simp] theorem after_nil (s : TokenStream) : s.after [] = s := rfl

@[simp] theorem after_cons (t : Located Token) (ts : List (Located Token)) (s : TokenStream) :
    s.after (t :: ts) = (s.after ts).cons t := rfl

@[simp] theorem after_append (ts us : List (Located Token)) (s : TokenStream) :
    s.after (ts ++ us) = (s.after us).after ts := by
  simp [after]

/-- The stream of a text that starts on line `line`. -/
def ofText (line : Nat) (cs : List Char) : TokenStream := ofLexemes line (Lexeme.scan cs)

end TokenStream

/-! ## Tokens that can be written -/

namespace Lexeme

/-- Whether the characters are a word. -/
def isWord : List Char → Bool
  | [] => false
  | c :: cs => startsWord c && cs.all continuesWord

/-- Whether the character separates tokens. -/
def isLayout (c : Char) : Bool := isBlank c || c == '\n'

/-- Whether no token goes on with the character. -/
def isLoose (c : Char) : Bool := !continuesWord c && c != '=' && c != '>'

/-- No token goes on with the text. -/
def Loose (cs : List Char) : Prop := ∀ c ∈ cs.head?, isLoose c

theorem Loose.cons {c : Char} (loose : isLoose c) (cs : List Char) : Loose (c :: cs) := by
  rintro _ ⟨⟩
  exact loose

end Lexeme

namespace Token

/-- Whether `name` is a word that is not reserved. -/
def isName (name : String) : Bool :=
  Lexeme.isWord name.toList && reserved.all (·.spelling != name)

/-- The tokens that some text is read as, layout apart. -/
def Writable : Token → Prop
  | integer n => 0 ≤ n.toInt
  | string s => '"' ∉ s.toList
  | identifier name => isName name
  | keyword _ | typeName _ | listOperation _ | bool _ | mark _ | operator _ => True
  | lineEnd | blank | endOfInput => False

instance : DecidablePred Writable
  | integer n => inferInstanceAs (Decidable (0 ≤ n.toInt))
  | string s => inferInstanceAs (Decidable ('"' ∉ s.toList))
  | identifier name => inferInstanceAs (Decidable (isName name = true))
  | keyword _ | typeName _ | listOperation _ | bool _ | mark _ | operator _ =>
    inferInstanceAs (Decidable True)
  | lineEnd | blank | endOfInput => inferInstanceAs (Decidable False)

/-- Whether the character `c` right behind the token's spelling would be read with it. -/
def continues : Token → Char → Bool
  | keyword _, c | typeName _, c | listOperation _, c | bool _, c | identifier _, c =>
    Lexeme.continuesWord c
  | integer _, c => c.isDigit
  | mark .equals, c => c == '=' || c == '>'
  | operator .sub, c => c == '>'
  | mark _, _ | operator _, _ | string _, _ | lineEnd, _ | blank, _ | endOfInput, _ => false

/-- The text `cs` right behind the token does not change how the token is read. -/
def Apart (t : Token) (cs : List Char) : Prop := ∀ c ∈ cs.head?, t.continues c = false

theorem apart_of_loose {cs : List Char} (loose : Lexeme.Loose cs) (t : Token) : t.Apart cs := by
  intro c first
  have := loose c first
  simp only [Lexeme.isLoose, Lexeme.continuesWord, Bool.and_eq_true, Bool.not_eq_true',
    Bool.or_eq_false_iff, bne_iff_ne] at this
  unfold continues
  split <;> simp [Lexeme.continuesWord, this]

theorem ofWord_spelling {t : Token} (mem : t ∈ reserved) : ofWord t.spelling = t := by
  revert t
  decide

theorem isWord_spelling {t : Token} (mem : t ∈ reserved) : Lexeme.isWord t.spelling.toList := by
  revert t
  decide

theorem ofWord_of_isName {name : String} (h : isName name) : ofWord name = identifier name := by
  have free : reserved.find? (·.spelling == name) = none := by
    simp only [isName, Bool.and_eq_true, List.all_eq_true, bne_iff_ne] at h
    simpa [List.find?_eq_none] using h.2
  simp [ofWord, free]

/-- A word stands for a reserved token or is a name. -/
theorem writable_ofWord {w : String} (word : Lexeme.isWord w.toList) : (ofWord w).Writable := by
  unfold ofWord
  cases found : reserved.find? (·.spelling == w) with
  | none =>
    have free : reserved.all (·.spelling != w) := by
      simpa [List.find?_eq_none, bne] using found
    simp [Writable, isName, word, free]
  | some t =>
    have mem := List.mem_of_find?_eq_some found
    have all : ∀ t ∈ reserved, t.Writable := by
      simp [reserved, Keyword.all, BaseTy.all, ListOperation.all, Writable]
    exact all t mem

end Token

/-! ## Reading spellings -/

namespace Lexeme

theorem takeWhile_append_stop {p : Char → Bool} {cs rest : List Char} (all : ∀ c ∈ cs, p c)
    (stop : ∀ c ∈ rest.head?, p c = false) : (cs ++ rest).takeWhile p = cs := by
  rw [List.takeWhile_append_of_pos all]
  cases rest with
  | nil => simp
  | cons d rest => simp [stop d rfl]

theorem first_word {c : Char} {cs rest : List Char} (word : isWord (c :: cs))
    (stop : ∀ d ∈ rest.head?, continuesWord d = false) :
    first c (cs ++ rest) = ofWord (c :: cs) := by
  simp only [isWord, Bool.and_eq_true, List.all_eq_true] at word
  rw [first, if_pos word.1, takeWhile_append_stop word.2 stop]

theorem not_startsWord_of_isDigit {c : Char} (digit : c.isDigit) : startsWord c = false := by
  have high : c.toNat ≤ '9'.toNat := by
    simp only [Char.isDigit, Bool.and_eq_true, decide_eq_true_eq] at digit
    exact UInt32.le_iff_toNat_le.mp digit.2
  have apart : ∀ d : Char, '9'.toNat < d.toNat → c ≠ d ∧ ¬ d ≤ c := by
    intro d low
    refine ⟨by rintro rfl; omega, fun le => ?_⟩
    have : d.toNat ≤ c.toNat := UInt32.le_iff_toNat_le.mp (Char.le_def.mp le)
    omega
  have : c ≠ '$' := by
    rintro rfl
    revert digit
    decide
  simp [startsWord, apart, this]

theorem first_digits {c : Char} {cs rest : List Char} (digits : ∀ d ∈ c :: cs, d.isDigit)
    (stop : ∀ d ∈ rest.head?, d.isDigit = false) :
    first c (cs ++ rest) = ofDigits (c :: cs) := by
  obtain ⟨digit, digits⟩ := List.forall_mem_cons.mp digits
  rw [first, if_neg (by simp [not_startsWord_of_isDigit digit]), if_pos digit,
    takeWhile_append_stop digits stop]

/-- Digits are read as the number that they write. -/
theorem ofDigits_toDigits {n : Int64} {m : Nat} (eq : n.toInt = m) :
    ofDigits (Nat.toDigits 10 m) = ⟨Nat.toDigits 10 m, .token (.integer n)⟩ := by
  have value : numeral (Nat.toDigits 10 m) = m :=
    Nat.ofDigitChars_toDigits (by decide) (by decide)
  have fits : Integer.ofInt? (m : Int) = some n := Integer.ofInt?_eq_some_iff.mpr eq
  simp [ofDigits, value, fits]

theorem ofQuote_append {cs rest : List Char} (plain : '"' ∉ cs) :
    ofQuote (cs ++ '"' :: rest) = ⟨'"' :: cs ++ ['"'], .token (.string (String.ofList cs))⟩ := by
  have body : (cs ++ '"' :: rest).takeWhile (· != '"') = cs :=
    takeWhile_append_stop (fun c mem => by simpa using ne_of_mem_of_not_mem mem plain)
      (by simp)
  simp [ofQuote, body]

theorem symbolPair?_eq_none {c d : Char} {t : Token} (symbol : symbol? c = some t)
    (apart : t.continues d = false) : symbolPair? c d = none := by
  unfold symbolPair?
  split <;> first | rfl | (cases symbol; simp [Token.continues] at apart)

theorem first_symbol {c : Char} {t : Token} {rest : List Char} (symbol : symbol? c = some t)
    (apart : t.Apart rest) : first c rest = ⟨[c], .token t⟩ := by
  have other : first c rest = ofSymbol c rest := by
    unfold symbol? at symbol
    split at symbol <;> first | rfl | cases symbol
  rw [other]
  cases rest with
  | nil => simp [ofSymbol, ofChar, symbol]
  | cons d rest => simp [ofSymbol, ofChar, symbol, symbolPair?_eq_none symbol (apart d rfl)]

theorem first_reserved {t : Token} {rest : List Char} (mem : t ∈ Token.reserved)
    (stop : ∀ d ∈ rest.head?, continuesWord d = false) :
    ∃ c cs, t.spelling.toList = c :: cs ∧ first c (cs ++ rest) = ⟨c :: cs, .token t⟩ := by
  have word := Token.isWord_spelling mem
  have reading := Token.ofWord_spelling mem
  cases chars : t.spelling.toList with
  | nil => simp [chars, isWord] at word
  | cons c cs =>
    rw [chars] at word
    refine ⟨c, cs, rfl, ?_⟩
    rw [first_word word stop, ofWord, ← chars, String.ofList_toList, reading]

/-- A token is read back from its spelling, unless what follows continues it. -/
theorem first_spelling {t : Token} {rest : List Char} (writable : t.Writable)
    (apart : t.Apart rest) :
    ∃ c cs, t.spelling.toList = c :: cs ∧ first c (cs ++ rest) = ⟨c :: cs, .token t⟩ := by
  cases t with
  | keyword k => exact first_reserved (by cases k <;> decide) apart
  | typeName b => exact first_reserved (by cases b <;> decide) apart
  | listOperation op => exact first_reserved (by cases op <;> decide) apart
  | bool b => exact first_reserved (by cases b <;> decide) apart
  | integer n =>
    obtain ⟨m, eq⟩ := Int.eq_ofNat_of_zero_le writable
    have chars : (Token.integer n).spelling.toList = Nat.toDigits 10 m := by
      simp [Token.spelling, Integer.text, eq, Int.toString_eq_repr, Int.repr]
    have digits : ∀ c ∈ Nat.toDigits 10 m, c.isDigit := fun c mem =>
      Nat.isDigit_of_mem_toDigits (by decide) (by decide) mem
    have read := ofDigits_toDigits eq
    rw [chars]
    cases form : Nat.toDigits 10 m with
    | nil => exact absurd form Nat.toDigits_ne_nil
    | cons c cs =>
      rw [form] at digits read
      exact ⟨c, cs, rfl, (first_digits digits apart).trans read⟩
  | string s =>
    refine ⟨'"', s.toList ++ ['"'], by simp [Token.spelling], ?_⟩
    rw [List.append_assoc, List.singleton_append]
    change ofQuote (s.toList ++ '"' :: rest) = _
    rw [ofQuote_append writable, String.ofList_toList, List.cons_append]
  | identifier name =>
    have reading := Token.ofWord_of_isName writable
    have word : isWord name.toList := by
      simp only [Token.Writable, Token.isName, Bool.and_eq_true] at writable
      exact writable.1
    cases chars : name.toList with
    | nil => simp [chars, isWord] at word
    | cons c cs =>
      rw [chars] at word
      refine ⟨c, cs, chars, ?_⟩
      rw [first_word word apart, ofWord, ← chars, String.ofList_toList, reading]
  | mark m =>
    cases m with
    | arrow | fatArrow => exact ⟨_, _, rfl, rfl⟩
    | _ => exact ⟨_, _, rfl, first_symbol rfl apart⟩
  | operator op =>
    cases op with
    | equality => exact ⟨_, _, rfl, rfl⟩
    | _ => exact ⟨_, _, rfl, first_symbol rfl apart⟩
  | lineEnd | blank | endOfInput => exact writable.elim

theorem scan_spelling {t : Token} {rest : List Char} (writable : t.Writable)
    (apart : t.Apart rest) :
    scan (t.spelling.toList ++ rest) = ⟨t.spelling.toList, .token t⟩ :: scan rest := by
  obtain ⟨c, cs, chars, read⟩ := first_spelling writable apart
  rw [chars, List.cons_append, scan_cons, read]
  simp

theorem writable_of_symbol? {c : Char} {t : Token} (symbol : symbol? c = some t) :
    t.Writable := by
  unfold symbol? at symbol
  split at symbol <;> cases symbol <;> trivial

theorem writable_of_symbolPair? {c d : Char} {t : Token} (symbol : symbolPair? c d = some t) :
    t.Writable := by
  unfold symbolPair? at symbol
  split at symbol <;> cases symbol <;> trivial

theorem writable_ofChar {c : Char} {t : Token} (read : (ofChar c).reading = .token t) :
    t.Writable := by
  unfold ofChar at read
  split at read
  · next symbol =>
    cases read
    exact writable_of_symbol? symbol
  · cases read

theorem writable_ofSymbol {c : Char} {cs : List Char} {t : Token}
    (read : (ofSymbol c cs).reading = .token t) : t.Writable := by
  cases cs with
  | nil => exact writable_ofChar read
  | cons d cs =>
    simp only [ofSymbol] at read
    split at read
    · next symbol =>
      cases read
      exact writable_of_symbolPair? symbol
    · exact writable_ofChar read

/-- The piece at the start of a text is read as a token that can be written, as layout or as
a fault. -/
theorem writable_first {c : Char} {cs : List Char} {t : Token}
    (read : (first c cs).reading = .token t) : t.Writable ∨ t.isLayout := by
  unfold first at read
  split at read
  · next starts =>
    cases read
    refine .inl (Token.writable_ofWord ?_)
    simp [isWord, starts]
  split at read
  · simp only [ofDigits] at read
    split at read
    · next n value =>
      cases read
      have eq := Integer.ofInt?_eq_some_iff.mp value
      exact .inl (by simp [Token.Writable, eq])
    · cases read
  split at read
  · unfold ofQuote at read
    split at read
    · cases read
      refine .inl fun quote => ?_
      rw [String.toList_ofList] at quote
      simpa using List.mem_takeWhile_imp quote
    · cases read
  split at read
  · cases read
    exact .inr rfl
  split at read
  · cases read
    exact .inr rfl
  · exact .inl (writable_ofSymbol read)

theorem writable_of_mem_scan {cs : List Char} {l : Lexeme} {t : Token} (mem : l ∈ scan cs)
    (read : l.reading = .token t) : t.Writable ∨ t.isLayout := by
  match cs with
  | [] => cases mem
  | c :: cs =>
    rw [scan_cons, List.mem_cons] at mem
    rcases mem with rfl | mem
    · exact writable_first read
    · exact writable_of_mem_scan mem read
termination_by cs.length
decreasing_by
  rw [List.length_drop, List.length_cons]
  omega

/-! ## Layout -/

theorem first_blank {c : Char} (blank : isBlank c) (cs : List Char) :
    first c cs = ⟨c :: cs.takeWhile isBlank, .token .blank⟩ := by
  simp only [isBlank, Bool.or_eq_true, beq_iff_eq] at blank
  rcases blank with ((rfl | rfl) | rfl) | rfl <;> rfl

theorem lineEnds_blank {c : Char} (blank : isBlank c) (cs : List Char) :
    (first c cs).lineEnds = 0 := by
  have plain : ∀ d : Char, isBlank d → d ≠ '\n' := by
    rintro _ blank rfl
    revert blank
    decide
  rw [first_blank blank, lineEnds, List.count_eq_zero]
  rintro (_ | ⟨_, mem⟩)
  · exact plain _ blank rfl
  · exact plain _ (List.mem_takeWhile_imp mem) rfl

end Lexeme

namespace TokenStream

open Lexeme

theorem exists_of_mem_locate {lexemes : List Lexeme} {line : Nat} {r : Located Reading}
    (mem : r ∈ locate line lexemes) : ∃ l ∈ lexemes, l.reading = r.item := by
  induction lexemes generalizing line with
  | nil => cases mem
  | cons l rest ih =>
    rcases List.mem_cons.mp mem with rfl | mem
    · exact ⟨l, List.mem_cons_self, rfl⟩
    · obtain ⟨l, mem, read⟩ := ih mem
      exact ⟨l, List.mem_cons_of_mem _ mem, read⟩

/-- A text is read as tokens that can be written. -/
theorem writable_of_mem_ofText {line l : Nat} {cs : List Char} {t : Token}
    (mem : ⟨.token t, l⟩ ∈ (ofText line cs).ahead) : t.Writable := by
  obtain ⟨located, visible⟩ := List.mem_filter.mp mem
  obtain ⟨lexeme, scanned, read⟩ := exists_of_mem_locate located
  refine (writable_of_mem_scan scanned read).resolve_right ?_
  simpa [isVisible] using visible

theorem ofText_token {t : Token} {rest : List Char} (writable : t.Writable)
    (apart : t.Apart rest) (line : Nat) :
    ofText line (t.spelling.toList ++ rest) =
      (ofText (line + t.spelling.toList.count '\n') rest).cons ⟨t, line⟩ := by
  have visible : t.isLayout = false := by
    cases t <;> first | rfl | exact writable.elim
  simp [ofText, scan_spelling writable apart, ofLexemes, locate, isVisible, visible, cons,
    lineAfter, lineEnds]

theorem ofText_lineEnd (line : Nat) (cs : List Char) :
    ofText line ('\n' :: cs) = ofText (line + 1) cs := by
  have read : first '\n' cs = ⟨['\n'], .token .lineEnd⟩ := rfl
  simp [ofText, scan_cons, read, ofLexemes, locate, isVisible, Token.isLayout, lineAfter,
    lineEnds]

theorem ofText_blank {c : Char} (blank : isBlank c) (line : Nat) (cs : List Char) :
    ofText line (c :: cs) = ofText line cs := by
  have skip : ∀ {d : Char}, isBlank d → ∀ ds : List Char,
      ofText line (d :: ds) = ofText line (ds.drop (ds.takeWhile isBlank).length) := by
    intro d blank ds
    have lines := lineEnds_blank blank ds
    rw [first_blank blank] at lines
    simp [ofText, scan_cons, first_blank blank, ofLexemes, locate, isVisible, Token.isLayout,
      lineAfter, lines]
  rw [skip blank]
  -- A run of blanks is one piece, so the blanks behind `c` are skipped with it.
  cases cs with
  | nil => rfl
  | cons d ds =>
    by_cases more : isBlank d
    · rw [skip more]
      simp [more]
    · simp [more]

end TokenStream

end ListLang
