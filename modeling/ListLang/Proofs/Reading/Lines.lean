import ListLang.Proofs.LongestMatch
import ListLang.Proofs.Reading.Greed

/-!
# Lines of tokens and faults

A token or fault stands on the line that its first character is on: one more than the number of
line ends in the text before it, counting those inside strings and those before earlier faults.
So lines never go down from one token to the next. Only behind a string that is not closed the
end of input comes out on the line of its opening quote, because the string takes all line ends
with it.

The line is counted while lexemes go by, and only two kinds of them move it: a line end by one, and
a string by the line ends in it. In no other lexeme there is a line end.

## Main definitions

* `Lexeme.Placed` — a lexeme and the text before it.
* `Lexeme.placed` — where in a text the tokens and faults stand that come out of it.
* `Lexeme.Tiles` — placed lexemes that make up a text, with nothing but layout between them.
* `Reading.lineEnds` — by how much the line is moved.

## Main statements

* `Lexeme.count_first` — the line ends in a lexeme.
* `Lexeme.tiles_placed` — the tokens and faults of a text make it up.
* `lines_of_outcomes` — the lines of tokens and faults.
-/

namespace ListLang

open TokenStream (ofSource ofLexemes)

/-! ## Line ends in lexemes -/

/-- By how much the line is moved when a lexeme is read so. -/
def Reading.lineEnds : Reading → Nat
  | .token .lineEnd => 1
  | .token (.string s) => s.toList.count '\n'
  | _ => 0

namespace Lexeme

theorem count_eq_zero_of_all {p : Char → Bool} (none : p '\n' = false) {cs : List Char}
    (all : ∀ c ∈ cs, p c) : cs.count '\n' = 0 := by
  rw [List.count_eq_zero]
  intro mem
  simpa [none] using all _ mem

theorem count_run {p : Char → Bool} (none : p '\n' = false) {c : Char} (start : p c)
    (cs : List Char) : (c :: cs.takeWhile p).count '\n' = 0 :=
  count_eq_zero_of_all none (List.forall_mem_cons.mpr ⟨start, fun _ => List.mem_takeWhile_imp⟩)

theorem lineEnds_ofWord (w : String) : (Reading.token (.ofWord w)).lineEnds = 0 := by
  have plain : ∀ t ∈ Token.reserved, (Reading.token t).lineEnds = 0 := by decide
  unfold Token.ofWord
  cases found : Token.reserved.find? (·.spelling == w) with
  | none => rfl
  | some t => exact plain t (List.mem_of_find?_eq_some found)

theorem count_ofSymbol {c : Char} (ne : c ≠ '\n') (cs : List Char) :
    (ofSymbol c cs).text.count '\n' = 0 ∧ (ofSymbol c cs).reading.lineEnds = 0 := by
  have alone : (ofChar c).text.count '\n' = 0 ∧ (ofChar c).reading.lineEnds = 0 := by
    refine ⟨by rw [text_ofChar]; simp [ne], ?_⟩
    unfold ofChar symbol?
    split
    · next symbol => split at symbol <;> cases symbol <;> rfl
    · rfl
  cases cs with
  | nil => exact alone
  | cons d cs =>
    simp only [ofSymbol, symbolPair?]
    split
    · next pair => split at pair <;> cases pair <;> exact ⟨by decide, rfl⟩
    · exact alone

/-- A lexeme has as many line ends as it moves the line by, unless it is a string that is not
closed. -/
theorem count_first {c : Char} {cs : List Char}
    (closed : (first c cs).reading ≠ .fault .unterminatedString) :
    (first c cs).text.count '\n' = (first c cs).reading.lineEnds := by
  unfold first at closed ⊢
  split
  · next starts =>
    have continues : continuesWord c := by simp [continuesWord, starts]
    rw [ofWord, lineEnds_ofWord, count_run (by decide) continues]
  split
  · next digit =>
    have none : (ofDigits (c :: cs.takeWhile Char.isDigit)).reading.lineEnds = 0 := by
      unfold ofDigits
      dsimp only
      split <;> rfl
    rw [none, ofDigits, count_run (by decide) digit]
  split
  · next word digit quote =>
    unfold ofQuote at closed ⊢
    split
    · simp [Reading.lineEnds]
    · simp_all
  split
  · next blank => exact count_run (by decide) blank cs
  split
  · next lineEnd =>
    rw [lineEnd]
    rfl
  · next ne =>
    obtain ⟨text, reading⟩ := count_ofSymbol ne cs
    rw [text, reading]

/-- Lexemes move the line by what they are read as. -/
theorem lineEnds_first (c : Char) (cs : List Char) :
    (first c cs).lineEnds = (first c cs).reading.lineEnds := by
  unfold lineEnds
  split
  · next t read => exact count_first (by simp [read])
  · next f read =>
    rw [read]
    rfl

/-- A string that is not closed takes all that is left. -/
theorem text_of_unterminated {c : Char} {cs : List Char}
    (opened : (first c cs).reading = .fault .unterminatedString) :
    c = '"' ∧ '"' ∉ cs ∧ (first c cs).text = c :: cs := by
  obtain ⟨_, ⟨⟩, noQuote⟩ := Rule.offends_first opened
  have read : first '"' cs = ofQuote cs := rfl
  refine ⟨rfl, noQuote, ?_⟩
  rw [read, ofQuote, if_neg noQuote]

/-! ## Where lexemes stand -/

/-- A text and its lexemes are the empty text, or the first lexeme and the text behind it. -/
theorem scan_induction {motive : List Char → List Lexeme → Prop} (nil : motive [] [])
    (cons : ∀ c piece rest, (first c (piece ++ rest)).text = c :: piece →
      motive rest (scan rest) →
      motive (c :: (piece ++ rest)) (first c (piece ++ rest) :: scan rest))
    (cs : List Char) : motive cs (scan cs) := by
  match cs with
  | [] => exact nil
  | c :: cs =>
    obtain ⟨piece, ⟨rest, rfl⟩, text⟩ := text_first c cs
    have shorter : rest.length < (c :: (piece ++ rest)).length := by
      rw [List.length_cons, List.length_append]
      omega
    have tail : (piece ++ rest).drop ((first c (piece ++ rest)).text.length - 1) = rest := by
      simp [text]
    rw [scan_cons, tail]
    exact cons c piece rest text (scan_induction nil cons rest)
termination_by cs.length

/-- Lexemes of a text move the line by what they are read as. -/
theorem lineEnds_of_mem_scan (cs : List Char) :
    ∀ l ∈ scan cs, l.lineEnds = l.reading.lineEnds :=
  scan_induction (motive := fun _ ls => ∀ l ∈ ls, l.lineEnds = l.reading.lineEnds) nofun
    (fun c piece rest _ ih => List.forall_mem_cons.mpr ⟨lineEnds_first c (piece ++ rest), ih⟩) cs

/-- A lexeme and the text before it. -/
structure Placed where
  before : List Char
  lexeme : Lexeme
  deriving DecidableEq

/-- The end of a text as a lexeme, which takes no characters. -/
def ending : Lexeme := ⟨[], .token .endOfInput⟩

/-- Whether the lexeme is a fault or a token that a parser sees. -/
def isSeen (l : Lexeme) : Bool := TokenStream.isVisible ⟨l.reading, 0⟩

/-- The lexeme that comes out behind `i` others, layout left out, where `before` is the text before
the lexemes. -/
def nthFrom (before : List Char) : List Lexeme → Nat → Placed
  | [], _ => ⟨before, ending⟩
  | l :: rest, i =>
    if l.isSeen then
      match i with
      | 0 => ⟨before, l⟩
      | i + 1 => nthFrom (before ++ l.text) rest i
    else nthFrom (before ++ l.text) rest i

/-- Where in a text the token or fault stands that comes out of it behind `i` others. -/
def placed (cs : List Char) (i : Nat) : Placed := nthFrom [] (scan cs) i

section NthFrom

variable {l : Lexeme} {before : List Char} {rest : List Lexeme}

theorem nthFrom_zero (seen : l.isSeen) : nthFrom before (l :: rest) 0 = ⟨before, l⟩ := by
  simp [nthFrom, seen]

theorem nthFrom_succ (seen : l.isSeen) (i : Nat) :
    nthFrom before (l :: rest) (i + 1) = nthFrom (before ++ l.text) rest i := by
  simp [nthFrom, seen]

theorem nthFrom_hidden (hidden : ¬ l.isSeen) (i : Nat) :
    nthFrom before (l :: rest) i = nthFrom (before ++ l.text) rest i := by
  simp [nthFrom, hidden]

end NthFrom

/-- The text `after` is the text `before` with nothing but layout behind it. -/
def Padded (before after : List Char) : Prop :=
  ∃ gap, (∀ c ∈ gap, isBlank c ∨ c = '\n') ∧ after = before ++ gap

theorem Padded.refl (cs : List Char) : Padded cs cs := ⟨[], by simp, by simp⟩

theorem Padded.trans {as bs cs : List Char} (first : Padded as bs) (second : Padded bs cs) :
    Padded as cs := by
  obtain ⟨gap, layout, rfl⟩ := first
  obtain ⟨more, layout', rfl⟩ := second
  exact ⟨gap ++ more, List.forall_mem_append.mpr ⟨layout, layout'⟩, by rw [List.append_assoc]⟩

/-- The placed lexemes make up the text: each one is what is read where it stands, there is nothing
but layout before the first one and from one to the next, and behind the last one the end of the
text comes for ever. -/
structure Tiles (cs : List Char) (placed : Nat → Placed) : Prop where
  start : Padded [] (placed 0).before
  next : ∀ i, Padded ((placed i).before ++ (placed i).lexeme.text) (placed (i + 1)).before
  read : ∀ i, placed i = ⟨cs, ending⟩ ∨ ∃ c rest,
    cs = (placed i).before ++ c :: rest ∧ (placed i).lexeme = first c rest

theorem exists_layout_of_hidden {l : Lexeme} (hidden : ¬ l.isSeen) :
    ∃ t, l.reading = .token t ∧ t.isLayout := by
  unfold isSeen TokenStream.isVisible at hidden
  cases read : l.reading with
  | token t => exact ⟨t, rfl, by simpa [read] using hidden⟩
  | fault => simp [read] at hidden

/-- A lexeme that no parser sees is layout. -/
theorem padded_of_hidden {c : Char} {cs : List Char} (hidden : ¬ (first c cs).isSeen)
    (before : List Char) : Padded before (before ++ (first c cs).text) := by
  obtain ⟨t, read, layout⟩ := exists_layout_of_hidden hidden
  obtain ⟨rule, longest, reads⟩ := Rule.longest_first read
  refine ⟨_, ?_, rfl⟩
  have matched := longest.matched
  obtain ⟨⟨w, u⟩, listed, rfl⟩ | pattern := Rule.mem_table longest.listed
  · have ends : ∀ entry ∈ Rule.words ++ Rule.marks, entry.2.isLayout → entry.1.toList = ['\n'] := by
      decide
    obtain rfl : t = u := reads
    rw [Set.mem_singleton_iff.mp matched, ends _ listed layout]
    simp
  · simp only [List.mem_cons, List.not_mem_nil, or_false] at pattern
    obtain rfl | rfl | rfl | rfl := pattern
    · obtain ⟨n, -, rfl⟩ := reads
      cases layout
    · obtain ⟨body, -, rfl⟩ := reads
      cases layout
    · cases reads
      cases layout
    · obtain ⟨piece, -, text⟩ := text_first c cs
      rw [text] at matched ⊢
      obtain ⟨blank, blanks⟩ := mem_run.mp matched
      rintro d (_ | ⟨_, mem⟩)
      · exact .inl blank
      · exact .inl (blanks d mem)

theorem padded_nthFrom_zero (cs before : List Char) :
    Padded before (nthFrom before (scan cs) 0).before := by
  refine scan_induction (motive := fun _ ls => ∀ before, Padded before (nthFrom before ls 0).before)
    (fun before => .refl before) (fun c piece rest text ih before => ?_) cs before
  by_cases seen : (first c (piece ++ rest)).isSeen
  · rw [nthFrom_zero seen]
    exact .refl before
  · rw [nthFrom_hidden seen]
    exact (padded_of_hidden seen before).trans (ih _)

theorem padded_nthFrom_succ (cs before : List Char) (i : Nat) :
    Padded ((nthFrom before (scan cs) i).before ++ (nthFrom before (scan cs) i).lexeme.text)
      (nthFrom before (scan cs) (i + 1)).before := by
  refine scan_induction (motive := fun _ ls => ∀ before i,
    Padded ((nthFrom before ls i).before ++ (nthFrom before ls i).lexeme.text)
      (nthFrom before ls (i + 1)).before)
    (fun before _ => ?_) (fun c piece rest text ih before i => ?_) cs before i
  · rw [nthFrom, nthFrom, ending, List.append_nil]
    exact .refl before
  · by_cases seen : (first c (piece ++ rest)).isSeen
    · rw [nthFrom_succ seen]
      cases i with
      | zero =>
        rw [nthFrom_zero seen]
        exact padded_nthFrom_zero rest _
      | succ i =>
        rw [nthFrom_succ seen]
        exact ih _ i
    · rw [nthFrom_hidden seen, nthFrom_hidden seen]
      exact ih _ i

theorem nthFrom_eq_or (cs before : List Char) (i : Nat) :
    nthFrom before (scan cs) i = ⟨before ++ cs, ending⟩ ∨ ∃ c rest,
      before ++ cs = (nthFrom before (scan cs) i).before ++ c :: rest ∧
        (nthFrom before (scan cs) i).lexeme = first c rest := by
  refine scan_induction (motive := fun cs ls => ∀ before i,
    nthFrom before ls i = ⟨before ++ cs, ending⟩ ∨ ∃ c rest,
      before ++ cs = (nthFrom before ls i).before ++ c :: rest ∧
        (nthFrom before ls i).lexeme = first c rest)
    (fun before _ => ?_) (fun c piece rest text ih before i => ?_) cs before i
  · rw [List.append_nil]
    exact .inl rfl
  · have shifted := ih (before ++ (first c (piece ++ rest)).text)
    have same : before ++ (first c (piece ++ rest)).text ++ rest =
        before ++ c :: (piece ++ rest) := by simp [text]
    rw [same] at shifted
    by_cases seen : (first c (piece ++ rest)).isSeen
    · cases i with
      | zero =>
        rw [nthFrom_zero seen]
        exact .inr ⟨c, piece ++ rest, rfl, rfl⟩
      | succ i =>
        rw [nthFrom_succ seen]
        exact shifted i
    · rw [nthFrom_hidden seen]
      exact shifted i

/-- The tokens and faults that come out of a text make it up. -/
theorem tiles_placed (cs : List Char) : Tiles cs (placed cs) where
  start := padded_nthFrom_zero cs []
  next := padded_nthFrom_succ cs []
  read := nthFrom_eq_or cs []

namespace Tiles

variable {cs : List Char} {placed : Nat → Placed} {i j : Nat}

theorem before_mono (tiles : Tiles cs placed) (le : i ≤ j) :
    (placed i).before <+: (placed j).before := by
  induction le with
  | refl => exact List.prefix_rfl
  | @step j _ ih =>
    obtain ⟨gap, -, next⟩ := tiles.next j
    rw [next, List.append_assoc]
    exact ih.trans (List.prefix_append _ _)

/-- Behind a lexeme that goes to the end of the text there is no other. -/
theorem succ_eq_ending (tiles : Tiles cs placed)
    (whole : (placed i).before ++ (placed i).lexeme.text = cs) :
    placed (i + 1) = ⟨cs, ending⟩ := by
  obtain ended | ⟨c, rest, text, -⟩ := tiles.read (i + 1)
  · exact ended
  · obtain ⟨gap, -, next⟩ := tiles.next i
    rw [next, whole] at text
    have := congrArg List.length text
    simp at this

theorem eq_ending_of_le (tiles : Tiles cs placed) (ended : placed i = ⟨cs, ending⟩) (le : i ≤ j) :
    placed j = ⟨cs, ending⟩ := by
  induction le with
  | refl => exact ended
  | step _ ih => exact tiles.succ_eq_ending (by rw [ih, ending, List.append_nil])

/-- A string that is not closed is the last thing in a text. -/
theorem of_unterminated (tiles : Tiles cs placed)
    (opened : (placed i).lexeme.reading = .fault .unterminatedString) :
    (∃ rest, cs = (placed i).before ++ '"' :: rest ∧ '"' ∉ rest) ∧
      ∀ j > i, placed j = ⟨cs, ending⟩ := by
  obtain ended | ⟨c, rest, text, read⟩ := tiles.read i
  · rw [ended] at opened
    cases opened
  · rw [read] at opened
    obtain ⟨rfl, noQuote, takes⟩ := text_of_unterminated opened
    refine ⟨⟨rest, text, noQuote⟩, fun j lt => ?_⟩
    exact tiles.eq_ending_of_le (tiles.succ_eq_ending (by rw [read, takes, ← text])) lt

end Tiles

end Lexeme

/-! ## The lines of what comes out -/

namespace TokenStream

open Lexeme (nthFrom)

section Cons

variable {l : Lexeme} {rest : List Lexeme} {line : Nat}

theorem outcome_zero (seen : l.isSeen) :
    (ofLexemes line (l :: rest)).outcome 0 = ⟨l.reading, line⟩ := by
  have visible : isVisible ⟨l.reading, line⟩ = true := seen
  simp [outcome, ofLexemes, Lexeme.locate, visible]

theorem outcome_succ (seen : l.isSeen) (i : Nat) : (ofLexemes line (l :: rest)).outcome (i + 1) =
    (ofLexemes (line + l.lineEnds) rest).outcome i := by
  have visible : isVisible ⟨l.reading, line⟩ = true := seen
  simp [outcome, ofLexemes, Lexeme.locate, Lexeme.lineAfter, visible]

theorem outcome_hidden (hidden : ¬ l.isSeen) (i : Nat) :
    (ofLexemes line (l :: rest)).outcome i = (ofLexemes (line + l.lineEnds) rest).outcome i := by
  have invisible : ¬ isVisible ⟨l.reading, line⟩ = true := hidden
  simp [outcome, ofLexemes, Lexeme.locate, Lexeme.lineAfter, invisible]

end Cons

/-- What comes out is what the lexeme is read as. -/
theorem item_outcome (lexemes : List Lexeme) (line : Nat) (before : List Char) (i : Nat) :
    ((ofLexemes line lexemes).outcome i).item = (nthFrom before lexemes i).lexeme.reading := by
  induction lexemes generalizing line before i with
  | nil => rfl
  | cons l rest ih =>
    by_cases seen : l.isSeen
    · cases i with
      | zero => rw [outcome_zero seen, Lexeme.nthFrom_zero seen]
      | succ i => rw [outcome_succ seen, Lexeme.nthFrom_succ seen, ih]
    · rw [outcome_hidden seen, Lexeme.nthFrom_hidden seen, ih]

/-- Up to a string that is not closed, the line is counted as line ends go by. -/
theorem outcome_ofLexemes (cs before : List Char) (i : Nat)
    (closed : ∀ j < i, (nthFrom before (Lexeme.scan cs) j).lexeme.reading ≠
      .fault .unterminatedString) :
    (ofLexemes (1 + before.count '\n') (Lexeme.scan cs)).outcome i =
      ⟨(nthFrom before (Lexeme.scan cs) i).lexeme.reading,
        1 + (nthFrom before (Lexeme.scan cs) i).before.count '\n'⟩ := by
  refine Lexeme.scan_induction (motive := fun _ ls => ∀ before i,
    (∀ j < i, (nthFrom before ls j).lexeme.reading ≠ .fault .unterminatedString) →
      (ofLexemes (1 + before.count '\n') ls).outcome i = ⟨(nthFrom before ls i).lexeme.reading,
        1 + (nthFrom before ls i).before.count '\n'⟩)
    (fun _ _ _ => rfl) (fun c piece rest text ih before i closed => ?_) cs before i closed
  have counted (closed : (Lexeme.first c (piece ++ rest)).reading ≠ .fault .unterminatedString) :
      1 + before.count '\n' + (Lexeme.first c (piece ++ rest)).lineEnds =
        1 + (before ++ (Lexeme.first c (piece ++ rest)).text).count '\n' := by
    rw [Lexeme.lineEnds_first, ← Lexeme.count_first closed, List.count_append, Nat.add_assoc]
  by_cases seen : (Lexeme.first c (piece ++ rest)).isSeen
  · cases i with
    | zero => rw [outcome_zero seen, Lexeme.nthFrom_zero seen]
    | succ i =>
      have here := closed 0 (Nat.succ_pos i)
      rw [Lexeme.nthFrom_zero seen] at here
      rw [outcome_succ seen, Lexeme.nthFrom_succ seen, counted here]
      refine ih _ i fun j lt => ?_
      have there := closed (j + 1) (Nat.succ_lt_succ lt)
      rwa [Lexeme.nthFrom_succ seen] at there
  · obtain ⟨t, read, -⟩ := Lexeme.exists_layout_of_hidden seen
    rw [outcome_hidden seen, Lexeme.nthFrom_hidden seen, counted (by simp [read])]
    refine ih _ i fun j lt => ?_
    have there := closed j lt
    rwa [Lexeme.nthFrom_hidden seen] at there

/-- The tokens of a stream come out of it in order. -/
theorem outcome_of_getElem? {s : TokenStream} {ts : List (Located Token)} (all : s.tokens = .ok ts)
    {i : Nat} {x : Located Token} (here : ts[i]? = some x) :
    s.outcome i = ⟨.token x.item, x.line⟩ := by
  obtain ⟨xs, rfl, stream⟩ := exists_after_of_tokens all
  rw [List.getElem?_append] at here
  split at here
  · rw [stream]
    exact outcome_after here
  · next behind =>
    have last : x = s.ending := by
      have := List.mem_of_getElem? here
      simpa using this
    have length : s.ahead.length = xs.length := by
      rw [stream, ahead_after]
      simp
    rw [last]
    simp [outcome, length, Nat.not_lt.mp behind, ending]

end TokenStream

section Source

variable {source : String} {i : Nat}

theorem nth_error_iff {f : Fault} :
    (∃ line, (Lexer.ofStream (ofSource source)).nth i = .error ⟨line, .fault f⟩) ↔
      (Lexeme.placed source.toList i).lexeme.reading = .fault f := by
  have item := TokenStream.item_outcome (Lexeme.scan source.toList) 1 [] i
  rw [Lexer.nth_ofStream, Lexeme.placed, ← item]
  change (∃ line, Reading.report ((ofSource source).outcome i) = _) ↔
    ((ofSource source).outcome i).item = _
  obtain ⟨t | g, line⟩ := (ofSource source).outcome i <;> simp [Reading.report]

/-- The line of what comes out before or with a string that is not closed. -/
theorem nth_eq_of_closed (closed : ∀ j < i,
      (Lexeme.placed source.toList j).lexeme.reading ≠ .fault .unterminatedString) :
    (Lexer.ofStream (ofSource source)).nth i = Reading.report
      ⟨(Lexeme.placed source.toList i).lexeme.reading,
        1 + (Lexeme.placed source.toList i).before.count '\n'⟩ := by
  rw [Lexer.nth_ofStream]
  exact congrArg Reading.report (TokenStream.outcome_ofLexemes source.toList [] i closed)

/-- The lines of tokens never go down. -/
theorem lines_sorted {ts : List (Located Token)} (all : tokenize source = .ok ts) :
    (ts.map Located.line).Pairwise (· ≤ ·) := by
  have tokens : (ofSource source).tokens = .ok ts := by
    cases read : (ofSource source).tokens <;> simp_all [tokenize, Except.mapError]
  have reported : ∀ (i : Nat) x, ts[i]? = some x →
      (Lexer.ofStream (ofSource source)).nth i = .ok x := by
    intro i x here
    rw [Lexer.nth_ofStream, TokenStream.outcome_of_getElem? tokens here]
    rfl
  have line : ∀ (i : Nat) x, ts[i]? = some x →
      x.line = 1 + (Lexeme.placed source.toList i).before.count '\n' := by
    intro i x here
    have right := reported i x here
    rw [nth_eq_of_closed fun j lt => ?_] at right
    · cases read : (Lexeme.placed source.toList i).lexeme.reading with
      | token t =>
        rw [read] at right
        cases right
        rfl
      | fault f =>
        rw [read] at right
        cases right
    · intro opened
      obtain ⟨l, failed⟩ := nth_error_iff.mpr opened
      have inside : j < ts.length := Nat.lt_trans lt (List.getElem?_eq_some_iff.mp here).1
      rw [reported j _ (List.getElem?_eq_getElem inside)] at failed
      cases failed
  rw [List.pairwise_map, List.pairwise_iff_getElem]
  intro i j hi hj lt
  rw [line i _ (List.getElem?_eq_getElem hi), line j _ (List.getElem?_eq_getElem hj)]
  have before := (Lexeme.tiles_placed source.toList).before_mono (Nat.le_of_lt lt)
  exact Nat.add_le_add_left (before.sublist.count_le _) 1

end Source

/-- Whatever is taken from a text, also behind faults, is what a lexeme of the text is read as, and
as long as no string was left open it is reported on the line of the lexeme's first character, the
end of input on that of the end of the text. A string that is left open is reported on the line of
its quote. So the lines of tokens never go down. The line is moved by line ends and strings only. -/
theorem lines_of_outcomes (source : String) :
    Lexeme.Tiles source.toList (Lexeme.placed source.toList) ∧
    (∀ l ∈ Lexeme.scan source.toList, l.lineEnds = l.reading.lineEnds) ∧
    let fresh := Lexer.ofStream (ofSource source)
    let placed := Lexeme.placed source.toList
    (∀ k, (∀ i < k, ∀ line, fresh.nth i ≠ .error ⟨line, .fault .unterminatedString⟩) →
      ∀ i < k, fresh.nth i = Reading.report
        ⟨(placed i).lexeme.reading, 1 + (placed i).before.count '\n'⟩) ∧
    (∀ i line, fresh.nth i = .error ⟨line, .fault .unterminatedString⟩ →
      line = 1 + (placed i).before.count '\n' ∧
        ∃ rest, source.toList = (placed i).before ++ '"' :: rest ∧ '"' ∉ rest) ∧
    ∀ ts, tokenize source = .ok ts → (ts.map Located.line).Pairwise (· ≤ ·) := by
  refine ⟨Lexeme.tiles_placed source.toList, Lexeme.lineEnds_of_mem_scan source.toList, ?_⟩
  intro fresh placed
  have tiles : Lexeme.Tiles source.toList placed := Lexeme.tiles_placed source.toList
  refine ⟨fun k closed i lt => ?_, fun i line failed => ?_, fun ts => lines_sorted⟩
  · refine nth_eq_of_closed fun j before opened => ?_
    obtain ⟨line, failed⟩ := nth_error_iff.mpr opened
    exact closed j (Nat.lt_trans before lt) line failed
  · have opened : (placed i).lexeme.reading = .fault .unterminatedString :=
      nth_error_iff.mp ⟨line, failed⟩
    obtain ⟨quote, last⟩ := tiles.of_unterminated opened
    have right := failed.symm.trans (nth_eq_of_closed fun j before other => ?_)
    · rw [opened] at right
      cases right
      exact ⟨rfl, quote⟩
    · -- Behind another such string nothing would come but the end of the text.
      rw [(tiles.of_unterminated other).2 i before] at opened
      cases opened

/-- A string over two lines, a character that starts no token and a number out of range move the
line as their line ends do. The line end in the string that is left open does not count. -/
theorem lines_of_outcomes_faults :
    let fresh := Lexer.ofStream (ofSource "\"a\nb\" @\n9223372036854775808 x\r\n\"y\n")
    let placed := Lexeme.placed "\"a\nb\" @\n9223372036854775808 x\r\n\"y\n".toList
    (∀ i < 4, ∀ line, fresh.nth i ≠ .error ⟨line, .fault .unterminatedString⟩) ∧
      (placed 3).before = "\"a\nb\" @\n9223372036854775808 ".toList ∧
      fresh.nth 3 = .ok ⟨.identifier "x", 3⟩ ∧
      fresh.nth 4 = .error ⟨4, .fault .unterminatedString⟩ ∧
      4 = 1 + (placed 4).before.count '\n' ∧
      fresh.nth 5 = .ok ⟨.endOfInput, 4⟩ ∧
      tokenize "\"a\nb\"\nx" = .ok [⟨.string "a\nb", 1⟩, ⟨.identifier "x", 3⟩, ⟨.endOfInput, 3⟩] ∧
      [1, 3, 3].Pairwise (· ≤ ·) := by
  intro fresh placed
  obtain ⟨-, -, lines, opened, -⟩ :=
    lines_of_outcomes "\"a\nb\" @\n9223372036854775808 x\r\n\"y\n"
  obtain ⟨-, -, -, -, sorted⟩ := lines_of_outcomes "\"a\nb\"\nx"
  have plain : ∀ i < 4, (placed i).lexeme.reading ≠ .fault .unterminatedString := by decide +kernel
  have closed : ∀ i < 4, ∀ line, fresh.nth i ≠ .error ⟨line, .fault .unterminatedString⟩ :=
    fun i lt line failed => plain i lt (nth_error_iff.mp ⟨line, failed⟩)
  have read : tokenize "\"a\nb\"\nx" =
      .ok [⟨.string "a\nb", 1⟩, ⟨.identifier "x", 3⟩, ⟨.endOfInput, 3⟩] := by decide +kernel
  have failed : fresh.nth 4 = .error ⟨4, .fault .unterminatedString⟩ := by decide +kernel
  refine ⟨closed, by decide +kernel, ?_, failed, (opened 4 4 failed).1, by decide +kernel, read,
    sorted _ read⟩
  exact (lines 4 closed 3 (by decide)).trans (by decide +kernel)

end ListLang
