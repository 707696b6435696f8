import ListLang.Proofs.Reading.Simulation
import ListLang.Program

/-!
# Reading with one token of lookahead

A lexer takes tokens from a stream only when they are asked for. A token that was looked at is
kept in a buffer until it is taken, and the lexer counts what it has pulled out of the stream.
A fault that is pulled is reported at once and is gone.

The parsers do on a lexer what they do on the stream, and what they do depends on nothing but
what they pull: another stream that starts with the same tokens and faults leads to the same
outcome. Streams whose tokens stand on other lines lead to the same outcome up to these lines.

## Main definitions

* `TokenStream.outcome` — what comes out of a stream at a position.
* `Lexer` — a stream with a buffer of one token.
* `Lexer.Reads`, `Lexer.Refuses` — where a lexer stands while no fault was met, and when an error
  is reported.
* `Lexer.follows` — the relation between parsing with a lexer and parsing from a stream.

## Main statements

* `Lexer.program_follows` — parsing with a lexer, followed on a stream that starts alike.
-/

namespace ListLang

namespace TokenStream

/-- What comes out of the stream behind `i` other tokens and faults. Behind the last one the end
of input comes out any number of times. -/
def outcome (s : TokenStream) (i : Nat) : Located Reading :=
  s.ahead[i]?.getD ⟨.token .endOfInput, s.lastLine⟩

/-- The stream without its first `n` tokens and faults. -/
def drop (s : TokenStream) (n : Nat) : TokenStream := { s with ahead := s.ahead.drop n }

variable {s : TokenStream} {i line : Nat}

theorem drop_eq_or (s : TokenStream) (i : Nat) :
    (s.drop i).ahead = s.outcome i :: (s.drop (i + 1)).ahead ∨
      (s.drop i).ahead = [] ∧ s.outcome i = ⟨.token .endOfInput, s.lastLine⟩ ∧
        s.drop (i + 1) = s.drop i := by
  by_cases h : i < s.ahead.length
  · left
    simp [drop, outcome, h]
  · right
    have le := Nat.not_lt.mp h
    simp [drop, outcome, le, Nat.le_succ_of_le le]

theorem next_drop_token {t : Token} (out : s.outcome i = ⟨.token t, line⟩) :
    next (s.drop i) = .ok ⟨t, line⟩ (s.drop (i + 1)) := by
  obtain ahead | ⟨ahead, last, same⟩ := s.drop_eq_or i
  · simp only [next, ahead, out]
    rfl
  · obtain ⟨rfl, rfl⟩ : t = .endOfInput ∧ line = s.lastLine := by simpa [last, eq_comm] using out
    simp only [next, ahead, same]
    rfl

theorem next_drop_fault {f : Fault} (out : s.outcome i = ⟨.fault f, line⟩) :
    next (s.drop i) = .error ⟨line, .fault f⟩ (s.drop (i + 1)) := by
  obtain ahead | ⟨-, last, -⟩ := s.drop_eq_or i
  · simp only [next, ahead, out]
    rfl
  · simp [last] at out

theorem lookahead_drop_token {t : Token} (out : s.outcome i = ⟨.token t, line⟩) :
    lookahead (s.drop i) = .ok ⟨t, line⟩ (s.drop i) := by
  obtain ahead | ⟨ahead, last, -⟩ := s.drop_eq_or i
  · simp only [lookahead, ahead, out]
  · obtain ⟨rfl, rfl⟩ : t = .endOfInput ∧ line = s.lastLine := by simpa [last, eq_comm] using out
    simp only [lookahead, ahead]
    rfl

theorem lookahead_drop_fault {f : Fault} (out : s.outcome i = ⟨.fault f, line⟩) :
    lookahead (s.drop i) = .error ⟨line, .fault f⟩ (s.drop (i + 1)) := by
  obtain ahead | ⟨-, last, -⟩ := s.drop_eq_or i
  · simp only [lookahead, ahead, out]
    rfl
  · simp [last] at out

end TokenStream

/-- A stream with a buffer of one token. -/
structure Lexer where
  /-- What was not pulled yet. -/
  stream : TokenStream
  /-- The token that was looked at and not taken yet. -/
  peeked : Option (Located Token)
  /-- How many tokens and faults were pulled, the end of input counted as often as it was. -/
  pulled : Nat

namespace Lexer

/-- A lexer that has pulled nothing yet. -/
def ofStream (s : TokenStream) : Lexer := ⟨s, none, 0⟩

/-- Pulls the first token out of the stream. -/
def advance : ParserOn Lexer (Located Token) := fun s =>
  match TokenStream.next s.stream with
  | .ok x rest => .ok x { s with stream := rest, pulled := s.pulled + 1 }
  | .error e rest => .error e { s with stream := rest, pulled := s.pulled + 1 }

/-- Takes the token in the buffer, or else pulls one. -/
def next : ParserOn Lexer (Located Token) := fun s =>
  match s.peeked with
  | some x => .ok x { s with peeked := none }
  | none => advance s

/-- Pulls a token into the buffer, unless one is there, and gives it. -/
def lookahead : ParserOn Lexer (Located Token) := fun s =>
  match s.peeked with
  | some x => .ok x s
  | none => match advance s with
    | .ok x s => .ok x { s with peeked := some x }
    | .error e s => .error e s

instance : TokenSource Lexer where
  next := next
  lookahead := lookahead
  size s := TokenSource.size s.stream + s.peeked.elim 0 Parser.counts

theorem advance_ok {s t : Lexer} {x : Located Token} (ok : advance s = .ok x t) :
    TokenStream.next s.stream = .ok x t.stream ∧ t.peeked = s.peeked := by
  unfold advance at ok
  split at ok <;> cases ok
  next ran => exact ⟨ran, rfl⟩

theorem next_ok {s t : Lexer} {x : Located Token} (ok : next s = .ok x t) :
    (s.peeked = some x ∧ t = { s with peeked := none }) ∨
      s.peeked = none ∧ advance s = .ok x t := by
  unfold next at ok
  split at ok
  · cases ok
    exact .inl ⟨by assumption, rfl⟩
  · exact .inr ⟨by assumption, ok⟩

theorem lookahead_ok {s t : Lexer} {x : Located Token} (ok : lookahead s = .ok x t) :
    (s.peeked = some x ∧ t = s) ∨
      s.peeked = none ∧ ∃ u, advance s = .ok x u ∧ t = { u with peeked := some x } := by
  unfold lookahead at ok
  split at ok
  · cases ok
    exact .inl ⟨by assumption, rfl⟩
  · split at ok <;> cases ok
    exact .inr ⟨by assumption, _, by assumption, rfl⟩

/-- Pulling a token makes the stream smaller by it. -/
theorem size_advance {s t : Lexer} {x : Located Token} (ok : advance s = .ok x t) :
    TokenSource.size t.stream + Parser.counts x ≤ TokenSource.size s.stream :=
  (Parser.agree_next s.stream (Nat.le_refl _)).2 x t.stream (advance_ok ok).1

theorem size_eq (s : Lexer) :
    TokenSource.size s = TokenSource.size s.stream + s.peeked.elim 0 Parser.counts := rfl

instance : LawfulTokenSource Lexer where
  size_pos s := Nat.lt_of_lt_of_le (LawfulTokenSource.size_pos s.stream) (Nat.le_add_right _ _)
  size_next_le {s t x} ok := by
    obtain ⟨-, rfl⟩ | ⟨none, took⟩ := next_ok ok
    · exact Nat.le_add_right _ _
    · have := size_advance took
      rw [size_eq, size_eq, (advance_ok took).2, none, Option.elim_none]
      omega
  size_next_lt {s t x} ok ne := by
    have one : Parser.counts x = 1 := by simp [Parser.counts, ne]
    obtain ⟨here, rfl⟩ | ⟨none, took⟩ := next_ok ok
    · rw [size_eq, size_eq, here, Option.elim_some, one]
      exact Nat.lt_succ_self _
    · have := size_advance took
      rw [size_eq, size_eq, (advance_ok took).2, none, Option.elim_none]
      omega
  size_lookahead_le {s t x} ok := by
    obtain ⟨-, rfl⟩ | ⟨none, u, took, rfl⟩ := lookahead_ok ok
    · exact Nat.le_refl _
    · have := size_advance took
      rw [size_eq, size_eq, none]
      exact this
  next_lookahead {s t x} ok := by
    obtain ⟨here, rfl⟩ | ⟨none, u, took, rfl⟩ := lookahead_ok ok
    · exact ⟨{ t with peeked := none }, by simp [TokenSource.next, next, here]⟩
    · exact ⟨{ u with peeked := .none }, rfl⟩
  lookahead_lookahead {s t x} ok := by
    obtain ⟨-, rfl⟩ | ⟨-, u, -, rfl⟩ := lookahead_ok ok
    · exact ok
    · rfl

end Lexer

/-! ## Where a lexer stands -/

namespace TokenStream

/-- The first `n` outcomes are tokens. -/
def Faultless (s : TokenStream) (n : Nat) : Prop :=
  ∀ i < n, ∃ t line, s.outcome i = ⟨.token t, line⟩

/-- A token that comes out of the stream stands on the line. -/
def HasLine (s : TokenStream) (line : Nat) : Prop :=
  ∃ i t, s.outcome i = ⟨.token t, line⟩

/-- The first `n` outcomes of the streams are the same tokens and faults, on lines that are
related. -/
def StartsLike (lines : Nat → Nat → Prop) (n : Nat) (s t : TokenStream) : Prop :=
  ∀ i < n, (s.outcome i).item = (t.outcome i).item ∧ lines (s.outcome i).line (t.outcome i).line

theorem StartsLike.outcome {lines : Nat → Nat → Prop} {n i line : Nat} {s t : TokenStream}
    (alike : s.StartsLike lines n t) (lt : i < n) {r : Reading} (out : s.outcome i = ⟨r, line⟩) :
    ∃ line', t.outcome i = ⟨r, line'⟩ ∧ lines line line' := by
  obtain ⟨item, related⟩ := alike i lt
  rw [out] at item related
  refine ⟨(t.outcome i).line, ?_, related⟩
  cases other : t.outcome i
  simp_all

end TokenStream

namespace Lexer

/-- The lexer has pulled tokens only out of the stream `whole`, of which the last one may be in
the buffer. -/
structure Reads (whole : TokenStream) (s : Lexer) : Prop where
  stream : s.stream = whole.drop s.pulled
  faultless : whole.Faultless s.pulled
  peeked : ∀ x, s.peeked = some x →
    ∃ i, s.pulled = i + 1 ∧ whole.outcome i = ⟨.token x.item, x.line⟩

/-- How many tokens were taken. -/
def taken (s : Lexer) : Nat := s.pulled - s.peeked.elim 0 fun _ => 1

/-- When an error is reported after `pulled` tokens and faults: at once when a fault is pulled, or
on the line of a token when no fault was pulled. -/
inductive Refuses (whole : TokenStream) (e : ParseError) (pulled : Nat) : Prop where
  | fault {f : Fault} {i : Nat} : e.cause = .fault f → pulled = i + 1 →
    whole.outcome i = ⟨.fault f, e.line⟩ → whole.Faultless i → Refuses whole e pulled
  | syntactic : (∀ f, e.cause ≠ .fault f) → whole.HasLine e.line → whole.Faultless pulled →
    Refuses whole e pulled

theorem reads_ofStream (s : TokenStream) : (ofStream s).Reads s where
  stream := rfl
  faultless := by simp [TokenStream.Faultless, ofStream]
  peeked := by simp [ofStream]

/-- What comes of asking for the first token ahead, which `n` tells whether to take. -/
inductive Gives (whole : TokenStream) (s : Lexer) (n : Nat) :
    EStateM.Result ParseError Lexer (Located Token) → Prop where
  | token {t : Token} {line : Nat} {u : Lexer} : whole.outcome s.taken = ⟨.token t, line⟩ →
    u.Reads whole → u.taken = s.taken + n → s.pulled ≤ u.pulled → s.taken < u.pulled →
    Gives whole s n (.ok ⟨t, line⟩ u)
  | fault {f : Fault} {line : Nat} {u : Lexer} : whole.outcome s.taken = ⟨.fault f, line⟩ →
    whole.Faultless s.taken → s.pulled ≤ u.pulled → u.pulled = s.taken + 1 →
    Gives whole s n (.error ⟨line, .fault f⟩ u)

section Reads

variable {whole : TokenStream} {s : Lexer}

theorem Reads.faultless_succ (reads : s.Reads whole) {t : Token} {line : Nat}
    (out : whole.outcome s.pulled = ⟨.token t, line⟩) : whole.Faultless (s.pulled + 1) := by
  intro i lt
  obtain lt | rfl := Nat.lt_succ_iff_lt_or_eq.mp lt
  · exact reads.faultless i lt
  · exact ⟨t, line, out⟩

theorem taken_of_none (none : s.peeked = none) : s.taken = s.pulled := by
  simp [taken, none]

theorem Reads.taken_of_some (reads : s.Reads whole) {x : Located Token} (here : s.peeked = some x) :
    s.pulled = s.taken + 1 ∧ whole.outcome s.taken = ⟨.token x.item, x.line⟩ := by
  obtain ⟨i, pulled, out⟩ := reads.peeked x here
  have : s.taken = i := by simp [taken, here, pulled]
  rw [this]
  exact ⟨pulled, out⟩

theorem Reads.advance_token (reads : s.Reads whole) {t : Token} {line : Nat}
    (out : whole.outcome s.pulled = ⟨.token t, line⟩) :
    advance s = .ok ⟨t, line⟩
      { s with stream := whole.drop (s.pulled + 1), pulled := s.pulled + 1 } := by
  simp only [advance, reads.stream, TokenStream.next_drop_token out]

theorem Reads.advance_fault (reads : s.Reads whole) {f : Fault} {line : Nat}
    (out : whole.outcome s.pulled = ⟨.fault f, line⟩) :
    advance s = .error ⟨line, .fault f⟩
      { s with stream := whole.drop (s.pulled + 1), pulled := s.pulled + 1 } := by
  simp only [advance, reads.stream, TokenStream.next_drop_fault out]

theorem Reads.gives_next (reads : s.Reads whole) : Gives whole s 1 (next s) := by
  cases here : s.peeked with
  | some x =>
    obtain ⟨pulled, out⟩ := reads.taken_of_some here
    simp only [next, here]
    refine .token out ⟨reads.stream, reads.faultless, by simp⟩ ?_ (Nat.le_refl _) ?_
    · exact pulled
    · simp [pulled]
  | none =>
    have taken := taken_of_none here
    simp only [next, here]
    obtain ⟨⟨t | f, line⟩, out⟩ : ∃ r, whole.outcome s.pulled = r := ⟨_, rfl⟩
    · rw [reads.advance_token out]
      refine .token (taken ▸ out) ⟨rfl, reads.faultless_succ out, by simp [here]⟩ ?_ ?_ ?_
      · simp [taken_of_none, here]
      · simp
      · simp [taken]
    · rw [reads.advance_fault out]
      exact .fault (taken ▸ out) (taken ▸ reads.faultless) (Nat.le_succ _) (by simp [taken])

theorem Reads.gives_lookahead (reads : s.Reads whole) : Gives whole s 0 (lookahead s) := by
  cases here : s.peeked with
  | some x =>
    obtain ⟨pulled, out⟩ := reads.taken_of_some here
    simp only [lookahead, here]
    exact .token out reads rfl (Nat.le_refl _) (by simp [pulled])
  | none =>
    have taken := taken_of_none here
    simp only [lookahead, here]
    obtain ⟨⟨t | f, line⟩, out⟩ : ∃ r, whole.outcome s.pulled = r := ⟨_, rfl⟩
    · rw [reads.advance_token out]
      refine .token (taken ▸ out) ⟨rfl, reads.faultless_succ out, ?_⟩ ?_ ?_ ?_
      · rintro x ⟨⟩
        exact ⟨s.pulled, rfl, out⟩
      · simp [Lexer.taken, here]
      · simp
      · simp [taken]
    · rw [reads.advance_fault out]
      exact .fault (taken ▸ out) (taken ▸ reads.faultless) (Nat.le_succ _) (by simp [taken])

end Reads

/-! ## Following a lexer on a stream -/

/-- A parser, run with a lexer on the stream `whole` that has pulled `start` tokens, ends as
another one does on what is left of the stream `other`, provided it pulls at most `limit` tokens
and faults. -/
inductive Follows (lines : Nat → Nat → Prop) (whole other : TokenStream) (limit : Nat)
    {α β : Type} (Q : α → β → Prop) (start : Nat) :
    EStateM.Result ParseError Lexer α → EStateM.Result ParseError TokenStream β → Prop where
  | ok {a b s r} : s.Reads whole → start ≤ s.pulled → Q a b →
    (s.pulled ≤ limit → r = .ok b (other.drop s.taken)) →
    Follows lines whole other limit Q start (.ok a s) r
  | error {e line s r} : Refuses whole e s.pulled → start ≤ s.pulled → lines e.line line →
    (s.pulled ≤ limit → ∃ t, r = .error ⟨line, e.cause⟩ t) →
    Follows lines whole other limit Q start (.error e s) r

section Follows

variable {lines : Nat → Nat → Prop} {whole other : TokenStream} {limit : Nat}

/-- What follows from a later start follows from an earlier one, where parsing from the stream
comes down to the same. -/
theorem Follows.of_later {α β : Type} {Q : α → β → Prop} {start later : Nat}
    {r : EStateM.Result ParseError Lexer α} {r' r'' : EStateM.Result ParseError TokenStream β}
    (h : Follows lines whole other limit Q later r r') (le : start ≤ later)
    (same : later ≤ limit → r'' = r') : Follows lines whole other limit Q start r r'' := by
  cases h with
  | ok reads more q ends =>
    refine .ok reads (Nat.le_trans le more) q fun small => ?_
    rw [same (Nat.le_trans more small), ends small]
  | error refuses more line ends =>
    refine .error refuses (Nat.le_trans le more) line fun small => ?_
    rw [same (Nat.le_trans more small)]
    exact ends small

/-- A token that is taken from the lexer or looked at there, and in the same way on the stream. -/
theorem follows_token {n : Nat} {s : Lexer} {r : EStateM.Result ParseError Lexer (Located Token)}
    {q : Parser (Located Token)} (refl : ∀ line, lines line line)
    (alike : whole.StartsLike lines limit other) (gives : Gives whole s n r)
    (token : ∀ {i t line}, other.outcome i = ⟨.token t, line⟩ →
      q (other.drop i) = .ok ⟨t, line⟩ (other.drop (i + n)))
    (fault : ∀ {i f line}, other.outcome i = ⟨.fault f, line⟩ →
      q (other.drop i) = .error ⟨line, .fault f⟩ (other.drop (i + 1))) :
    Follows lines whole other limit
      (Located.Alike fun line line' => lines line line' ∧ whole.HasLine line) s.pulled r
      (q (other.drop s.taken)) := by
  cases gives with
  | @token t line u out reads taken more lt =>
    by_cases le : u.pulled ≤ limit
    · obtain ⟨line', out', related⟩ := alike.outcome (Nat.lt_of_lt_of_le lt le) out
      refine .ok reads more (b := ⟨t, line'⟩) ⟨rfl, related, s.taken, t, out⟩ fun _ => ?_
      rw [token out', taken]
    · exact .ok reads more (b := ⟨t, line⟩) ⟨rfl, refl line, s.taken, t, out⟩
        fun le' => absurd le' le
  | @fault f line u out faultless more pulled =>
    have refuses : Refuses whole ⟨line, .fault f⟩ u.pulled := .fault rfl pulled out faultless
    by_cases le : u.pulled ≤ limit
    · obtain ⟨line', out', related⟩ := alike.outcome (by omega) out
      exact .error refuses more related fun _ => ⟨_, fault out'⟩
    · exact .error refuses more (refl line) fun le' => absurd le' le

/-- Parsing with a lexer on one stream and from another stream that starts alike. -/
def follows (refl : ∀ line, lines line line) (alike : whole.StartsLike lines limit other) :
    Parser.Simulation Lexer TokenStream where
  lines line line' := lines line line' ∧ whole.HasLine line
  rel Q p q := ∀ s, s.Reads whole →
    Follows lines whole other limit Q s.pulled (p s) (q (other.drop s.taken))
  pure h s reads := .ok reads (Nat.le_refl _) h fun _ => rfl
  bind {_ _ _ _ _ _ p q f g} first next s reads := by
    change Follows _ _ _ _ _ _ (EStateM.bind p f s) (EStateM.bind q g (other.drop s.taken))
    have ran := first s reads
    simp only [EStateM.bind]
    generalize p s = r at ran
    cases ran with
    | ok reads' more h ends =>
      -- What the first part pulled is within the limit if all that is pulled is.
      refine (next _ _ h _ reads').of_later more fun small => ?_
      rw [ends small]
    | error refuses more line ends =>
      refine .error refuses more line fun small => ?_
      obtain ⟨t, failed⟩ := ends small
      exact ⟨t, by rw [failed]⟩
  fail related plain s reads := .error (.syntactic plain related.2 reads.faultless)
    (Nat.le_refl _) related.1 fun _ => ⟨_, rfl⟩
  next s reads := follows_token refl alike reads.gives_next TokenStream.next_drop_token
    TokenStream.next_drop_fault
  lookahead s reads := follows_token refl alike reads.gives_lookahead
    TokenStream.lookahead_drop_token TokenStream.lookahead_drop_fault
  bounded {_ _ _ f g} hf hg h s reads := by
    -- The greater of the two sizes is a bound for both sources.
    change Follows _ _ _ _ _ _ (f (TokenSource.size s) s) (g (TokenSource.size _) _)
    rw [← hf (max (TokenSource.size s) (TokenSource.size (other.drop s.taken))) s
        (Nat.le_max_left _ _),
      ← hg (max (TokenSource.size s) (TokenSource.size (other.drop s.taken))) _
        (Nat.le_max_right _ _)]
    exact h _ s reads

/-- A program that is parsed with a lexer, and from a stream that starts alike. -/
theorem program_follows (refl : ∀ line, lines line line)
    (alike : whole.StartsLike lines limit other) :
    Follows lines whole other limit
      (Expr.Alike fun line line' => lines line line' ∧ whole.HasLine line) 0
      (Parser.program (ofStream whole)) (Parser.program other) :=
  (follows refl alike).program (ofStream whole) (reads_ofStream whole)

end Follows

end Lexer

end ListLang
