import ListLang.Proofs.Linearization
import ListLang.Proofs.Reading.Lexer

/-!
# Parsing while tokens are read

A program is parsed while its tokens are read, so an error may be found before all tokens are
seen. Parsing agrees with reading all tokens first: what parses has tokens only, and where the
tokens are not all good, parsing fails on the same fault or on the tokens before it.

The outcome depends on nothing but the tokens and faults pulled by then. In particular no program
starts with the tokens on which a syntax error was found.

## Main definitions

* `pull` — parsing with a lexer, with the number of tokens and faults pulled.

## Main statements

* `parse_streams` — parsing agrees with reading all tokens first and depends on what it pulls only.
-/

namespace ListLang

open TokenStream (ofSource)

/-- The outcome of parsing a text with a lexer, and how many tokens and faults were pulled. -/
def pull (source : String) : Except ParseError Expr × Nat :=
  match Parser.program (Lexer.ofStream (ofSource source)) with
  | .ok e s => (.ok e, s.pulled)
  | .error e s => (.error e, s.pulled)

namespace TokenStream

theorem StartsLike.refl (n : Nat) (s : TokenStream) : s.StartsLike Eq n s :=
  fun _ _ => ⟨rfl, rfl⟩

theorem drain_eq_error {ending : Located Token} {ahead : List (Located Reading)}
    {f : Located Fault} (failed : drain ending ahead = .error f) :
    ∃ n : Nat, ahead[n]? = some ⟨.fault f.item, f.line⟩ ∧
      ∀ i < n, ∃ t line, ahead[i]? = some ⟨.token t, line⟩ := by
  induction ahead with
  | nil => cases failed
  | cons r rest ih =>
    obtain ⟨t | g, line⟩ := r
    · have inner : drain ending rest = .error f := by
        cases h : drain ending rest <;> simp_all [drain, Except.map]
      obtain ⟨n, out, before⟩ := ih inner
      refine ⟨n + 1, out, fun i lt => ?_⟩
      cases i with
      | zero => exact ⟨t, line, rfl⟩
      | succ i => exact before i (Nat.lt_of_succ_lt_succ lt)
    · cases failed
      exact ⟨0, rfl, fun i lt => absurd lt (Nat.not_lt_zero i)⟩

/-- The fault that reading all tokens meets is the first one. -/
theorem exists_outcome_of_tokens_eq_error {s : TokenStream} {f : Located Fault}
    (failed : s.tokens = .error f) :
    ∃ n, s.outcome n = ⟨.fault f.item, f.line⟩ ∧ s.Faultless n := by
  obtain ⟨n, out, before⟩ := drain_eq_error failed
  refine ⟨n, by simp [outcome, out], fun i lt => ?_⟩
  obtain ⟨t, line, out⟩ := before i lt
  exact ⟨t, line, by simp [outcome, out]⟩

/-- There is one first fault. -/
theorem Faultless.unique {s : TokenStream} {i n line line' : Nat} {f g : Fault}
    (first : s.outcome i = ⟨.fault f, line⟩) (before : s.Faultless i)
    (first' : s.outcome n = ⟨.fault g, line'⟩) (before' : s.Faultless n) :
    f = g ∧ line = line' := by
  obtain lt | rfl | lt := Nat.lt_trichotomy i n
  · obtain ⟨t, l, out⟩ := before' i lt
    simp [first] at out
  · simpa [first] using first'
  · obtain ⟨t, l, out⟩ := before n lt
    simp [first'] at out

end TokenStream

theorem tokenize_eq_error {source : String} {err : ParseError}
    (failed : tokenize source = .error err) :
    ∃ n f, err.cause = .fault f ∧ (ofSource source).outcome n = ⟨.fault f, err.line⟩ ∧
      (ofSource source).Faultless n := by
  unfold tokenize at failed
  cases h : (ofSource source).tokens with
  | ok => simp [h, Except.mapError] at failed
  | error f =>
    obtain ⟨n, out, before⟩ := TokenStream.exists_outcome_of_tokens_eq_error h
    obtain rfl : ⟨f.line, .fault f.item⟩ = err := by simpa [h, Except.mapError] using failed
    exact ⟨n, f.item, rfl, out, before⟩

theorem exists_tokenize_of_parse {source : String} {e : Expr} (parsed : parse source = .ok e) :
    ∃ ts, tokenize source = .ok ts := by
  obtain ⟨u, empty, read⟩ := parse_ok_iff.mp parsed
  obtain ⟨_, rfl, ts, stream, -⟩ := read.covers
  have last : u.tokens = .ok [u.ending] := by simp [TokenStream.tokens, empty, TokenStream.drain]
  exact ⟨ts ++ [u.ending], by
    simp [tokenize, stream, TokenStream.tokens_after, last, Except.map, Except.mapError]⟩

section Pull

variable {lines : Nat → Nat → Prop} {source other : String} {e : Expr} {err : ParseError}

/-- A tree that parsing with a lexer gives. -/
theorem parse_of_pull_ok (pulled : (pull source).1 = .ok e) (refl : ∀ line, lines line line)
    (alike : (ofSource source).StartsLike lines (pull source).2 (ofSource other)) :
    ∃ e', parse other = .ok e' ∧
      e.Alike (fun l l' => lines l l' ∧ (ofSource source).HasLine l) e' := by
  unfold pull at pulled alike
  cases ran : Parser.program (Lexer.ofStream (ofSource source)) with
  | ok e s =>
    rw [ran] at pulled alike
    cases pulled
    have follows := Lexer.program_follows refl alike
    rw [ran] at follows
    cases follows with
    | ok reads more same ends =>
      refine ⟨_, ?_, same⟩
      unfold parse
      rw [ends (Nat.le_refl _)]
  | error =>
    rw [ran] at pulled
    cases pulled

/-- An error that parsing with a lexer reports. -/
theorem parse_of_pull_error (pulled : (pull source).1 = .error err)
    (refl : ∀ line, lines line line)
    (alike : (ofSource source).StartsLike lines (pull source).2 (ofSource other)) :
    Lexer.Refuses (ofSource source) err (pull source).2 ∧
      ∃ line, parse other = .error ⟨line, err.cause⟩ ∧ lines err.line line := by
  unfold pull at pulled alike ⊢
  cases ran : Parser.program (Lexer.ofStream (ofSource source)) with
  | ok =>
    rw [ran] at pulled
    cases pulled
  | error err s =>
    rw [ran] at pulled alike
    cases pulled
    have follows := Lexer.program_follows refl alike
    rw [ran] at follows
    cases follows with
    | error refuses more line ends =>
      obtain ⟨t, failed⟩ := ends (Nat.le_refl _)
      refine ⟨refuses, _, ?_, line⟩
      unfold parse
      rw [failed]

/-- Parsing with a lexer is parsing. -/
theorem pull_fst (source : String) : (pull source).1 = parse source := by
  have alike := TokenStream.StartsLike.refl (pull source).2 (ofSource source)
  cases pulled : (pull source).1 with
  | ok e =>
    obtain ⟨e', parsed, same⟩ := parse_of_pull_ok pulled (fun _ => rfl) alike
    rw [parsed, same.eq And.left]
  | error err =>
    obtain ⟨-, line, parsed, rfl⟩ := parse_of_pull_error pulled (fun _ => rfl) alike
    rw [parsed]

/-- Texts that start alike have trees that are alike. -/
theorem parse_ok_of_startsLike (parsed : parse source = .ok e) (refl : ∀ line, lines line line)
    (alike : (ofSource source).StartsLike lines (pull source).2 (ofSource other)) :
    ∃ e', parse other = .ok e' ∧
      e.Alike (fun l l' => lines l l' ∧ (ofSource source).HasLine l) e' :=
  parse_of_pull_ok ((pull_fst source).trans parsed) refl alike

/-- Texts that start alike have errors with one cause. -/
theorem parse_error_of_startsLike (parsed : parse source = .error err)
    (refl : ∀ line, lines line line)
    (alike : (ofSource source).StartsLike lines (pull source).2 (ofSource other)) :
    ∃ line, parse other = .error ⟨line, err.cause⟩ ∧ lines err.line line :=
  (parse_of_pull_error ((pull_fst source).trans parsed) refl alike).2

theorem refuses_of_parse (parsed : parse source = .error err) :
    Lexer.Refuses (ofSource source) err (pull source).2 :=
  (parse_of_pull_error ((pull_fst source).trans parsed) (fun _ => rfl)
    (TokenStream.StartsLike.refl _ _)).1

/-- Where reading all tokens meets a fault, parsing reports this fault, unless it has pulled
nothing but tokens before it. -/
theorem parse_of_tokenize_error (failed : tokenize source = .error err) :
    parse source = .error err ∨
      ∃ e, parse source = .error e ∧ (∀ f, e.cause ≠ .fault f) ∧
        ∃ n f, err.cause = .fault f ∧ (ofSource source).outcome n = ⟨.fault f, err.line⟩ ∧
          (ofSource source).Faultless n ∧ (pull source).2 ≤ n := by
  obtain ⟨n, f, cause, out, before⟩ := tokenize_eq_error failed
  cases parsed : parse source with
  | ok e =>
    obtain ⟨ts, all⟩ := exists_tokenize_of_parse parsed
    rw [failed] at all
    cases all
  | error e =>
    cases refuses_of_parse parsed with
    | fault cause' pulled out' before' =>
      obtain ⟨rfl, line⟩ := TokenStream.Faultless.unique out' before' out before
      have same : e = err := by
        cases e
        cases err
        simp_all
      rw [same]
      exact .inl rfl
    | syntactic plain _ faultless =>
      refine .inr ⟨e, rfl, plain, n, f, cause, out, before, ?_⟩
      by_contra more
      obtain ⟨t, line, out'⟩ := faultless n (Nat.lt_of_not_le more)
      rw [out] at out'
      cases out'

/-- Texts that start with the same tokens and faults on the same lines, as far as parsing the
first one pulls them, are parsed to one outcome. -/
theorem parse_eq_of_startsLike
    (alike : (ofSource source).StartsLike Eq (pull source).2 (ofSource other)) :
    parse other = parse source := by
  cases parsed : parse source with
  | ok e =>
    obtain ⟨e', parsed', same⟩ := parse_ok_of_startsLike parsed (fun _ => rfl) alike
    rw [parsed', same.eq And.left]
  | error e =>
    obtain ⟨line, parsed', rfl⟩ := parse_error_of_startsLike parsed (fun _ => rfl) alike
    rw [parsed']

end Pull

/-- Parsing agrees with reading all tokens first. A text that parses has tokens only. Where
reading all tokens meets a fault, parsing fails, on this fault or on the tokens before it. The
outcome of parsing depends on nothing but the tokens and faults that were pulled by then, and no
program starts with the tokens on which a syntax error was found. -/
theorem parse_streams (source : String) :
    (pull source).1 = parse source ∧
    (∀ e, parse source = .ok e → ∃ ts, tokenize source = .ok ts) ∧
    (∀ err, tokenize source = .error err → parse source = .error err ∨
      ∃ e, parse source = .error e ∧ (∀ f, e.cause ≠ .fault f) ∧
        ∃ n f, err.cause = .fault f ∧ (ofSource source).outcome n = ⟨.fault f, err.line⟩ ∧
          (ofSource source).Faultless n ∧ (pull source).2 ≤ n) ∧
    (∀ other, (ofSource source).StartsLike Eq (pull source).2 (ofSource other) →
      parse other = parse source) ∧
    ∀ e, parse source = .error e → (∀ f, e.cause ≠ .fault f) → ∀ other,
      (ofSource source).StartsLike (fun _ _ => True) (pull source).2 (ofSource other) →
      ∀ tree, parse other ≠ .ok tree := by
  refine ⟨pull_fst source, fun e => exists_tokenize_of_parse, fun err => parse_of_tokenize_error,
    fun other => parse_eq_of_startsLike, fun e failed _ other alike tree parsed => ?_⟩
  obtain ⟨line, failed', -⟩ := parse_error_of_startsLike failed (fun _ => trivial) alike
  rw [failed'] at parsed
  cases parsed

/-- A list literal of two forms, found out before the string behind it that is not closed. Texts
that go on in other ways have the same error, and a text on other lines is no program either. -/
theorem parse_streams_mixedList :
    tokenize "List[1, true]\n\"open" = .error ⟨2, .fault .unterminatedString⟩ ∧
      parse "List[1, true]\n\"open" = .error ⟨1, .mixedList .integer .bool⟩ ∧
      (pull "List[1, true]\n\"open").2 = 5 ∧
      parse "List[1, true + 2 @" = parse "List[1, true]\n\"open" ∧
      ∀ tree, parse "List [1,\ntrue]" ≠ .ok tree := by
  obtain ⟨-, -, -, same, noProgram⟩ := parse_streams "List[1, true]\n\"open"
  have failed : (parse "List[1, true]\n\"open").map (fun _ => ()) =
      .error ⟨1, .mixedList .integer .bool⟩ := by decide +kernel
  have parsed : parse "List[1, true]\n\"open" = .error ⟨1, .mixedList .integer .bool⟩ := by
    cases outcome : parse "List[1, true]\n\"open" with
    | ok tree =>
      rw [outcome] at failed
      cases failed
    | error e =>
      rw [outcome] at failed
      cases failed
      rfl
  refine ⟨by decide +kernel, parsed, by decide +kernel, same _ ?_,
    noProgram _ parsed (by simp) _ ?_⟩
  · unfold TokenStream.StartsLike
    decide +kernel
  · unfold TokenStream.StartsLike
    decide +kernel

end ListLang
