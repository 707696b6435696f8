import ListLang.Proofs.Grammar.Elsewhere
import ListLang.Proofs.Reading.Streaming

/-!
# How far an expression goes

Reading an expression takes its tokens and no more. The token that stands behind them can neither
start an atom nor join operands, so no part of the expression could have gone on with it, and it
is still there to be taken, with all that comes behind it. The tokens that were taken are the
expression by themselves, too, and the text is a program exactly where nothing stands behind them.

## Main definitions

* `Lexer.nth` — what a lexer gives, one token after the other.
* `Phrase.Leaves` — what is known of the token behind a phrase.

## Main statements

* `Phrase.Spans.stops` — behind an expression stands a token that ends every expression.
* `expression_greedy` — what reading an expression takes and what it leaves.
-/

namespace ListLang

open TokenStream (ofSource)

/-! ## One token after the other -/

namespace TokenStream

variable {s : TokenStream} {xs : List (Located Token)}

theorem ahead_after (s : TokenStream) (xs : List (Located Token)) :
    (s.after xs).ahead = xs.map (fun x => ⟨.token x.item, x.line⟩) ++ s.ahead := by
  induction xs with
  | nil => rfl
  | cons x xs ih => rw [after_cons, ahead_cons, ih, List.map_cons, List.cons_append]

theorem lastLine_after (s : TokenStream) (xs : List (Located Token)) :
    (s.after xs).lastLine = s.lastLine := by
  induction xs with
  | nil => rfl
  | cons x xs ih => exact ih

theorem eq_of_after_eq {ys : List (Located Token)} (same : s.after xs = s.after ys) :
    xs = ys := by
  have ahead := congrArg TokenStream.ahead same
  rw [ahead_after, ahead_after] at ahead
  refine List.map_injective_iff.mpr ?_ (List.append_cancel_right ahead)
  rintro ⟨⟩ ⟨⟩ h
  simpa using h

theorem outcome_after {i : Nat} {x : Located Token} (here : xs[i]? = some x) :
    (s.after xs).outcome i = ⟨.token x.item, x.line⟩ := by
  obtain ⟨lt, rfl⟩ := List.getElem?_eq_some_iff.mp here
  simp [outcome, ahead_after, List.getElem?_append, lt]

theorem outcome_of_peek? {i : Nat} {x : Located Token} (sees : (s.drop i).peek? = some x) :
    s.outcome i = ⟨.token x.item, x.line⟩ := by
  unfold peek? at sees
  obtain ahead | ⟨ahead, out, -⟩ := s.drop_eq_or i
  · rw [ahead] at sees
    split at sees
    · contradiction
    · next first =>
      cases sees
      exact (List.cons.inj first).1
    · cases sees
  · rw [ahead] at sees
    cases sees
    exact out

/-- Tokens that are the tokens of a stream, without its end, are all that stands in it. -/
theorem exists_after_of_tokens {ts : List (Located Token)} (all : s.tokens = .ok ts) :
    ∃ xs, ts = xs ++ [s.ending] ∧ s = after xs ⟨[], s.lastLine⟩ := by
  obtain ⟨ahead, last⟩ := s
  induction ahead generalizing ts with
  | nil =>
    cases all
    exact ⟨[], rfl, rfl⟩
  | cons r rest ih =>
    obtain ⟨t | f, line⟩ := r
    · cases inner : tokens ⟨rest, last⟩ with
      | error => simp_all [tokens, drain, ending, Except.map]
      | ok us =>
        obtain ⟨xs, rfl, stream⟩ := ih inner
        obtain rfl : ⟨t, line⟩ :: (xs ++ _) = ts := by
          simpa [tokens, drain, ending, Except.map] using (congrArg _ inner).symm.trans all
        exact ⟨⟨t, line⟩ :: xs, rfl, by rw [after_cons, ← stream]; rfl⟩
    · cases all

end TokenStream

/-- What is reported when the reading is taken. -/
def Reading.report : Located Reading → Except ParseError (Located Token)
  | ⟨.token t, line⟩ => .ok ⟨t, line⟩
  | ⟨.fault f, line⟩ => .error ⟨line, .fault f⟩

namespace Lexer

/-- What comes of taking the first token ahead, and the lexer behind it. -/
def take (s : Lexer) : Except ParseError (Located Token) × Lexer :=
  match next s with
  | .ok x t => (.ok x, t)
  | .error e t => (.error e, t)

/-- What comes of taking a token behind `n` others, or faults. -/
def nth (s : Lexer) : Nat → Except ParseError (Located Token)
  | 0 => s.take.1
  | n + 1 => s.take.2.nth n

/-- The lexer gives what comes out of the stream from position `i` on. -/
inductive StandsAt (whole : TokenStream) (i : Nat) : Lexer → Prop
  | empty {pulled} : StandsAt whole i ⟨whole.drop i, none, pulled⟩
  | holds {x pulled} : whole.outcome i = ⟨.token x.item, x.line⟩ →
    StandsAt whole i ⟨whole.drop (i + 1), some x, pulled⟩

variable {whole : TokenStream} {s : Lexer} {i : Nat}

theorem Reads.standsAt (reads : s.Reads whole) : StandsAt whole s.taken s := by
  obtain ⟨stream, peeked, pulled⟩ := s
  cases peeked with
  | none =>
    have standing : stream = whole.drop pulled := reads.stream
    rw [standing]
    exact .empty
  | some x =>
    obtain ⟨count, out⟩ := reads.taken_of_some rfl
    have standing : stream = whole.drop (taken ⟨stream, some x, pulled⟩ + 1) :=
      reads.stream.trans (congrArg _ count)
    rw [standing] at out ⊢
    exact .holds out

theorem StandsAt.take (stands : StandsAt whole i s) :
    s.take.1 = Reading.report (whole.outcome i) ∧ StandsAt whole (i + 1) s.take.2 := by
  cases stands with
  | empty =>
    obtain ⟨⟨t | f, line⟩, out⟩ : ∃ r, whole.outcome i = r := ⟨_, rfl⟩
    · simp only [Lexer.take, next, advance, TokenStream.next_drop_token out, out]
      exact ⟨rfl, .empty⟩
    · simp only [Lexer.take, next, advance, TokenStream.next_drop_fault out, out]
      exact ⟨rfl, .empty⟩
  | holds out =>
    rw [out]
    exact ⟨rfl, .empty⟩

/-- A lexer gives the outcomes of its stream in order. -/
theorem StandsAt.nth (stands : StandsAt whole i s) (n : Nat) :
    s.nth n = Reading.report (whole.outcome (i + n)) := by
  induction n generalizing i s with
  | zero => exact stands.take.1
  | succ n ih =>
    rw [Lexer.nth, ih stands.take.2]
    congr 2
    omega

theorem nth_ofStream (whole : TokenStream) (n : Nat) :
    (ofStream whole).nth n = Reading.report (whole.outcome n) := by
  rw [(reads_ofStream whole).standsAt.nth]
  exact congrArg (fun i => Reading.report (whole.outcome i)) (Nat.zero_add n)

end Lexer

/-! ## Where expressions end -/

namespace Phrase

/-- What is known of the tokens behind a phrase that goes on as far as it can. -/
def Leaves : Phrase → TokenStream → TokenStream → Prop
  | arguments .., _, t | application _, _, t => t.EndsAtoms
  | operators power .., s, t => s.EndsAtoms → t.EndsAtoms ∧ t.EndsBelow power
  | expression _, _, t => t.Stops
  | atom _, _, _ | elements .., _, _ => True

theorem Spans.leaves {p : Phrase} {s t : TokenStream} (h : p.Spans s t) : p.Leaves s t := by
  induction h with
  | applied sees ends => exact ⟨_, sees, ends⟩
  | argument _ _ _ ih => exact ih
  | application _ _ _ ih => exact ih
  | joined sees below => exact fun ends => ⟨ends, _, sees, below⟩
  | operator _ _ _ _ ih₁ ih₂ ih₃ => exact fun _ => ih₃ (ih₂ ih₁).1
  | expression _ _ ih₁ ih₂ =>
    obtain ⟨⟨x, sees, ends⟩, _, sees', below⟩ := ih₂ ih₁
    cases sees.symm.trans sees'
    refine ⟨x, sees, ends, ?_⟩
    -- Every operator is of left power 0 at least.
    cases item : x.item with
    | operator op => exact absurd (below op item) (Nat.not_lt_zero _)
    | _ => rfl
  | _ => exact trivial

/-- Behind an expression stands a token that ends every expression. -/
theorem Spans.stops {e : Expr} {s t : TokenStream} (h : (Phrase.expression e).Spans s t) :
    t.Stops :=
  h.leaves

end Phrase

/-! ## No expression takes the end of input -/

theorem Ty.token_ne_endOfInput (t : Ty) : ∀ slot ∈ t.linearization, slot.token ≠ .endOfInput := by
  induction t with
  | base => simp [linearization]
  | function _ _ ih₁ ih₂ =>
    simp only [linearization, List.forall_mem_append, List.forall_mem_cons]
    exact ⟨ih₁, by simp, ih₂⟩

namespace Expr

theorem forall_mem_allLinearization {P : Slot → Prop} (comma : P ⟨.mark .comma, none⟩)
    {es : List Expr} (all : ∀ e ∈ es, ∀ slot ∈ e.linearization, P slot) :
    ∀ slot ∈ allLinearization es, P slot := by
  induction es with
  | nil => simp [allLinearization]
  | cons e rest ih =>
    obtain ⟨first, others⟩ := List.forall_mem_cons.mp all
    cases rest with
    | nil => exact first
    | cons =>
      simp only [allLinearization, List.forall_mem_append, List.forall_mem_cons]
      exact ⟨first, comma, ih others⟩

theorem token_ne_endOfInput (e : Expr) : ∀ slot ∈ e.linearization, slot.token ≠ .endOfInput := by
  induction e with
  | literal value => cases value <;> simp [linearization, Literal.token]
  | lam _ paramTy =>
    have annotation : ∀ slot ∈ Ty.annotation paramTy, slot.token ≠ .endOfInput := by
      cases paramTy with
      | none => simp [Ty.annotation]
      | some t => exact List.forall_mem_cons.mpr ⟨by simp, t.token_ne_endOfInput⟩
    simp_all [linearization, or_imp]
  | letIn recursive => cases recursive <;> simp_all [linearization, or_imp]
  | list _ _ _ all =>
    have elements := forall_mem_allLinearization (P := (·.token ≠ .endOfInput)) (by simp) all
    simp_all [linearization, or_imp]
  | _ => simp_all [linearization, or_imp]

end Expr

/-- Tokens that cover slots without the end of input are not the end of input. -/
theorem Covers.exists_after {slots : List Slot} {s t : TokenStream} (covers : Covers slots s t)
    (proper : ∀ slot ∈ slots, slot.token ≠ .endOfInput) :
    ∃ xs, s = t.after xs ∧ ∀ x ∈ xs, x.item ≠ .endOfInput := by
  obtain ⟨xs, stream, fits⟩ := covers
  refine ⟨xs, stream, fun x mem ended => ?_⟩
  have kept : x ∈ xs.filter fun x => !x.item.isParen :=
    List.mem_filter.mpr ⟨mem, by rw [ended]; rfl⟩
  obtain ⟨i, rfl⟩ := List.get_of_mem kept
  have inside : i.val < slots.length := by
    rw [fits.length_eq]
    exact i.isLt
  have same := (fits.get inside i.isLt).1
  exact proper _ (List.get_mem _ _) (same.symm.trans ended)

/-- The tokens that an expression is made of are not the end of input. -/
theorem Phrase.Spans.exists_after {e : Expr} {s t : TokenStream}
    (read : (Phrase.expression e).Spans s t) :
    ∃ xs, s = t.after xs ∧ ∀ x ∈ xs, x.item ≠ .endOfInput := by
  obtain ⟨_, rfl, covers⟩ := read.covers
  exact covers.exists_after e.token_ne_endOfInput

/-- The tokens in front of what is left after `n` of them are `n` tokens, where so many stand in
the stream. -/
theorem TokenStream.length_eq_of_after {whole : TokenStream} {w : List (Located Token)} {n : Nat}
    (stream : whole = (whole.drop n).after w) (le : n ≤ whole.ahead.length) : w.length = n := by
  have lengths := congrArg (fun t => t.ahead.length) stream
  simp only [ahead_after, List.length_append, List.length_map, TokenStream.drop,
    List.length_drop] at lengths
  omega

/-- Where neither a stream nor another one with the same outcomes starts with the end of input
among its first `n` tokens, these all stand in the stream. -/
theorem TokenStream.le_length_of_after {whole : TokenStream} {n : Nat}
    (read : ∀ other : TokenStream, (∀ i, other.outcome i = whole.outcome i) →
      ∃ xs, other = (other.drop n).after xs ∧ ∀ x ∈ xs, x.item ≠ .endOfInput) :
    n ≤ whole.ahead.length := by
  by_contra more
  -- A stream with the end of input written out as often as it may have been taken.
  let other : TokenStream := ⟨whole.ahead ++ List.replicate n ⟨.token .endOfInput,
    whole.lastLine⟩, whole.lastLine⟩
  have same : ∀ i, other.outcome i = whole.outcome i := by
    intro i
    simp only [other, TokenStream.outcome, List.getElem?_append, List.getElem?_replicate]
    grind
  obtain ⟨xs, stream, proper⟩ := read other same
  have front : xs.map (fun x => ⟨.token x.item, x.line⟩) = other.ahead.take n := by
    have split := congrArg TokenStream.ahead stream
    rw [TokenStream.ahead_after] at split
    have cut := List.take_append_drop n other.ahead
    exact List.append_cancel_right (split.symm.trans cut.symm)
  have ended : ⟨.token .endOfInput, whole.lastLine⟩ ∈ other.ahead.take n := by
    rw [List.take_append]
    refine List.mem_append_right _ ?_
    rw [List.take_replicate, List.mem_replicate]
    exact ⟨by omega, rfl⟩
  rw [← front] at ended
  obtain ⟨x, mem, same⟩ := List.mem_map.mp ended
  exact proper x mem (by simpa using congrArg Located.item same)

/-! ## Reading an expression with a lexer -/

namespace Lexer

variable {whole : TokenStream} {e : Expr} {s : Lexer}

/-- What is read with a lexer is read from every stream with the same outcomes. -/
theorem result_of_follows {α : Type} {Q : α → α → Prop} {p : ParserOn Lexer α} {q : Parser α}
    {a : α} (ran : p (ofStream whole) = .ok a s)
    (related : ∀ {other} (alike : whole.StartsLike Eq s.pulled other),
      (follows (fun _ => rfl) alike).rel Q p q)
    (eq : ∀ {a b}, Q a b → a = b) :
    s.Reads whole ∧ ∀ other : TokenStream, (∀ i, other.outcome i = whole.outcome i) →
      q other = .ok a (other.drop s.taken) := by
  have read : ∀ other : TokenStream, (∀ i, other.outcome i = whole.outcome i) →
      s.Reads whole ∧ q other = .ok a (other.drop s.taken) := by
    intro other same
    have alike : whole.StartsLike Eq s.pulled other := fun i _ => by
      rw [same]
      exact ⟨rfl, rfl⟩
    have follows := related alike _ (reads_ofStream whole)
    rw [ran] at follows
    cases follows with
    | ok reads _ results ends =>
      obtain rfl := eq results
      exact ⟨reads, ends (Nat.le_refl _)⟩
  exact ⟨(read whole fun _ => rfl).1, fun other same => (read other same).2⟩

/-- What is read from a stream is read with a lexer. -/
theorem exists_of_follows {α : Type} {Q : α → α → Prop} {p : ParserOn Lexer α} {q : Parser α}
    {a : α} {rest : TokenStream} (ran : q whole = .ok a rest)
    (related : ∀ {limit other} (alike : whole.StartsLike Eq limit other),
      (follows (fun _ => rfl) alike).rel Q p q)
    (eq : ∀ {a b}, Q a b → a = b) :
    ∃ s, p (ofStream whole) = .ok a s ∧ s.Reads whole ∧ whole.drop s.taken = rest := by
  cases ran' : p (ofStream whole) with
  | ok b s =>
    obtain ⟨reads, again⟩ := result_of_follows ran' related eq
    cases ran.symm.trans (again whole fun _ => rfl)
    exact ⟨s, rfl, reads, rfl⟩
  | error e s =>
    have follows := related (TokenStream.StartsLike.refl s.pulled whole) _ (reads_ofStream whole)
    rw [ran'] at follows
    cases follows with
    | error _ _ _ ends =>
      obtain ⟨t, failed⟩ := ends (Nat.le_refl _)
      cases ran.symm.trans failed

/-- An expression that is read with a lexer is read from every stream with the same outcomes. -/
theorem spans_of_expression (ran : Parser.expression (ofStream whole) = .ok e s) :
    s.Reads whole ∧ ∀ other : TokenStream, (∀ i, other.outcome i = whole.outcome i) →
      (Phrase.expression e).Spans other (other.drop s.taken) := by
  obtain ⟨reads, again⟩ := result_of_follows ran
    (fun alike => (follows (fun _ => rfl) alike).expression)
    fun trees => Expr.Alike.eq trees And.left
  exact ⟨reads, fun other same => Parser.expression_ok_iff.mp (again other same)⟩

/-- Reading an expression does not take the end of input. -/
theorem taken_le (ran : Parser.expression (ofStream whole) = .ok e s) :
    s.taken ≤ whole.ahead.length :=
  TokenStream.le_length_of_after fun other same =>
    ((spans_of_expression ran).2 other same).exists_after

end Lexer

/-- The tokens of an expression by themselves are a program with the same tree. -/
theorem parse_of_tokenize {other : String} {e : Expr} {s t : TokenStream}
    {w : List (Located Token)} {line : Nat} (read : (Phrase.expression e).Spans s t)
    (stream : s = t.after w) (tokens : tokenize other = .ok (w ++ [⟨.endOfInput, line⟩])) :
    parse other = .ok e := by
  obtain ⟨xs, same, again⟩ := read.moves Eq
  obtain rfl := TokenStream.eq_of_after_eq (stream.symm.trans same)
  have all : (ofSource other).tokens = .ok (w ++ [⟨.endOfInput, line⟩]) := by
    cases h : (ofSource other).tokens <;> simp_all [tokenize, Except.mapError]
  obtain ⟨xs, same, whole⟩ := TokenStream.exists_after_of_tokens all
  obtain ⟨rfl, -⟩ := List.append_inj' same rfl
  have repeats : (ofSource other).Repeats Eq w ⟨[], (ofSource other).lastLine⟩ :=
    ⟨w, List.forall₂_same.mpr fun _ _ => ⟨rfl, rfl⟩, whole⟩
  obtain ⟨e', alike, read'⟩ :=
    again _ _ repeats (.inr (.inl (TokenStream.stops_of_ahead_eq_nil rfl)))
  obtain rfl := alike.eq id
  exact parse_ok_iff.mpr ⟨_, rfl, read'⟩

/-- A text that starts with an expression is a program or has something behind it. -/
theorem parse_of_spans {source : String} {e : Expr} {t : TokenStream} {x : Located Token}
    (read : (Phrase.expression e).Spans (ofSource source) t) (sees : t.peek? = some x) :
    parse source = if x.item = .endOfInput then .ok e
      else .error ⟨x.line, .trailingTokens x.item⟩ := by
  have ran := Parser.expression_ok_iff.mpr read
  have found := Parser.lookahead_ok_iff.mpr ⟨rfl, sees⟩
  unfold parse Parser.program
  rw [bind_of_ok ran, bind_of_ok found]
  by_cases ended : x.item = .endOfInput
  · simp only [if_pos ended]
    rfl
  · simp only [if_neg ended]
    rfl

/-- Reading an expression takes its tokens `w` and leaves what comes behind them. The first token
there, `x`, can neither start an atom nor join operands. The tokens `w` by themselves are the same
expression, and the text is a program exactly where `x` is the end of input. -/
theorem expression_greedy {source : String} {e : Expr} {s : Lexer}
    (ran : Parser.expression (Lexer.ofStream (ofSource source)) = .ok e s) :
    ∃ (w : List (Located Token)) (x : Located Token),
      w.length = s.taken ∧
      (∀ i, ∀ y ∈ w[i]?, (Lexer.ofStream (ofSource source)).nth i = .ok y) ∧
      (∀ n, s.nth n = (Lexer.ofStream (ofSource source)).nth (w.length + n)) ∧
      s.nth 0 = .ok x ∧ x.item.startsAtom = false ∧ x.item.operator? = none ∧
      (∀ other line, tokenize other = .ok (w ++ [⟨.endOfInput, line⟩]) → parse other = .ok e) ∧
      parse source = if x.item = .endOfInput then .ok e
        else .error ⟨x.line, .trailingTokens x.item⟩ := by
  obtain ⟨reads, spans⟩ := Lexer.spans_of_expression ran
  have read := spans _ fun _ => rfl
  obtain ⟨x, sees, ends, other⟩ := read.stops
  obtain ⟨w, stream, -⟩ := read.exists_after
  have length : w.length = s.taken := by
    have lengths := congrArg (fun t => t.ahead.length) stream
    have le := Lexer.taken_le ran
    simp only [TokenStream.ahead_after, List.length_append, List.length_map, TokenStream.drop,
      List.length_drop] at lengths
    omega
  refine ⟨w, x, length, fun i y here => ?_, fun n => ?_, ?_, ends, other,
    fun _ _ tokens => parse_of_tokenize read stream tokens, parse_of_spans read sees⟩
  · rw [Lexer.nth_ofStream, stream, TokenStream.outcome_after here]
    rfl
  · rw [reads.standsAt.nth, Lexer.nth_ofStream, length]
  · rw [reads.standsAt.nth, Nat.add_zero, TokenStream.outcome_of_peek? sees]
    rfl

/-- A lambda goes on to the parenthesis that nothing opened. The fault behind that is still to
come. -/
theorem expression_greedy_lambda : ∃ e s,
    Parser.expression (Lexer.ofStream (ofSource "\\x => x 1\n) @")) = .ok e s ∧
      s.taken = 5 ∧ s.nth 0 = .ok ⟨.mark .rightParen, 2⟩ ∧
      s.nth 1 = .error ⟨2, .fault (.unexpectedCharacter '@')⟩ ∧
      parse "\\x => x 1\n) @" = .error ⟨2, .trailingTokens (.mark .rightParen)⟩ := by
  have exists_of_taken (lexer : Lexer) (n : Nat) (found : ((Parser.expression >>= fun _ => do
      return (← get).taken : ParserOn Lexer Nat).run' lexer) = some n) :
      ∃ e s, Parser.expression lexer = .ok e s ∧ s.taken = n := by
    cases ran : Parser.expression lexer with
    | error =>
      delta EStateM.run' EStateM.run at found
      simp [bind, EStateM.bind, ran] at found
    | ok e s =>
      delta EStateM.run' EStateM.run at found
      rw [bind_of_ok ran] at found
      exact ⟨e, s, rfl, Option.some.inj found⟩
  obtain ⟨e, s, ran, taken⟩ := exists_of_taken (Lexer.ofStream (ofSource "\\x => x 1\n) @")) 5
    (by decide +kernel)
  refine ⟨e, s, ran, taken, ?_⟩
  obtain ⟨w, x, length, -, rest, next, -, -, -, whole⟩ := expression_greedy ran
  have first : s.nth 0 = .ok ⟨.mark .rightParen, 2⟩ := by
    rw [rest, length, taken]
    decide +kernel
  have second : s.nth 1 = .error ⟨2, .fault (.unexpectedCharacter '@')⟩ := by
    rw [rest, length, taken]
    decide +kernel
  obtain rfl : x = ⟨.mark .rightParen, 2⟩ := Except.ok.inj (next.symm.trans first)
  exact ⟨first, second, whole.trans (if_neg (by decide))⟩

end ListLang
