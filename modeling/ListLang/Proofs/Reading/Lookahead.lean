import ListLang.Proofs.Reading.Greed

/-!
# Looking at the token ahead

Tokens can be taken or only looked at, in any order and also behind faults. A token that is
looked at is still there: it is what is taken next. So looking changes nothing in what is taken.
A fault that is looked at is gone, as if it had been taken. Behind the last token the end of
input comes, on one line, however often it is asked for.

A lexer, which keeps what it looked at in its buffer, and the plain stream answer all queries alike.

## Main definitions

* `Query`, `Reply` — what is asked of a source of tokens, and what comes of it.
* `trace` — the replies to queries, one after the other.
* `taken` — the outcomes of a trace without the tokens that were only looked at.
* `TokenStream.replay` — the trace that the outcomes of a stream give.

## Main statements

* `trace_eq_replay` — a source that gives the outcomes of a stream answers as they say.
* `lookahead_transparent` — looking ahead is transparent.
-/

namespace ListLang

open TokenStream (ofSource)

/-- What is asked of a source of tokens. -/
inductive Query where
  | next
  | lookahead
  deriving DecidableEq

/-- A query and what came of it. -/
structure Reply where
  query : Query
  outcome : Except ParseError (Located Token)
  deriving DecidableEq

section Source

variable {σ : Type} [TokenSource σ]

/-- The query as a computation on the source. -/
def Query.parser : Query → ParserOn σ (Located Token)
  | next => TokenSource.next
  | lookahead => TokenSource.lookahead

/-- What comes of a query, and the source behind it. -/
def Query.ask (query : Query) (s : σ) : Except ParseError (Located Token) × σ :=
  match query.parser s with
  | .ok x t => (.ok x, t)
  | .error e t => (.error e, t)

/-- The replies to queries that are made one after the other, also behind errors. -/
def trace : List Query → σ → List Reply
  | [], _ => []
  | query :: rest, s => ⟨query, (query.ask s).1⟩ :: trace rest (query.ask s).2

theorem Query.ask_of_ok {query : Query} {s t : σ} {x : Located Token}
    (ok : query.parser s = .ok x t) : query.ask s = (.ok x, t) := by
  unfold ask
  rw [ok]

theorem Query.ask_of_error {query : Query} {s t : σ} {e : ParseError}
    (failed : query.parser s = .error e t) : query.ask s = (.error e, t) := by
  unfold ask
  rw [failed]

end Source

/-- Whether the reply is a token that was only looked at. -/
def Reply.isGlance : Reply → Bool
  | ⟨.lookahead, .ok _⟩ => true
  | ⟨.lookahead, .error _⟩ | ⟨.next, _⟩ => false

/-- The outcomes of the replies, without the tokens that were only looked at. -/
def taken (replies : List Reply) : List (Except ParseError (Located Token)) :=
  (replies.filter (!·.isGlance)).map Reply.outcome

/-! ## What the outcomes of a stream say -/

/-- How many tokens and faults the query takes where `ahead` is the first of them: none if it only
looks at a token. -/
def Query.takes : Query → Located Reading → Nat
  | lookahead, ⟨.token _, _⟩ => 0
  | lookahead, ⟨.fault _, _⟩ | next, _ => 1

namespace TokenStream

variable {whole : TokenStream} {i : Nat} {queries : List Query}

/-- The replies to queries where what comes out of the stream `whole` from position `i` on is
ahead. -/
def replay (whole : TokenStream) : Nat → List Query → List Reply
  | _, [] => []
  | i, query :: rest =>
    ⟨query, Reading.report (whole.outcome i)⟩ ::
      replay whole (i + query.takes (whole.outcome i)) rest

/-- A query either glances at a token and leaves it, or takes what is ahead. -/
theorem glances_or_takes (query : Query) (r : Located Reading) :
    (query = .lookahead ∧ (⟨query, Reading.report r⟩ : Reply).isGlance = true ∧ query.takes r = 0) ∨
      (⟨query, Reading.report r⟩ : Reply).isGlance = false ∧ query.takes r = 1 := by
  obtain ⟨t | f, line⟩ := r
  · cases query with
    | next => exact .inr ⟨rfl, rfl⟩
    | lookahead => exact .inl ⟨rfl, rfl, rfl⟩
  · cases query <;> exact .inr ⟨rfl, rfl⟩

/-- What is taken is what would be taken without looking ahead. -/
theorem taken_replay (whole : TokenStream) (i : Nat) (queries : List Query) :
    taken (whole.replay i queries) =
      (whole.replay i (List.replicate (taken (whole.replay i queries)).length .next)).map
        Reply.outcome := by
  induction queries generalizing i with
  | nil => rfl
  | cons query rest ih =>
    rw [replay]
    obtain ⟨-, glance, stays⟩ | ⟨other, moves⟩ := glances_or_takes query (whole.outcome i)
    · rw [stays, taken, List.filter_cons_of_neg (by simp [glance])]
      exact ih i
    · rw [moves, taken, List.filter_cons_of_pos (by simp [other]), List.map_cons,
        List.length_cons, List.replicate_succ, replay, List.map_cons]
      exact congrArg _ (ih (i + 1))

/-- A token that is looked at is left. -/
theorem takes_lookahead {r : Located Reading} {x : Located Token}
    (token : Reading.report r = .ok x) : Query.lookahead.takes r = 0 := by
  obtain ⟨t | f, line⟩ := r
  · rfl
  · cases token

/-- Every reply is what comes out at a position of the stream, and the queries behind it are
replied to from there on. -/
theorem exists_position {n : Nat} {reply : Reply}
    (found : (whole.replay i queries)[n]? = some reply) :
    ∃ k, reply.outcome = Reading.report (whole.outcome k) ∧
      (whole.replay i queries).drop (n + 1) =
        whole.replay (k + reply.query.takes (whole.outcome k)) (queries.drop (n + 1)) := by
  induction queries generalizing i n with
  | nil => cases found
  | cons query rest ih =>
    cases n with
    | zero =>
      cases found
      exact ⟨i, rfl, rfl⟩
    | succ n => exact ih found

/-- A token ahead is what the first query that takes one gives. -/
theorem outcome_of_first_next {x : Located Token} {n : Nat}
    {r : Except ParseError (Located Token)} (ahead : Reading.report (whole.outcome i) = .ok x)
    (found : (whole.replay i queries)[n]? = some ⟨.next, r⟩)
    (before : ∀ k < n, queries[k]? ≠ some .next) : r = .ok x := by
  induction queries generalizing n with
  | nil => cases found
  | cons query rest ih =>
    cases n with
    | zero =>
      cases found
      exact ahead
    | succ n =>
      cases query with
      | next => exact absurd rfl (before 0 (Nat.succ_pos n))
      | lookahead =>
        rw [replay, takes_lookahead ahead] at found
        exact ih found fun k lt => before (k + 1) (Nat.succ_lt_succ lt)

/-- A token that is looked at is what is taken next. -/
theorem outcome_of_glance {x : Located Token} {m n : Nat} {r : Except ParseError (Located Token)}
    (seen : (whole.replay i queries)[m]? = some ⟨.lookahead, .ok x⟩) (lt : m < n)
    (found : (whole.replay i queries)[n]? = some ⟨.next, r⟩)
    (between : ∀ k, m < k → k < n → queries[k]? ≠ some .next) : r = .ok x := by
  obtain ⟨d, rfl⟩ := Nat.exists_eq_add_of_lt lt
  obtain ⟨k, ahead, rest⟩ := exists_position seen
  rw [takes_lookahead ahead.symm, Nat.add_zero k] at rest
  rw [Nat.add_right_comm, ← List.getElem?_drop, rest] at found
  refine outcome_of_first_next ahead.symm found fun j less => ?_
  rw [List.getElem?_drop]
  exact between _ (by omega) (by omega)

/-- Where one and the same comes out of the stream from a position on, it is the reply to all
queries. -/
theorem outcome_of_mem_replay {r : Located Reading} (forever : ∀ k ≥ i, whole.outcome k = r) :
    ∀ reply ∈ whole.replay i queries, reply.outcome = Reading.report r := by
  induction queries generalizing i with
  | nil => exact fun _ mem => nomatch mem
  | cons query rest ih =>
    refine List.forall_mem_cons.mpr ⟨congrArg Reading.report (forever i (Nat.le_refl i)), ?_⟩
    exact ih fun k le => forever k (by omega)

theorem outcome_of_report {r : Located Reading} {x : Located Token}
    (token : Reading.report r = .ok x) : r = ⟨.token x.item, x.line⟩ := by
  obtain ⟨t | f, line⟩ := r <;> cases token
  rfl

/-- The end of input in a text stays ahead. -/
theorem outcome_eq_of_ended {source : String} {line : Nat}
    (ended : (ofSource source).outcome i = ⟨.token .endOfInput, line⟩) :
    ∀ k ≥ i, (ofSource source).outcome k = (ofSource source).outcome i := by
  intro k le
  obtain ahead | ⟨ahead, -, -⟩ := (ofSource source).drop_eq_or i
  · -- No text writes the end of input as a token.
    have mem : ⟨.token .endOfInput, line⟩ ∈ (ofSource source).ahead := by
      refine List.mem_of_mem_drop (i := i) ?_
      change _ ∈ ((ofSource source).drop i).ahead
      rw [ahead, ended]
      exact List.mem_cons_self
    exact (satisfies_writable source _ _ mem).elim
  · have short : (ofSource source).ahead.length ≤ i := List.drop_eq_nil_iff.mp ahead
    simp [outcome, short, Nat.le_trans short le]

/-- Once the end of input is the reply, it is the reply to all later queries. -/
theorem outcome_of_ended {source : String} {query : Query} {x : Located Token} {m n : Nat}
    {reply : Reply} (seen : ((ofSource source).replay i queries)[m]? = some ⟨query, .ok x⟩)
    (ended : x.item = .endOfInput) (le : m ≤ n)
    (found : ((ofSource source).replay i queries)[n]? = some reply) : reply.outcome = .ok x := by
  obtain ⟨k, ahead, rest⟩ := exists_position seen
  obtain rfl | lt := Nat.eq_or_lt_of_le le
  · cases seen.symm.trans found
    rfl
  · obtain ⟨d, rfl⟩ := Nat.exists_eq_add_of_lt lt
    rw [Nat.add_right_comm, ← List.getElem?_drop, rest] at found
    have last := outcome_of_report ahead.symm
    rw [ended] at last
    have forever := outcome_eq_of_ended last
    rw [outcome_of_mem_replay (fun j more => forever j (by omega)) _ (List.mem_of_getElem? found)]
    exact ahead.symm

end TokenStream

/-! ## Sources that give the outcomes of a stream -/

/-- A source that gives what comes out of a stream, wherever it stands there, answers queries as the
stream says. -/
theorem trace_eq_replay {σ : Type} [TokenSource σ] {whole : TokenStream} {standsAt : Nat → σ → Prop}
    (step : ∀ {i s}, standsAt i s → ∀ query : Query,
      (query.ask s).1 = Reading.report (whole.outcome i) ∧
        standsAt (i + query.takes (whole.outcome i)) (query.ask s).2)
    {i : Nat} {s : σ} (stands : standsAt i s) (queries : List Query) :
    trace queries s = whole.replay i queries := by
  induction queries generalizing i s with
  | nil => rfl
  | cons query rest ih =>
    obtain ⟨reply, further⟩ := step stands query
    rw [trace, TokenStream.replay, reply, ih further]

theorem TokenStream.ask_of_drop {whole s : TokenStream} {i : Nat} (stands : s = whole.drop i)
    (query : Query) : (query.ask s).1 = Reading.report (whole.outcome i) ∧
      (query.ask s).2 = whole.drop (i + query.takes (whole.outcome i)) := by
  subst stands
  obtain ⟨⟨t | f, line⟩, out⟩ : ∃ r, whole.outcome i = r := ⟨_, rfl⟩
  · cases query with
    | next =>
      have ran : Query.next.parser (whole.drop i) = _ := next_drop_token out
      rw [Query.ask_of_ok ran, out]
      exact ⟨rfl, rfl⟩
    | lookahead =>
      have ran : Query.lookahead.parser (whole.drop i) = _ := lookahead_drop_token out
      rw [Query.ask_of_ok ran, out]
      exact ⟨rfl, rfl⟩
  · cases query with
    | next =>
      have ran : Query.next.parser (whole.drop i) = _ := next_drop_fault out
      rw [Query.ask_of_error ran, out]
      exact ⟨rfl, rfl⟩
    | lookahead =>
      have ran : Query.lookahead.parser (whole.drop i) = _ := lookahead_drop_fault out
      rw [Query.ask_of_error ran, out]
      exact ⟨rfl, rfl⟩

theorem TokenStream.trace_eq (whole : TokenStream) (queries : List Query) :
    trace queries whole = whole.replay 0 queries :=
  trace_eq_replay ask_of_drop (show whole = whole.drop 0 from rfl) queries

namespace Lexer

variable {whole : TokenStream} {s : Lexer} {i : Nat}

theorem ask_next (s : Lexer) : Query.next.ask s = s.take := by
  cases ran : Query.next.parser s with
  | ok x t => rw [Query.ask_of_ok ran, Lexer.take, show next s = _ from ran]
  | error e t => rw [Query.ask_of_error ran, Lexer.take, show next s = _ from ran]

/-- A token that is looked at goes to the buffer, where it is still ahead; a fault is gone. -/
theorem StandsAt.lookahead (stands : StandsAt whole i s) :
    (Query.lookahead.ask s).1 = Reading.report (whole.outcome i) ∧
      StandsAt whole (i + Query.lookahead.takes (whole.outcome i)) (Query.lookahead.ask s).2 := by
  cases stands with
  | @empty pulled =>
    obtain ⟨⟨t | f, line⟩, out⟩ : ∃ r, whole.outcome i = r := ⟨_, rfl⟩
    · have ran : Query.lookahead.parser (⟨whole.drop i, none, pulled⟩ : Lexer) =
          .ok ⟨t, line⟩ ⟨whole.drop (i + 1), some ⟨t, line⟩, pulled + 1⟩ := by
        simp only [Query.parser, TokenSource.lookahead, Lexer.lookahead, advance,
          TokenStream.next_drop_token out]
      rw [Query.ask_of_ok ran, out]
      exact ⟨rfl, .holds out⟩
    · have ran : Query.lookahead.parser (⟨whole.drop i, none, pulled⟩ : Lexer) =
          .error ⟨line, .fault f⟩ ⟨whole.drop (i + 1), none, pulled + 1⟩ := by
        simp only [Query.parser, TokenSource.lookahead, Lexer.lookahead, advance,
          TokenStream.next_drop_fault out]
      rw [Query.ask_of_error ran, out]
      exact ⟨rfl, .empty⟩
  | holds out =>
    rw [out]
    exact ⟨rfl, .holds out⟩

theorem StandsAt.ask (stands : StandsAt whole i s) (query : Query) :
    (query.ask s).1 = Reading.report (whole.outcome i) ∧
      StandsAt whole (i + query.takes (whole.outcome i)) (query.ask s).2 := by
  cases query with
  | next =>
    rw [ask_next]
    exact stands.take
  | lookahead => exact stands.lookahead

theorem trace_ofStream (whole : TokenStream) (queries : List Query) :
    trace queries (ofStream whole) = whole.replay 0 queries :=
  trace_eq_replay StandsAt.ask (reads_ofStream whole).standsAt queries

end Lexer

/-- Looking ahead is transparent. Whatever is asked of a lexer, in whatever order and also behind
errors, what is taken is what would be taken without looking ahead; a token that is looked at is
what is taken next; and once the end of input is the reply, it is the reply to every later
query, on the same line. The plain stream gives the same replies. -/
theorem lookahead_transparent (source : String) (queries : List Query) :
    let fresh := Lexer.ofStream (ofSource source)
    let replies := trace queries fresh
    taken replies = (trace (List.replicate (taken replies).length .next) fresh).map Reply.outcome ∧
    (∀ (m n : Nat) (x : Located Token) r, replies[m]? = some ⟨.lookahead, .ok x⟩ → m < n →
      replies[n]? = some ⟨.next, r⟩ → (∀ k, m < k → k < n → queries[k]? ≠ some .next) →
      r = .ok x) ∧
    (∀ (m n : Nat) (query : Query) (x : Located Token) reply, replies[m]? = some ⟨query, .ok x⟩ →
      x.item = .endOfInput → m ≤ n → replies[n]? = some reply → reply.outcome = .ok x) ∧
    trace queries (ofSource source) = replies := by
  intro fresh replies
  have lexer : ∀ queries, trace queries fresh = (ofSource source).replay 0 queries :=
    Lexer.trace_ofStream (ofSource source)
  have here : replies = (ofSource source).replay 0 queries := lexer queries
  rw [here, lexer]
  refine ⟨TokenStream.taken_replay _ _ _, fun m n x r seen lt found between => ?_,
    fun m n query x reply seen ended le found => ?_, ?_⟩
  · exact TokenStream.outcome_of_glance seen lt found between
  · exact TokenStream.outcome_of_ended seen ended le found
  · exact TokenStream.trace_eq _ queries

/-- Looking at a fault takes it, and looking at a token does not. -/
theorem lookahead_transparent_fault :
    let fresh := Lexer.ofStream (ofSource "let @\nx")
    let replies := trace [.lookahead, .next, .lookahead, .lookahead, .next, .next, .lookahead] fresh
    replies = [⟨.lookahead, .ok ⟨.keyword .letWord, 1⟩⟩, ⟨.next, .ok ⟨.keyword .letWord, 1⟩⟩,
      ⟨.lookahead, .error ⟨1, .fault (.unexpectedCharacter '@')⟩⟩,
      ⟨.lookahead, .ok ⟨.identifier "x", 2⟩⟩, ⟨.next, .ok ⟨.identifier "x", 2⟩⟩,
      ⟨.next, .ok ⟨.endOfInput, 2⟩⟩, ⟨.lookahead, .ok ⟨.endOfInput, 2⟩⟩] ∧
    taken replies = (trace [.next, .next, .next, .next] fresh).map Reply.outcome := by
  intro fresh replies
  have four : (taken replies).length = 4 := by decide +kernel
  refine ⟨by decide +kernel, (lookahead_transparent _ _).1.trans ?_⟩
  rw [four]
  rfl

end ListLang
