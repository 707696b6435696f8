import ListLang.Proofs.Reading.Streaming
import ListLang.Proofs.Relabelling

/-!
# Layout does not matter

Two texts with the same tokens, on whatever lines and with whatever between them, are the same
program up to lines: their trees differ in lines only, and so do the errors of parsing them. They
run alike, to the same value in stores that differ only in the lines of what functions hold, or
to one error on lines of their own.

## Main definitions

* `Relabelling.unlined` — forgets all lines.
* `Error.unlined` — an error without its line.

## Main statements

* `layout_does_not_matter` — programs with the same tokens parse and run alike.
-/

namespace ListLang

/-- Forgets all lines. -/
def Relabelling.unlined : Relabelling where
  line _ := 0
  constantLine _ := 0
  annotation := id
  tag := id

open Relabelling (unlined)
open TokenStream (ofSource)

theorem unlined_expr (e : Expr) : unlined.expr e = e.unlined := by
  induction e with
  | list tag elements line all =>
    simp only [Relabelling.expr, Expr.unlined, Relabelling.exprs_eq_map, Expr.allUnlined_eq_map,
      List.map_congr_left all]
    rfl
  | _ => simp_all [Relabelling.expr, Expr.unlined, unlined]

/-- The error without its line. -/
def Error.unlined : Error → Error
  | parse e => parse { e with line := 0 }
  | eval e => eval { e with line := 0 }
  | tooDeep => tooDeep

/-! ## Parsing -/

namespace TokenStream

theorem drain_eq_ok {ending : Located Token} (ended : ending.item = .endOfInput)
    {ahead : List (Located Reading)} {ts : List (Located Token)}
    (all : drain ending ahead = .ok ts) (line i : Nat) :
    (ahead[i]?.getD ⟨.token .endOfInput, line⟩).item =
      .token ((ts.map Located.item)[i]?.getD .endOfInput) := by
  induction ahead generalizing ts i with
  | nil =>
    cases all
    cases i <;> simp [ended]
  | cons r rest ih =>
    obtain ⟨t | f, l⟩ := r
    · cases inner : drain ending rest with
      | error f => simp [drain, inner, Except.map] at all
      | ok us =>
        obtain rfl : ⟨t, l⟩ :: us = ts := by simpa [drain, inner, Except.map] using all
        cases i with
        | zero => rfl
        | succ i => simpa using ih inner i
    · cases all

/-- What comes out of a stream without faults are its tokens, in order. -/
theorem outcome_of_tokens {s : TokenStream} {ts : List (Located Token)} (all : s.tokens = .ok ts)
    (i : Nat) : (s.outcome i).item = .token ((ts.map Located.item)[i]?.getD .endOfInput) :=
  drain_eq_ok rfl all s.lastLine i

end TokenStream

section Run

variable {source : String} {e : Expr} {depth : Nat} {env : Environment} {s t : Store}

theorem run_eq_ok {v : Value} (parsed : parse source = .ok e)
    (evaluated : eval depth env e s = .ok v t) : run depth env source s = .ok v t := by
  unfold run
  rw [parsed]
  dsimp only
  rw [evaluated]

theorem run_eq_error {h : Halt} (parsed : parse source = .ok e)
    (halted : eval depth env e s = .error h t) :
    run depth env source s = .error (.ofHalt h) t := by
  unfold run
  rw [parsed]
  dsimp only
  rw [halted]

end Run

section Same

variable {source other : String} {ts ts' : List (Located Token)}
  (first : tokenize source = .ok ts) (second : tokenize other = .ok ts')
  (same : ts.map Located.item = ts'.map Located.item)

include first second same

/-- Texts with the same tokens start alike, as far as one looks. -/
theorem startsLike_of_tokenize (n : Nat) :
    (ofSource source).StartsLike (fun _ _ => True) n (ofSource other) := by
  have tokens : ∀ {source ts}, tokenize source = .ok ts → (ofSource source).tokens = .ok ts := by
    intro source ts all
    cases h : (ofSource source).tokens <;> simp_all [tokenize, Except.mapError]
  intro i _
  rw [TokenStream.outcome_of_tokens (tokens first), TokenStream.outcome_of_tokens (tokens second),
    same]
  exact ⟨rfl, trivial⟩

/-- Texts with the same tokens are parsed alike. -/
theorem parse_alike :
    (∃ e e', parse source = .ok e ∧ parse other = .ok e' ∧ e.unlined = e'.unlined) ∨
      ∃ err err', parse source = .error err ∧ parse other = .error err' ∧
        err.cause = err'.cause := by
  have alike := startsLike_of_tokenize first second same (pull source).2
  cases parsed : parse source with
  | ok e =>
    obtain ⟨e', parsed', trees⟩ := parse_ok_of_startsLike parsed (fun _ => trivial) alike
    exact .inl ⟨e, e', rfl, parsed', trees.unlined_eq⟩
  | error err =>
    obtain ⟨line, parsed', -⟩ := parse_error_of_startsLike parsed (fun _ => trivial) alike
    exact .inr ⟨err, ⟨line, err.cause⟩, rfl, parsed', rfl⟩

/-- Texts with the same tokens run alike. -/
theorem run_alike (depth : Nat) (env : Environment) (s : Store) :
    (∃ v t t', run depth env source s = .ok v t ∧ run depth env other s = .ok v t' ∧
        unlined.store t = unlined.store t') ∨
      ∃ err err' t t', run depth env source s = .error err t ∧
        run depth env other s = .error err' t' ∧ err.unlined = err'.unlined ∧
        unlined.store t = unlined.store t' := by
  obtain ⟨e, e', parsed, parsed', trees⟩ | ⟨err, err', failed, failed', cause⟩ :=
    parse_alike first second same
  · have exprs : unlined.expr e = unlined.expr e' := by rw [unlined_expr, unlined_expr, trees]
    have agree := Relabelling.agree_eval exprs rfl (s := s) depth env
    generalize evaluated : eval depth env e s = r, evaluated' : eval depth env e' s = r' at agree
    cases agree with
    | ok stores =>
      exact .inl ⟨_, _, _, run_eq_ok parsed evaluated, run_eq_ok parsed' evaluated', stores⟩
    | failed _ stores =>
      exact .inr ⟨_, _, _, _, run_eq_error parsed evaluated, run_eq_error parsed' evaluated', rfl,
        stores⟩
    | tooDeep stores =>
      exact .inr ⟨_, _, _, _, run_eq_error parsed evaluated, run_eq_error parsed' evaluated', rfl,
        stores⟩
  · unfold run
    rw [failed, failed']
    refine .inr ⟨.parse err, .parse err', s, s, rfl, rfl, ?_, rfl⟩
    rw [Error.unlined, Error.unlined, cause]

end Same

/-- Texts with the same tokens, on whatever lines, parse to trees that are equal up to lines or
fail with one cause. At every depth they run to the same value, in stores that are equal up to
lines, or to errors that are. What they answer is written out the same up to lines. -/
theorem layout_does_not_matter {source other : String} {ts ts' : List (Located Token)}
    (first : tokenize source = .ok ts) (second : tokenize other = .ok ts')
    (same : ts.map Located.item = ts'.map Located.item) :
    ((∃ e e', parse source = .ok e ∧ parse other = .ok e' ∧ e.unlined = e'.unlined) ∨
      ∃ err err', parse source = .error err ∧ parse other = .error err' ∧
        err.cause = err'.cause) ∧
    (∀ depth env s,
      (∃ v t t', run depth env source s = .ok v t ∧ run depth env other s = .ok v t' ∧
        unlined.store t = unlined.store t') ∨
      ∃ err err' t t', run depth env source s = .error err t ∧
        run depth env other s = .error err' t' ∧ err.unlined = err'.unlined ∧
        unlined.store t = unlined.store t') ∧
    ∀ depth,
      (∃ v v', evaluate depth source = .ok v ∧ evaluate depth other = .ok v' ∧
        unlined.snapshot v = unlined.snapshot v') ∨
      ∃ err err', evaluate depth source = .error err ∧ evaluate depth other = .error err' ∧
        err.unlined = err'.unlined := by
  refine ⟨parse_alike first second same, run_alike first second same, fun depth => ?_⟩
  obtain ⟨v, t, t', ran, ran', stores⟩ | ⟨err, err', t, t', ran, ran', errors, -⟩ :=
    run_alike first second same depth .initial .empty
  · refine .inl ⟨t.snapshot v, t'.snapshot v, ?_⟩
    unfold evaluate
    rw [ran, ran', ← Relabelling.snapshot_store, ← Relabelling.snapshot_store, stores]
    exact ⟨rfl, rfl, rfl⟩
  · refine .inr ⟨err, err', ?_⟩
    unfold evaluate
    rw [ran, ran']
    exact ⟨rfl, rfl, errors⟩

/-- A function whose body stands on another line, and runs alike. -/
theorem layout_does_not_matter_body :
    ∃ ts ts', tokenize "(\\x =>\nx) 1" = .ok ts ∧ tokenize "(\\x => x)\n1" = .ok ts' ∧
      ts ≠ ts' ∧ ts.map Located.item = ts'.map Located.item ∧
      ∃ t t', run 3 .initial "(\\x =>\nx) 1" .empty = .ok (.int 1) t ∧
        run 3 .initial "(\\x => x)\n1" .empty = .ok (.int 1) t' ∧
        unlined.store t = unlined.store t' := by
  let ts : List (Located Token) := [⟨.mark .leftParen, 1⟩, ⟨.mark .backslash, 1⟩,
    ⟨.identifier "x", 1⟩, ⟨.mark .fatArrow, 1⟩, ⟨.identifier "x", 2⟩, ⟨.mark .rightParen, 2⟩,
    ⟨.integer 1, 2⟩, ⟨.endOfInput, 2⟩]
  let ts' : List (Located Token) := [⟨.mark .leftParen, 1⟩, ⟨.mark .backslash, 1⟩,
    ⟨.identifier "x", 1⟩, ⟨.mark .fatArrow, 1⟩, ⟨.identifier "x", 1⟩, ⟨.mark .rightParen, 1⟩,
    ⟨.integer 1, 2⟩, ⟨.endOfInput, 2⟩]
  have first : tokenize "(\\x =>\nx) 1" = .ok ts := by decide +kernel
  have second : tokenize "(\\x => x)\n1" = .ok ts' := by decide +kernel
  have answer : (run 3 .initial "(\\x =>\nx) 1").run' .empty = some (.int 1) := by
    decide +kernel
  delta EStateM.run' EStateM.run at answer
  refine ⟨ts, ts', first, second, by decide, rfl, ?_⟩
  obtain ⟨v, t, t', ran, ran', stores⟩ | ⟨err, err', t, t', ran, -⟩ :=
    (layout_does_not_matter first second rfl).2.1 3 .initial .empty
  · rw [ran] at answer
    cases answer
    exact ⟨t, t', ran, ran', stores⟩
  · rw [ran] at answer
    cases answer

end ListLang
