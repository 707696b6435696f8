import ListLang.Proofs.Reading.Streaming
import ListLang.Proofs.Relabelling
import ListLang.Proofs.Scoping

/-!
# Errors point into the program

The line of an error is a line of the text. An error of parsing stands on the line of a token, or
of the fault that it reports. An error at run time stands on the line of a node of the program,
also where a function is called by a list operation, or far from where it was made.

That the run invents no lines follows from labels having no meaning: moving all lines that are in
no node away changes nothing, so an error cannot stand on one of them.

## Main definitions

* `Relabelling.moving` — moves all lines but some.

## Main statements

* `TokenStream.line_outcome` — the lines of tokens and faults.
* `line_mem_of_eval` — the lines of errors at run time.
* `evaluate_error_line` — the lines of errors.
-/

namespace ListLang

open TokenStream (ofSource)

/-! ## Lines of tokens -/

namespace Lexeme

theorem lineEnds_le (l : Lexeme) : l.lineEnds ≤ l.text.count '\n' := by
  unfold lineEnds
  split
  · exact Nat.le_refl _
  · exact Nat.zero_le _

theorem le_lineAfter (line : Nat) (lexemes : List Lexeme) : line ≤ lineAfter line lexemes := by
  induction lexemes generalizing line with
  | nil => exact Nat.le_refl _
  | cons l rest ih => exact Nat.le_trans (Nat.le_add_right _ _) (ih (line + l.lineEnds))

theorem lineAfter_le (line : Nat) (lexemes : List Lexeme) :
    lineAfter line lexemes ≤ line + (lexemes.flatMap text).count '\n' := by
  induction lexemes generalizing line with
  | nil => exact Nat.le_refl _
  | cons l rest ih =>
    have step : lineAfter line (l :: rest) = lineAfter (line + l.lineEnds) rest := rfl
    have := ih (line + l.lineEnds)
    have := l.lineEnds_le
    rw [step, List.flatMap_cons, List.count_append]
    omega

theorem line_of_mem_locate {line : Nat} {lexemes : List Lexeme} {r : Located Reading}
    (mem : r ∈ locate line lexemes) : line ≤ r.line ∧ r.line ≤ lineAfter line lexemes := by
  induction lexemes generalizing line with
  | nil => cases mem
  | cons l rest ih =>
    have after : lineAfter line (l :: rest) = lineAfter (line + l.lineEnds) rest := rfl
    obtain rfl | mem := List.mem_cons.mp mem
    · exact ⟨Nat.le_refl _, le_lineAfter line (l :: rest)⟩
    · have := ih mem
      omega

end Lexeme

/-- The tokens and faults of a text stand on its lines. -/
theorem TokenStream.line_outcome (source : String) (i : Nat) :
    1 ≤ ((ofSource source).outcome i).line ∧
      ((ofSource source).outcome i).line ≤ 1 + source.toList.count '\n' := by
  have last := Lexeme.lineAfter_le 1 (Lexeme.scan source.toList)
  rw [Lexeme.flatMap_text_scan] at last
  have first := Lexeme.le_lineAfter 1 (Lexeme.scan source.toList)
  unfold outcome
  cases here : (ofSource source).ahead[i]? with
  | none => exact ⟨first, last⟩
  | some r =>
    have located := (List.mem_filter.mp (List.mem_of_getElem? here)).1
    have := Lexeme.line_of_mem_locate located
    exact ⟨this.1, Nat.le_trans this.2 last⟩

theorem line_of_hasLine {source : String} {line : Nat} (has : (ofSource source).HasLine line) :
    1 ≤ line ∧ line ≤ 1 + source.toList.count '\n' := by
  obtain ⟨i, t, out⟩ := has
  have bounds := TokenStream.line_outcome source i
  rwa [out] at bounds

/-- The nodes of a program stand on the lines of its tokens. -/
theorem hasLine_of_mem_nodes {source : String} {e n : Expr} (parsed : parse source = .ok e)
    (mem : n ∈ e.nodes) : (ofSource source).HasLine n.line := by
  obtain ⟨e', -, alike⟩ :=
    parse_ok_of_startsLike parsed (fun _ => rfl) (TokenStream.StartsLike.refl _ _)
  exact alike.line_of_mem_nodes And.right n mem

/-! ## Lines of errors at run time -/

/-- Moves all lines on which an error may be reported to the next one, but those in `kept`. -/
def Relabelling.moving (kept : List Nat) : Relabelling :=
  { identity with line := fun line => if line ∈ kept then line else line + 1 }

theorem Relabelling.moving_line {kept : List Nat} {line : Nat} :
    (moving kept).line line = line ↔ line ∈ kept := by
  simp [moving]

/-- An expression none of whose lines is moved. -/
theorem Relabelling.moving_expr {kept : List Nat} {e : Expr} (all : ∀ n ∈ e.nodes, n.line ∈ kept) :
    (moving kept).expr e = e := by
  induction e with
  | list tag elements line ih =>
    simp only [Expr.nodes, List.forall_mem_cons, Expr.allNodes_eq_flatMap, List.mem_flatMap] at all
    obtain ⟨here, inside⟩ := all
    have same : elements.map (moving kept).expr = elements := by
      simpa using List.map_congr_left fun e mem => ih e mem fun n node => inside n ⟨e, mem, node⟩
    have kept : (moving kept).line line = line := moving_line.mpr here
    rw [expr, exprs_eq_map, same, kept]
    rfl
  | literal => rfl
  | lam param paramTy body line ih =>
    simp only [Expr.nodes, List.forall_mem_cons] at all
    have kept : (moving kept).line line = line := moving_line.mpr all.1
    rw [expr, ih all.2, kept]
    rfl
  | _ =>
    simp only [Expr.nodes, List.forall_mem_cons, List.forall_mem_append] at all
    simp_all [expr, moving_line, Expr.line]

/-- An error at run time stands on a line of the expression. -/
theorem line_mem_of_eval {depth : Nat} {env : Environment} {e : Expr} {err : EvalError} {t : Store}
    (failed : eval depth env e .empty = .error (.failed err) t) :
    ∃ n ∈ e.nodes, n.line = err.line := by
  let r := Relabelling.moving (e.nodes.map Expr.line)
  have exprs : r.expr e = e := Relabelling.moving_expr fun n mem => List.mem_map_of_mem mem
  have stores : r.store .empty = .empty := by simp [Relabelling.store, Store.empty]
  -- Relabelling changes neither the expression nor the store, so it keeps the line of the error.
  have moved := r.eval_expr depth env e .empty
  rw [exprs, stores, failed] at moved
  have stays : r.line err.line = err.line := by
    simp only [Relabelling.result, Relabelling.halt, EStateM.Result.error.injEq,
      Halt.failed.injEq] at moved
    exact (congrArg EvalError.line moved.1).symm
  exact List.mem_map.mp (Relabelling.moving_line.mp stays)

/-! ## Lines of errors -/

theorem parse_of_evaluate {depth : Nat} {source : String} {err : ParseError}
    (failed : evaluate depth source = .error (.parse err)) : parse source = .error err := by
  unfold evaluate run at failed
  cases parsed : parse source with
  | error e => simpa [parsed] using failed
  | ok e =>
    cases ran : eval depth .initial e .empty with
    | ok v t => simp [parsed, ran] at failed
    | error h t => cases h <;> simp [parsed, ran, Error.ofHalt] at failed

/-- An error of parsing stands on a line of the text, which is the line of the fault that it
reports, or else of a token. An error at run time stands on a line of the text, which is the line
of a node of the program. -/
theorem evaluate_error_line (depth : Nat) (source : String) :
    (∀ err, evaluate depth source = .error (.parse err) →
      (1 ≤ err.line ∧ err.line ≤ 1 + source.toList.count '\n') ∧
      ((∃ f i, err.cause = .fault f ∧ (ofSource source).outcome i = ⟨.fault f, err.line⟩) ∨
        (∀ f, err.cause ≠ .fault f) ∧
          ∃ i t, (ofSource source).outcome i = ⟨.token t, err.line⟩)) ∧
    ∀ err, evaluate depth source = .error (.eval err) →
      (1 ≤ err.line ∧ err.line ≤ 1 + source.toList.count '\n') ∧
      ∃ e, parse source = .ok e ∧ ∃ n ∈ e.nodes, n.line = err.line := by
  constructor
  · intro err failed
    cases refuses_of_parse (parse_of_evaluate failed) with
    | @fault f i cause _ out _ =>
      have bounds := TokenStream.line_outcome source i
      rw [out] at bounds
      exact ⟨bounds, .inl ⟨f, i, cause, out⟩⟩
    | syntactic plain has _ => exact ⟨line_of_hasLine has, .inr ⟨plain, has⟩⟩
  · intro err failed
    obtain ⟨e, t, parsed, ran⟩ := eval_of_evaluate failed
    obtain ⟨n, mem, line⟩ := line_mem_of_eval ran
    have bounds := line_of_hasLine (hasLine_of_mem_nodes parsed mem)
    exact ⟨line ▸ bounds, e, parsed, n, mem, line⟩

/-- A function that is made on the second line and called from the third one fails on its own
line. -/
theorem evaluate_error_line_callback :
    ∃ err, evaluate 8 "let f = \\x =>\n  x + true in\nListMap List[1] f" = .error (.eval err) ∧
      err.line = 2 ∧ (1 ≤ err.line ∧ err.line ≤ 3) ∧
      ∃ e, parse "let f = \\x =>\n  x + true in\nListMap List[1] f" = .ok e ∧
        ∃ n ∈ e.nodes, n.line = err.line := by
  have failed : (match evaluate 8 "let f = \\x =>\n  x + true in\nListMap List[1] f" with
      | .error (.eval err) => some err.line
      | _ => none) = some 2 := by decide +kernel
  split at failed
  · next err outcome =>
    obtain ⟨bounds, inside⟩ := (evaluate_error_line 8 _).2 err outcome
    exact ⟨err, outcome, Option.some.inj failed, bounds, inside⟩
  · cases failed

end ListLang
