import ListLang.Proofs.Calls
import ListLang.Proofs.Scoping
import ListLang.Proofs.WellFormed

/-!
# The parser and the evaluator agree on shapes

The parser gives every list operation as many operands as it takes and every list literal an
element. So a program fails for its arity or shape only where one of the two checks of a folding
refuses, also in code that runs late, from closures. A folding checks that its function is
written as a lambda that gives a lambda, and that the list has two items.

## Main definitions

* `Folding.Refused`, `Moment.RefusesFold` — a folding that one of its own checks refuses.

## Main statements

* `shaped_record` — failures for arity or shape are those of foldings.
* `shapes_agree` — the shapes that a program writes are those that its evaluation needs.
-/

namespace ListLang

/-- One of the two checks of a folding refuses it with an error: its function is no closure whose
body is a lambda, or the list has less than two items. -/
inductive Folding.Refused (g : Folding) : EvalError → Prop
  | shape (function : g.function.kind = .function) (other : ¬ g.store.Curried g.function) :
    g.Refused ⟨g.line, .foldShape⟩
  | size (curried : g.store.Curried g.function) (few : (g.store.list g.list).items.length < 2) :
    g.Refused ⟨g.line, .foldSize (g.store.list g.list).items.length⟩

/-- The folding that starts at the moment is refused with the error. -/
def Moment.RefusesFold (m : Moment) (err : EvalError) : Prop :=
  ∃ g, m.folding? = some g ∧ g.Refused err

theorem Expr.Proper.arity {e : Expr} (proper : e.Proper) {op : ListOperation} {given : Nat}
    (form : e.operation? = some (op, given)) : op.arity = given := by
  cases e with
  | listOp1 | listOp2 | listOp3 =>
    cases form
    exact proper
  | _ => cases form

/-! ## Failures for arity or shape -/

/-- A recording leaves closures with proper bodies and a result as `Q` says, and where it fails
for arity or shape, a folding that it recorded is refused or the failure is one that is
`expected`. -/
structure Recording.Shaped (expected : EvalError → Prop) {α : Type} (Q : α → Prop)
    (r : Recording α) : Prop where
  runs : (Eval.endStore r.outcome).Runs Expr.Proper
  result : ∀ a t, r.outcome = .ok a t → Q a
  refuses : ∀ err t, r.outcome = .error (.failed err) t → err.category = .arityOrShape →
    expected err ∨ ∃ m ∈ r.moments, m.RefusesFold err

namespace Recording.Shaped

variable {expected : EvalError → Prop} {α β : Type} {Q : α → Prop} {R : β → Prop}

theorem ok {moments : List Moment} {a : α} {t : Store} (runs : t.Runs Expr.Proper)
    (result : Q a) : Shaped expected Q ⟨moments, .ok a t⟩ where
  runs := runs
  result := by
    intro _ _ same
    cases same
    exact result
  refuses := by
    intro _ _ same
    cases same

theorem tooDeep {s : Store} (runs : s.Runs Expr.Proper) :
    Shaped expected Q (⟨[], .error .tooDeep s⟩ : Recording α) where
  runs := runs
  result := nofun
  refuses := by
    intro _ _ same
    cases same

theorem fail {s : Store} (runs : s.Runs Expr.Proper) {err : EvalError}
    (allowed : err.category = .arityOrShape → expected err) :
    Shaped expected Q (⟨[], .error (.failed err) s⟩ : Recording α) where
  runs := runs
  result := nofun
  refuses := by
    intro _ _ same category
    cases same
    exact .inl (allowed category)

theorem bind {a : Recorder α} {f : α → Recorder β} {s : Store}
    (first : (a.run s).Shaped expected Q)
    (next : ∀ x t, (a.run s).outcome = .ok x t → Q x → t.Runs Expr.Proper →
      ((f x).run t).Shaped expected R) : ((a >>= f).run s).Shaped expected R := by
  change (Recorder.andThen (a.run s) f).Shaped expected R
  have runs := first.runs
  cases ran : (a.run s).outcome with
  | ok x t =>
    rw [ran] at runs
    have later := next x t ran (first.result x t ran) runs
    rw [Recorder.andThen_ok ran]
    refine ⟨later.runs, later.result, fun err u failed category => ?_⟩
    obtain allowed | ⟨m, mem, refuses⟩ := later.refuses err u failed category
    · exact .inl allowed
    · exact .inr ⟨m, List.mem_append_right _ mem, refuses⟩
  | error h t =>
    rw [ran] at runs
    rw [Recorder.andThen_error ran]
    refine ⟨runs, nofun, fun err u failed category => ?_⟩
    cases failed
    exact first.refuses err t ran category

theorem mono {r : Recording α} {more : EvalError → Prop} (h : r.Shaped expected Q)
    (le : ∀ err, expected err → more err) : r.Shaped more Q :=
  ⟨h.runs, h.result, fun err t failed category =>
    (h.refuses err t failed category).imp_left (le err)⟩

end Recording.Shaped

/-- The recorders of expressions with proper nodes that fail for arity or shape only where a
folding is refused or the failure is one that is `expected`. -/
def Recorder.shaping (expected : EvalError → Prop) : Eval.Confinement Recorder where
  node := Expr.Proper
  holds a Q := ∀ s, s.Runs Expr.Proper → (a.run s).Shaped expected Q
  pure result s runs := .ok runs result
  bind first next s runs := (first s runs).bind fun a t _ result => next a result t
  tooDeep s runs := .tooDeep runs
  fail _ _ other s runs := .fail runs fun category => absurd category other
  wrongArity proper form other := absurd (proper.arity form) other
  emptyLiteral proper := absurd rfl proper.1
  get s runs := .ok runs trivial
  closure id s runs := .ok runs (runs id)
  newList _ _ s runs := .ok runs trivial
  newClosure _ _ _ code s runs := .ok (runs.addClosure code) trivial
  bindSelf recursive name v s runs := by
    unfold Eval.bindSelf
    split
    · exact .ok (runs.bindName _ _ _) trivial
    · exact .ok runs trivial
  deepCopy _ _ id s runs := by
    have kept : ∀ other, (s.deepCopy id).2.closure other = s.closure other :=
      (Store.extends_copyWithin s.lists.size s id).closure
    exact .ok (fun other => kept other ▸ runs other) trivial
  setItems _ _ id items s runs := .ok runs trivial

/-- A folding fails for its shape only where one of its own two checks refuses. -/
theorem shaped_fold {m : Moment} {line : Nat} {id : ListId} {f : Value} {u : Store}
    (folds : m.folding? = some ⟨line, id, f, u⟩) {apply : Value → Value → Recorder Value}
    (applies : ∀ g v, (Recorder.shaping m.RefusesFold).safe (apply g v))
    (runs : u.Runs Expr.Proper) :
    ((Eval.fold apply id f line).run u).Shaped m.RefusesFold fun _ => True := by
  cases f with
  | closure found =>
    change ((if (u.closure found).body.tag == .lam then _ else _ : Recorder Value).run u).Shaped _ _
    by_cases curried : u.Curried (.closure found)
    · rw [if_pos (by simpa [Store.Curried] using curried)]
      refine .bind (.ok runs trivial) fun cell t read (_ : True) runs => ?_
      cases read
      split
      · exact Eval.Confinement.foldItems (applies _) (fun step v _ => applies step v) _ _ u runs
      · next short =>
        have few : (u.list id).items.length < 2 := by
          rcases items : (u.list id).items with _ | ⟨seed, _ | ⟨item, rest⟩⟩
          · simp
          · simp
          · exact absurd items (short seed item rest)
        exact .fail runs fun _ => ⟨_, folds, .size curried few⟩
    · rw [if_neg (by simpa [Store.Curried] using curried)]
      exact .fail runs fun _ => ⟨_, folds, .shape rfl curried⟩
  | builtin b => exact .fail runs fun _ => ⟨_, folds, .shape rfl fun none => none⟩
  | _ => exact .fail runs fun category => by cases category

/-- Where all nodes are proper, an evaluation fails for arity or shape only where a folding is
refused. -/
theorem shaped_record (depth : Nat) (env : Environment) {e : Expr} (all : e.All Expr.Proper) :
    (Recorder.shaping fun _ => False).safe (record depth env e) := by
  induction depth generalizing env e with
  | zero => exact (Recorder.shaping _).tooDeep
  | succ depth ih =>
    have parts : ∀ expected env e, e.All Expr.Proper →
        (Recorder.shaping expected).safe (record depth env e) :=
      fun expected env e all s runs => (ih env all s runs).mono nofun
    intro s runs
    let start : Moment := .call (depth + 1) env e s
    -- The start is recorded first, so what it refuses is refused by a recorded folding.
    suffices rest : ((Eval.evalWith (record depth) env e).run s).Shaped start.RefusesFold
        fun _ => True by
      refine ⟨rest.runs, fun _ _ _ => trivial, fun err t failed category => .inr ?_⟩
      obtain refuses | ⟨m, mem, refuses⟩ := rest.refuses err t failed category
      · exact ⟨start, List.mem_cons_self, refuses⟩
      · exact ⟨m, List.mem_cons_of_mem _ mem, refuses⟩
    by_cases folds : ∃ list function line, e = .listOp2 .fold list function line
    · obtain ⟨list, function, line, rfl⟩ := folds
      have operand : ∀ {p}, p ∈ [list, function] → p.All Expr.Proper := fun mem => all.child mem
      refine .bind (.ok runs trivial) fun _ _ checked (_ : True) runs => ?_
      cases checked
      refine .bind (parts _ env list (operand (by simp)) s runs) fun v t first _ runs => ?_
      rw [record_outcome] at first
      cases v with
      | list id =>
        refine .bind (.ok runs trivial) fun _ _ given (_ : True) runs => ?_
        cases given
        refine .bind (parts _ env function (operand (by simp)) t runs) fun f u second _ runs => ?_
        rw [record_outcome] at second
        exact shaped_fold (Moment.folding?_call first second)
          (fun g w => Eval.Confinement.applyWith (parts _) g w line) runs
      | _ => exact .fail runs fun category => by cases category
    · have whole : (Recorder.shaping start.RefusesFold).safe (Eval.evalWith (record depth) env e) :=
        Eval.Confinement.evalWith (parts _) env all fun list function line same =>
          absurd ⟨list, function, line, same⟩ folds
      exact whole s runs

/-- The shapes that a program writes are those that its evaluation needs. It fails for arity or
shape only where one of the two checks of a folding refuses; it calls nothing but functions; and
whenever a folding calls its own function, it gets a closure. -/
theorem shapes_agree (depth : Nat) (source : String) :
    (∀ err, evaluate depth source = .error (.eval err) → err.category = .arityOrShape →
      ∃ m ∈ moments depth source, m.RefusesFold err) ∧
    ∀ m ∈ moments depth source, (∀ c ∈ m.calls, c.function.kind = .function) ∧
      ∀ g, m.folding? = some g → ∀ c ∈ m.calls, c.function = g.function →
        ∃ id t, c.outcome = .ok (.closure id) t := by
  constructor
  · intro err failed category
    obtain ⟨e, t, parsed, ran⟩ := eval_of_evaluate failed
    have proper : e.All Expr.Proper :=
      builds_proper.nodes.of_parse (TokenStream.satisfies_writable source) parsed
    have runs : Store.empty.Runs Expr.Proper := Store.runs_of_closures (by decide) nofun
    have shaped := shaped_record depth .initial proper .empty runs
    rw [← record_outcome] at ran
    obtain none | refuses := shaped.refuses err t ran category
    · cases none
    · unfold moments
      rw [parsed]
      exact refuses
  · intro m _
    exact ⟨fun c mem => kind_of_mem_calls mem, fun g folds c mem => outcome_of_mem_calls folds mem⟩

/-- A function that folds a list of one item is refused there. Folding three items calls the
function twice, and each time what it gives. -/
theorem shapes_agree_sums :
    (∃ m ∈ moments 8 "let f = \\l => ListFold l (\\a => \\x => a + x) in f List[1]",
      m.RefusesFold ⟨1, .foldSize 1⟩) ∧
    ∃ m ∈ moments 6 "ListFold List[1, 2, 3] (\\a => \\x => a + x)",
      m.calls.map Call.function =
        [.closure ⟨0⟩, .closure ⟨1⟩, .closure ⟨0⟩, .closure ⟨2⟩] ∧
      (∀ c ∈ m.calls, c.function.kind = .function) ∧
      ∀ c ∈ m.calls, c.function = .closure ⟨0⟩ → ∃ id t, c.outcome = .ok (.closure id) t := by
  constructor
  · exact (shapes_agree 8 _).1 _ (by decide +kernel) rfl
  · have start : (moments 6 "ListFold List[1, 2, 3] (\\a => \\x => a + x)").head?.map
        (fun m => (m.calls.map Call.function, m.folding?.map Folding.function)) =
        some ([.closure ⟨0⟩, .closure ⟨1⟩, .closure ⟨0⟩, .closure ⟨2⟩], some (.closure ⟨0⟩)) := by
      decide +kernel
    obtain ⟨m, head, facts⟩ := Option.map_eq_some_iff.mp start
    obtain ⟨calls, operands⟩ := Prod.mk.inj facts
    obtain ⟨g, folds, function⟩ := Option.map_eq_some_iff.mp operands
    have mem := List.mem_of_mem_head? head
    obtain ⟨kinds, gives⟩ := (shapes_agree 6 _).2 m mem
    exact ⟨m, mem, calls, kinds, function ▸ gives g folds⟩

end ListLang
