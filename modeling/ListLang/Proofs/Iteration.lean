import ListLang.Proofs.Calls
import ListLang.Proofs.Grammar.Basic

/-!
# Iterating over the items of a list

Mapping, filtering and folding go through the items that the list has at the start, whatever the
calls they make do to that list or others. Each makes its calls one after the other, in the store
that the call before left. The first call that fails, or whose result is refused, is the last one,
and the store stays as that call left it. Only after all calls is a new list made, or the list
filtered.

## Main definitions

* `Plan` — the calls that are to be made, each by the results of those before it.
* `Plan.Made`, `Plan.Ends` — the calls of a plan that were made, and how making them ends.
* `Plan.map`, `Plan.filter`, `Plan.fold` — the plans of the three operations.
* `Plan.Runs` — an operation makes the calls of a plan and no others.

## Main statements

* `eval_iterates` — the operations follow their plans.
* `fold_refuses_uncurried` — a function that is not written as a lambda that gives a lambda is not
  folded with, even where it could be.
-/

namespace ListLang

/-! ## Calls in order -/

/-- Calls to be made one after the other. The results of those made so far say which function is
called next, on what, and whether its result will do. -/
structure Plan where
  next : List Value → Option (Value × Value)
  check : List Value → Value → Except EvalError.Cause Unit

namespace Plan

/-- The calls were made, the first one in the store `s` and each other one in the store that the
one before it left. They gave the results, all of which will do, and left the store. -/
inductive Made (plan : Plan) (depth line : Nat) (s : Store) :
    List Call → List Value → Store → Prop
  | start : Made plan depth line s [] [] s
  | call {calls results t function argument result u} :
    Made plan depth line s calls results t → plan.next results = some (function, argument) →
    apply depth function argument line t = .ok result u → plan.check results result = .ok () →
    Made plan depth line s (calls ++ [⟨depth, function, argument, line, t⟩]) (results ++ [result]) u

/-- Making the calls ends in one of three ways: no call is left, the last call failed, or its
result was refused. -/
inductive Ends (plan : Plan) (depth line : Nat) (s : Store) :
    List Call → EStateM.Result Halt Store (List Value) → Prop
  | done {calls results t} : Made plan depth line s calls results t →
    plan.next results = none → Ends plan depth line s calls (.ok results t)
  | halted {calls results t function argument h u} : Made plan depth line s calls results t →
    plan.next results = some (function, argument) →
    apply depth function argument line t = .error h u →
    Ends plan depth line s (calls ++ [⟨depth, function, argument, line, t⟩]) (.error h u)
  | refused {calls results t function argument result cause u} :
    Made plan depth line s calls results t → plan.next results = some (function, argument) →
    apply depth function argument line t = .ok result u →
    plan.check results result = .error cause →
    Ends plan depth line s (calls ++ [⟨depth, function, argument, line, t⟩])
      (.error (.failed ⟨line, cause⟩) u)

/-- The operation makes the calls of the plan and no others. It fails as they do, with the store
that they left, and otherwise it finishes with all results. -/
def Runs (plan : Plan) (depth line : Nat) (s : Store)
    (finish : List Value → Store → EStateM.Result Halt Store Value) (calls : List Call)
    (outcome : EStateM.Result Halt Store Value) : Prop :=
  (∃ results t, plan.Ends depth line s calls (.ok results t) ∧ outcome = finish results t) ∨
    ∃ h t, plan.Ends depth line s calls (.error h t) ∧ outcome = .error h t

/-- A function called on each item in turn. -/
def each (function : Value) (items : List Value)
    (check : List Value → Value → Except EvalError.Cause Unit) : Plan where
  next results := items[results.length]?.map fun item => (function, item)
  check := check

/-- The calls of a mapping. All results have to be of the kind of the first one. -/
def map (function : Value) (items : List Value) : Plan :=
  each function items fun results result =>
    let kind := (results.head?.map Value.kind).getD result.kind
    if kind = result.kind then .ok () else .error (.elementMismatch .map kind result.kind)

/-- The calls of a filtering. All results have to be booleans. -/
def filter (predicate : Value) (items : List Value) : Plan :=
  each predicate items fun _ result => (result.asBool "ListFilter predicate").map fun _ => ()

/-- The items for which the result is `true`. -/
def kept (items results : List Value) : List Value :=
  ((items.zip results).filter (·.2 == .bool true)).map Prod.fst

/-- The calls of a folding, two for each item: the function is called on what was combined so far,
and then what it gave is called on the item. -/
def fold (function seed : Value) (items : List Value) : Plan where
  next results := items[results.length / 2]?.map fun item =>
    if results.length % 2 = 0 then (function, results.getLast?.getD seed)
    else (results.getLast?.getD seed, item)
  check _ _ := .ok ()

/-! ## Following a plan -/

section Follow

variable {plan : Plan} {depth line : Nat} {s : Store}

/-- The computation made calls of the plan: all of them, with a result, or up to one that failed or
was refused. -/
def Follows (plan : Plan) (depth line : Nat) (s : Store) {α : Type} (Q : α → CallLog → Prop) :
    EStateM.Result Halt CallLog α → Prop
  | .ok a log => Q a log
  | .error h log => plan.Ends depth line s log.calls (.error h log.store)

variable {α β : Type} {Q : α → CallLog → Prop} {R : β → CallLog → Prop}

theorem Follows.bind {a : Caller α} {f : α → Caller β} {log : CallLog}
    (first : plan.Follows depth line s Q (a log))
    (next : ∀ x log', Q x log' → plan.Follows depth line s R (f x log')) :
    plan.Follows depth line s R ((a >>= f) log) := by
  change plan.Follows depth line s R (EStateM.bind a f log)
  unfold EStateM.bind
  cases ran : a log with
  | ok x log' =>
    rw [ran] at first
    exact next x log' first
  | error h log' =>
    rw [ran] at first
    exact first

theorem Follows.imp {Q' : α → CallLog → Prop} {outcome : EStateM.Result Halt CallLog α}
    (h : plan.Follows depth line s Q outcome) (more : ∀ a log, Q a log → Q' a log) :
    plan.Follows depth line s Q' outcome := by
  cases outcome with
  | ok a log => exact more a log h
  | error => exact h

/-- The next call of the plan. -/
theorem Made.follows {calls : List Call} {results : List Value} {t : Store}
    {function argument : Value} (made : plan.Made depth line s calls results t)
    (next : plan.next results = some (function, argument)) {f : Value → Caller β}
    (passed : ∀ result u, plan.check results result = .ok () →
      plan.Made depth line s (calls ++ [⟨depth, function, argument, line, t⟩])
        (results ++ [result]) u →
      plan.Follows depth line s R (f result ⟨u, calls ++ [⟨depth, function, argument, line, t⟩]⟩))
    (refused : ∀ result u cause, plan.check results result = .error cause →
      f result ⟨u, calls ++ [⟨depth, function, argument, line, t⟩]⟩ =
        .error (.failed ⟨line, cause⟩) ⟨u, calls ++ [⟨depth, function, argument, line, t⟩]⟩) :
    plan.Follows depth line s R ((Caller.call depth function argument line >>= f) ⟨t, calls⟩) := by
  change plan.Follows depth line s R (EStateM.bind _ f ⟨t, calls⟩)
  unfold EStateM.bind Caller.call Caller.lift
  cases ran : apply depth function argument line t with
  | error h u => exact .halted made next ran
  | ok result u =>
    cases check : plan.check results result with
    | ok _ => exact passed result u check (made.call next ran check)
    | error cause =>
      dsimp only
      rw [refused result u cause check]
      exact .refused made next ran check

end Follow

section Loops

variable {depth line : Nat} {s : Store} {function : Value} {items : List Value}

theorem getElem?_of_drop {n : Nat} {rest : List Value} (ahead : items.drop n = rest) :
    items[n]? = rest.head? := by
  rw [← ahead, List.head?_drop]

/-- The next item is the first of those that no call was made on. -/
theorem next_each {check : List Value → Value → Except EvalError.Cause Unit}
    {results rest : List Value} (ahead : items.drop results.length = rest) :
    (each function items check).next results = rest.head?.map fun item => (function, item) := by
  rw [← getElem?_of_drop ahead]
  rfl

theorem drop_of_drop_eq_cons {results rest : List Value} {item result : Value}
    (ahead : items.drop results.length = item :: rest) :
    items.drop (results ++ [result]).length = rest := by
  rw [List.length_append, List.length_singleton, ← List.drop_drop, ahead]
  rfl

theorem check_map_ok_iff {results : List Value} {result : Value} {u : Unit} :
    (map function items).check results result = .ok u ↔
      (results.head?.map Value.kind).getD result.kind = result.kind := by
  simp only [map, each]
  split <;> simp_all

theorem check_map_error_iff {results : List Value} {result : Value} {cause : EvalError.Cause} :
    (map function items).check results result = .error cause ↔
      (results.head?.map Value.kind).getD result.kind ≠ result.kind ∧
        .elementMismatch .map ((results.head?.map Value.kind).getD result.kind) result.kind =
          cause := by
  simp only [map, each]
  split <;> simp_all

/-- Mapping the items from some item on makes the rest of the calls. -/
theorem follows_mapItems {calls : List Call} {results rest : List Value} {t : Store}
    (made : (map function items).Made depth line s calls results t)
    (ahead : items.drop results.length = rest) :
    (map function items).Follows depth line s
      (fun more log =>
        (map function items).Ends depth line s log.calls (.ok (results ++ more) log.store))
      (Eval.mapItems (Caller.call depth function · line) line (results.head?.map Value.kind) rest
        ⟨t, calls⟩) := by
  induction rest generalizing calls results t with
  | nil =>
    change (map function items).Ends depth line s calls (.ok (results ++ []) t)
    rw [List.append_nil]
    exact .done made (next_each ahead)
  | cons item rest ih =>
    rw [Eval.mapItems]
    refine made.follows (next_each ahead) (fun result u passed made => ?_)
      fun result u cause refused => ?_
    · have same := check_map_ok_iff.mp passed
      have kind : (results ++ [result]).head?.map Value.kind =
          some ((results.head?.map Value.kind).getD result.kind) := by
        cases results <;> rfl
      have more := ih made (drop_of_drop_eq_cons ahead)
      rw [kind] at more
      rw [if_pos same]
      refine more.bind fun rs log ends => ?_
      rw [List.append_assoc] at ends
      exact ends
    · obtain ⟨other, rfl⟩ := check_map_error_iff.mp refused
      rw [if_neg other]
      rfl

/-- Filtering the items from some item on makes the rest of the calls. -/
theorem follows_filterItems {calls : List Call} {results rest : List Value} {t : Store}
    (made : (filter function items).Made depth line s calls results t)
    (ahead : items.drop results.length = rest) :
    (filter function items).Follows depth line s
      (fun found log => ∃ more, found = kept rest more ∧
        (filter function items).Ends depth line s log.calls (.ok (results ++ more) log.store))
      (Eval.filterItems (Caller.call depth function · line) line rest ⟨t, calls⟩) := by
  induction rest generalizing calls results t with
  | nil =>
    refine ⟨[], rfl, ?_⟩
    rw [List.append_nil]
    exact .done made (next_each ahead)
  | cons item rest ih =>
    rw [Eval.filterItems]
    refine made.follows (next_each ahead) (fun result u passed made => ?_)
      fun result u cause refused => ?_
    · cases result with
      | bool keep =>
        refine (ih made (drop_of_drop_eq_cons ahead)).bind ?_
        rintro _ log ⟨more, rfl, ends⟩
        refine ⟨.bool keep :: more, ?_, ?_⟩
        · cases keep <;> rfl
        · rw [List.append_assoc] at ends
          exact ends
      | _ => cases passed
    · cases result with
      | bool => cases refused
      | _ =>
        cases refused
        rfl

theorem next_fold_step {seed : Value} {results rest : List Value} {n : Nat}
    (even : results.length = 2 * n) (ahead : items.drop n = rest) :
    (fold function seed items).next results =
      rest.head?.map fun _ => (function, results.getLast?.getD seed) := by
  simp [fold, even, getElem?_of_drop ahead]

theorem next_fold_item {seed step : Value} {results rest : List Value} {n : Nat}
    (even : results.length = 2 * n) (ahead : items.drop n = rest) :
    (fold function seed items).next (results ++ [step]) =
      rest.head?.map fun item => (step, item) := by
  have half : (2 * n + 1) / 2 = n := by omega
  simp [fold, even, half, getElem?_of_drop ahead]

/-- Folding the items from some item on makes the rest of the calls. -/
theorem follows_foldItems {calls : List Call} {seed : Value} {results rest : List Value} {n : Nat}
    {t : Store} (made : (fold function seed items).Made depth line s calls results t)
    (even : results.length = 2 * n) (ahead : items.drop n = rest) :
    (fold function seed items).Follows depth line s
      (fun v log => ∃ all, v = all.getLast?.getD seed ∧
        (fold function seed items).Ends depth line s log.calls (.ok all log.store))
      (Eval.foldItems (Caller.call depth · · line) function (results.getLast?.getD seed) rest
        ⟨t, calls⟩) := by
  induction rest generalizing calls results t n with
  | nil =>
    exact ⟨results, rfl, .done made (next_fold_step even ahead)⟩
  | cons item rest ih =>
    rw [Eval.foldItems]
    refine made.follows (next_fold_step even ahead) (fun step u _ made => ?_)
      fun _ _ _ refused => by cases refused
    refine made.follows (next_fold_item even ahead) (fun acc v _ made => ?_)
      fun _ _ _ refused => by cases refused
    have last : (results ++ [step] ++ [acc]).getLast?.getD seed = acc := by simp
    have more := ih (n := n + 1) made (by simp [even]; omega)
      (by rw [← List.drop_drop, ahead]; rfl)
    rw [last] at more
    exact more

end Loops

/-! ## The operations -/

/-- The mapped list: a new one, of the kind of the first result. Without results it is of the kind
`kind`. -/
def mapped (kind : Kind) (results : List Value) (t : Store) : EStateM.Result Halt Store Value :=
  let list := t.addList ⟨(results.head?.map Value.kind).getD kind, results⟩
  .ok (.list list.1) list.2

/-- The filtered list: the list at `id`, with the items for which the result is `true`. -/
def filtered (id : ListId) (items results : List Value) (t : Store) :
    EStateM.Result Halt Store Value :=
  .ok (.list id) (t.setItems id (kept items results))

/-- What was combined in the end. -/
def folded (seed : Value) (results : List Value) (t : Store) : EStateM.Result Halt Store Value :=
  .ok (results.getLast?.getD seed) t

section Operations

variable {plan : Plan} {depth line : Nat} {s : Store} {id : ListId} {function : Value}

theorem Runs.of_follows {finish : List Value → Store → EStateM.Result Halt Store Value}
    {outcome : EStateM.Result Halt CallLog Value}
    (follows : plan.Follows depth line s (fun v log => ∃ results t,
      plan.Ends depth line s log.calls (.ok results t) ∧ finish results t = .ok v log.store)
      outcome) :
    plan.Runs depth line s finish (Caller.endLog outcome).calls (Caller.forget outcome) := by
  cases outcome with
  | ok v log =>
    obtain ⟨results, t, ends, eq⟩ := follows
    exact .inl ⟨results, t, ends, eq.symm⟩
  | error h log => exact .inr ⟨h, log.store, follows, rfl⟩

theorem asFunction_eq_ok (kind : function.kind = .function) (context : String) :
    function.asFunction context = .ok () := if_pos kind

theorem runs_map (kind : function.kind = .function) :
    (map function (s.list id).items).Runs depth line s (mapped (s.list id).contentKind)
      (Caller.endLog (Eval.map (Caller.call depth · · line) id function line ⟨s, []⟩)).calls
      (Caller.forget (Eval.map (Caller.call depth · · line) id function line ⟨s, []⟩)) := by
  have made : (map function (s.list id).items).Made depth line s [] [] s := .start
  refine .of_follows ?_
  rw [Eval.map, asFunction_eq_ok kind]
  exact (follows_mapItems made rfl).bind fun results log ends => ⟨results, log.store, ends, rfl⟩

theorem runs_filter (kind : function.kind = .function) :
    (filter function (s.list id).items).Runs depth line s (filtered id (s.list id).items)
      (Caller.endLog (Eval.filter (Caller.call depth · · line) id function line ⟨s, []⟩)).calls
      (Caller.forget (Eval.filter (Caller.call depth · · line) id function line ⟨s, []⟩)) := by
  have made : (filter function (s.list id).items).Made depth line s [] [] s := .start
  refine .of_follows ?_
  rw [Eval.filter, asFunction_eq_ok kind]
  refine (follows_filterItems made rfl).bind ?_
  rintro _ log ⟨results, rfl, ends⟩
  exact ⟨results, log.store, ends, rfl⟩

theorem runs_fold (curried : s.Curried function) {seed item : Value} {rest : List Value}
    (enough : (s.list id).items = seed :: item :: rest) :
    (fold function seed (item :: rest)).Runs depth line s (folded seed)
      (Caller.endLog (Eval.fold (Caller.call depth · · line) id function line ⟨s, []⟩)).calls
      (Caller.forget (Eval.fold (Caller.call depth · · line) id function line ⟨s, []⟩)) := by
  have made : (fold function seed (item :: rest)).Made depth line s [] [] s := .start
  have cell : (Eval.list id : Caller ListCell) ⟨s, []⟩ =
      .ok ⟨(s.list id).contentKind, seed :: item :: rest⟩ ⟨s, []⟩ := by
    rw [← enough]
    rfl
  have run : Eval.fold (Caller.call depth · · line) id function line ⟨s, []⟩ =
      Eval.foldItems (Caller.call depth · · line) function seed (item :: rest) ⟨s, []⟩ := by
    cases function with
    | closure other =>
      change ((if (s.closure other).body.tag == .lam then _ else _ : Caller Value) ⟨s, []⟩) = _
      rw [if_pos (beq_iff_eq.mpr curried), bind_of_ok cell]
    | _ => cases curried
  refine .of_follows ?_
  rw [run]
  have folds := follows_foldItems (n := 0) made rfl rfl
  exact folds.imp fun v log => by
    rintro ⟨results, rfl, ends⟩
    exact ⟨results, log.store, ends, rfl⟩

theorem fold_of_not_curried (kind : function.kind = .function) (other : ¬ s.Curried function) :
    Eval.fold (Caller.call depth · · line) id function line ⟨s, []⟩ =
      .error (.failed ⟨line, .foldShape⟩) ⟨s, []⟩ := by
  cases function with
  | closure id' =>
    change ((if (s.closure id').body.tag == .lam then _ else _ : Caller Value) ⟨s, []⟩) = _
    rw [if_neg (by simpa [Store.Curried] using other)]
    rfl
  | builtin => rfl
  | _ => cases kind

end Operations

end Plan

/-! ## Evaluating the operations -/

theorem Caller.evaluate_listOp2 {depth : Nat} {env : Environment} {op : ListOperation}
    {list operand : Expr} {line : Nat} {id : ListId} {v : Value} {s₀ s₁ s : Store}
    (arity : op.arity = 2) (first : eval depth env list s₀ = .ok (.list id) s₁)
    (second : eval depth env operand s₁ = .ok v s) :
    Caller.evaluate depth env (.listOp2 op list operand line) ⟨s₀, []⟩ =
      Eval.listOp2 (Caller.call depth · · line) op id v line ⟨s, []⟩ := by
  rw [Caller.evaluate, Eval.evalBy, Eval.checkArity, if_pos arity]
  change (Caller.lift (eval depth env list) >>= _) _ = _
  rw [bind_of_ok (Caller.lift_ok first [])]
  change (Caller.lift (eval depth env operand) >>= _) _ = _
  rw [bind_of_ok (Caller.lift_ok second [])]

/-- Mapping, filtering and folding make the calls of their plans, which are for the items that the
list has at the start, and no others. A folding with a function that is not written as a lambda
that gives a lambda makes no calls at all. -/
theorem eval_iterates {depth : Nat} {env : Environment} {list operand : Expr} {id : ListId}
    {function : Value} {s₀ s₁ s : Store} (line : Nat)
    (first : eval depth env list s₀ = .ok (.list id) s₁)
    (second : eval depth env operand s₁ = .ok function s) (kind : function.kind = .function) :
    (Plan.map function (s.list id).items).Runs depth line s
        (Plan.mapped (s.list id).contentKind)
        (Moment.call (depth + 1) env (.listOp2 .map list operand line) s₀).calls
        (eval (depth + 1) env (.listOp2 .map list operand line) s₀) ∧
      (Plan.filter function (s.list id).items).Runs depth line s
        (Plan.filtered id (s.list id).items)
        (Moment.call (depth + 1) env (.listOp2 .filter list operand line) s₀).calls
        (eval (depth + 1) env (.listOp2 .filter list operand line) s₀) ∧
      (s.Curried function → ∀ seed item rest, (s.list id).items = seed :: item :: rest →
        (Plan.fold function seed (item :: rest)).Runs depth line s (Plan.folded seed)
          (Moment.call (depth + 1) env (.listOp2 .fold list operand line) s₀).calls
          (eval (depth + 1) env (.listOp2 .fold list operand line) s₀)) ∧
      (¬ s.Curried function →
        (Moment.call (depth + 1) env (.listOp2 .fold list operand line) s₀).calls = [] ∧
        eval (depth + 1) env (.listOp2 .fold list operand line) s₀ =
          .error (.failed ⟨line, .foldShape⟩) s) := by
  have run : ∀ op : ListOperation, op.arity = 2 →
      Caller.evaluate depth env (.listOp2 op list operand line) ⟨s₀, []⟩ =
        Eval.listOp2 (Caller.call depth · · line) op id function line ⟨s, []⟩ :=
    fun op arity => Caller.evaluate_listOp2 arity first second
  simp only [Moment.calls, ← Caller.forget_evaluate]
  refine ⟨?_, ?_, fun curried seed item rest enough => ?_, fun other => ?_⟩
  · rw [run .map rfl]
    exact Plan.runs_map kind
  · rw [run .filter rfl]
    exact Plan.runs_filter kind
  · rw [run .fold rfl]
    exact Plan.runs_fold curried enough
  · rw [run .fold rfl]
    change (Caller.endLog (Eval.fold (Caller.call depth · · line) id function line ⟨s, []⟩)).calls =
        [] ∧
      Caller.forget (Eval.fold (Caller.call depth · · line) id function line ⟨s, []⟩) = _
    rw [Plan.fold_of_not_curried kind other]
    exact ⟨rfl, rfl⟩

/-- The first list of a store and its first function, by the names `xs` and `f`. -/
def firstListAndFunction : Environment := ⟨[("xs", .list ⟨0⟩), ("f", .closure ⟨0⟩)]⟩

/-- A store with the list of 1 and 2 and a function that appends its argument to that list. -/
def Store.growing : Store :=
  ⟨#[⟨.int, [.int 1, .int 2]⟩],
    #[⟨⟨[("xs", .list ⟨0⟩)]⟩, "x",
      .letIn false "grown" (.listOp2 .append (.var "xs" 1) (.var "x" 1) 1) (.var "x" 1) 1⟩]⟩

/-- A mapping whose function makes the list longer with each call makes two calls. -/
theorem eval_iterates_growing :
    let mapping := Expr.listOp2 .map (.var "xs" 1) (.var "f" 1) 1
    let calls := (Moment.call 4 firstListAndFunction mapping Store.growing).calls
    (Plan.map (.closure ⟨0⟩) [.int 1, .int 2]).Runs 3 1 Store.growing (Plan.mapped .int) calls
        (eval 4 firstListAndFunction mapping Store.growing) ∧
      calls.map Call.argument = [.int 1, .int 2] ∧
      (((eval 4 firstListAndFunction mapping >>= fun v => do
        let s ← get
        pure (v, (s.list ⟨0⟩).items, (s.list ⟨1⟩).items)) : Eval _).run' Store.growing =
        some (.list ⟨1⟩, [.int 1, .int 2, .int 1, .int 2], [.int 1, .int 2])) := by
  have first : eval 3 firstListAndFunction (.var "xs" 1) Store.growing =
    .ok (.list ⟨0⟩) Store.growing := rfl
  have second : eval 3 firstListAndFunction (.var "f" 1) Store.growing =
    .ok (.closure ⟨0⟩) Store.growing := rfl
  exact ⟨(eval_iterates 1 first second rfl).1, by decide +kernel, by decide +kernel⟩

/-- A store with the list of 1 and 2, a function that calls another one, and that one, which adds
two numbers one after the other. -/
def Store.forwarding : Store :=
  ⟨#[⟨.int, [.int 1, .int 2]⟩],
    #[⟨⟨[("g", .closure ⟨1⟩)]⟩, "a", .app (.var "g" 1) (.var "a" 1) 1⟩,
      ⟨.empty, "a", .lam "b" none (.binary .add (.var "a" 1) (.var "b" 1) 1) 1⟩]⟩

/-- The function that calls the other one adds up the list, and is refused by a folding because its
body is a call. -/
theorem fold_refuses_uncurried :
    ((apply 3 (.closure ⟨0⟩) (.int 1) 1 >>= fun step => apply 3 step (.int 2) 1 : Eval Value).run'
        Store.forwarding = some (.int 3)) ∧
      eval 4 firstListAndFunction (.listOp2 .fold (.var "xs" 1) (.var "f" 1) 1) Store.forwarding =
        .error (.failed ⟨1, .foldShape⟩) Store.forwarding :=
  ⟨by decide +kernel, rfl⟩

end ListLang
