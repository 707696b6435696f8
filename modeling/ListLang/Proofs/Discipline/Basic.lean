import ListLang.Proofs.Recording
import Mathlib.Data.List.Forall2

/-!
# Disciplines of evaluation

A discipline says of stores, values, environments and expressions what evaluation relies on
and keeps. It is lawful where the single steps of evaluation keep it. What a recording keeps
of it is put together from what its parts keep.

Filtering writes back items that it read before it called a function, so what it leaves is
not a matter of a single step. A discipline may ask that it leaves the list sound; then it
says something of those evaluations only whose filterings do.

## Main definitions

* `Discipline`, `Discipline.Lawful` — what evaluation keeps, and the steps that keep it.
* `Moment.Filters` — a filtering that gives a result.
* `Discipline.Keeps` — what a recording keeps.

## Main statements

* `Discipline.Keeps.bind` — what a recording keeps that goes on from another.
-/

namespace ListLang

/-- The values that are no places of a store. -/
def Value.Plain : Value → Prop
  | .list _ | .closure _ => False
  | _ => True

/-- The result is not the failure to find a variable. -/
def Bound {α : Type} (r : Except EvalError.Cause α) : Prop :=
  ∀ name, r ≠ .error (.unboundVariable name)

section Bound

variable (v w : Value) (context : String)

theorem bound_asInt : Bound (v.asInt context) := by cases v <;> rintro _ ⟨⟩

theorem bound_asBool : Bound (v.asBool context) := by cases v <;> rintro _ ⟨⟩

theorem bound_asList : Bound (v.asList context) := by cases v <;> rintro _ ⟨⟩

theorem bound_asFunction : Bound (v.asFunction context) := by cases v <;> rintro _ ⟨⟩

/-- The result is a value that is no place, or a failure other than an unbound variable. -/
def Computes (r : Except EvalError.Cause Value) : Prop := Bound r ∧ ∀ u, r = .ok u → u.Plain

theorem Computes.ok {u : Value} (plain : u.Plain) : Computes (.ok u) :=
  ⟨fun _ => by simp, by rintro _ ⟨⟩; exact plain⟩

theorem Computes.error {cause : EvalError.Cause} (ne : ∀ name, cause ≠ .unboundVariable name) :
    Computes (.error cause) :=
  ⟨fun name h => ne name (Except.error.inj h), by simp⟩

theorem computes_arithmetic (op : Operator) (a b : Int64) : Computes (op.arithmetic a b) := by
  unfold Operator.arithmetic
  split
  · exact .error (by simp)
  · split
    · exact .ok trivial
    · exact .error (by simp)

theorem computes_operator (op : Operator) : Computes (op.apply v w) := by
  unfold Operator.apply
  split
  case _ | _ | _ | _ => exact .ok trivial
  case _ | _ | _ | _ | _ => exact computes_arithmetic _ _ _
  case _ => exact .error (by simp)

theorem computes_builtin (b : Builtin) : Computes (b.apply v) := by
  cases v with
  | int n =>
    cases b with
    | codeChar =>
      simp only [Builtin.apply, Value.asInt, Bind.bind, Except.bind]
      split
      · exact .ok trivial
      · exact .error (by simp)
    | _ => exact .error (by simp [Value.mismatch])
  | string s =>
    cases b with
    | firstChar | remainingChars => exact .ok trivial
    | charCode =>
      simp only [Builtin.apply, Value.asString, Bind.bind, Except.bind]
      split
      · exact .error (by simp)
      · exact .ok trivial
    | codeChar => exact .error (by simp [Value.mismatch])
  | _ => cases b <;> exact .error (by simp [Value.mismatch])

end Bound

/-- The expressions that are evaluated in the environment of an expression. The lambda of a
recursive `let` does not count, because its closure gets one binding more. -/
def Expr.parts : Expr → List Expr
  | literal .. | var .. | lam .. => []
  | app function argument _ => [function, argument]
  | cond condition consequent alternative _ => [condition, consequent, alternative]
  | binary _ left right _ => [left, right]
  | letIn recursive _ value _ _ => if recursive ∧ value.tag = .lam then [] else [value]
  | list _ elements _ => elements
  | listOp1 _ first _ => [first]
  | listOp2 _ first second _ => [first, second]
  | listOp3 _ first second third _ => [first, second, third]

/-- A filtering starts at the moment and gives the list at `id` and the store `t`. -/
def Moment.Filters (m : Moment) (id : ListId) (t : Store) : Prop :=
  ∃ depth env list predicate line s,
    m = .call depth env (.listOp2 .filter list predicate line) s ∧
      eval depth env (.listOp2 .filter list predicate line) s = .ok (.list id) t

/-- What evaluation relies on and keeps. -/
structure Discipline where
  /-- Stores before and after an evaluation. -/
  inv : Store → Prop
  /-- Stores at every moment. -/
  good : Store → Prop
  evolves : Store → Store → Prop
  has : Store → Value → Prop
  runs : Store → Environment → Expr → Prop
  /-- Values of the content kind of a list. -/
  suits : Store → ListId → Value → Prop
  /-- Values that may stand in a list. -/
  fits : Store → ListId → Value → Prop
  /-- Lists as filtering has to leave them. -/
  sound : Store → ListId → Prop
  halts : Halt → Prop

namespace Discipline

variable (D : Discipline)

/-- A later store that evaluation may go on from. -/
def Leads (s t : Store) : Prop := D.inv t ∧ D.evolves s t

/-- A new list is well kept. -/
def Makes (s : Store) (cell : ListCell) : Prop :=
  D.Leads s (s.addList cell).2 ∧ D.has (s.addList cell).2 (.list (s.addList cell).1)

/-- The value is one, and of the kind that the expression writes if it writes data. -/
def Gives (e : Expr) (v : Value) (s : Store) : Prop :=
  D.has s v ∧ ∀ kind, e.tag.dataKind? = some kind → v.kind = kind

/-- The steps of evaluation keep the discipline. -/
structure Lawful : Prop where
  good : ∀ {s}, D.inv s → D.good s
  refl : ∀ s, D.evolves s s
  trans : ∀ {s t u}, D.evolves s t → D.evolves t u → D.evolves s u
  has_mono : ∀ {s t v}, D.evolves s t → D.has s v → D.has t v
  runs_mono : ∀ {s t env e}, D.evolves s t → D.runs s env e → D.runs t env e
  -- Expressions and their values
  plain : ∀ {s v}, v.Plain → D.has s v
  lookup : ∀ {s env name line v}, D.runs s env (.var name line) → env.lookup name = some v →
    D.has s v
  part : ∀ {s env e p}, D.runs s env e → p ∈ e.parts → D.runs s env p
  letBody : ∀ {s env recursive name value body line v},
    D.runs s env (.letIn recursive name value body line) → D.has s v →
    D.runs s (env.extend name v) body
  -- Closures
  lam : ∀ {s env param ty body line}, D.inv s → D.runs s env (.lam param ty body line) →
    D.Leads s (s.addClosure ⟨env, param, body⟩).2 ∧
      D.has (s.addClosure ⟨env, param, body⟩).2 (.closure (s.addClosure ⟨env, param, body⟩).1)
  letRec : ∀ {s env name param ty body line rest line'}, D.inv s →
    D.runs s env (.letIn true name (.lam param ty body line) rest line') →
    let made := s.addClosure ⟨env, param, body⟩
    D.good made.2 ∧ D.Leads s (made.2.bindName made.1 name (.closure made.1)) ∧
      D.has (made.2.bindName made.1 name (.closure made.1)) (.closure made.1)
  bindName : ∀ {s id name}, D.inv s → D.has s (.closure id) →
    D.Leads s (s.bindName id name (.closure id))
  body : ∀ {s id v}, D.inv s → D.has s (.closure id) → D.has s v →
    D.runs s ((s.closure id).env.extend (s.closure id).param v) (s.closure id).body
  -- Lists
  literal : ∀ {s env tag es line v vs}, D.inv s → D.runs s env (.list tag es line) →
    List.Forall₂ (fun e v => D.has s v ∧ e.tag.dataKind? = some v.kind) es (v :: vs) →
    D.Makes s ⟨v.kind, v :: vs⟩
  mapped : ∀ {s kind vs}, D.inv s → (∀ v ∈ vs, D.has s v ∧ v.kind = kind) → D.Makes s ⟨kind, vs⟩
  item : ∀ {s id v}, D.inv s → D.has s (.list id) → v ∈ (s.list id).items → D.has s v
  checked : ∀ {s id v}, D.inv s → D.has s (.list id) → D.has s v →
    v.kind = (s.list id).contentKind → D.suits s id v
  shared : ∀ {s id other v}, D.inv s → D.has s (.list id) → D.has s (.list other) →
    v ∈ (s.list other).items → (s.list other).contentKind = (s.list id).contentKind →
    D.suits s id v
  suits_mono : ∀ {s t id v}, D.evolves s t → D.suits s id v → D.suits t id v
  held : ∀ {s id v}, D.inv s → D.has s (.list id) → v ∈ (s.list id).items → D.fits s id v
  same : ∀ {s id v}, D.inv s → D.suits s id v →
    (∀ inner, v = .list inner → s.reaches inner id = false) → D.fits s id v
  copy : ∀ {s id inner}, D.inv s → D.suits s id (.list inner) → s.reaches inner id = true →
    D.Leads s (s.deepCopy inner).2 ∧ D.fits (s.deepCopy inner).2 id (.list (s.deepCopy inner).1) ∧
      ∀ v, D.fits s id v → D.fits (s.deepCopy inner).2 id v
  write : ∀ {s id items}, D.inv s → D.has s (.list id) → (∀ v ∈ items, D.fits s id v) →
    D.Leads s (s.setItems id items)
  filtered : ∀ {s t id kept}, D.inv s → D.has s (.list id) → kept ⊆ (s.list id).items →
    D.inv t → D.evolves s t → D.sound (t.setItems id kept) id → D.Leads t (t.setItems id kept)
  -- Halting
  tooDeep : D.halts .tooDeep
  unbound : ∀ {s env name line}, D.runs s env (.var name line) → env.lookup name = none →
    D.halts (.failed ⟨line, .unboundVariable name⟩)
  fails : ∀ {s env e cause}, D.runs s env e → (∀ name, cause ≠ .unboundVariable name) →
    D.halts (.failed ⟨e.line, cause⟩)

/-- On the line, evaluation may fail for every cause but an unbound variable. -/
def Fails (line : Nat) : Prop :=
  ∀ cause, (∀ name, cause ≠ .unboundVariable name) → D.halts (.failed ⟨line, cause⟩)

/-- Evaluation ends well in the outcome. -/
def Ends {α : Type} (s : Store) (Q : α → Store → Prop) : EStateM.Result Halt Store α → Prop
  | .ok a t => D.Leads s t ∧ Q a t
  | .error h _ => D.halts h

/-- A recording that starts in `s` is good at every moment and ends well, provided its
filterings leave their lists sound. -/
def Keeps {α : Type} (s : Store) (r : Recording α) (Q : α → Store → Prop) : Prop :=
  (∀ m ∈ r.moments, ∀ id t, m.Filters id t → D.sound t id) →
    (∀ m ∈ r.moments, D.good m.store) ∧ D.Ends s Q r.outcome

/-- Applications keep the discipline. -/
def Applies (app : Value → Value → Recorder Value) : Prop :=
  ∀ function argument s, D.inv s → D.has s function → D.has s argument →
    D.Keeps s ((app function argument).run s) fun v t => D.has t v

/-! ## Rules -/

namespace Keeps

variable {D} {α β : Type} {s t : Store} {Q : α → Store → Prop}

theorem mono {R : α → Store → Prop} {r : Recording α} (h : D.Keeps s r Q)
    (le : ∀ a t, Q a t → R a t) : D.Keeps s r R := by
  intro sound
  obtain ⟨good, ends⟩ := h sound
  refine ⟨good, ?_⟩
  cases ho : r.outcome with
  | ok a t =>
    rw [ho] at ends
    exact ⟨ends.1, le a t ends.2⟩
  | error h t =>
    rw [ho] at ends
    exact ends

theorem fail {cause : EvalError.Cause} {line : Nat} (halts : D.halts (.failed ⟨line, cause⟩)) :
    D.Keeps s ((Eval.fail line cause : Recorder α).run s) Q :=
  fun _ => ⟨by rintro m ⟨⟩, halts⟩

theorem list {id : ListId} {f : ListCell → Recorder α} (h : D.Keeps s ((f (s.list id)).run s) Q) :
    D.Keeps s ((Eval.list id >>= f).run s) Q := h

theorem isCurried {function : Value} {f : Bool → Recorder α}
    (h : ∀ b, D.Keeps s ((f b).run s) Q) :
    D.Keeps s ((Eval.isCurried function >>= f).run s) Q := by
  cases function <;> exact h _

theorem orFail {r : Except EvalError.Cause α} {line : Nat} {f : α → Recorder β}
    {R : β → Store → Prop} (fails : D.Fails line) (bound : Bound r)
    (ok : ∀ a, r = .ok a → D.Keeps s ((f a).run s) R) :
    D.Keeps s ((Eval.orFail line r >>= f).run s) R := by
  cases r with
  | ok a => exact ok a rfl
  | error cause => exact fail (fails cause fun name unbound => bound name (unbound ▸ rfl))

theorem checkElement {op : ListOperation} {cell : ListCell} {v : Value} {line : Nat}
    {f : Unit → Recorder α} (fails : D.Fails line)
    (ok : v.kind = cell.contentKind → D.Keeps s ((f ()).run s) Q) :
    D.Keeps s ((Eval.checkElement op cell v line >>= f).run s) Q := by
  unfold Eval.checkElement
  split
  · next same => exact ok same
  · exact fail (fails _ (by simp))

theorem checkArity {op : ListOperation} {given line : Nat} {f : Unit → Recorder α}
    (fails : D.Fails line) (ok : op.arity = given → D.Keeps s ((f ()).run s) Q) :
    D.Keeps s ((Eval.checkArity op given line >>= f).run s) Q := by
  unfold Eval.checkArity
  split
  · next arity => exact ok arity
  · exact fail (fails _ (by simp))

theorem position {op : ListOperation} {cell : ListCell} {n : Int64} {bound line : Nat}
    {f : Nat → Recorder α} (fails : D.Fails line) (ok : ∀ i, D.Keeps s ((f i).run s) Q) :
    D.Keeps s ((Eval.position op cell n bound line >>= f).run s) Q := by
  unfold Eval.position
  split
  · exact ok _
  · exact fail (fails _ (by simp))

variable (law : D.Lawful)

include law

theorem pure {a : α} (inv : D.inv s) (h : Q a s) : D.Keeps s ((Pure.pure a : Recorder α).run s) Q :=
  fun _ => ⟨by rintro m ⟨⟩, ⟨inv, law.refl s⟩, h⟩

/-- A recording goes on from a later store. -/
theorem after {before : List Moment} {r : Recording α} (good : ∀ m ∈ before, D.good m.store)
    (later : D.evolves s t) (h : D.Keeps t r Q) : D.Keeps s ⟨before ++ r.moments, r.outcome⟩ Q := by
  intro sound
  obtain ⟨good', ends⟩ := h fun m mem => sound m (List.mem_append_right _ mem)
  constructor
  · intro m mem
    obtain mem | mem := List.mem_append.mp mem
    · exact good m mem
    · exact good' m mem
  · cases ho : r.outcome with
    | ok a u =>
      rw [ho] at ends
      exact ⟨⟨ends.1.1, law.trans later ends.1.2⟩, ends.2⟩
    | error h u =>
      rw [ho] at ends
      exact ends

theorem bind {a : Recorder α} {f : α → Recorder β} {R : β → Store → Prop}
    (first : D.Keeps s (a.run s) Q)
    (next : ∀ x t, (a.run s).outcome = .ok x t → D.Leads s t → Q x t → D.Keeps t ((f x).run t) R) :
    D.Keeps s ((a >>= f).run s) R := by
  intro sound
  change (∀ m ∈ (Recorder.andThen (a.run s) f).moments, D.good m.store) ∧
    D.Ends s R (Recorder.andThen (a.run s) f).outcome
  change ∀ m ∈ (Recorder.andThen (a.run s) f).moments, _ at sound
  cases ha : (a.run s).outcome with
  | ok x t =>
    rw [Recorder.andThen_ok ha] at sound ⊢
    obtain ⟨good, ends⟩ := first fun m mem => sound m (List.mem_append_left _ mem)
    rw [ha] at ends
    exact after law good ends.1.2 (next x t ha ends.1 ends.2) sound
  | error h t =>
    rw [Recorder.andThen_error ha] at sound ⊢
    obtain ⟨good, ends⟩ := first sound
    rw [ha] at ends
    exact ⟨good, ends⟩

theorem step {f : Store → α × Store} (leads : D.Leads s (f s).2) (h : Q (f s).1 (f s).2) :
    D.Keeps s ((modifyGet f : Recorder α).run s) Q := by
  refine fun _ => ⟨?_, leads, h⟩
  rintro m (_ | ⟨_, ⟨⟩⟩)
  exact law.good leads.1

theorem newList {cell : ListCell} (makes : D.Makes s cell) :
    D.Keeps s ((Eval.newList cell.contentKind cell.items : Recorder Value).run s)
      fun v t => D.has t v ∧ v.kind = .list := by
  refine bind (Q := fun id t => D.has t (.list id)) law (step law makes.1 makes.2) ?_
  exact fun id t _ leads has => pure law leads.1 ⟨has, rfl⟩

theorem setItems {id : ListId} {items : List Value} (has : D.has s (.list id))
    (leads : D.Leads s (s.setItems id items)) :
    D.Keeps s (((do Eval.setItems id items; Pure.pure (.list id)) : Recorder Value).run s)
      fun v t => D.has t v := by
  refine bind (Q := fun _ _ => True) law (step law leads trivial) ?_
  exact fun _ t _ later _ => pure law later.1 (law.has_mono later.2 has)

end Keeps

end Discipline

end ListLang
