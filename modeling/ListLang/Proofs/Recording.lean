import ListLang.Eval.Simulation
import ListLang.Program

/-!
# Recorded evaluations

A recorder evaluates as the evaluator does and keeps, in order, the moments of the evaluation:
each start of the evaluation of an expression, with the store it starts in, and each store
that a step leaves behind. What is said of every state of an evaluation, or of what it does
along the way, is said of these moments; they are kept also when the evaluation fails or is
cut off for nesting too deeply.

## Main definitions

* `Moment` — the moments of an evaluation.
* `Recorder` — computations that keep their moments.
* `record` — the evaluator as a recorder.
* `moments`, `reached` — the moments and the stores of a program's evaluation.

## Main statements

* `record_outcome` — a recorded evaluation has the outcome of the evaluation.
* `record_advances` — the stores of an evaluation come one after another.
* `record_nested` — an evaluation records what the evaluations in it record.
* `store_run_mem_reached` — the store that a program ends in is one that it reached.
-/

namespace ListLang

/-- A moment of an evaluation: the start of the evaluation of an expression, or a change of
the store. -/
inductive Moment where
  | call (depth : Nat) (env : Environment) (e : Expr) (s : Store)
  | change (s : Store)

/-- The store at a moment. -/
def Moment.store : Moment → Store
  | call _ _ _ s | change s => s

/-- The store that an outcome leaves behind. -/
def Eval.endStore {ε α : Type} : EStateM.Result ε Store α → Store
  | .ok _ s | .error _ s => s

/-- An outcome and the moments before it. -/
structure Recording (α : Type) where
  moments : List Moment
  outcome : EStateM.Result Halt Store α

/-- The stores of a recording. -/
def Recording.stores {α : Type} (r : Recording α) : List Store := r.moments.map Moment.store

/-- Computations on a store that keep their moments. -/
structure Recorder (α : Type) where
  run : Store → Recording α

namespace Recorder

/-- A recording continued by the computation on its result. -/
def andThen {α β : Type} (r : Recording α) (f : α → Recorder β) : Recording β :=
  match r.outcome with
  | .ok a t => ⟨r.moments ++ ((f a).run t).moments, ((f a).run t).outcome⟩
  | .error h t => ⟨r.moments, .error h t⟩

instance : Monad Recorder where
  pure a := ⟨fun s => ⟨[], .ok a s⟩⟩
  bind m f := ⟨fun s => andThen (m.run s) f⟩

instance : MonadStateOf Store Recorder where
  get := ⟨fun s => ⟨[], .ok s s⟩⟩
  set t := ⟨fun _ => ⟨[.change t], .ok ⟨⟩ t⟩⟩
  modifyGet f := ⟨fun s => ⟨[.change (f s).2], .ok (f s).1 (f s).2⟩⟩

instance : MonadExceptOf Halt Recorder where
  throw h := ⟨fun s => ⟨[], .error h s⟩⟩
  tryCatch m handle := ⟨fun s => match m.run s with
    | ⟨before, .error h t⟩ =>
      ⟨before ++ ((handle h).run t).moments, ((handle h).run t).outcome⟩
    | r => r⟩

/-- Notes the start of an evaluation. -/
def note (depth : Nat) (env : Environment) (e : Expr) : Recorder Unit :=
  ⟨fun s => ⟨[.call depth env e s], .ok () s⟩⟩

end Recorder

/-- The value of an expression, recorded. -/
def record : Nat → Environment → Expr → Recorder Value
  | 0, _, _ => throw .tooDeep
  | depth + 1, env, e => do
    .note (depth + 1) env e
    Eval.evalWith (record depth) env e

/-- The moments of a program's evaluation. A text that is no program has none. -/
def moments (depth : Nat) (source : String) : List Moment :=
  match parse source with
  | .ok e => ((record depth .initial e).run .empty).moments
  | .error _ => []

/-- The stores of a program's evaluation, the one it starts with first. -/
def reached (depth : Nat) (source : String) : List Store :=
  match parse source with
  | .ok e => .empty :: ((record depth .initial e).run .empty).stores
  | .error _ => []

namespace Recorder

theorem andThen_ok {α β : Type} {r : Recording α} {a : α} {t : Store}
    (ok : r.outcome = .ok a t) (f : α → Recorder β) :
    andThen r f = ⟨r.moments ++ ((f a).run t).moments, ((f a).run t).outcome⟩ := by
  simp only [andThen, ok]

theorem andThen_error {α β : Type} {r : Recording α} {h : Halt} {t : Store}
    (error : r.outcome = .error h t) (f : α → Recorder β) :
    andThen r f = ⟨r.moments, .error h t⟩ := by
  simp only [andThen, error]

theorem outcome_bind {α β : Type} {a : Recorder α} {s t : Store} {x : α}
    (ok : (a.run s).outcome = .ok x t) (f : α → Recorder β) :
    ((a >>= f).run s).outcome = ((f x).run t).outcome := by
  change (andThen (a.run s) f).outcome = _
  rw [andThen_ok ok]

/-! ## Recording does not change outcomes -/

/-- Recorders and the evaluations with the same outcomes. -/
def erasure : Eval.Simulation Recorder Eval where
  rel a b := ∀ s, (a.run s).outcome = b s
  pure _ _ := rfl
  bind {_ _ a b f g} first next s := by
    change (andThen (a.run s) f).outcome = EStateM.bind b g s
    rw [EStateM.bind, ← first s]
    cases ha : (a.run s).outcome with
    | ok x t => rw [andThen_ok ha, next x t]
    | error h t => rw [andThen_error ha]
  throw _ _ := rfl
  get _ := rfl
  step _ _ := rfl

end Recorder

/-- A recorded evaluation has the outcome of the evaluation. -/
theorem record_outcome (depth : Nat) (env : Environment) (e : Expr) (s : Store) :
    ((record depth env e).run s).outcome = eval depth env e s := by
  induction depth generalizing env e s with
  | zero => rfl
  | succ depth ih =>
    refine Recorder.erasure.evalWith ih env e ?_ s
    rintro name value body line rfl
    refine Recorder.erasure.letIn ih (fun v => ?_) env value body line
    cases v <;> exact fun _ => rfl

/-! ## What every recorder keeps -/

namespace Recorder

/-- A property of recorders that the evaluator respects, the self-binding of closures and the
notes of starts included, holds of recorded evaluations. -/
theorem rel_record (R : Eval.Simulation Recorder Recorder)
    (note : ∀ depth env e, R.rel (note depth env e) (note depth env e))
    (bind : ∀ id name, R.rel (modify (·.bindName id name (.closure id)))
      (modify (·.bindName id name (.closure id))))
    (depth : Nat) (env : Environment) (e : Expr) :
    R.rel (record depth env e) (record depth env e) := by
  induction depth generalizing env e with
  | zero => exact R.throw _
  | succ depth ih =>
    refine R.bind (note _ _ _) fun _ => R.evalWith ih env e ?_
    rintro name value body line rfl
    refine R.letIn ih (fun v => ?_) env value body line
    cases v with
    | closure id => exact bind id name
    | _ => exact R.pure _

end Recorder

/-- A recording that starts in `s` ends in its last store. -/
def Recording.Ends (s : Store) {α : Type} (r : Recording α) : Prop :=
  Eval.endStore r.outcome = r.stores.getLastD s

theorem Recording.Ends.andThen {α β : Type} {s : Store} {r : Recording α} {f : α → Recorder β}
    (first : r.Ends s) (next : ∀ a t, ((f a).run t).Ends t) : (Recorder.andThen r f).Ends s := by
  unfold Recording.Ends at first next ⊢
  cases h : r.outcome with
  | ok a t =>
    rw [h, Eval.endStore] at first
    rw [Recorder.andThen_ok h, next a t, first]
    simp [Recording.stores, List.getLastD_eq_getLast?, List.getLast?_append]
  | error e t =>
    rw [h] at first
    rwa [Recorder.andThen_error h]

/-- The recorders whose outcome leaves the last store that they record. -/
def Recorder.ending : Eval.Simulation Recorder Recorder where
  rel a _ := ∀ s, (a.run s).Ends s
  pure _ _ := rfl
  bind first next s := (first s).andThen next
  throw _ _ := rfl
  get _ := rfl
  step _ _ := rfl

/-- A recorded evaluation ends in the last store that it records. -/
theorem record_ends (depth : Nat) (env : Environment) (e : Expr) (s : Store) :
    ((record depth env e).run s).Ends s :=
  Recorder.rel_record Recorder.ending (fun _ _ _ _ => rfl) (fun _ _ _ => rfl) depth env e s

/-! ## How stores follow one another -/

/-- The stores of a recording that starts in `s` come after one another and before its end. -/
structure Recording.Advances (After : Store → Store → Prop) (s : Store) {α : Type}
    (r : Recording α) : Prop where
  ordered : (s :: r.stores).Pairwise After
  ends : ∀ t ∈ s :: r.stores, After t (Eval.endStore r.outcome)

section Advances

variable {After : Store → Store → Prop} (refl : ∀ s, After s s)
  (trans : ∀ s t u, After s t → After t u → After s u)

include refl in
theorem Recording.Advances.still {α : Type} {s : Store} {o : EStateM.Result Halt Store α}
    (same : Eval.endStore o = s) : Advances After s ⟨[], o⟩ where
  ordered := List.pairwise_singleton _ s
  ends := by
    subst same
    rintro t (_ | ⟨_, ⟨⟩⟩)
    exact refl _

include refl in
theorem Recording.Advances.once {α : Type} {s : Store} (m : Moment) (a : α)
    (after : After s m.store) : Advances After s ⟨[m], .ok a m.store⟩ where
  ordered := List.pairwise_pair.mpr after
  ends := by
    rintro t (_ | ⟨_, _ | ⟨_, ⟨⟩⟩⟩)
    · exact after
    · exact refl _

include trans in
theorem Recording.Advances.andThen {α β : Type} {s : Store} {r : Recording α}
    {f : α → Recorder β} (first : r.Advances After s)
    (next : ∀ a t, ((f a).run t).Advances After t) : (Recorder.andThen r f).Advances After s := by
  cases h : r.outcome with
  | ok a t =>
    have before : ∀ u ∈ s :: r.stores, After u t := by simpa [h, Eval.endStore] using first.ends
    have later := List.pairwise_cons.mp (next a t).ordered
    have stores : s :: (Recorder.andThen r f).stores =
        (s :: r.stores) ++ ((f a).run t).stores := by
      simp [Recorder.andThen_ok h, Recording.stores]
    constructor
    · rw [stores]
      exact List.pairwise_append.mpr ⟨first.ordered, later.2, fun u hu v hv =>
        trans u t v (before u hu) (later.1 v hv)⟩
    · intro u mem
      rw [Recorder.andThen_ok h]
      obtain mem | mem := List.mem_append.mp (stores ▸ mem)
      · exact trans _ _ _ (before u mem) ((next a t).ends t List.mem_cons_self)
      · exact (next a t).ends u (List.mem_cons_of_mem _ mem)
  | error e t =>
    have ends := first.ends
    rw [h] at ends
    rw [Recorder.andThen_error h]
    exact ⟨first.ordered, ends⟩

/-- The recorders whose stores come after one another, where every step leads to a later
store. -/
def Recorder.advancing
    (step : ∀ {α : Type} {f : Store → α × Store}, Eval.Step f → ∀ s, After s (f s).2) :
    Eval.Simulation Recorder Recorder where
  rel a _ := ∀ s, (a.run s).Advances After s
  pure _ _ := .still refl rfl
  bind first next s := .andThen trans (first s) next
  throw _ _ := .still refl rfl
  get _ := .still refl rfl
  step h s := .once refl (.change _) _ (step h s)

include refl trans in
/-- The stores of a recorded evaluation come after one another, where every step leads to a
later store. -/
theorem record_advances
    (step : ∀ {α : Type} {f : Store → α × Store}, Eval.Step f → ∀ s, After s (f s).2)
    (bind : ∀ s id name, After s (s.bindName id name (.closure id)))
    (depth : Nat) (env : Environment) (e : Expr) (s : Store) :
    ((record depth env e).run s).Advances After s :=
  Recorder.rel_record (Recorder.advancing refl trans step)
    (fun _ _ _ s => .once refl (.call _ _ _ s) _ (refl s))
    (fun id name s => .once refl (.change _) _ (bind s id name)) depth env e s

end Advances

/-! ## Evaluations inside an evaluation -/

namespace Recorder

/-- The recorders that record what each evaluation in them records. -/
def nested : Eval.Simulation Recorder Recorder where
  rel a _ := ∀ s depth env e t, .call depth env e t ∈ (a.run s).moments →
    ((record depth env e).run t).moments ⊆ (a.run s).moments
  pure _ _ _ _ _ _ mem := absurd mem List.not_mem_nil
  bind {_ _ a _ f _} first next s depth env e t mem := by
    change ((record depth env e).run t).moments ⊆ (andThen (a.run s) f).moments
    change .call depth env e t ∈ (andThen (a.run s) f).moments at mem
    cases ha : (a.run s).outcome with
    | ok x u =>
      rw [andThen_ok ha] at mem ⊢
      obtain mem | mem := List.mem_append.mp mem
      · exact fun r hr => List.mem_append_left _ (first s depth env e t mem hr)
      · exact fun r hr => List.mem_append_right _ (next x u depth env e t mem hr)
    | error h u =>
      rw [andThen_error ha] at mem ⊢
      exact first s depth env e t mem
  throw _ _ _ _ _ _ mem := absurd mem List.not_mem_nil
  get _ _ _ _ _ mem := absurd mem List.not_mem_nil
  step _ _ _ _ _ _ mem := by cases mem with | tail _ mem => cases mem

end Recorder

/-- A recorded evaluation records what each evaluation in it records. -/
theorem record_nested (depth : Nat) (env : Environment) (e : Expr) :
    Recorder.nested.rel (record depth env e) (record depth env e) := by
  induction depth generalizing env e with
  | zero => exact Recorder.nested.throw _
  | succ depth ih =>
    have inner : Recorder.nested.rel (Eval.evalWith (record depth) env e)
        (Eval.evalWith (record depth) env e) := by
      refine Recorder.nested.evalWith ih env e ?_
      rintro name value body line rfl
      refine Recorder.nested.letIn ih (fun v => ?_) env value body line
      cases v with
      | closure id => intro s _ _ _ _ mem; cases mem with | tail _ mem => cases mem
      | _ => exact Recorder.nested.pure _
    intro s depth' env' e' t mem
    -- What comes first is the start of the whole evaluation, which records all of it.
    obtain start | mem := List.mem_cons.mp mem
    · cases start
      exact List.Subset.refl _
    · exact fun r hr => List.mem_cons_of_mem _ (inner s depth' env' e' t mem hr)

theorem mem_reached_of_mem_moments {depth : Nat} {source : String} {m : Moment}
    (mem : m ∈ moments depth source) : m.store ∈ reached depth source := by
  unfold moments at mem
  unfold reached
  cases parsed : parse source with
  | ok e =>
    rw [parsed] at mem
    exact List.mem_cons_of_mem _ (List.mem_map_of_mem mem)
  | error e =>
    rw [parsed] at mem
    cases mem

/-- The store that an evaluation inside a program's ends in is one that the program's reached. -/
theorem endStore_mem_reached {depth depth' : Nat} {source : String} {env : Environment} {e : Expr}
    {s : Store} (mem : .call depth' env e s ∈ moments depth source) :
    Eval.endStore (eval depth' env e s) ∈ reached depth source := by
  have inner : ∀ t ∈ s :: ((record depth' env e).run s).stores, t ∈ reached depth source := by
    intro t memₜ
    obtain rfl | memₜ := List.mem_cons.mp memₜ
    · exact mem_reached_of_mem_moments mem
    · obtain ⟨m, recorded, rfl⟩ := List.mem_map.mp memₜ
      refine mem_reached_of_mem_moments ?_
      unfold moments at mem ⊢
      split at mem
      · exact record_nested _ _ _ _ _ _ _ _ mem recorded
      · cases mem
  rw [← record_outcome, record_ends]
  exact inner _ List.getLastD_mem_cons

/-- The store that a program ends in is one that its evaluation reached. -/
theorem store_run_mem_reached {source : String} {e : Expr} (parsed : parse source = .ok e)
    (depth : Nat) : Eval.endStore (run depth .initial source .empty) ∈ reached depth source := by
  have ends := record_ends depth .initial e .empty
  have same : Eval.endStore (run depth .initial source .empty) =
      Eval.endStore ((record depth .initial e).run .empty).outcome := by
    simp only [record_outcome, run, parsed]
    cases eval depth .initial e .empty <;> rfl
  rw [same, ends]
  simp only [reached, parsed]
  exact List.getLastD_mem_cons

end ListLang
