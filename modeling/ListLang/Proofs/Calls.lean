import ListLang.Proofs.Captures
import ListLang.Proofs.Confinement

/-!
# Calls of functions

Evaluation calls functions at applications, and at mappings, filterings and foldings once or
twice for each item. It calls nothing else: a value is looked at before it is called, and what a
folding calls second is what its function gave, which is a closure because the function is
written as a lambda that gives a lambda. The folding looks at that once, before its first call,
and no call changes how a function is written.

## Main definitions

* `Store.Curried` — the functions written as lambdas that give lambdas.
* `Call` — a call of a function.
* `Caller` — computations that note calls.
* `Moment.calls` — the calls that an evaluation makes for its own expression.
* `Moment.folding?` — the operands of a folding.

## Main statements

* `Caller.forget_evaluate` — noting calls does not change evaluation.
* `kind_of_mem_calls` — only functions are called.
* `outcome_of_mem_calls` — a folding's calls of its function give closures.
-/

namespace ListLang

/-! ## How functions are written -/

/-- The value is a closure whose body is a lambda. -/
def Store.Curried (s : Store) : Value → Prop
  | .closure id => (s.closure id).body.tag = .lam
  | _ => False

instance (s : Store) : DecidablePred s.Curried
  | .closure id => inferInstanceAs (Decidable ((s.closure id).body.tag = .lam))
  | .int _ | .bool _ | .string _ | .list _ | .builtin _ => inferInstanceAs (Decidable False)

namespace Store

variable {s : Store} {f : Value}

theorem Curried.kind (curried : s.Curried f) : f.kind = .function := by
  cases f with
  | closure id => rfl
  | _ => cases curried

theorem Curried.has (curried : s.Curried f) : s.Has f := by
  cases f with
  | closure id =>
    refine Nat.lt_of_not_le fun new => ?_
    rw [Curried, closure_of_size_le new] at curried
    cases curried
  | _ => cases curried

theorem Curried.step (curried : s.Curried f) {α : Type} {g : Store → α × Store}
    (step : Eval.Step g) : (g s).2.Curried f := by
  have has := curried.has
  cases f with
  | closure id => rwa [Curried, closure_step step s has]
  | _ => cases curried

theorem Curried.bindName (curried : s.Curried f) (id : ClosureId) (name : String) (v : Value) :
    (s.bindName id name v).Curried f := by
  cases f with
  | closure other => rwa [Curried, body_bindName]
  | _ => cases curried

end Store

section Curried

variable {s : Store} {f : Value} (curried : s.Curried f)

include curried

/-- Evaluation does not change how functions are written. -/
theorem curried_eval (depth : Nat) (env : Environment) (e : Expr) :
    (Eval.endStore (eval depth env e s)).Curried f := by
  have advances : ((record depth env e).run s).Advances (fun s t => s.Curried f → t.Curried f) s :=
    record_advances (fun _ h => h) (fun _ _ _ first second h => second (first h))
      (fun step _ h => h.step step) (fun _ id name h => h.bindName id name _) depth env e s
  rw [← record_outcome]
  exact advances.ends s List.mem_cons_self curried

theorem curried_apply (depth : Nat) (g v : Value) (line : Nat) :
    (Eval.endStore (apply depth g v line s)).Curried f := by
  cases g with
  | closure id => exact curried_eval curried depth _ _
  | builtin b =>
    change (Eval.endStore ((Eval.orFail line (b.apply v) : Eval Value) s)).Curried f
    cases b.apply v <;> exact curried
  | _ => exact curried

/-- A lambda that gives a lambda gives a closure. -/
theorem apply_curried (depth : Nat) (v : Value) (line : Nat) :
    ∃ id t, apply (depth + 1) f v line s = .ok (.closure id) t := by
  cases f with
  | closure id =>
    cases lambda : (s.closure id).body with
    | lam param ty body line' =>
      let env := (s.closure id).env.extend (s.closure id).param v
      refine ⟨_, _, (?_ : _ = eval (depth + 1) env (.lam param ty body line') s)⟩
      rw [← lambda]
      rfl
    | literal value =>
      cases value <;> simp [Store.Curried, lambda, Expr.tag, Literal.tag] at curried
    | _ => simp [Store.Curried, lambda, Expr.tag] at curried
  | _ => cases curried

end Curried

/-! ## Noting calls -/

/-- A call of a function on an argument: how deep evaluations in it may nest, the line it is
made from and the store it is made in. -/
structure Call where
  depth : Nat
  function : Value
  argument : Value
  line : Nat
  store : Store

/-- How the call ends. -/
def Call.outcome (c : Call) : EStateM.Result Halt Store Value :=
  apply c.depth c.function c.argument c.line c.store

/-- A store with the calls noted so far. -/
structure CallLog where
  store : Store
  calls : List Call

/-- Computations on a store that note calls. -/
abbrev Caller := EStateM Halt CallLog

namespace Caller

instance : MonadStateOf Store Caller where
  get log := .ok log.store log
  set s log := .ok ⟨⟩ { log with store := s }
  modifyGet f log := .ok (f log.store).1 { log with store := (f log.store).2 }

/-- The log that an outcome leaves behind. -/
def endLog {α : Type} : EStateM.Result Halt CallLog α → CallLog
  | .ok _ log | .error _ log => log

/-- An outcome without the calls. -/
def forget {α : Type} : EStateM.Result Halt CallLog α → EStateM.Result Halt Store α
  | .ok a log => .ok a log.store
  | .error h log => .error h log.store

/-- An evaluation, of whose calls none is noted. -/
def lift {α : Type} (a : Eval α) : Caller α := fun log =>
  match a log.store with
  | .ok x s => .ok x { log with store := s }
  | .error h s => .error h { log with store := s }

/-- A call that is noted. -/
def call (depth : Nat) (function argument : Value) (line : Nat) : Caller Value := fun log =>
  lift (apply depth function argument line)
    { log with calls := log.calls ++ [⟨depth, function, argument, line, log.store⟩] }

/-- The value of an expression, with the calls noted that its own form makes. -/
def evaluate (depth : Nat) : Environment → Expr → Caller Value :=
  Eval.evalBy (fun env e => lift (eval depth env e)) (call depth)

end Caller

/-- The calls that the evaluation that starts at the moment makes for its own expression, those
that evaluations in it make apart. -/
def Moment.calls : Moment → List Call
  | .call (depth + 1) env e s => (Caller.endLog (Caller.evaluate depth env e ⟨s, []⟩)).calls
  | _ => []

namespace Caller

theorem endLog_lift {α : Type} (a : Eval α) (log : CallLog) :
    endLog (lift a log) = ⟨Eval.endStore (a log.store), log.calls⟩ := by
  unfold lift
  cases a log.store <;> rfl

theorem forget_lift {α : Type} (a : Eval α) (log : CallLog) :
    forget (lift a log) = a log.store := by
  unfold lift
  cases a log.store <;> rfl

theorem lift_ok {α : Type} {a : Eval α} {s t : Store} {x : α} (ran : a s = .ok x t)
    (calls : List Call) : lift a ⟨s, calls⟩ = .ok x ⟨t, calls⟩ := by
  simp only [lift, ran]

/-! ## Noting does not change evaluation -/

/-- Computations that note calls and the evaluations with the same outcomes. -/
def forgetting : Eval.Simulation Caller Eval where
  rel a b := ∀ log, forget (a log) = b log.store
  pure _ _ := rfl
  bind {_ _ a b f g} first next log := by
    change forget (EStateM.bind a f log) = EStateM.bind b g log.store
    unfold EStateM.bind
    rw [← first log]
    cases a log with
    | ok x log' => exact next x log'
    | error h log' => rfl
  throw _ _ := rfl
  get _ := rfl
  step _ _ := rfl

/-- An evaluation that notes its calls ends as the evaluation does. -/
theorem forget_evaluate (depth : Nat) (env : Environment) (e : Expr) (s : Store) :
    forget (evaluate depth env e ⟨s, []⟩) = eval (depth + 1) env e s := by
  have parts : ∀ env e, forgetting.rel (lift (eval depth env e)) (eval depth env e) :=
    fun env e log => forget_lift _ log
  have calls : ∀ f v line, forgetting.rel (call depth f v line) (apply depth f v line) :=
    fun f v line log => forget_lift _ _
  have other : forgetting.rel (Eval.evalWith (fun env e => lift (eval depth env e)) env e)
      (Eval.evalWith (eval depth) env e) := by
    refine forgetting.evalWith parts env e ?_
    rintro name value body line rfl
    refine forgetting.letIn parts (fun v => ?_) env value body line
    cases v <;> exact fun _ => rfl
  suffices forgetting.rel (evaluate depth env e) (Eval.evalWith (eval depth) env e) from
    this ⟨s, []⟩
  cases e with
  | app function argument line =>
    exact forgetting.bind (parts _ _) fun f => forgetting.ite
      (forgetting.bind (parts _ _) fun a => calls f a line) (forgetting.throw _)
  | listOp2 op first second line =>
    exact forgetting.bind (forgetting.correspondence.checkArity _ _ _) fun _ =>
      forgetting.bind (parts _ _) fun v =>
        forgetting.bind (forgetting.orFail _ _) fun id =>
          forgetting.bind (parts _ _) fun w =>
            forgetting.listOp2 (fun f a => calls f a line) op id w line
  | _ => exact other

/-! ## What is noted -/

/-- The calls noted are as `P` says, and the values `watched` are written as lambdas that give
lambdas. -/
structure Sound (P : Call → Prop) (watched : List Value) (log : CallLog) : Prop where
  calls : ∀ c ∈ log.calls, P c
  curried : ∀ f ∈ watched, log.store.Curried f

section Noting

variable {P : Call → Prop} {watched : List Value} {log : CallLog}

theorem Sound.step (sound : Sound P watched log) {α : Type} {g : Store → α × Store}
    (step : Eval.Step g) : Sound P watched { log with store := (g log.store).2 } :=
  ⟨sound.calls, fun f mem => (sound.curried f mem).step step⟩

/-- The computations that keep logs sound. -/
def noting (P : Call → Prop) (watched : List Value) : Eval.Confinement Caller where
  node _ := True
  holds a Q := ∀ log, Sound P watched log →
    Sound P watched (endLog (a log)) ∧ ∀ x log', a log = .ok x log' → Q x
  pure {_ _ _} result log sound := by
    refine ⟨sound, fun x log' same => ?_⟩
    cases same
    exact result
  bind {_ _ a f _ R} first next log sound := by
    change Sound P watched (endLog (EStateM.bind a f log)) ∧
      ∀ y log', EStateM.bind a f log = .ok y log' → R y
    have kept := first log sound
    unfold EStateM.bind
    cases ran : a log with
    | ok x log' =>
      rw [ran] at kept
      exact next x (kept.2 x log' rfl) log' kept.1
    | error h log' =>
      rw [ran] at kept
      exact ⟨kept.1, nofun⟩
  tooDeep _ sound := ⟨sound, nofun⟩
  fail _ _ _ _ sound := ⟨sound, nofun⟩
  wrongArity _ _ _ _ sound := ⟨sound, nofun⟩
  emptyLiteral _ _ sound := ⟨sound, nofun⟩
  get _ sound := ⟨sound, fun _ _ _ => trivial⟩
  closure _ _ sound := ⟨sound, fun _ _ _ _ _ => trivial⟩
  newList _ _ _ sound := ⟨sound.step (.addList _), fun _ _ _ => trivial⟩
  newClosure _ _ _ _ _ sound := ⟨sound.step (.addClosure _), fun _ _ _ => trivial⟩
  bindSelf recursive name v log sound := by
    refine ⟨?_, fun _ _ _ => trivial⟩
    unfold Eval.bindSelf
    split
    · exact ⟨sound.calls, fun f mem => (sound.curried f mem).bindName _ _ _⟩
    · exact sound
  deepCopy _ _ id _ sound :=
    ⟨sound.step (g := fun s => s.deepCopy id) (.deepCopy id), fun _ _ _ => trivial⟩
  setItems _ _ id items _ sound := ⟨sound.step (.setItems id items), fun _ _ _ => trivial⟩

theorem noting_eval (depth : Nat) (env : Environment) (e : Expr) :
    (noting P watched).safe (lift (eval depth env e)) := by
  intro log sound
  rw [endLog_lift]
  exact ⟨⟨sound.calls, fun f mem => curried_eval (sound.curried f mem) depth env e⟩,
    fun _ _ _ => trivial⟩

/-- A call is noted, and where what is called is watched it gives a function. -/
theorem noting_call {depth : Nat} {f v : Value} {line : Nat} {Q : Value → Prop}
    (noted : ∀ s : Store, (∀ g ∈ watched, s.Curried g) → P ⟨depth, f, v, line, s⟩)
    (result : ∀ w, (f ∈ watched → w.kind = .function) → Q w) :
    (noting P watched).holds (call depth f v line) Q := by
  intro log sound
  constructor
  · rw [call, endLog_lift]
    refine ⟨fun c mem => ?_, fun g mem => curried_apply (sound.curried g mem) depth f v line⟩
    obtain mem | mem := List.mem_append.mp mem
    · exact sound.calls c mem
    · rw [List.mem_singleton.mp mem]
      exact noted log.store sound.curried
  · intro w log' ran
    refine result w fun mem => ?_
    have curried := sound.curried f mem
    have ran : apply depth f v line log.store = .ok w log'.store := by
      have same := forget_lift (apply depth f v line)
        { log with calls := log.calls ++ [⟨depth, f, v, line, log.store⟩] }
      rw [← same]
      exact congrArg forget ran
    cases depth with
    | zero =>
      -- No depth is left for the body, so the call gives nothing.
      cases f with
      | closure id => cases ran
      | _ => cases curried
    | succ depth =>
      obtain ⟨id, t, same⟩ := apply_curried curried depth v line
      rw [same] at ran
      cases ran
      rfl

end Noting

/-- A call that a folding with the function `f` makes. -/
structure FoldCall (depth : Nat) (f : Value) (c : Call) : Prop where
  depth_eq : c.depth = depth
  kind : c.function.kind = .function
  curried : c.function = f → c.store.Curried f

/-- The calls of a folding are of functions, and its own function is still written as a lambda
that gives a lambda when it is called. -/
theorem mem_calls_fold (depth : Nat) (id : ListId) (f : Value) (line : Nat) (log : CallLog) :
    ∀ c ∈ (endLog (Eval.fold (call depth · · line) id f line log)).calls,
      c ∈ log.calls ∨ FoldCall depth f c := by
  by_cases curried : log.store.Curried f
  · -- The folding looks at its function once, so the function is watched along all its calls.
    let C := noting (fun c => c ∈ log.calls ∨ FoldCall depth f c) [f]
    have fails : ∀ cause, C.safe (Eval.fail line cause : Caller Value) :=
      fun _ _ sound => ⟨sound, nofun⟩
    have noted : ∀ g v, g.kind = .function → ∀ s : Store, (∀ h ∈ [f], s.Curried h) →
        Call.mk depth g v line s ∈ log.calls ∨ FoldCall depth f ⟨depth, g, v, line, s⟩ := by
      intro g v function s watched
      exact .inr ⟨rfl, function, fun _ => watched f List.mem_cons_self⟩
    have first : ∀ acc, C.holds (call depth f acc line) (·.kind = .function) :=
      fun acc => noting_call (noted f acc curried.kind) fun w kind => kind List.mem_cons_self
    have second : ∀ step v, step.kind = .function → C.safe (call depth step v line) :=
      fun step v kind => noting_call (noted step v kind) fun w _ => trivial
    have sound : Sound (fun c => c ∈ log.calls ∨ FoldCall depth f c) [f] log :=
      ⟨fun c mem => .inl mem, fun g mem => List.mem_singleton.mp mem ▸ curried⟩
    have kept : C.safe (Eval.fold (call depth · · line) id f line) :=
      Eval.Confinement.fold first second id line (fails _) fun _ => fails _
    exact (kept log sound).1.calls
  · have none : endLog (Eval.fold (call depth · · line) id f line log) = log := by
      cases f with
      | closure id' =>
        change endLog ((if (log.store.closure id').body.tag == .lam then _ else _ : Caller Value)
          log) = log
        rw [if_neg (by simpa [Store.Curried] using curried)]
        rfl
      | _ => rfl
    rw [none]
    exact fun c mem => .inl mem

end Caller

/-! ## The calls of an evaluation -/

/-- Evaluation calls nothing but functions. -/
theorem kind_of_mem_calls {m : Moment} {c : Call} (mem : c ∈ m.calls) :
    c.function.kind = .function := by
  cases m with
  | change s => cases mem
  | call depth env e s =>
    cases depth with
    | zero => cases mem
    | succ depth =>
      let C := Caller.noting (fun c => c.function.kind = .function) []
      have applies : ∀ f v line, f.kind = .function → C.safe (Caller.call depth f v line) :=
        fun f v line kind => Caller.noting_call (fun s _ => kind) fun _ _ => trivial
      have fold : ∀ line id f, C.safe (Eval.fold (Caller.call depth · · line) id f line) := by
        intro line id f log sound
        refine ⟨⟨fun c mem => ?_, nofun⟩, fun _ _ _ => trivial⟩
        obtain old | new := Caller.mem_calls_fold depth id f line log c mem
        · exact sound.calls c old
        · exact new.kind
      have whole : C.safe (Caller.evaluate depth env e) :=
        Eval.Confinement.evalBy (fun env e _ => Caller.noting_eval depth env e) applies env
          (fun _ _ => trivial) fun _ _ line _ => fold line
      exact (whole ⟨s, []⟩ ⟨nofun, nofun⟩).1.calls c mem

/-- The operands of a folding: the list, the function, and the store that they leave. -/
structure Folding where
  line : Nat
  list : ListId
  function : Value
  store : Store

/-- The operands of the folding that starts at the moment, if both have values and the first one
is a list. -/
def Moment.folding? : Moment → Option Folding
  | .call (depth + 1) env (.listOp2 .fold list function line) s =>
    match eval depth env list s with
    | .ok (.list id) t =>
      match eval depth env function t with
      | .ok f u => some ⟨line, id, f, u⟩
      | .error _ _ => none
    | _ => none
  | _ => none

theorem Moment.folding?_call {depth : Nat} {env : Environment} {list function : Expr} {line : Nat}
    {s t u : Store} {id : ListId} {f : Value} (first : eval depth env list s = .ok (.list id) t)
    (second : eval depth env function t = .ok f u) :
    (Moment.call (depth + 1) env (.listOp2 .fold list function line) s).folding? =
      some ⟨line, id, f, u⟩ := by
  simp only [folding?, first, second]

theorem Moment.exists_of_folding? {m : Moment} {g : Folding} (folds : m.folding? = some g) :
    ∃ depth env list function s t,
      m = .call (depth + 1) env (.listOp2 .fold list function g.line) s ∧
      eval depth env list s = .ok (.list g.list) t ∧
      eval depth env function t = .ok g.function g.store := by
  unfold folding? at folds
  split at folds
  · next depth env list function line s =>
    split at folds
    · next id t first =>
      split at folds
      · next f u second =>
        cases folds
        exact ⟨depth, env, list, function, s, t, rfl, first, second⟩
      · cases folds
    · cases folds
  · cases folds

/-- A folding that calls its own function gets a closure. -/
theorem outcome_of_mem_calls {m : Moment} {g : Folding} (folds : m.folding? = some g) {c : Call}
    (mem : c ∈ m.calls) (own : c.function = g.function) :
    ∃ id t, c.outcome = .ok (.closure id) t := by
  obtain ⟨depth, env, list, function, s, t, rfl, first, second⟩ := m.exists_of_folding? folds
  have run : Caller.evaluate depth env (.listOp2 .fold list function g.line) ⟨s, []⟩ =
      Eval.fold (Caller.call depth · · g.line) g.list g.function g.line ⟨g.store, []⟩ := by
    change EStateM.bind (Caller.lift (eval depth env list)) _ _ = _
    rw [EStateM.bind, Caller.lift_ok first]
    change EStateM.bind (Caller.lift (eval depth env function)) _ _ = _
    rw [EStateM.bind, Caller.lift_ok second]
    rfl
  rw [Moment.calls, run] at mem
  obtain old | new := Caller.mem_calls_fold depth g.list g.function g.line ⟨g.store, []⟩ c mem
  · cases old
  · -- The operands have values, so there is depth left for the body of the function.
    cases depth with
    | zero => cases first
    | succ depth =>
      rw [Call.outcome, new.depth_eq, own]
      exact apply_curried (new.curried own) depth _ _

end ListLang
