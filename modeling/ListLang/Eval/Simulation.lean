import ListLang.Eval.Expr
import ListLang.Expr.Relabelling
import ListLang.Value.Renumbering

/-!
# Relations between evaluations

The evaluator is written over any monad that holds a store and can halt. A relation between
the computations of two such monads that pure results, sequencing, halting and the steps on
the store respect is respected by the whole evaluator, form by form. On the way from one monad
to the other the expression may be relabelled and the closures may be renumbered. The step by
which a recursive `let` changes a closure stands apart, because a relation may have to account
for it together with the `let` it belongs to.

## Main definitions

* `Eval.Correspondence` — a relation that the evaluator respects, for an expression and its
  relabelling, with closures renumbered.
* `Eval.Step` — the steps that add to the store or replace the items of a list.
* `Eval.Simulation` — a relation that the evaluator respects, for one expression.

## Main statements

* `Eval.Correspondence.evalWith`, `Eval.Simulation.evalWith` — related evaluators for the parts
  of an expression make related evaluators for the expression.
-/

namespace ListLang.Eval

open Renumberable

/-- A relation between the computations of two monads that the evaluator respects: an evaluation
of an expression in the one is related to the evaluation of its relabelling in the other, where
the closures are numbered by `p`. -/
structure Correspondence (r : Relabelling) (p : ClosureId → ClosureId) (m n : Type → Type)
    [Monad m] [MonadStateOf Store m] [MonadExceptOf Halt m]
    [Monad n] [MonadStateOf Store n] [MonadExceptOf Halt n] where
  rel : {α : Type} → [Renumberable α] → m α → n α → Prop
  pure : ∀ {α : Type} [Renumberable α] (a : α), rel (Pure.pure a) (Pure.pure (renumber p a))
  bind : ∀ {α β : Type} [Renumberable α] [Renumberable β] {a : m α} {b : n α} {f : α → m β}
    {g : α → n β}, rel a b → (∀ x, rel (f x) (g (renumber p x))) → rel (a >>= f) (b >>= g)
  fail : ∀ {α : Type} [Renumberable α] (line : Nat) (cause : EvalError.Cause),
    rel (fail line cause : m α) (fail (r.line line) cause)
  list : ∀ id, rel (list id : m ListCell) (list id)
  closure : ∀ {α : Type} [Renumberable α] (id : ClosureId) {f : Closure → m α}
    {g : Closure → n α}, (∀ c, rel (f c) (g ⟨renumber p c.env, c.param, r.expr c.body⟩)) →
    rel (closure id >>= f) (closure (p id) >>= g)
  newList : ∀ kind items, rel (newList kind items : m Value) (newList kind (renumber p items))
  newClosure : ∀ env param body,
    rel (newClosure env param body : m Value) (newClosure (renumber p env) param (r.expr body))
  setItems : ∀ id items, rel (setItems id items : m Unit) (setItems id (renumber p items))
  detach : ∀ target element,
    rel (detach target element : m Value) (detach target (renumber p element))

namespace Correspondence

variable {r : Relabelling} {p : ClosureId → ClosureId} {m n : Type → Type}
  [Monad m] [MonadStateOf Store m] [MonadExceptOf Halt m]
  [Monad n] [MonadStateOf Store n] [MonadExceptOf Halt n]
  (R : Correspondence r p m n)

theorem ite {α : Type} [Renumberable α] {q : Prop} [Decidable q] {a c : m α} {b d : n α}
    (pos : R.rel a b) (neg : R.rel c d) :
    R.rel (if q then a else c) (if q then b else d) := by
  split <;> assumption

theorem give {α : Type} [Renumberable α] {a b : α} (same : b = renumber p a) :
    R.rel (Pure.pure a) (Pure.pure b) := by
  subst same
  exact R.pure a

theorem orFail {α : Type} [Renumberable α] (line : Nat) {x y : Except EvalError.Cause α}
    (same : y = renumber p x) : R.rel (orFail line x : m α) (orFail (r.line line) y) := by
  subst same
  cases x with
  | ok a => exact R.pure a
  | error cause => exact R.fail line cause

/-! ## List operations -/

theorem makeList {kind kind' : Kind} {items items' : List Value} (kinds : kind' = kind)
    (same : items' = renumber p items) :
    R.rel (Eval.newList kind items : m Value) (Eval.newList kind' items') := by
  subst kinds same
  exact R.newList kind' items

/-- Giving back a list whose items were replaced. -/
theorem replaceItems (id : ListId) {items items' : List Value} (same : items' = renumber p items) :
    R.rel (do Eval.setItems id items; Pure.pure (.list id) : m Value)
      (do Eval.setItems id items'; Pure.pure (.list id)) := by
  subst same
  exact R.bind (R.setItems id items) fun _ => R.pure (Value.list id)

theorem checkElement (op : ListOperation) (cell : ListCell) (element : Value) (line : Nat) :
    R.rel (checkElement op cell element line : m Unit)
      (checkElement op (renumber p cell) (renumber p element) (r.line line)) := by
  unfold Eval.checkElement
  rw [Value.kind_renumber]
  exact R.ite (R.pure ()) (R.fail _ _)

theorem position (op : ListOperation) (cell : ListCell) (i : Int64) {bound bound' : Nat}
    (same : bound' = bound) (line : Nat) :
    R.rel (position op cell i bound line : m Nat)
      (position op (renumber p cell) i bound' (r.line line)) := by
  subst same
  unfold Eval.position
  rw [cell.length_items_renumber]
  split
  · exact R.pure _
  · exact R.fail _ _

theorem mapM_loop {α β : Type} [Renumberable α] [Renumberable β] {f : α → m β} {g : α → n β}
    (h : ∀ x, R.rel (f x) (g (renumber p x))) (xs : List α) (ys : List β) :
    R.rel (List.mapM.loop f xs ys) (List.mapM.loop g (renumber p xs) (renumber p ys)) := by
  induction xs generalizing ys with
  | nil => exact R.give (reverse_renumber p ys)
  | cons x xs ih => exact R.bind (h x) fun y => ih (y :: ys)

theorem join (id : ListId) (other : Value) (line : Nat) :
    R.rel (join id other line : m Value) (join id (renumber p other) (r.line line)) :=
  R.bind (R.orFail line (other.asList_renumber p _)) fun _ => R.bind (R.list _) fun _ =>
    R.bind (R.list _) fun _ => R.ite (R.bind (R.mapM_loop (R.detach id) _ _) fun _ =>
      R.replaceItems id (append_renumber p _ _)) (R.fail _ _)

theorem append (id : ListId) (element : Value) (line : Nat) :
    R.rel (append id element line : m Value) (append id (renumber p element) (r.line line)) :=
  R.bind (R.list _) fun cell => R.bind (R.checkElement _ _ _ _) fun _ =>
    R.bind (R.detach _ _) fun v => R.replaceItems id (append_renumber p cell.items [v])

theorem insertAt (id : ListId) (element : Value) (i : Int64) (line : Nat) :
    R.rel (insertAt id element i line : m Value)
      (insertAt id (renumber p element) i (r.line line)) :=
  R.bind (R.list _) fun cell => R.bind (R.checkElement _ _ _ _) fun _ =>
    R.bind (R.position _ _ _ (by rw [cell.length_items_renumber]) _) fun _ =>
      R.bind (R.detach _ _) fun v => R.replaceItems id (insertIdx_renumber p _ _ v)

theorem removeAt (id : ListId) (index : Value) (line : Nat) :
    R.rel (removeAt id index line : m Value) (removeAt id (renumber p index) (r.line line)) :=
  R.bind (R.orFail line (index.asInt_renumber p _)) fun _ => R.bind (R.list _) fun cell =>
    R.bind (R.position _ _ _ (cell.length_items_renumber p) _) fun _ =>
      R.replaceItems id (eraseIdx_renumber p _ _)

theorem getValue (id : ListId) (index : Value) (line : Nat) :
    R.rel (getValue id index line : m Value) (getValue id (renumber p index) (r.line line)) :=
  R.bind (R.orFail line (index.asInt_renumber p _)) fun _ => R.bind (R.list _) fun cell =>
    R.bind (R.position _ _ _ (cell.length_items_renumber p) _) fun i =>
      R.give (Value.getD_renumber p cell.items i)

theorem mapItems {f : Value → m Value} {g : Value → n Value}
    (h : ∀ v, R.rel (f v) (g (renumber p v))) (line : Nat) (kind : Option Kind)
    (items : List Value) :
    R.rel (mapItems f line kind items) (mapItems g (r.line line) kind (renumber p items)) := by
  induction items generalizing kind with
  | nil => exact R.pure []
  | cons v vs ih =>
    refine R.bind (h v) fun w => ?_
    dsimp only
    rw [Value.kind_renumber]
    exact R.ite (R.bind (ih _) fun ws => R.pure (w :: ws)) (R.fail _ _)

theorem filterItems {f : Value → m Value} {g : Value → n Value}
    (h : ∀ v, R.rel (f v) (g (renumber p v))) (line : Nat) (items : List Value) :
    R.rel (filterItems f line items) (filterItems g (r.line line) (renumber p items)) := by
  induction items with
  | nil => exact R.pure []
  | cons v vs ih =>
    refine R.bind (h v) fun w => R.bind (R.orFail line (w.asBool_renumber p _)) fun keep =>
      R.bind ih fun kept => ?_
    cases keep with
    | true => exact R.pure (v :: kept)
    | false => exact R.pure kept

theorem foldItems {f : Value → Value → m Value} {g : Value → Value → n Value}
    (h : ∀ v w, R.rel (f v w) (g (renumber p v) (renumber p w))) (function acc : Value)
    (items : List Value) :
    R.rel (foldItems f function acc items)
      (foldItems g (renumber p function) (renumber p acc) (renumber p items)) := by
  induction items generalizing acc with
  | nil => exact R.pure _
  | cons v vs ih => exact R.bind (h _ _) fun step => R.bind (h step v) fun _ => ih _

/-- The form of a body is no label of it. -/
theorem isCurried (function : Value) :
    R.rel (isCurried function : m Bool) (isCurried (renumber p function)) := by
  cases function with
  | closure id =>
    refine R.closure id fun c => ?_
    rw [r.tag_expr]
    exact R.pure (c.body.tag == .lam)
  | _ => exact R.pure false

theorem fold {f : Value → Value → m Value} {g : Value → Value → n Value}
    (h : ∀ v w, R.rel (f v w) (g (renumber p v) (renumber p w))) (id : ListId)
    (function : Value) (line : Nat) :
    R.rel (fold f id function line) (fold g id (renumber p function) (r.line line)) := by
  refine R.bind (R.orFail line (function.asFunction_renumber p _)) fun _ =>
    R.bind (R.isCurried _) fun _ => R.ite (R.bind (R.list _) fun cell => ?_) (R.fail _ _)
  obtain ⟨kind, items⟩ := cell
  obtain _ | ⟨seed, _ | ⟨item, rest⟩⟩ := items
  · exact R.fail _ _
  · exact R.fail _ _
  · exact R.foldItems h function seed (item :: rest)

theorem listOp1 (op : ListOperation) (id : ListId) (line : Nat) :
    R.rel (listOp1 op id line : m Value) (listOp1 op id (r.line line)) := by
  refine R.bind (R.list _) fun cell => ?_
  cases op with
  | getSize =>
    dsimp only
    rw [cell.length_items_renumber]
    exact R.pure (Value.int _)
  | isEmpty =>
    dsimp only
    rw [cell.isEmpty_items_renumber]
    exact R.pure (Value.bool _)
  | _ => exact R.fail _ _

theorem listOp2 {f : Value → Value → m Value} {g : Value → Value → n Value}
    (h : ∀ v w, R.rel (f v w) (g (renumber p v) (renumber p w))) (op : ListOperation)
    (id : ListId) (second : Value) (line : Nat) :
    R.rel (listOp2 f op id second line)
      (listOp2 g op id (renumber p second) (r.line line)) := by
  cases op with
  | join => exact R.join _ _ _
  | append => exact R.append _ _ _
  | removeAtPosition => exact R.removeAt _ _ _
  | getValue => exact R.getValue _ _ _
  | map =>
    refine R.bind (R.orFail line (second.asFunction_renumber p _)) fun _ =>
      R.bind (R.list _) fun c => R.bind (R.mapItems (h second) line none c.items) fun vs =>
        R.makeList ?_ rfl
    cases vs with
    | nil => rfl
    | cons v _ => exact v.kind_renumber p
  | filter =>
    exact R.bind (R.orFail line (second.asFunction_renumber p _)) fun _ =>
      R.bind (R.list _) fun c => R.bind (R.filterItems (h second) line c.items) fun _ =>
        R.replaceItems id rfl
  | fold => exact R.fold h id second line
  | getSize | isEmpty | insertAt => exact R.fail _ _

theorem listOp3 (op : ListOperation) (id : ListId) (second : Value) (third : Int64)
    (line : Nat) : R.rel (listOp3 op id second third line : m Value)
      (listOp3 op id (renumber p second) third (r.line line)) := by
  cases op with
  | insertAt => exact R.insertAt _ _ _ _
  | _ => exact R.fail _ _

/-! ## Expressions -/

theorem checkArity (op : ListOperation) (given line : Nat) :
    R.rel (checkArity op given line : m Unit) (checkArity op given (r.line line)) :=
  R.ite (R.pure ()) (R.fail _ _)

theorem elementsWith {f : Expr → m Value} {g : Expr → n Value}
    (h : ∀ e, R.rel (f e) (g (r.expr e))) (es : List Expr) :
    R.rel (elementsWith f es) (elementsWith g (r.exprs es)) := by
  induction es with
  | nil => exact R.pure []
  | cons e es ih =>
    simp only [Eval.elementsWith, Relabelling.exprs, r.tag_expr]
    by_cases data : e.tag.dataKind?.isSome
    · rw [if_pos data, if_pos data]
      exact R.bind (h e) fun v => R.bind ih fun vs => R.pure (v :: vs)
    · rw [if_neg data, if_neg data, r.line_expr (by simpa using data)]
      exact R.fail _ _

section Parts

variable {f : Environment → Expr → m Value} {g : Environment → Expr → n Value}
  (h : ∀ env e, R.rel (f env e) (g (renumber p env) (r.expr e)))

include h

theorem applyWith (function argument : Value) (line : Nat) :
    R.rel (applyWith f function argument line)
      (applyWith g (renumber p function) (renumber p argument) (r.line line)) := by
  cases function with
  | closure id => exact R.closure id fun c => h _ c.body
  | builtin b => exact R.orFail line (b.apply_renumber p argument)
  | _ => exact R.fail _ _

theorem letIn {recursive : Bool} {name : String} (bind : ∀ v, R.rel
    (bindSelf recursive name v : m Unit) (bindSelf recursive name (renumber p v)))
    (env : Environment) (value body : Expr) (line : Nat) :
    R.rel (evalWith f env (.letIn recursive name value body line))
      (evalWith g (renumber p env) (r.expr (.letIn recursive name value body line))) :=
  R.bind (h _ _) fun v => R.bind (bind v) fun _ => h _ _

/-- Evaluators that are related on the parts of an expression and on the bodies of closures
are related on the expression, provided they are where it is a recursive `let`. -/
theorem evalWith (env : Environment) (e : Expr)
    (letRec : ∀ name value body line, e = .letIn true name value body line →
      R.rel (evalWith f env e) (evalWith g (renumber p env) (r.expr e))) :
    R.rel (evalWith f env e) (evalWith g (renumber p env) (r.expr e)) := by
  cases e with
  | literal value => exact R.give (value.value_renumber p).symm
  | var name line =>
    simp only [Eval.evalWith, Relabelling.expr, Environment.lookup_renumber]
    cases env.lookup name with
    | some v => exact R.pure v
    | none => exact R.fail _ _
  | lam => exact R.newClosure _ _ _
  | app function argument line =>
    refine R.bind (h _ _) fun v => ?_
    rw [Value.kind_renumber]
    exact R.ite (R.bind (h _ _) fun a => R.applyWith h v a line) (R.fail _ _)
  | cond =>
    exact R.bind (h _ _) fun v => R.bind (R.orFail _ (v.asBool_renumber p _)) fun _ =>
      R.ite (h _ _) (h _ _)
  | binary op =>
    exact R.bind (h _ _) fun v => R.bind (h _ _) fun w => R.orFail _ (op.apply_renumber p v w)
  | letIn recursive name value body line =>
    cases recursive with
    | true => exact letRec name value body line rfl
    | false =>
      refine R.letIn h (fun v => ?_) env value body line
      exact R.pure ()
  | list _ elements =>
    refine R.bind (R.elementsWith (h env) elements) fun vs => ?_
    cases vs with
    | nil => exact R.fail _ _
    | cons v vs => exact R.makeList (v.kind_renumber p) rfl
  | listOp1 =>
    exact R.bind (R.checkArity _ _ _) fun _ => R.bind (h _ _) fun v =>
      R.bind (R.orFail _ (v.asList_renumber p _)) fun _ => R.listOp1 _ _ _
  | listOp2 op first second line =>
    exact R.bind (R.checkArity _ _ _) fun _ => R.bind (h _ _) fun v =>
      R.bind (R.orFail _ (v.asList_renumber p _)) fun id => R.bind (h _ _) fun w =>
        R.listOp2 (fun f a => R.applyWith h f a line) op id w line
  | listOp3 =>
    exact R.bind (R.checkArity _ _ _) fun _ => R.bind (h _ _) fun v =>
      R.bind (R.orFail _ (v.asList_renumber p _)) fun _ => R.bind (h _ _) fun w =>
        R.bind (h _ _) fun i => R.bind (R.orFail _ (i.asInt_renumber p _)) fun _ =>
          R.listOp3 _ _ _ _ _

end Parts

end Correspondence

/-! ## One expression -/

/-- The steps that add to the store or replace the items of a list. -/
inductive Step : {α : Type} → (Store → α × Store) → Prop where
  | addList (cell : ListCell) : Step fun s => s.addList cell
  | addClosure (c : Closure) : Step fun s => s.addClosure c
  | deepCopy (id : ListId) : Step fun s => s.deepCopy id
  | setItems (id : ListId) (items : List Value) : Step fun s => (PUnit.unit, s.setItems id items)

/-- A relation between the computations of two monads that the evaluator respects. -/
structure Simulation (m n : Type → Type)
    [Monad m] [MonadStateOf Store m] [MonadExceptOf Halt m]
    [Monad n] [MonadStateOf Store n] [MonadExceptOf Halt n] where
  rel : {α : Type} → m α → n α → Prop
  pure : ∀ {α : Type} (a : α), rel (Pure.pure a) (Pure.pure a)
  bind : ∀ {α β : Type} {a : m α} {b : n α} {f : α → m β} {g : α → n β},
    rel a b → (∀ x, rel (f x) (g x)) → rel (a >>= f) (b >>= g)
  throw : ∀ {α : Type} (h : Halt), rel (throw h : m α) (throw h)
  get : rel (get : m Store) get
  step : ∀ {α : Type} {f : Store → α × Store}, Step f →
    rel (modifyGet f : m α) (modifyGet f)

namespace Simulation

variable {m n : Type → Type}
  [Monad m] [MonadStateOf Store m] [MonadExceptOf Halt m]
  [Monad n] [MonadStateOf Store n] [MonadExceptOf Halt n]
  (R : Simulation m n)

theorem ite {α : Type} {p : Prop} [Decidable p] {a c : m α} {b d : n α} (pos : R.rel a b)
    (neg : R.rel c d) : R.rel (if p then a else c) (if p then b else d) := by
  split <;> assumption

theorem detach (target : ListId) (element : Value) :
    R.rel (detach target element : m Value) (detach target element) := by
  cases element with
  | list id =>
    exact R.bind R.get fun s => R.ite
      (R.ite (R.bind (R.step (.deepCopy id)) fun _ => R.pure _) (R.pure _)) (R.throw _)
  | _ => exact R.pure _

/-- The relation for an expression whose labels, and closures whose places, stay as they are. -/
def correspondence : Correspondence .identity id m n where
  rel := R.rel
  pure a := by
    rw [renumber_id]
    exact R.pure a
  bind first next := by
    simp only [renumber_id] at next
    exact R.bind first next
  fail line cause := R.throw _
  list id := R.bind R.get fun _ => R.pure _
  closure id _ _ h := by
    simp only [Relabelling.identity_expr, renumber_id] at h
    exact R.bind (R.bind R.get fun _ => R.pure _) h
  newList _ _ := by
    rw [renumber_id]
    exact R.bind (R.step (.addList _)) fun _ => R.pure _
  newClosure _ _ body := by
    rw [Relabelling.identity_expr, renumber_id]
    exact R.bind (R.step (.addClosure _)) fun _ => R.pure _
  setItems id items := by
    rw [renumber_id]
    exact R.step (.setItems id items)
  detach target element := by
    rw [renumber_id]
    exact R.detach target element

theorem orFail {α : Type} (line : Nat) (x : Except EvalError.Cause α) :
    R.rel (orFail line x : m α) (orFail line x) := by
  cases x with
  | ok a => exact R.pure a
  | error cause => exact R.throw _

theorem listOp2 {f : Value → Value → m Value} {g : Value → Value → n Value}
    (h : ∀ v w, R.rel (f v w) (g v w)) (op : ListOperation) (list : ListId) (second : Value)
    (line : Nat) : R.rel (listOp2 f op list second line) (listOp2 g op list second line) := by
  have calls : ∀ v w, R.correspondence.rel (f v w) (g (renumber id v) (renumber id w)) := by
    intro v w
    rw [renumber_id, renumber_id]
    exact h v w
  have whole := R.correspondence.listOp2 calls op list second line
  rwa [renumber_id] at whole

section Parts

variable {f : Environment → Expr → m Value} {g : Environment → Expr → n Value}
  (h : ∀ env e, R.rel (f env e) (g env e))

include h

theorem letIn {recursive : Bool} {name : String} (bind : ∀ v, R.rel
    (bindSelf recursive name v : m Unit) (bindSelf recursive name v)) (env : Environment)
    (value body : Expr) (line : Nat) :
    R.rel (evalWith f env (.letIn recursive name value body line))
      (evalWith g env (.letIn recursive name value body line)) :=
  R.bind (h _ _) fun v => R.bind (bind v) fun _ => h _ _

/-- Evaluators that are related on the parts of an expression and on the bodies of closures
are related on the expression, provided they are where it is a recursive `let`. -/
theorem evalWith (env : Environment) (e : Expr)
    (letRec : ∀ name value body line, e = .letIn true name value body line →
      R.rel (evalWith f env e) (evalWith g env e)) :
    R.rel (evalWith f env e) (evalWith g env e) := by
  have parts : ∀ env e,
      R.correspondence.rel (f env e) (g (renumber id env) (Relabelling.identity.expr e)) := by
    intro env e
    rw [Relabelling.identity_expr, renumber_id]
    exact h env e
  have whole := R.correspondence.evalWith parts env e
  rw [Relabelling.identity_expr, renumber_id] at whole
  exact whole letRec

end Parts

end Simulation

end ListLang.Eval
