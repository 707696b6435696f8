import ListLang.Program
import ListLang.Proofs.Transport

/-!
# Labels have no meaning at run time

Evaluation commutes with relabelling: replacing the labels of the expression, and of the bodies
of all functions in the store, replaces them in what is left in the store and in the line of an
error, and changes nothing else. The value, the cause of an error and whether the evaluation
nests too deeply stay the same.

## Main definitions

* `Relabelling.store`, `Relabelling.halt`, `Relabelling.result` — stores, halts and outcomes with
  labels replaced.
* `Relabelling.transport` — a store and the relabelled one.
* `Relabelling.snapshot` — a value written out, with the labels in it replaced.

## Main statements

* `Relabelling.eval_expr` — evaluation of a relabelled expression.
* `Relabelling.snapshot_store` — values written out in a relabelled store.
-/

namespace ListLang.Relabelling

open Renumberable (renumber_id)

variable (r : Relabelling) (s : Store)

/-- The function with the labels of its body replaced. -/
def closure (c : Closure) : Closure := { c with body := r.expr c.body }

/-- The store with the labels in all functions replaced. -/
def store : Store := { s with closures := s.closures.map r.closure }

/-- The reason to halt, with the line of an error replaced. -/
def halt : Halt → Halt
  | .failed e => .failed { e with line := r.line e.line }
  | .tooDeep => .tooDeep

/-- The outcome with its labels replaced. -/
def result {α : Type} : EStateM.Result Halt Store α → EStateM.Result Halt Store α
  | .ok a s => .ok a (r.store s)
  | .error h s => .error (r.halt h) (r.store s)

/-! ## Stores -/

theorem carry_id (c : Closure) : r.carry id c = r.closure c := by
  rw [carry, renumber_id]
  rfl

@[simp] theorem list_store (id : ListId) : (r.store s).list id = s.list id := rfl

@[simp] theorem closure_store (id : ClosureId) :
    (r.store s).closure id = r.closure (s.closure id) := by
  have same : r.closure default = default := by
    change Closure.mk default default (r.expr default) = default
    rw [expr_default]
    rfl
  simp only [Store.closure, store, Array.getD_eq_getD_getElem?, Array.getElem?_map]
  cases s.closures[id.index]? with
  | some c => rfl
  | none => exact same.symm

theorem addClosure_store (c : Closure) :
    (r.store s).addClosure (r.closure c) = ((s.addClosure c).1, r.store (s.addClosure c).2) := by
  simp [Store.addClosure, store]

theorem bindName_store (id : ClosureId) (name : String) (v : Value) :
    (r.store s).bindName id name v = r.store (s.bindName id name v) := by
  let bind : Closure → Closure := fun c => { c with env := c.env.extend name v }
  have same : (s.closures.map r.closure).modify id.index bind =
      (s.closures.modify id.index bind).map r.closure := by
    apply Array.ext_getElem?
    intro i
    simp only [Array.getElem?_modify, Array.getElem?_map]
    split <;> cases s.closures[i]? <;> rfl
  simp only [Store.bindName, store]
  rw [same]

/-! ## Evaluations -/

/-- A store and the relabelled one. -/
def transport : Transport r id where
  rel s t := t = r.store s
  size := by
    rintro s _ rfl
    rfl
  list := by
    rintro s _ rfl id
    rw [list_store, renumber_id]
  place := by
    rintro s _ rfl
    simp [store]
  closure := by
    rintro s _ rfl id
    rw [carry_id]
    exact r.closure_store s id
  addList := by
    rintro s _ rfl cell
    rw [renumber_id]
    rfl
  addClosure := by
    rintro s _ rfl c
    rw [carry_id, addClosure_store]
  setItems := by
    rintro s _ rfl id items
    rw [renumber_id]
    rfl
  bindName := by
    rintro s _ rfl id name v
    rw [renumber_id]
    exact r.bindName_store s id name v

/-- Evaluation of a relabelled expression. -/
theorem eval_expr (r : Relabelling) (depth : Nat) (env : Environment) (e : Expr) (s : Store) :
    eval depth env (r.expr e) (r.store s) = r.result (eval depth env e s) := by
  have outcomes := r.transport.eval depth env e (s := s) rfl
  rw [renumber_id] at outcomes
  generalize eval depth env e s = x, eval depth env (r.expr e) (r.store s) = y at outcomes ⊢
  cases outcomes with
  | @ok v s t h =>
    obtain rfl : t = r.store s := h
    rw [renumber_id]
    rfl
  | failed h =>
    cases h
    rfl
  | tooDeep h =>
    cases h
    rfl

variable {r} {α : Type}

/-- The outcomes are the same up to labels. -/
inductive Agree (r : Relabelling) {α : Type} :
    EStateM.Result Halt Store α → EStateM.Result Halt Store α → Prop where
  | ok {a s s'} : r.store s = r.store s' → Agree r (.ok a s) (.ok a s')
  | failed {line line' cause s s'} : r.line line = r.line line' → r.store s = r.store s' →
    Agree r (.error (.failed ⟨line, cause⟩) s) (.error (.failed ⟨line', cause⟩) s')
  | tooDeep {s s'} : r.store s = r.store s' → Agree r (.error .tooDeep s) (.error .tooDeep s')

theorem Agree.of_result_eq {x y : EStateM.Result Halt Store α} (same : r.result x = r.result y) :
    r.Agree x y := by
  cases x with
  | ok a s =>
    cases y with
    | ok b t =>
      obtain ⟨rfl, stores⟩ : a = b ∧ r.store s = r.store t := by simpa [result] using same
      exact .ok stores
    | error => cases same
  | error h s =>
    cases y with
    | ok => cases same
    | error h' t =>
      obtain ⟨halts, stores⟩ : r.halt h = r.halt h' ∧ r.store s = r.store t := by
        simpa [result] using same
      obtain ⟨line, cause⟩ | _ := h <;> obtain ⟨line', cause'⟩ | _ := h'
      · obtain ⟨lines, rfl⟩ : r.line line = r.line line' ∧ cause = cause' := by
          simpa [halt] using halts
        exact .failed lines stores
      · cases halts
      · cases halts
      · exact .tooDeep stores

/-- Expressions that are the same up to labels, evaluated in stores that are. -/
theorem agree_eval {e e' : Expr} {s s' : Store} (exprs : r.expr e = r.expr e')
    (stores : r.store s = r.store s') (depth : Nat) (env : Environment) :
    r.Agree (eval depth env e s) (eval depth env e' s') := by
  apply Agree.of_result_eq
  rw [← eval_expr, ← eval_expr, exprs, stores]

/-! ## Values written out -/

mutual

/-- The value written out, with the labels in it replaced. -/
def snapshot (r : Relabelling) : Snapshot → Snapshot
  | .int n => .int n
  | .bool b => .bool b
  | .string s => .string s
  | .list contentKind items => .list contentKind (r.snapshots items)
  | .closure param names body => .closure param names (r.expr body)
  | .builtin b => .builtin b

/-- The values written out, with the labels in them replaced. -/
def snapshots (r : Relabelling) : List Snapshot → List Snapshot
  | [] => []
  | item :: rest => r.snapshot item :: r.snapshots rest

end

theorem snapshots_eq_map (r : Relabelling) (items : List Snapshot) :
    r.snapshots items = items.map r.snapshot := by
  induction items with
  | nil => rfl
  | cons item rest ih => simp [snapshots, ih]

theorem snapshotWithin_store (r : Relabelling) (s : Store) (depth : Nat) (v : Value) :
    (r.store s).snapshotWithin depth v = r.snapshot (s.snapshotWithin depth v) := by
  induction depth generalizing v with
  | zero => cases v <;> simp [Store.snapshotWithin, snapshot, snapshots, closure]
  | succ depth ih =>
    cases v <;> simp [Store.snapshotWithin, snapshot, snapshots_eq_map, closure, ih]

/-- A value written out in a relabelled store. -/
theorem snapshot_store (r : Relabelling) (s : Store) (v : Value) :
    (r.store s).snapshot v = r.snapshot (s.snapshot v) :=
  r.snapshotWithin_store s s.lists.size v

end ListLang.Relabelling
