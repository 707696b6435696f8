import ListLang.Value.Builtin
import ListLang.Value.Operator
import ListLang.Value.Store

/-!
# Renumbering closures

A renumbering gives closures other places. What mentions closures follows it; what does not
stays as it is. Values keep their kinds, and so everything that is computed from values without
looking into a store is computed alike before and after.

## Main definitions

* `Renumberable` — what may mention closures, and renumbering it.

## Main statements

* `Value.asList_renumber` and its like, `Operator.apply_renumber`, `Builtin.apply_renumber` —
  computations on values commute with renumbering.
-/

namespace ListLang

/-- What may mention closures. A renumbering replaces the places that are mentioned. -/
class Renumberable (α : Type) where
  renumber : (ClosureId → ClosureId) → α → α
  renumber_id : ∀ a, renumber id a = a

namespace Renumberable

/-- What mentions no closures. -/
@[reducible] def plain (α : Type) : Renumberable α := ⟨fun _ a => a, fun _ => rfl⟩

instance : Renumberable Unit := plain Unit
instance : Renumberable Bool := plain Bool
instance : Renumberable Nat := plain Nat
instance : Renumberable Int64 := plain Int64
instance : Renumberable ListId := plain ListId

instance : Renumberable Value where
  renumber p
    | .closure id => .closure (p id)
    | v => v
  renumber_id v := by cases v <;> rfl

instance {α : Type} [Renumberable α] : Renumberable (List α) where
  renumber p := List.map (renumber p)
  renumber_id as := by
    rw [show renumber (α := α) id = id from funext renumber_id, List.map_id]

instance {ε α : Type} [Renumberable α] : Renumberable (Except ε α) where
  renumber p := Except.map (renumber p)
  renumber_id
    | .ok a => congrArg _ (renumber_id a)
    | .error _ => rfl

instance : Renumberable ListCell where
  renumber p cell := ⟨cell.contentKind, renumber p cell.items⟩
  renumber_id cell := congrArg _ (renumber_id cell.items)

instance : Renumberable Environment where
  renumber p env := ⟨env.bindings.map fun b => (b.1, renumber p b.2)⟩
  renumber_id env := congrArg _ (by simp [renumber_id])

instance : Renumberable Closure where
  renumber p c := ⟨renumber p c.env, c.param, c.body⟩
  renumber_id c := by rw [renumber_id]

end Renumberable

open Renumberable

variable (p : ClosureId → ClosureId)

/-! ## Lists and environments -/

section Lists

variable {α : Type} [Renumberable α] (as bs : List α)

theorem append_renumber : renumber p as ++ renumber p bs = renumber p (as ++ bs) :=
  List.map_append.symm

theorem reverse_renumber : (renumber p as).reverse = renumber p as.reverse :=
  List.map_reverse.symm

theorem eraseIdx_renumber (i : Nat) : (renumber p as).eraseIdx i = renumber p (as.eraseIdx i) := by
  change (as.map (renumber p)).eraseIdx i = (as.eraseIdx i).map (renumber p)
  simp only [List.eraseIdx_eq_take_drop_succ, List.map_append, List.map_take, List.map_drop]

theorem insertIdx_renumber (i : Nat) (a : α) :
    (renumber p as).insertIdx i (renumber p a) = renumber p (as.insertIdx i a) := by
  induction as generalizing i with
  | nil => cases i <;> rfl
  | cons b as ih =>
    cases i with
    | zero => rfl
    | succ i => exact congrArg (renumber p b :: ·) (ih i)

variable {p as} in
theorem renumber_eq_self (same : ∀ a ∈ as, renumber p a = a) : renumber p as = as :=
  (List.map_congr_left same).trans (List.map_id' as)

end Lists

theorem ListCell.length_items_renumber (cell : ListCell) :
    (renumber p cell).items.length = cell.items.length := List.length_map _

theorem ListCell.isEmpty_items_renumber (cell : ListCell) :
    (renumber p cell).items.isEmpty = cell.items.isEmpty := List.isEmpty_map

theorem Value.getD_renumber (vs : List Value) (i : Nat) :
    (renumber p vs).getD i default = renumber p (vs.getD i default) := by
  change (vs.map (renumber p)).getD i default = _
  simp only [List.getD_eq_getElem?_getD, List.getElem?_map]
  cases vs[i]? <;> rfl

theorem Environment.extend_renumber (env : Environment) (name : String) (v : Value) :
    (renumber p env).extend name (renumber p v) = renumber p (env.extend name v) := rfl

variable {p} in
theorem Environment.renumber_eq_self {env : Environment}
    (same : ∀ b ∈ env.bindings, renumber p b.2 = b.2) : renumber p env = env := by
  obtain ⟨bindings⟩ := env
  exact congrArg _ ((List.map_congr_left fun b mem => by rw [same b mem]).trans
    (List.map_id' bindings))

theorem Environment.lookup_renumber (env : Environment) (name : String) :
    (renumber p env).lookup name = (env.lookup name).map (renumber p) := by
  obtain ⟨bindings⟩ := env
  change (bindings.map fun b => (b.1, renumber p b.2)).lookup name =
    (bindings.lookup name).map (renumber p)
  induction bindings with
  | nil => rfl
  | cons b bindings ih =>
    rw [List.map_cons, List.lookup_cons, List.lookup_cons, ih]
    split <;> rfl

/-! ## Values -/

namespace Value

variable (v : Value) (context : String)

@[simp] theorem kind_renumber : (renumber p v).kind = v.kind := by
  cases v <;> rfl

theorem asInt_renumber : (renumber p v).asInt context = renumber p (v.asInt context) := by
  cases v <;> rfl

theorem asBool_renumber : (renumber p v).asBool context = renumber p (v.asBool context) := by
  cases v <;> rfl

theorem asList_renumber : (renumber p v).asList context = renumber p (v.asList context) := by
  cases v <;> rfl

theorem asFunction_renumber :
    (renumber p v).asFunction context = renumber p (v.asFunction context) := by
  cases v <;> rfl

end Value

theorem Operator.arithmetic_renumber (op : Operator) (a b : Int64) :
    renumber p (op.arithmetic a b) = op.arithmetic a b := by
  unfold Operator.arithmetic
  split
  · rfl
  · cases op.result? a b <;> rfl

/-- Operators have no results on closures and give none. -/
theorem Operator.apply_renumber (op : Operator) (v w : Value) :
    op.apply (renumber p v) (renumber p w) = renumber p (op.apply v w) := by
  cases v with
  | closure => cases op <;> cases w <;> rfl
  | int a =>
    cases w with
    | int b =>
      cases op with
      | equality | concat => rfl
      | _ => exact (arithmetic_renumber p _ a b).symm
    | _ => cases op <;> rfl
  | _ => cases w <;> cases op <;> rfl

theorem Builtin.apply_renumber (b : Builtin) (v : Value) :
    b.apply (renumber p v) = renumber p (b.apply v) := by
  cases b with
  | firstChar | remainingChars => cases v <;> rfl
  | charCode =>
    cases v with
    | string s =>
      change charCode.apply (.string s) = _
      simp only [Builtin.apply, Value.asString, bind, Except.bind]
      cases s.toList <;> rfl
    | _ => rfl
  | codeChar =>
    cases v with
    | int n =>
      change codeChar.apply (.int n) = _
      simp only [Builtin.apply, Value.asInt, bind, Except.bind]
      cases Integer.toChar? n <;> rfl
    | _ => rfl

theorem Literal.value_renumber (value : Literal) : renumber p value.value = value.value := by
  cases value <;> rfl

end ListLang
