import ListLang.Eval.Expr
import ListLang.Proofs.Copies
import Mathlib.Data.List.InsertIdx

/-!
# Lists as sequences

Joining, appending, inserting, removing and looking up do with a list what the operations of
those names do with a sequence of items, all or nothing: they fail with the store as it was, or
they change the items of that one list. An element that leads to the list is put in as a copy.

## Main definitions

* `Request` — an operation on a list with the values of its further operands.
* `Request.plain` — what a request comes to for the sequence of items.
* `Store.Changes` — a store that differs from another in the items of one list.
* `Refines` — what is done is what the plain operation says.

## Main statements

* `eval_refines_plain` — evaluating an operation on a list refines the plain operation.
-/

namespace ListLang

open Store

/-! ## Plain operations -/

/-- An operation on a list, with the values of the operands behind the list. -/
inductive Request where
  | join (other : Value)
  | append (element : Value)
  | insertAt (element index : Value)
  | removeAt (index : Value)
  | getValue (index : Value)

/-- What a request comes to: new items for the list, or one of its items. -/
inductive Answer where
  | items (items : List Value)
  | item (item : Value)

namespace Request

/-- The operation that is requested. -/
def op : Request → ListOperation
  | join _ => .join
  | append _ => .append
  | insertAt .. => .insertAt
  | removeAt _ => .removeAtPosition
  | getValue _ => .getValue

/-- The values of the operands behind the list. -/
def operands : Request → List Value
  | join v | append v | removeAt v | getValue v => [v]
  | insertAt element index => [element, index]

/-- The check that a value is of the content kind of a list. -/
def checkKind (op : ListOperation) (kind found : Kind) : Except EvalError.Cause Unit :=
  if found = kind then .ok () else .error (.elementMismatch op kind found)

/-- The position below `bound` that an integer is in a list of some size. -/
def checkIndex (op : ListOperation) (size bound : Nat) (n : Int64) : Except EvalError.Cause Nat :=
  if 0 ≤ n.toInt ∧ n.toInt < bound then .ok n.toInt.toNat
  else .error (.indexOutOfRange op n size)

/-- What the request comes to for the content kind and the items of the list at `id`, or the first
check that it does not pass. -/
def plain (s : Store) (id : ListId) : Request → Except EvalError.Cause Answer
  | join other => do
    let otherId ← other.asList ListOperation.join.keyword
    checkKind .join (s.list id).contentKind (s.list otherId).contentKind
    pure (.items ((s.list id).items ++ (s.list otherId).items))
  | append element => do
    checkKind .append (s.list id).contentKind element.kind
    pure (.items ((s.list id).items ++ [element]))
  | insertAt element index => do
    let n ← index.asInt ListOperation.insertAt.keyword
    checkKind .insertAt (s.list id).contentKind element.kind
    let i ← checkIndex .insertAt (s.list id).items.length ((s.list id).items.length + 1) n
    pure (.items ((s.list id).items.insertIdx i element))
  | removeAt index => do
    let n ← index.asInt ListOperation.removeAtPosition.keyword
    let i ← checkIndex .removeAtPosition (s.list id).items.length (s.list id).items.length n
    pure (.items ((s.list id).items.eraseIdx i))
  | getValue index => do
    let n ← index.asInt ListOperation.getValue.keyword
    let i ← checkIndex .getValue (s.list id).items.length (s.list id).items.length n
    pure (.item ((s.list id).items.getD i default))

/-- The operands that the request needs to be granted. -/
def Granted (s : Store) (id : ListId) : Request → Prop
  | join other => ∃ b, other = .list b ∧ (s.list b).contentKind = (s.list id).contentKind
  | append element => element.kind = (s.list id).contentKind
  | insertAt element index => element.kind = (s.list id).contentKind ∧
    ∃ n : Int64, index = .int n ∧ 0 ≤ n.toInt ∧ n.toInt ≤ (s.list id).items.length
  | removeAt index | getValue index =>
    ∃ n : Int64, index = .int n ∧ 0 ≤ n.toInt ∧ n.toInt < (s.list id).items.length

theorem exists_bind_ok_iff {α β : Type} {r : Except EvalError.Cause α}
    {f : α → Except EvalError.Cause β} :
    (∃ b, r >>= f = .ok b) ↔ ∃ a, r = .ok a ∧ ∃ b, f a = .ok b := by
  cases r <;> simp [bind, Except.bind]

theorem checkKind_ok_iff {op : ListOperation} {kind found : Kind} {u : Unit} :
    checkKind op kind found = .ok u ↔ found = kind := by
  unfold checkKind
  split <;> simp_all

theorem exists_checkIndex_ok_iff {op : ListOperation} {size bound : Nat} {n : Int64} :
    (∃ i, checkIndex op size bound n = .ok i) ↔ 0 ≤ n.toInt ∧ n.toInt < bound := by
  unfold checkIndex
  split <;> simp_all

theorem exists_ok_iff_of_index {α : Type} {index : Value} {context : String}
    {f : Int64 → Except EvalError.Cause α} {P : Int64 → Prop}
    (h : ∀ n, (∃ a, f n = .ok a) ↔ P n) :
    (∃ a, index.asInt context >>= f = .ok a) ↔ ∃ n, index = .int n ∧ P n := by
  rw [exists_bind_ok_iff]
  cases index <;> simp [Value.asInt, h]

/-- A request comes to something exactly when its operands are what it needs. -/
theorem plain_ok_iff (s : Store) (id : ListId) (request : Request) :
    (∃ answer, request.plain s id = .ok answer) ↔ request.Granted s id := by
  have ok : ∀ answer : Answer,
      ∃ b, (pure answer : Except EvalError.Cause Answer) = .ok b := fun answer => ⟨answer, rfl⟩
  cases request with
  | join other =>
    simp only [plain, Granted, exists_bind_ok_iff, checkKind_ok_iff, ok, and_true, exists_const]
    cases other <;> simp [Value.asList]
  | append element =>
    simp only [plain, Granted, exists_bind_ok_iff, checkKind_ok_iff, ok, and_true, exists_const]
  | insertAt element index =>
    simp only [plain, Granted]
    rw [exists_ok_iff_of_index (P := fun n => element.kind = (s.list id).contentKind ∧
      0 ≤ n.toInt ∧ n.toInt ≤ (s.list id).items.length)]
    · grind
    · intro n
      simp only [exists_bind_ok_iff, checkKind_ok_iff, ok, and_true, exists_const,
        exists_checkIndex_ok_iff]
      exact and_congr_right fun _ => by omega
  | removeAt index | getValue index =>
    exact exists_ok_iff_of_index fun n => by
      simp only [exists_bind_ok_iff, ok, and_true, exists_checkIndex_ok_iff]

end Request

/-! ## What is done -/

/-- `t` has the lists of `s` with other items in the list at `id`, perhaps more lists, and the same
closures. -/
structure Store.Changes (s t : Store) (id : ListId) (items : List Value) : Prop where
  target : t.list id = { s.list id with items }
  others : ∀ other : ListId, other.index < s.lists.size → other ≠ id → t.list other = s.list other
  size : s.lists.size ≤ t.lists.size
  closures : t.closures = s.closures

/-- What is done with the list at `id` is what a plain operation comes to: it fails for the same
cause and leaves the store as it was, or it gives the very item, or the list itself with the new
items, those that lead to the list as copies. -/
inductive Refines (s : Store) (id : ListId) (line : Nat) :
    Except EvalError.Cause Answer → EStateM.Result Halt Store Value → Prop
  | refused {cause} : Refines s id line (.error cause) (.error (.failed ⟨line, cause⟩) s)
  | found {v} : Refines s id line (.ok (.item v)) (.ok v s)
  | changed {items stored t} : List.Forall₂ (s.PutIn t id) items stored → s.Changes t id stored →
    Refines s id line (.ok (.items items)) (.ok (.list id) t)

/-! ## Storing items -/

section Storing

variable {s t : Store} {id : ListId} {items stored : List Value}

/-- Storing items that copies were made for changes one list. -/
theorem changes_setItems (has : s.Has (.list id)) (more : Extends s t) :
    s.Changes (t.setItems id stored) id stored where
  target := by rw [list_setItems t stored (has.mono more.grows), more.old id has]
  others other old ne := by rw [list_setItems_of_ne t stored ne, more.old other old]
  size := by simpa using more.size
  closures := more.closures

/-- What is put into a list is so once it is stored: no copy is the list itself. -/
theorem Store.PutIn.setItems (valid : s.Valid) (has : s.Has (.list id)) {v w : Value}
    (hasV : s.Has v) (put : s.PutIn t id v w) : s.PutIn (t.setItems id stored) id v w := by
  refine put.mono (.refl s) valid hasV (by simp) fun b new _ => ?_
  exact list_setItems_of_ne t stored fun same => Nat.not_lt.mpr new (same ▸ has)

/-- No item of a list leads to it, so items that stay are stored as they are. -/
theorem forall₂_putIn_items (acyclic : s.Acyclic) {kept : List Value}
    (old : ∀ v ∈ kept, v ∈ (s.list id).items) : List.Forall₂ (s.PutIn t id) kept kept := by
  refine List.forall₂_same.mpr fun v mem => .inr ⟨?_, rfl⟩
  rintro ⟨b, rfl, path⟩
  exact acyclic.not_reflTransGen_of_holds (old _ mem) path

theorem forall₂_insertIdx {R : Value → Value → Prop} {xs : List Value} {v w : Value}
    (same : List.Forall₂ R xs xs) (related : R v w) (i : Nat) :
    List.Forall₂ R (xs.insertIdx i v) (xs.insertIdx i w) := by
  induction i generalizing xs with
  | zero => exact .cons related same
  | succ i ih =>
    cases same with
    | nil => exact .nil
    | cons first rest => exact .cons first (ih rest)

end Storing

/-! ## The operations -/

theorem Eval.checkElement_eq (op : ListOperation) (cell : ListCell) (v : Value) (line : Nat) :
    (Eval.checkElement op cell v line : Eval Unit) =
      Eval.orFail line (Request.checkKind op cell.contentKind v.kind) := by
  unfold Eval.checkElement Request.checkKind
  split <;> rfl

theorem Eval.position_eq (op : ListOperation) (cell : ListCell) (n : Int64) (bound line : Nat) :
    (Eval.position op cell n bound line : Eval Nat) =
      Eval.orFail line (Request.checkIndex op cell.items.length bound n) := by
  unfold Eval.position Request.checkIndex Integer.index?
  by_cases inside : 0 ≤ n.toInt ∧ n.toInt < bound
  · rw [if_pos inside, if_pos inside]
    rfl
  · rw [if_neg inside, if_neg inside]
    rfl

namespace Refines

variable {s : Store} {id : ListId} {line : Nat}

/-- There is a result exactly when the plain operation comes to something. -/
theorem exists_ok_iff {plain : Except EvalError.Cause Answer}
    {outcome : EStateM.Result Halt Store Value} (h : Refines s id line plain outcome) :
    (∃ v t, outcome = .ok v t) ↔ ∃ answer, plain = .ok answer := by
  cases h <;> simp

/-- A check that the plain operation makes as well. -/
theorem check {α : Type} {r : Except EvalError.Cause α} {f : α → Eval Value}
    {g : α → Except EvalError.Cause Answer}
    (passed : ∀ a, r = .ok a → Refines s id line (g a) (f a s)) :
    Refines s id line (r >>= g) ((Eval.orFail line r >>= f) s) := by
  cases r with
  | error cause => exact .refused
  | ok a => exact passed a rfl

theorem checkElement {op : ListOperation} {v : Value} {f : Unit → Eval Value}
    {g : Unit → Except EvalError.Cause Answer} (passed : Refines s id line (g ()) (f () s)) :
    Refines s id line (Request.checkKind op (s.list id).contentKind v.kind >>= g)
      ((Eval.checkElement op (s.list id) v line >>= f : Eval Value) s) := by
  rw [Eval.checkElement_eq]
  exact .check fun _ _ => passed

theorem position {op : ListOperation} {n : Int64} {bound : Nat} {f : Nat → Eval Value}
    {g : Nat → Except EvalError.Cause Answer} (passed : ∀ i, Refines s id line (g i) (f i s)) :
    Refines s id line (Request.checkIndex op (s.list id).items.length bound n >>= g)
      ((Eval.position op (s.list id) n bound line >>= f : Eval Value) s) := by
  rw [Eval.position_eq]
  exact .check fun i _ => passed i

theorem getValue {index : Value} :
    Refines s id line ((Request.getValue index).plain s id)
      ((Eval.getValue id index line : Eval Value) s) :=
  .check fun _ _ => .position fun _ => .found

/-- Storing what was made of the new items. -/
theorem store (valid : s.Valid) (has : s.Has (.list id)) {items stored : List Value} {t : Store}
    (hasItems : ∀ v ∈ items, s.Has v) (put : List.Forall₂ (s.PutIn t id) items stored)
    (more : Extends s t) :
    Refines s id line (.ok (.items items)) (.ok (.list id) (t.setItems id stored)) := by
  refine .changed (List.Forall₂.imp (fun v w put => ?_)
    ((List.forall₂_and_left (p := s.Has) _ _).mpr ⟨hasItems, put⟩)) (changes_setItems has more)
  exact put.2.setItems valid has put.1

section Changing

variable (acyclic : s.Acyclic) (valid : s.Valid) (has : s.Has (.list id))

include acyclic valid has

theorem removeAt {index : Value} :
    Refines s id line ((Request.removeAt index).plain s id)
      ((Eval.removeAt id index line : Eval Value) s) := by
  refine .check fun n _ => .position fun i => ?_
  refine .store valid has (fun v mem => valid.items id v (List.mem_of_mem_eraseIdx mem)) ?_ (.refl s)
  exact forall₂_putIn_items acyclic fun v mem => List.mem_of_mem_eraseIdx mem

theorem append {v : Value} (hasV : s.Has v) :
    Refines s id line ((Request.append v).plain s id)
      ((Eval.append id v line : Eval Value) s) := by
  refine .checkElement ?_
  obtain ⟨w, t, ran, put, more, -⟩ := Eval.detach_putIn acyclic valid id hasV
  rw [bind_of_ok ran]
  refine .store valid has (List.forall_mem_append.mpr ⟨valid.items id, by simpa using hasV⟩) ?_ more
  exact List.rel_append (forall₂_putIn_items acyclic fun _ mem => mem) (.cons put .nil)

theorem insertAt {v : Value} (hasV : s.Has v) {index : Value} :
    Refines s id line ((Request.insertAt v index).plain s id)
      ((Eval.orFail line (index.asInt ListOperation.insertAt.keyword) >>= fun n =>
        Eval.insertAt id v n line : Eval Value) s) := by
  refine .check fun n _ => .checkElement (.position fun i => ?_)
  obtain ⟨w, t, ran, put, more, -⟩ := Eval.detach_putIn acyclic valid id hasV
  rw [bind_of_ok ran]
  refine .store valid has (fun w mem => ?_) ?_ more
  · obtain rfl | mem := List.eq_or_mem_of_mem_insertIdx mem
    · exact hasV
    · exact valid.items id w mem
  · exact forall₂_insertIdx (forall₂_putIn_items acyclic fun _ mem => mem) put i

theorem join {other : Value} :
    Refines s id line ((Request.join other).plain s id)
      ((Eval.join id other line : Eval Value) s) := by
  refine .check fun b _ => ?_
  change Refines s id line _ ((if _ then _ else _ : Eval Value) s)
  rw [Request.checkKind]
  split
  · obtain ⟨ws, t, ran, puts, more, -⟩ := Eval.mapM_detach_putIn acyclic valid id (valid.items b)
    rw [bind_of_ok ran]
    refine .store valid has (List.forall_mem_append.mpr ⟨valid.items id, valid.items b⟩) ?_ more
    exact List.rel_append (forall₂_putIn_items acyclic fun _ mem => mem) puts
  · exact .refused

end Changing

end Refines

/-! ## Evaluating the operations -/

/-- The expression asks for the request: evaluating its operands one after the other, from the
store `s₀` to the store `s`, gives the list at `id` and the values that the request has. -/
inductive Asks (depth : Nat) (env : Environment) (id : ListId) (request : Request) :
    Expr → Store → Store → Prop
  | two {first second : Expr} {v : Value} {line : Nat} {s₀ s₁ s : Store} :
    request.operands = [v] → eval depth env first s₀ = .ok (.list id) s₁ →
    eval depth env second s₁ = .ok v s →
    Asks depth env id request (.listOp2 request.op first second line) s₀ s
  | three {first second third : Expr} {v w : Value} {line : Nat} {s₀ s₁ s₂ s : Store} :
    request.operands = [v, w] → eval depth env first s₀ = .ok (.list id) s₁ →
    eval depth env second s₁ = .ok v s₂ → eval depth env third s₂ = .ok w s →
    Asks depth env id request (.listOp3 request.op first second third line) s₀ s

theorem eval_listOp2 {depth : Nat} {env : Environment} {op : ListOperation} {first second : Expr}
    {line : Nat} {id : ListId} {v : Value} {s₀ s₁ s : Store} (arity : op.arity = 2)
    (list : eval depth env first s₀ = .ok (.list id) s₁)
    (operand : eval depth env second s₁ = .ok v s) :
    eval (depth + 1) env (.listOp2 op first second line) s₀ =
      Eval.listOp2 (Eval.applyWith (eval depth) · · line) op id v line s := by
  rw [eval, Eval.evalWith, Eval.checkArity, if_pos arity]
  change (eval depth env first >>= _) s₀ = _
  rw [bind_of_ok list]
  change (eval depth env second >>= _) s₁ = _
  rw [bind_of_ok operand]

theorem eval_listOp3 {depth : Nat} {env : Environment} {op : ListOperation}
    {first second third : Expr} {line : Nat} {id : ListId} {v w : Value} {s₀ s₁ s₂ s : Store}
    (arity : op.arity = 3) (list : eval depth env first s₀ = .ok (.list id) s₁)
    (operand : eval depth env second s₁ = .ok v s₂) (last : eval depth env third s₂ = .ok w s) :
    eval (depth + 1) env (.listOp3 op first second third line) s₀ =
      (Eval.orFail line (w.asInt op.keyword) >>= fun n => Eval.listOp3 op id v n line : Eval Value)
        s := by
  rw [eval, Eval.evalWith, Eval.checkArity, if_pos arity]
  change (eval depth env first >>= _) s₀ = _
  rw [bind_of_ok list]
  change (eval depth env second >>= _) s₁ = _
  rw [bind_of_ok operand, bind_of_ok last]

/-- Where no list is inside itself, an operation on a list that changes it or looks an item up does
with its evaluated operands what the plain operation does with the sequence of items. It gives a
result exactly when the operands are what the operation needs. -/
theorem eval_refines_plain {s : Store} {id : ListId} (acyclic : s.Acyclic) (valid : s.Valid)
    (has : s.Has (.list id)) {request : Request} (operands : ∀ v ∈ request.operands, s.Has v)
    {depth : Nat} {env : Environment} {e : Expr} {s₀ : Store}
    (asks : Asks depth env id request e s₀ s) :
    Refines s id e.line (request.plain s id) (eval (depth + 1) env e s₀) ∧
      ((∃ v t, eval (depth + 1) env e s₀ = .ok v t) ↔ request.Granted s id) := by
  have refines : Refines s id e.line (request.plain s id) (eval (depth + 1) env e s₀) := by
    cases asks with
    | two given list operand =>
      cases request with
      | join other =>
        cases given
        rw [eval_listOp2 rfl list operand]
        exact .join acyclic valid has
      | append element =>
        cases given
        rw [eval_listOp2 rfl list operand]
        exact .append acyclic valid has (operands _ List.mem_cons_self)
      | removeAt index =>
        cases given
        rw [eval_listOp2 rfl list operand]
        exact .removeAt acyclic valid has
      | getValue index =>
        cases given
        rw [eval_listOp2 rfl list operand]
        exact .getValue
      | insertAt => cases given
    | three given list operand last =>
      cases request with
      | insertAt element index =>
        cases given
        rw [eval_listOp3 rfl list operand last]
        exact .insertAt acyclic valid has (operands _ List.mem_cons_self)
      | _ => cases given
  exact ⟨refines, refines.exists_ok_iff.trans (Request.plain_ok_iff s id request)⟩

/-- A store with a list of numbers and a list that holds it. -/
def Store.nested : Store :=
  ((Store.empty.addList ⟨.int, [.int 1]⟩).2.addList ⟨.list, [.list ⟨0⟩]⟩).2

/-- A list that is appended to itself keeps its item and gets a copy of what it was. -/
theorem eval_refines_plain_self :
    Store.nested.Acyclic ∧ Store.nested.Valid ∧ ∃ copy t,
      eval 2 ⟨[("l", .list ⟨1⟩)]⟩ (.listOp2 .append (.var "l" 1) (.var "l" 1) 1) Store.nested =
        .ok (.list ⟨1⟩) t ∧
      (t.list ⟨1⟩).items = [.list ⟨0⟩, copy] ∧ Copy Store.nested t (.list ⟨1⟩) copy ∧
      t.list ⟨0⟩ = Store.nested.list ⟨0⟩ := by
  have hasOne : ∀ v ∈ [Value.int 1], Store.empty.Has v := by decide
  have hasList : ∀ v ∈ [Value.list ⟨0⟩], (Store.empty.addList ⟨.int, [.int 1]⟩).2.Has v := by decide
  have valid₁ : (Store.empty.addList ⟨.int, [.int 1]⟩).2.Valid := Valid.empty.addList hasOne
  have valid : Store.nested.Valid := valid₁.addList hasList
  have acyclic : Store.nested.Acyclic :=
    (Acyclic.empty.addList Valid.empty hasOne).addList valid₁ hasList
  refine ⟨acyclic, valid, ?_⟩
  have asks : Asks 1 ⟨[("l", .list ⟨1⟩)]⟩ ⟨1⟩ (.append (.list ⟨1⟩))
      (.listOp2 .append (.var "l" 1) (.var "l" 1) 1) Store.nested Store.nested :=
    .two rfl rfl rfl
  obtain ⟨refines, granted⟩ := eval_refines_plain acyclic valid (by decide) (by decide) asks
  obtain ⟨v, t, ran⟩ := granted.mpr rfl
  rw [ran] at refines ⊢
  change Refines _ _ _ (.ok (.items [.list ⟨0⟩, .list ⟨1⟩])) _ at refines
  cases refines with
  | changed put changes =>
    obtain _ | ⟨first, _ | ⟨second, _ | _⟩⟩ := put
    have apart : ¬ Store.nested.Leads ⟨1⟩ (.list ⟨0⟩) := by
      rintro ⟨_, ⟨⟩, path⟩
      exact acyclic.not_reflTransGen_of_holds (a := ⟨1⟩) List.mem_cons_self path
    obtain rfl := (first.resolve_left fun put => apart put.1).2
    have copy := (second.resolve_right fun put => put.1 ⟨_, rfl, .refl⟩).2
    exact ⟨_, t, rfl, by rw [changes.target], copy, changes.others _ (by decide) (by decide)⟩

end ListLang
