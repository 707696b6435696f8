import ListLang.Value.Store
import Mathlib.Logic.Relation

/-!
# Lists inside lists

The lists of a store form a graph, with an edge from a list to each list that is one of its
elements. A store is acyclic where no list is found inside itself. Making a list of values
that the store has keeps it so. Replacing the items of a list keeps it so exactly where the
list does not come to be inside itself, and it does not where no new item leads back to it.

## Main definitions

* `Store.Holds` — one list is an element of another.
* `Store.Acyclic` — no list is inside itself.
* `Store.Has`, `Store.Valid` — every place that a store mentions is one of its places.
* `Store.Grows` — a store with the places of another.
* `Store.Extends` — a store that adds only lists to another.

## Main statements

* `Store.Acyclic.addList`, `Store.Acyclic.setItems` — how the graph stays acyclic.
* `Store.not_transGen_setItems` — items that do not lead back to their list.
-/

namespace ListLang.Store

open Relation (ReflTransGen TransGen)

variable {s t u : Store}

/-- The list at `a` holds the list at `b` as an element. -/
def Holds (s : Store) (a b : ListId) : Prop := .list b ∈ (s.list a).items

instance (s : Store) (a b : ListId) : Decidable (s.Holds a b) :=
  inferInstanceAs (Decidable (.list b ∈ (s.list a).items))

/-- No list is found inside itself. -/
def Acyclic (s : Store) : Prop := ∀ id, ¬ TransGen s.Holds id id

/-- The place that a value is, if it is one, is a place of the store. -/
def Has (s : Store) : Value → Prop
  | .list id => id.index < s.lists.size
  | .closure id => id.index < s.closures.size
  | _ => True

instance (s : Store) : (v : Value) → Decidable (s.Has v)
  | .list id => inferInstanceAs (Decidable (id.index < s.lists.size))
  | .closure id => inferInstanceAs (Decidable (id.index < s.closures.size))
  | .int _ | .bool _ | .string _ | .builtin _ => inferInstanceAs (Decidable True)

/-- Every place mentioned in a store is a place of the store. -/
structure Valid (s : Store) : Prop where
  items : ∀ id, ∀ v ∈ (s.list id).items, s.Has v
  captured : ∀ id, ∀ b ∈ (s.closure id).env.bindings, s.Has b.2

/-- `t` has the places of `s`. -/
structure Grows (s t : Store) : Prop where
  lists : s.lists.size ≤ t.lists.size
  closures : s.closures.size ≤ t.closures.size

theorem Grows.refl (s : Store) : Grows s s := ⟨Nat.le_refl _, Nat.le_refl _⟩

theorem Grows.trans (h : Grows s t) (g : Grows t u) : Grows s u :=
  ⟨Nat.le_trans h.lists g.lists, Nat.le_trans h.closures g.closures⟩

theorem Has.mono {v : Value} (has : s.Has v) (grows : Grows s t) : t.Has v := by
  cases v with
  | list id => exact Nat.lt_of_lt_of_le has grows.lists
  | closure id => exact Nat.lt_of_lt_of_le has grows.closures
  | _ => trivial

/-! ## Places and their contents -/

theorem list_of_size_le {id : ListId} (new : s.lists.size ≤ id.index) :
    s.list id = default := by
  simp [list, Nat.not_lt.mpr new]

theorem closure_of_size_le {id : ClosureId} (new : s.closures.size ≤ id.index) :
    s.closure id = default := by
  simp [closure, Nat.not_lt.mpr new]

theorem lt_size_of_mem {id : ListId} {v : Value} (mem : v ∈ (s.list id).items) :
    id.index < s.lists.size := by
  rcases Nat.lt_or_ge id.index s.lists.size with old | new
  · exact old
  · rw [list_of_size_le new] at mem
    exact absurd mem List.not_mem_nil

theorem list_addList_eq (s : Store) (cell : ListCell) (id : ListId) :
    (s.addList cell).2.list id = if id.index = s.lists.size then cell else s.list id := by
  simp only [addList, list, Array.getD_eq_getD_getElem?, Array.getElem?_push]
  split <;> rfl

theorem closure_addClosure_eq (s : Store) (c : Closure) (id : ClosureId) :
    (s.addClosure c).2.closure id =
      if id.index = s.closures.size then c else s.closure id := by
  simp only [addClosure, closure, Array.getD_eq_getD_getElem?, Array.getElem?_push]
  split <;> rfl

@[simp] theorem size_addList (s : Store) (cell : ListCell) :
    (s.addList cell).2.lists.size = s.lists.size + 1 := by
  simp [addList]

@[simp] theorem size_addClosure (s : Store) (c : Closure) :
    (s.addClosure c).2.closures.size = s.closures.size + 1 := by
  simp [addClosure]

@[simp] theorem size_setItems (s : Store) (id : ListId) (items : List Value) :
    (s.setItems id items).lists.size = s.lists.size := by
  simp [setItems]

@[simp] theorem size_bindName (s : Store) (id : ClosureId) (name : String) (v : Value) :
    (s.bindName id name v).closures.size = s.closures.size := by
  simp [bindName]

theorem has_addList (s : Store) (cell : ListCell) :
    (s.addList cell).2.Has (.list (s.addList cell).1) := by
  simp [Has, addList]

theorem has_addClosure (s : Store) (c : Closure) :
    (s.addClosure c).2.Has (.closure (s.addClosure c).1) := by
  simp [Has, addClosure]

theorem grows_addList (s : Store) (cell : ListCell) : Grows s (s.addList cell).2 :=
  ⟨by simp, Nat.le_refl _⟩

theorem grows_addClosure (s : Store) (c : Closure) : Grows s (s.addClosure c).2 :=
  ⟨Nat.le_refl _, by simp⟩

theorem grows_setItems (s : Store) (id : ListId) (items : List Value) :
    Grows s (s.setItems id items) :=
  ⟨by simp, Nat.le_refl _⟩

theorem grows_bindName (s : Store) (id : ClosureId) (name : String) (v : Value) :
    Grows s (s.bindName id name v) :=
  ⟨Nat.le_refl _, by simp⟩

theorem contentKind_setItems (s : Store) (id other : ListId) (items : List Value) :
    ((s.setItems id items).list other).contentKind = (s.list other).contentKind := by
  by_cases same : other = id
  · subst same
    by_cases old : other.index < s.lists.size
    · rw [list_setItems s items old]
    · rw [list_of_size_le (by simpa using old), list_of_size_le (Nat.not_lt.mp old)]
  · rw [list_setItems_of_ne s items same]

/-- The items of a list after those of the list at `id` were replaced. -/
theorem mem_items_setItems {id other : ListId} {items : List Value} {v : Value}
    (mem : v ∈ ((s.setItems id items).list other).items) :
    other = id ∧ v ∈ items ∨ other ≠ id ∧ v ∈ (s.list other).items := by
  by_cases same : other = id
  · subst same
    have old : other.index < s.lists.size := by simpa using lt_size_of_mem mem
    rw [list_setItems s items old] at mem
    exact .inl ⟨rfl, mem⟩
  · rw [list_setItems_of_ne s items same] at mem
    exact .inr ⟨same, mem⟩

theorem closure_bindName_of_ne (s : Store) {id other : ClosureId} (name : String) (v : Value)
    (ne : other ≠ id) : (s.bindName id name v).closure other = s.closure other := by
  have : id.index ≠ other.index := fun h => ne (by cases id; cases other; simp_all)
  simp [bindName, closure, Array.getElem?_modify, this]

theorem closure_bindName (s : Store) {id : ClosureId} (name : String) (v : Value)
    (old : id.index < s.closures.size) :
    (s.bindName id name v).closure id =
      { s.closure id with env := (s.closure id).env.extend name v } := by
  simp [bindName, closure, old, Array.getElem_modify]

/-- Binding a name in a new closure makes the closure with the name bound. -/
theorem bindName_addClosure (s : Store) (c : Closure) (name : String) (v : Value) :
    (s.addClosure c).2.bindName (s.addClosure c).1 name v =
      (s.addClosure { c with env := c.env.extend name v }).2 := by
  have closures : (s.closures.push c).modify s.closures.size
      (fun c => { c with env := c.env.extend name v }) =
      s.closures.push { c with env := c.env.extend name v } := by
    refine Array.ext_getElem? fun i => ?_
    rw [Array.getElem?_modify, Array.getElem?_push, Array.getElem?_push]
    grind
  simp only [addClosure, bindName, closures]

/-! ## Valid stores -/

theorem Valid.empty : Valid empty where
  items id v mem := absurd (lt_size_of_mem mem) (Nat.not_lt_zero _)
  captured id b mem := by
    rw [closure_of_size_le (Nat.zero_le _)] at mem
    exact absurd mem List.not_mem_nil

theorem Valid.addList (valid : s.Valid) {cell : ListCell} (items : ∀ v ∈ cell.items, s.Has v) :
    (s.addList cell).2.Valid where
  items id v mem := by
    have has : s.Has v := by
      rw [list_addList_eq] at mem
      split at mem
      · exact items v mem
      · exact valid.items id v mem
    exact has.mono (grows_addList s cell)
  captured id b mem := (valid.captured id b mem).mono (grows_addList s cell)

theorem Valid.addClosure (valid : s.Valid) {c : Closure}
    (captured : ∀ b ∈ c.env.bindings, s.Has b.2) : (s.addClosure c).2.Valid where
  items id v mem := (valid.items id v mem).mono (grows_addClosure s c)
  captured id b mem := by
    have has : s.Has b.2 := by
      rw [closure_addClosure_eq] at mem
      split at mem
      · exact captured b mem
      · exact valid.captured id b mem
    exact has.mono (grows_addClosure s c)

theorem Valid.setItems (valid : s.Valid) {id : ListId} {items : List Value}
    (has : ∀ v ∈ items, s.Has v) : (s.setItems id items).Valid where
  items other v mem := by
    have has : s.Has v := by
      obtain ⟨-, mem⟩ | ⟨-, mem⟩ := mem_items_setItems mem
      · exact has v mem
      · exact valid.items other v mem
    exact has.mono (grows_setItems s id items)
  captured other b mem := (valid.captured other b mem).mono (grows_setItems s id items)

theorem Valid.bindName (valid : s.Valid) {id : ClosureId} (name : String) {v : Value}
    (has : s.Has v) : (s.bindName id name v).Valid where
  items other w mem := (valid.items other w mem).mono (grows_bindName s id name v)
  captured other b mem := by
    have has : s.Has b.2 := by
      by_cases same : other = id
      · subst same
        by_cases old : other.index < s.closures.size
        · rw [closure_bindName s name v old] at mem
          obtain rfl | mem := List.mem_cons.mp mem
          · exact has
          · exact valid.captured other b mem
        · rw [closure_of_size_le (by simpa using old)] at mem
          exact absurd mem List.not_mem_nil
      · rw [closure_bindName_of_ne s name v same] at mem
        exact valid.captured other b mem
    exact has.mono (grows_bindName s id name v)

/-! ## Acyclic stores -/

theorem Acyclic.empty : Acyclic empty := by
  intro id cycle
  obtain ⟨b, first, -⟩ := Relation.TransGen.head'_iff.mp cycle
  exact absurd (lt_size_of_mem first) (Nat.not_lt_zero _)

/-- A new list holds only lists that were there before, and none of those holds it. -/
theorem Acyclic.addList (acyclic : s.Acyclic) (valid : s.Valid) {cell : ListCell}
    (items : ∀ v ∈ cell.items, s.Has v) : (s.addList cell).2.Acyclic := by
  have held : ∀ a b, (s.addList cell).2.Holds a b → b.index < s.lists.size := by
    intro a b edge
    rw [Holds, list_addList_eq] at edge
    split at edge
    · exact items _ edge
    · exact valid.items a _ edge
  have kept : ∀ a b, a.index < s.lists.size → (s.addList cell).2.Holds a b → s.Holds a b := by
    intro a b old edge
    rwa [Holds, list_addList_of_lt s cell old] at edge
  intro id cycle
  have path : ∀ a b, TransGen (s.addList cell).2.Holds a b → a.index < s.lists.size →
      TransGen s.Holds a b ∧ b.index < s.lists.size := by
    intro a b path old
    induction path with
    | single edge => exact ⟨.single (kept _ _ old edge), held _ _ edge⟩
    | tail _ edge ih => exact ⟨ih.1.tail (kept _ _ ih.2 edge), held _ _ edge⟩
  obtain ⟨b, -, last⟩ := Relation.TransGen.tail'_iff.mp cycle
  exact acyclic id (path id id cycle (held b id last)).1

theorem holds_of_setItems {id a b : ListId} {items : List Value}
    (edge : (s.setItems id items).Holds a b) (ne : a ≠ id) : s.Holds a b := by
  obtain ⟨same, -⟩ | ⟨-, edge⟩ := mem_items_setItems edge
  · exact absurd same ne
  · exact edge

/-- A way through the lists after those of the list at `id` were replaced is one from before,
or it passes the list at `id`. -/
theorem transGen_setItems {id a b : ListId} {items : List Value}
    (path : TransGen (s.setItems id items).Holds a b) :
    TransGen s.Holds a b ∨
      ReflTransGen (s.setItems id items).Holds a id ∧
        TransGen (s.setItems id items).Holds id b := by
  induction path with
  | @single b edge =>
    by_cases same : a = id
    · subst same
      exact .inr ⟨.refl, .single edge⟩
    · exact .inl (.single (holds_of_setItems edge same))
  | @tail b c path edge ih =>
    by_cases same : b = id
    · subst same
      exact .inr ⟨path.to_reflTransGen, .single edge⟩
    · obtain before | ⟨first, second⟩ := ih
      · exact .inl (before.tail (holds_of_setItems edge same))
      · exact .inr ⟨first, second.tail edge⟩

/-- A list whose items are replaced closes a cycle only through itself. -/
theorem Acyclic.setItems (acyclic : s.Acyclic) {id : ListId} {items : List Value}
    (outside : ¬ TransGen (s.setItems id items).Holds id id) : (s.setItems id items).Acyclic := by
  intro a cycle
  obtain before | ⟨first, second⟩ := transGen_setItems cycle
  · exact acyclic a before
  · exact outside (second.trans_left first)

theorem reflTransGen_of_setItems {id a : ListId} {items : List Value}
    (path : ReflTransGen (s.setItems id items).Holds a id) : ReflTransGen s.Holds a id := by
  induction path using Relation.ReflTransGen.head_induction_on with
  | refl => exact .refl
  | @head a b edge _ ih =>
    by_cases same : a = id
    · exact same ▸ .refl
    · exact .head (holds_of_setItems edge same) ih

/-- A list is not inside itself where none of its new items led to it. -/
theorem not_transGen_setItems {id : ListId} {items : List Value}
    (apart : ∀ b, .list b ∈ items → ¬ ReflTransGen s.Holds b id) :
    ¬ TransGen (s.setItems id items).Holds id id := by
  intro cycle
  obtain ⟨b, edge, path⟩ := Relation.TransGen.head'_iff.mp cycle
  obtain ⟨-, mem⟩ | ⟨ne, -⟩ := mem_items_setItems edge
  · exact apart b mem (reflTransGen_of_setItems path)
  · exact ne rfl

theorem Acyclic.not_reflTransGen_of_holds (acyclic : s.Acyclic) {a b : ListId}
    (edge : s.Holds a b) : ¬ ReflTransGen s.Holds b a :=
  fun path => acyclic a (.head' edge path)

/-! ## More lists -/

/-- `t` has the lists of `s` as they are, perhaps more lists, and the same closures. -/
structure Extends (s t : Store) : Prop where
  closures : t.closures = s.closures
  size : s.lists.size ≤ t.lists.size
  old : ∀ id : ListId, id.index < s.lists.size → t.list id = s.list id

theorem Extends.refl (s : Store) : Extends s s := ⟨rfl, Nat.le_refl _, fun _ _ => rfl⟩

theorem Extends.trans (h : Extends s t) (g : Extends t u) : Extends s u where
  closures := g.closures.trans h.closures
  size := Nat.le_trans h.size g.size
  old id old := (g.old id (Nat.lt_of_lt_of_le old h.size)).trans (h.old id old)

theorem Extends.addList (h : Extends s t) (cell : ListCell) : Extends s (t.addList cell).2 where
  closures := h.closures
  size := by simpa using Nat.le_succ_of_le h.size
  old id old := by
    rw [list_addList_of_lt t cell (Nat.lt_of_lt_of_le old h.size), h.old id old]

theorem Extends.closure (h : Extends s t) (id : ClosureId) : t.closure id = s.closure id := by
  rw [Store.closure, h.closures, ← Store.closure]

theorem Extends.grows (h : Extends s t) : Grows s t :=
  ⟨h.size, Nat.le_of_eq (by rw [h.closures])⟩

/-- From a list of the smaller store the larger one leads nowhere else. -/
theorem Extends.reflTransGen (h : Extends s t) (valid : s.Valid) {a b : ListId}
    (old : a.index < s.lists.size) (path : ReflTransGen t.Holds a b) :
    ReflTransGen s.Holds a b := by
  induction path using Relation.ReflTransGen.head_induction_on with
  | refl => exact .refl
  | @head a c edge _ ih =>
    rw [Holds, h.old a old] at edge
    exact .head edge (ih (valid.items a _ edge))

end ListLang.Store
