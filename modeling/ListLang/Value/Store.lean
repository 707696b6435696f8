import ListLang.Value.Environment

/-!
# Stores

A store holds the lists and closures that a program has made. Both are only ever added.
A list keeps its content kind for good while its items may be replaced; a closure keeps
its parameter and body while its captured environment may be extended.

## Main definitions

* `Store` — the lists and closures made so far.
* `Store.list`, `Store.closure` — what lives at a place.
* `Store.addList`, `Store.addClosure` — a new list or closure at a new place.
* `Store.setItems`, `Store.bindName` — the two changes of what is already there.
* `Store.ends` — whether going from a list to the lists in it ends.
* `Store.reaches` — whether one list is found inside another.
* `Store.deepCopy` — a copy of a list that shares no list with it.
* `Store.equal` — the equality of values.
-/

namespace ListLang

/-- A list: the kind of all its items, and the items. -/
structure ListCell where
  contentKind : Kind
  items : List Value
  deriving DecidableEq, Repr, Inhabited

/-- A function: the environment it was made in, its parameter and its body. -/
structure Closure where
  env : Environment
  param : String
  body : Expr
  deriving Repr, Inhabited

/-- The lists and closures that a program has made. -/
structure Store where
  lists : Array ListCell
  closures : Array Closure
  deriving Repr, Inhabited

namespace Store

/-- The store without lists and closures. -/
def empty : Store := ⟨#[], #[]⟩

/-- The list at `id`. -/
def list (s : Store) (id : ListId) : ListCell := s.lists.getD id.index default

/-- The closure at `id`. -/
def closure (s : Store) (id : ClosureId) : Closure := s.closures.getD id.index default

/-- Adds a list. -/
def addList (s : Store) (cell : ListCell) : ListId × Store :=
  (⟨s.lists.size⟩, { s with lists := s.lists.push cell })

/-- Adds a closure. -/
def addClosure (s : Store) (c : Closure) : ClosureId × Store :=
  (⟨s.closures.size⟩, { s with closures := s.closures.push c })

/-- Replaces the items of the list at `id`. -/
def setItems (s : Store) (id : ListId) (items : List Value) : Store :=
  { s with lists := s.lists.modify id.index fun cell => { cell with items } }

/-- Binds `name` to `value` in the environment of the closure at `id`. -/
def bindName (s : Store) (id : ClosureId) (name : String) (value : Value) : Store :=
  { s with closures := s.closures.modify id.index fun c =>
      { c with env := c.env.extend name value } }

@[simp] theorem list_addList (s : Store) (cell : ListCell) :
    (s.addList cell).2.list (s.addList cell).1 = cell := by
  simp [addList, list]

theorem list_addList_of_lt (s : Store) (cell : ListCell) {id : ListId}
    (old : id.index < s.lists.size) : (s.addList cell).2.list id = s.list id := by
  simp [addList, list, Array.getElem?_push, Nat.ne_of_lt old]

@[simp] theorem closure_addClosure (s : Store) (c : Closure) :
    (s.addClosure c).2.closure (s.addClosure c).1 = c := by
  simp [addClosure, closure]

theorem closure_addClosure_of_lt (s : Store) (c : Closure) {id : ClosureId}
    (old : id.index < s.closures.size) : (s.addClosure c).2.closure id = s.closure id := by
  simp [addClosure, closure, Array.getElem?_push, Nat.ne_of_lt old]

theorem list_setItems (s : Store) {id : ListId} (items : List Value)
    (old : id.index < s.lists.size) :
    (s.setItems id items).list id = { s.list id with items } := by
  simp [setItems, list, old, Array.getElem_modify]

theorem list_setItems_of_ne (s : Store) {id other : ListId} (items : List Value)
    (ne : other ≠ id) : (s.setItems id items).list other = s.list other := by
  have : id.index ≠ other.index := fun h => ne (by cases id; cases other; simp_all)
  simp [setItems, list, Array.getElem?_modify, this]

/-- Whether going from the list at `id` to the lists in it ends within `depth` steps. -/
def endsWithin (s : Store) : Nat → ListId → Bool
  | 0, _ => false
  | depth + 1, id => (s.list id).items.all fun
    | .list inner => endsWithin s depth inner
    | _ => true

/-- Whether going from the list at `id` to the lists in it ends. Where it does, the steps are
no more than there are lists. -/
def ends (s : Store) (id : ListId) : Bool := s.endsWithin s.lists.size id

/-- Whether the list `target` is `id` or found inside it within `depth` steps. -/
def reachesWithin (s : Store) (target : ListId) : Nat → ListId → Bool
  | 0, id => id == target
  | depth + 1, id =>
    id == target || (s.list id).items.any fun
      | .list inner => reachesWithin s target depth inner
      | _ => false

/-- Whether the list `target` is `id` or found inside it. Where no list is inside itself,
the steps from list to list are no more than there are lists. -/
def reaches (s : Store) (id target : ListId) : Bool :=
  s.reachesWithin target s.lists.size id

/-- Copies the list at `id` with the lists inside it, down to `depth` steps. -/
def copyWithin : Nat → ListId → StateM Store ListId
  | 0, id => pure id
  | depth + 1, id => do
    let cell := (← get).list id
    let items ← cell.items.mapM fun
      | .list inner => Value.list <$> copyWithin depth inner
      | item => pure item
    modifyGet (·.addList { cell with items })

/-- Copies the list at `id` with the lists inside it. Where no list is inside itself, the
steps from list to list are no more than there are lists. -/
def deepCopy (s : Store) (id : ListId) : ListId × Store :=
  (copyWithin s.lists.size id).run s

/-- Whether two values are equal, looking at most `depth` steps into lists. -/
def equalWithin (s : Store) : Nat → Value → Value → Bool
  | depth + 1, .list a, .list b =>
    a == b || (s.list a).contentKind == (s.list b).contentKind &&
      (s.list a).items.isEqv (s.list b).items (equalWithin s depth)
  | _, a, b => a == b

/-- Whether two values are equal: lists when they are the same or have equal content
kinds and equal items, closures when they are the same. A comparison that ends meets no
pair of lists twice on its way down, so the steps are no more than there are pairs. -/
def equal (s : Store) (a b : Value) : Bool :=
  s.equalWithin (s.lists.size * s.lists.size) a b

end Store

end ListLang
