import ListLang.Eval.Basic
import ListLang.Value.Access

/-!
# List operations on values

Joining, appending, inserting, removing and filtering change the list and give that same
list. Mapping makes a new list; the others give a value. Mapping, filtering and folding
run over the items that the list has when they start, whatever the functions they call
do to it.

A list that would come to be inside itself is put in as a copy. Looking whether it would has
no end where a list is inside itself already.

## Main definitions

* `Eval.detach` — an element as it is put into a list.
* `Eval.listOp1`, `Eval.listOp2`, `Eval.listOp3` — the operations with one, two and three
  operands.
-/

namespace ListLang.Eval

variable {m : Type → Type} [Monad m] [MonadStateOf Store m] [MonadExceptOf Halt m]

/-- An element as it is put into the list at `target`: a list that is or holds `target`
is copied, so that the change of `target` does not show in what it holds. A list from which
lists nest without end is nested too deeply to be looked through. -/
def detach (target : ListId) (element : Value) : m Value := do
  match element with
  | .list id =>
    let s ← get
    if s.ends id then
      if s.reaches id target then
        let copy ← modifyGet (·.deepCopy id)
        pure (.list copy)
      else pure element
    else throw .tooDeep
  | _ => pure element

theorem detach_list (target id : ListId) (s : Store) :
    (detach target (.list id) : Eval Value) s =
      if s.ends id then
        if s.reaches id target then .ok (.list (s.deepCopy id).1) (s.deepCopy id).2
        else .ok (.list id) s
      else .error .tooDeep s := by
  change (if s.ends id then _ else _ : Eval Value) s = _
  split
  · split <;> rfl
  · rfl

/-- Fails unless `element` is of the content kind of the list `cell`. -/
def checkElement (op : ListOperation) (cell : ListCell) (element : Value) (line : Nat) :
    m Unit :=
  if element.kind = cell.contentKind then pure ()
  else fail line (.elementMismatch op cell.contentKind element.kind)

/-- The position below `bound` that `n` gives in the list `cell`. -/
def position (op : ListOperation) (cell : ListCell) (n : Int64) (bound line : Nat) :
    m Nat :=
  match Integer.index? n bound with
  | some i => pure i
  | none => fail line (.indexOutOfRange op n cell.items.length)

/-- Puts the items of the list `other` behind those of the list at `id`. -/
def join (id : ListId) (other : Value) (line : Nat) : m Value := do
  let otherId ← orFail line (other.asList ListOperation.join.keyword)
  let cell ← list id
  let added ← list otherId
  if added.contentKind = cell.contentKind then
    let items ← added.items.mapM (detach id)
    setItems id (cell.items ++ items)
    pure (.list id)
  else fail line (.elementMismatch .join cell.contentKind added.contentKind)

/-- Puts `element` behind the items of the list at `id`. -/
def append (id : ListId) (element : Value) (line : Nat) : m Value := do
  let cell ← list id
  checkElement .append cell element line
  let element ← detach id element
  setItems id (cell.items ++ [element])
  pure (.list id)

/-- Puts `element` before the item at position `n` of the list at `id`, or behind all
items where `n` is their number. -/
def insertAt (id : ListId) (element : Value) (n : Int64) (line : Nat) : m Value := do
  let cell ← list id
  checkElement .insertAt cell element line
  let i ← position .insertAt cell n (cell.items.length + 1) line
  let element ← detach id element
  setItems id (cell.items.insertIdx i element)
  pure (.list id)

/-- Removes the item at position `index` of the list at `id`. -/
def removeAt (id : ListId) (index : Value) (line : Nat) : m Value := do
  let n ← orFail line (index.asInt ListOperation.removeAtPosition.keyword)
  let cell ← list id
  let i ← position .removeAtPosition cell n cell.items.length line
  setItems id (cell.items.eraseIdx i)
  pure (.list id)

/-- The item at position `index` of the list at `id`. -/
def getValue (id : ListId) (index : Value) (line : Nat) : m Value := do
  let n ← orFail line (index.asInt ListOperation.getValue.keyword)
  let cell ← list id
  let i ← position .getValue cell n cell.items.length line
  pure (cell.items.getD i default)

/-- The results of `f` on the items, in order. They are all of one kind, which is `kind`
if that is given and the kind of the first result otherwise. -/
def mapItems (f : Value → m Value) (line : Nat) :
    Option Kind → List Value → m (List Value)
  | _, [] => pure []
  | kind, item :: rest => do
    let result ← f item
    let expected := kind.getD result.kind
    if expected = result.kind then
      let results ← mapItems f line (some expected) rest
      pure (result :: results)
    else fail line (.elementMismatch .map expected result.kind)

/-- A new list of the results of `function` on the items of the list at `id`. -/
def map (apply : Value → Value → m Value) (id : ListId) (function : Value)
    (line : Nat) : m Value := do
  orFail line (function.asFunction ListOperation.map.keyword)
  let cell ← list id
  let results ← mapItems (apply function) line none cell.items
  newList ((results.head?.map Value.kind).getD cell.contentKind) results

/-- The items for which `p` gives `true`, in order. -/
def filterItems (p : Value → m Value) (line : Nat) : List Value → m (List Value)
  | [] => pure []
  | item :: rest => do
    let result ← p item
    let keep ← orFail line (result.asBool "ListFilter predicate")
    let kept ← filterItems p line rest
    pure (if keep then item :: kept else kept)

/-- Keeps the items of the list at `id` for which `predicate` gives `true`. -/
def filter (apply : Value → Value → m Value) (id : ListId) (predicate : Value)
    (line : Nat) : m Value := do
  orFail line (predicate.asFunction ListOperation.filter.keyword)
  let cell ← list id
  let kept ← filterItems (apply predicate) line cell.items
  setItems id kept
  pure (.list id)

/-- Whether a function is written as a lambda that gives a lambda. -/
def isCurried (function : Value) : m Bool := do
  match function with
  | .closure id =>
    let c ← closure id
    pure (c.body.tag == .lam)
  | _ => pure false

/-- Combines the items with `acc` from left to right. -/
def foldItems (apply : Value → Value → m Value) (function : Value) :
    Value → List Value → m Value
  | acc, [] => pure acc
  | acc, item :: rest => do
    let step ← apply function acc
    let acc ← apply step item
    foldItems apply function acc rest

/-- Combines the items of the list at `id`, at least two, from left to right. -/
def fold (apply : Value → Value → m Value) (id : ListId) (function : Value)
    (line : Nat) : m Value := do
  orFail line (function.asFunction ListOperation.fold.keyword)
  if ← isCurried function then
    let cell ← list id
    match cell.items with
    | seed :: item :: rest => foldItems apply function seed (item :: rest)
    | items => fail line (.foldSize items.length)
  else fail line .foldShape

/-- An operation with the list as its one operand. -/
def listOp1 (op : ListOperation) (id : ListId) (line : Nat) : m Value := do
  let cell ← list id
  match op with
  | .getSize => pure (.int (Integer.ofSize cell.items.length))
  | .isEmpty => pure (.bool cell.items.isEmpty)
  | op => fail line (.wrongArity op 1)

/-- An operation with the list and one operand more. -/
def listOp2 (apply : Value → Value → m Value) (op : ListOperation) (id : ListId)
    (second : Value) (line : Nat) : m Value :=
  match op with
  | .join => join id second line
  | .append => append id second line
  | .removeAtPosition => removeAt id second line
  | .getValue => getValue id second line
  | .map => map apply id second line
  | .filter => filter apply id second line
  | .fold => fold apply id second line
  | op => fail line (.wrongArity op 2)

/-- An operation with the list and two operands more. -/
def listOp3 (op : ListOperation) (id : ListId) (second : Value) (third : Int64)
    (line : Nat) : m Value :=
  match op with
  | .insertAt => insertAt id second third line
  | op => fail line (.wrongArity op 3)

end ListLang.Eval
