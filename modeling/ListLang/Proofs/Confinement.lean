import ListLang.Eval.Expr
import ListLang.Proofs.Containment
import ListLang.Proofs.Trees

/-!
# What evaluation does at which nodes

Evaluation meets the nodes of the expression and those of the bodies of closures, and what it
does to the store, or fails for, it does at a node. A change of a list takes a node of an
operation that changes lists, and a failure for a wrong number of operands takes a node that has
it. So a property of computations that these few steps have, as far as the nodes at hand can
make them, is a property of every evaluation of expressions with such nodes.

The walk over the forms of expressions takes the calls of functions as given, because it needs
them for functions only. Foldings stand apart: their own two checks may fail for any expression,
and their second calls are of what the first ones give.

## Main definitions

* `Expr.All`, `Store.Runs` — all nodes of an expression, or of the bodies of closures, are of a
  sort.
* `Expr.mutates` — the nodes at which evaluation changes a list.
* `Eval.evalBy` — evaluation with its calls of functions taken as given.
* `Eval.Confinement` — a property of what evaluation does at nodes of a sort.

## Main statements

* `Eval.evalBy_applyWith` — with the calls that evaluation makes, that is evaluation.
* `Eval.Confinement.evalBy` — the property holds of an evaluation where it holds of the
  evaluations of parts and of the calls of functions.
-/

namespace ListLang

/-! ## Nodes -/

/-- Whether the operation changes its list. -/
def ListOperation.mutates : ListOperation → Bool
  | join | append | removeAtPosition | insertAt | filter => true
  | getSize | isEmpty | getValue | map | fold => false

namespace Expr

/-- All nodes of the expression are of the sort `P`. -/
def All (P : Expr → Prop) (e : Expr) : Prop := ∀ n ∈ e.nodes, P n

instance (P : Expr → Prop) [DecidablePred P] (e : Expr) : Decidable (e.All P) :=
  inferInstanceAs (Decidable (∀ n ∈ e.nodes, P n))

/-- The expressions right inside an expression. -/
@[simp] def children : Expr → List Expr
  | literal .. | var .. => []
  | lam _ _ body _ => [body]
  | app function argument _ => [function, argument]
  | cond condition consequent alternative _ => [condition, consequent, alternative]
  | binary _ left right _ => [left, right]
  | letIn _ _ value body _ => [value, body]
  | list _ elements _ => elements
  | listOp1 _ first _ => [first]
  | listOp2 _ first second _ => [first, second]
  | listOp3 _ first second third _ => [first, second, third]

theorem nodes_eq (e : Expr) : e.nodes = e :: e.children.flatMap nodes := by
  cases e <;> simp [nodes, allNodes_eq_flatMap]

/-- The operation of a node with the number of operands that the node has. -/
def operation? : Expr → Option (ListOperation × Nat)
  | listOp1 op _ _ => some (op, 1)
  | listOp2 op _ _ _ => some (op, 2)
  | listOp3 op _ _ _ _ => some (op, 3)
  | _ => none

/-- Whether the node is of an operation that changes its list. -/
def mutates (e : Expr) : Bool := e.operation?.any (·.1.mutates)

variable {P : Expr → Prop} {e : Expr}

theorem All.root (all : e.All P) : P e := root_of_nodes all

theorem All.child (all : e.All P) {p : Expr} (mem : p ∈ e.children) : p.All P := by
  intro n node
  refine all n ?_
  rw [nodes_eq]
  exact List.mem_cons_of_mem _ (List.mem_flatMap.mpr ⟨p, mem, node⟩)

end Expr

namespace Store

variable {s : Store}

/-- All closures have bodies of the sort `P`. -/
def Runs (P : Expr → Prop) (s : Store) : Prop := ∀ id, (s.closure id).body.All P

theorem Runs.addClosure {P : Expr → Prop} (h : s.Runs P) {c : Closure} (new : c.body.All P) :
    (s.addClosure c).2.Runs P := by
  intro id
  rw [closure_addClosure_eq]
  split
  · exact new
  · exact h id

theorem body_bindName (s : Store) (id other : ClosureId) (name : String) (v : Value) :
    ((s.bindName id name v).closure other).body = (s.closure other).body := by
  by_cases same : other = id
  · subst same
    by_cases old : other.index < s.closures.size
    · rw [closure_bindName s name v old]
    · rw [closure_of_size_le (by simpa using old), closure_of_size_le (Nat.not_lt.mp old)]
  · rw [closure_bindName_of_ne s name v same]

theorem Runs.bindName {P : Expr → Prop} (h : s.Runs P) (id : ClosureId) (name : String)
    (v : Value) : (s.bindName id name v).Runs P := by
  intro other
  rw [body_bindName]
  exact h other

theorem runs_of_closures {P : Expr → Prop} (default : (default : Closure).body.All P)
    (all : ∀ c ∈ s.closures, c.body.All P) : s.Runs P := by
  intro id
  by_cases old : id.index < s.closures.size
  · have found : s.closure id = s.closures[id.index] := by simp [closure, old]
    rw [found]
    exact all _ (Array.getElem_mem old)
  · rw [closure_of_size_le (Nat.not_lt.mp old)]
    exact default

end Store

/-! ## Failures that are not of shapes -/

/-- The result is no failure of arity or shape. -/
def Shapely {α : Type} (r : Except EvalError.Cause α) : Prop :=
  ∀ cause, r = .error cause → cause.category ≠ .arityOrShape

namespace Shapely

variable {α : Type} (v w : Value) (context : String)

theorem ok (a : α) : Shapely (.ok a) := nofun

theorem error {cause : EvalError.Cause} (other : cause.category ≠ .arityOrShape) :
    Shapely (.error cause : Except EvalError.Cause α) := by
  rintro _ ⟨⟩
  exact other

theorem asInt : Shapely (v.asInt context) := by
  cases v with
  | int n => exact ok n
  | _ => exact error nofun

theorem asBool : Shapely (v.asBool context) := by
  cases v with
  | bool b => exact ok b
  | _ => exact error nofun

theorem asString : Shapely (v.asString context) := by
  cases v with
  | string s => exact ok s
  | _ => exact error nofun

theorem asList : Shapely (v.asList context) := by
  cases v with
  | list id => exact ok id
  | _ => exact error nofun

theorem asFunction : Shapely (v.asFunction context) := by
  unfold Value.asFunction
  split
  · exact ok _
  · exact error nofun

theorem arithmetic (op : Operator) (a b : Int64) : Shapely (op.arithmetic a b) := by
  unfold Operator.arithmetic
  split
  · exact error nofun
  · split
    · exact ok _
    · exact error nofun

theorem operator (op : Operator) : Shapely (op.apply v w) := by
  unfold Operator.apply
  split
  case _ | _ | _ | _ => exact ok _
  case _ | _ | _ | _ | _ => exact arithmetic _ _ _
  case _ => exact error nofun

theorem bind {β : Type} {r : Except EvalError.Cause α} {f : α → Except EvalError.Cause β}
    (first : Shapely r) (next : ∀ a, Shapely (f a)) : Shapely (r >>= f) := by
  cases r with
  | ok a => exact next a
  | error cause => exact error (first cause rfl)

theorem builtin (b : Builtin) : Shapely (b.apply v) := by
  cases b with
  | firstChar | remainingChars => exact bind (asString _ _) fun _ => ok _
  | charCode =>
    refine bind (asString _ _) fun s => ?_
    split
    · exact error nofun
    · exact ok _
  | codeChar =>
    refine bind (asInt _ _) fun n => ?_
    split
    · exact ok _
    · exact error nofun

end Shapely

namespace Eval

/-! ## Calls as given -/

section Calls

variable {m : Type → Type} [Monad m] [MonadStateOf Store m] [MonadExceptOf Halt m]
  (eval : Environment → Expr → m Value)

/-- The value of an expression, with `eval` for the expressions inside it and `apply` for the
calls of functions on arguments, which are made from a line. -/
def evalBy (apply : Value → Value → Nat → m Value) (env : Environment) : Expr → m Value
  | .app function argument line => do
    let f ← eval env function
    if f.kind = .function then
      let a ← eval env argument
      apply f a line
    else fail line (.notAFunction f.kind)
  | .listOp2 op first second line => do
    checkArity op 2 line
    let v ← eval env first
    let id ← orFail line (v.asList op.keyword)
    let second ← eval env second
    listOp2 (apply · · line) op id second line
  | e => evalWith eval env e

theorem evalBy_applyWith (env : Environment) (e : Expr) :
    evalBy eval (applyWith eval) env e = evalWith eval env e := by
  cases e <;> rfl

end Calls

/-! ## Confinements -/

/-- A property of computations that evaluation has at nodes of a sort, with what is known of
their results. -/
structure Confinement (m : Type → Type)
    [Monad m] [MonadStateOf Store m] [MonadExceptOf Halt m] where
  /-- The nodes that evaluation meets. -/
  node : Expr → Prop
  holds : {α : Type} → m α → (α → Prop) → Prop
  pure : ∀ {α : Type} {Q : α → Prop} {a : α}, Q a → holds (Pure.pure a) Q
  bind : ∀ {α β : Type} {a : m α} {f : α → m β} {Q : α → Prop} {R : β → Prop},
    holds a Q → (∀ x, Q x → holds (f x) R) → holds (a >>= f) R
  -- Halts
  tooDeep : ∀ {α : Type} {Q : α → Prop}, holds (throw .tooDeep) Q
  fail : ∀ {α : Type} {Q : α → Prop} (line : Nat) {cause : EvalError.Cause},
    cause.category ≠ .arityOrShape → holds (fail line cause) Q
  wrongArity : ∀ {α : Type} {Q : α → Prop} {e : Expr} {op : ListOperation} {given : Nat},
    node e → e.operation? = some (op, given) → op.arity ≠ given →
    holds (Eval.fail e.line (.wrongArity op given)) Q
  emptyLiteral : ∀ {α : Type} {Q : α → Prop} {tag : Tag} {line : Nat},
    node (.list tag [] line) → holds (Eval.fail line .emptyLiteral) Q
  -- Steps on the store
  get : holds (get : m Store) fun _ => True
  closure : ∀ id, holds (closure id) fun c => c.body.All node
  newList : ∀ kind items, holds (newList kind items) fun _ => True
  newClosure : ∀ env param {body : Expr}, body.All node →
    holds (newClosure env param body) fun _ => True
  bindSelf : ∀ recursive name v, holds (bindSelf recursive name v) fun _ => True
  deepCopy : ∀ {e : Expr}, node e → e.mutates → ∀ id,
    holds (modifyGet fun s => s.deepCopy id) fun _ => True
  setItems : ∀ {e : Expr}, node e → e.mutates → ∀ id items,
    holds (setItems id items) fun _ => True

namespace Confinement

variable {m : Type → Type} [Monad m] [MonadStateOf Store m] [MonadExceptOf Halt m]
  (C : Confinement m)

/-- The property holds, whatever the result. -/
def safe {α : Type} (a : m α) : Prop := C.holds a fun _ => True

variable {C} {α β : Type}

theorem safe_bind {a : m α} {f : α → m β} (first : C.safe a) (next : ∀ x, C.safe (f x)) :
    C.safe (a >>= f) :=
  C.bind first fun x _ => next x

theorem safe_pure (a : α) : C.safe (Pure.pure a : m α) := C.pure trivial

theorem safe_ite {p : Prop} [Decidable p] {a b : m α} (pos : C.safe a) (neg : C.safe b) :
    C.safe (if p then a else b) := by
  split <;> assumption

theorem orFail {r : Except EvalError.Cause α} (line : Nat) (shapely : Shapely r) :
    C.safe (orFail line r : m α) := by
  cases r with
  | ok a => exact safe_pure a
  | error cause => exact C.fail line (shapely cause rfl)

/-! ## List operations -/

theorem list (id : ListId) : C.safe (list id : m ListCell) :=
  safe_bind C.get fun _ => safe_pure _

theorem checkElement (op : ListOperation) (cell : ListCell) (v : Value) (line : Nat) :
    C.safe (checkElement op cell v line : m Unit) :=
  safe_ite (safe_pure _) (C.fail line nofun)

theorem position (op : ListOperation) (cell : ListCell) (n : Int64) (bound line : Nat) :
    C.safe (position op cell n bound line : m Nat) := by
  unfold Eval.position
  split
  · exact safe_pure _
  · exact C.fail line nofun

theorem getValue (id : ListId) (index : Value) (line : Nat) :
    C.safe (getValue id index line : m Value) :=
  safe_bind (orFail line (.asInt _ _)) fun _ => safe_bind (list _) fun _ =>
    safe_bind (position _ _ _ _ _) fun _ => safe_pure _

section Mutation

variable {e : Expr} (node : C.node e) (mutates : e.mutates)

include node mutates

theorem detach (target : ListId) (v : Value) : C.safe (detach target v : m Value) := by
  cases v with
  | list id =>
    exact safe_bind C.get fun s => safe_ite
      (safe_ite (safe_bind (C.deepCopy node mutates id) fun _ => safe_pure _) (safe_pure _))
      C.tooDeep
  | _ => exact safe_pure _

theorem detachAll (target : ListId) (vs acc : List Value) :
    C.safe (List.mapM.loop (Eval.detach target) vs acc : m (List Value)) := by
  induction vs generalizing acc with
  | nil => exact safe_pure _
  | cons v vs ih => exact safe_bind (detach node mutates target v) fun w => ih (w :: acc)

theorem join (id : ListId) (other : Value) (line : Nat) :
    C.safe (join id other line : m Value) :=
  safe_bind (orFail line (.asList _ _)) fun _ => safe_bind (list _) fun _ =>
    safe_bind (list _) fun _ =>
      safe_ite (safe_bind (detachAll node mutates id _ []) fun _ =>
        safe_bind (C.setItems node mutates _ _) fun _ => safe_pure _) (C.fail line nofun)

theorem append (id : ListId) (v : Value) (line : Nat) : C.safe (append id v line : m Value) :=
  safe_bind (list _) fun _ => safe_bind (checkElement _ _ _ _) fun _ =>
    safe_bind (detach node mutates _ _) fun _ =>
      safe_bind (C.setItems node mutates _ _) fun _ => safe_pure _

theorem insertAt (id : ListId) (v : Value) (n : Int64) (line : Nat) :
    C.safe (insertAt id v n line : m Value) :=
  safe_bind (list _) fun _ => safe_bind (checkElement _ _ _ _) fun _ =>
    safe_bind (position _ _ _ _ _) fun _ => safe_bind (detach node mutates _ _) fun _ =>
      safe_bind (C.setItems node mutates _ _) fun _ => safe_pure _

theorem removeAt (id : ListId) (index : Value) (line : Nat) :
    C.safe (removeAt id index line : m Value) :=
  safe_bind (orFail line (.asInt _ _)) fun _ => safe_bind (list _) fun _ =>
    safe_bind (position _ _ _ _ _) fun _ =>
      safe_bind (C.setItems node mutates _ _) fun _ => safe_pure _

end Mutation

theorem mapItems {g : Value → m Value} (applies : ∀ v, C.safe (g v)) (line : Nat)
    (kind : Option Kind) (items : List Value) : C.safe (mapItems g line kind items) := by
  induction items generalizing kind with
  | nil => exact safe_pure _
  | cons v vs ih =>
    exact safe_bind (applies v) fun _ =>
      safe_ite (safe_bind (ih _) fun _ => safe_pure _) (C.fail line nofun)

theorem filterItems {g : Value → m Value} (applies : ∀ v, C.safe (g v)) (line : Nat)
    (items : List Value) : C.safe (filterItems g line items) := by
  induction items with
  | nil => exact safe_pure _
  | cons v vs ih =>
    exact safe_bind (applies v) fun _ => safe_bind (orFail line (.asBool _ _)) fun _ =>
      safe_bind ih fun _ => safe_pure _

section Folding

variable {apply : Value → Value → m Value} {function : Value} {Q : Value → Prop}
  (first : ∀ acc, C.holds (apply function acc) Q)
  (second : ∀ step v, Q step → C.safe (apply step v))

include first second

theorem foldItems (acc : Value) (items : List Value) :
    C.safe (foldItems apply function acc items) := by
  induction items generalizing acc with
  | nil => exact safe_pure _
  | cons v vs ih =>
    exact C.bind (first acc) fun step good => safe_bind (second step v good) fun _ => ih _

/-- Folding, where its own two checks may fail. -/
theorem fold (id : ListId) (line : Nat) (shape : C.safe (Eval.fail line .foldShape : m Value))
    (size : ∀ n, C.safe (Eval.fail line (.foldSize n) : m Value)) :
    C.safe (fold apply id function line) := by
  have curried : C.safe (isCurried function : m Bool) := by
    cases function with
    | closure id => exact C.bind (C.closure id) fun _ _ => safe_pure _
    | _ => exact safe_pure _
  refine safe_bind (orFail line (.asFunction _ _)) fun _ => safe_bind curried fun _ =>
    safe_ite (safe_bind (list _) fun cell => ?_) shape
  split
  · exact foldItems first second _ _
  · exact size _

end Folding

theorem asFunction (v : Value) (context : String) (line : Nat) :
    C.holds (Eval.orFail line (v.asFunction context) : m Unit) fun _ => v.kind = .function := by
  unfold Value.asFunction
  split
  · next function => exact C.pure function
  · exact C.fail line nofun

/-- An operation on two operands. The operations with another number of operands do not get
here. -/
theorem listOp2 {apply : Value → Value → m Value}
    (applies : ∀ f v, f.kind = .function → C.safe (apply f v)) {e : Expr} {op : ListOperation}
    (node : C.node e) (form : e.operation? = some (op, 2)) (arity : op.arity = 2) (id : ListId)
    (second : Value) (line : Nat) (fold : op = .fold → C.safe (Eval.fold apply id second line)) :
    C.safe (listOp2 apply op id second line) := by
  have mutates : op.mutates → e.mutates := fun h => by simpa [Expr.mutates, form] using h
  cases op with
  | join => exact join node (mutates rfl) _ _ _
  | append => exact append node (mutates rfl) _ _ _
  | removeAtPosition => exact removeAt node (mutates rfl) _ _ _
  | getValue => exact getValue _ _ _
  | map =>
    exact C.bind (asFunction _ _ _) fun _ function => safe_bind (list _) fun cell =>
      safe_bind (mapItems (fun v => applies second v function) line none cell.items) fun _ =>
        C.newList _ _
  | filter =>
    exact C.bind (asFunction _ _ _) fun _ function => safe_bind (list _) fun cell =>
      safe_bind (filterItems (fun v => applies second v function) line cell.items) fun _ =>
        safe_bind (C.setItems node (mutates rfl) _ _) fun _ => safe_pure _
  | fold => exact fold rfl
  | getSize | isEmpty | insertAt => cases arity

/-! ## Expressions -/

theorem checkArity {e : Expr} {op : ListOperation} {given : Nat} (node : C.node e)
    (form : e.operation? = some (op, given)) :
    C.holds (checkArity op given e.line : m Unit) fun _ => op.arity = given := by
  unfold Eval.checkArity
  split
  · next arity => exact C.pure arity
  · next other => exact C.wrongArity node form other

section Parts

variable {f : Environment → Expr → m Value} (parts : ∀ env e, e.All C.node → C.safe (f env e))

include parts

theorem applyWith (function argument : Value) (line : Nat) :
    C.safe (applyWith f function argument line) := by
  cases function with
  | closure id => exact C.bind (C.closure id) fun c code => parts _ c.body code
  | builtin b => exact orFail line (.builtin _ _)
  | _ => exact C.fail line nofun

theorem elementsWith (env : Environment) {es : List Expr} (all : ∀ e ∈ es, e.All C.node) :
    C.holds (elementsWith (f env) es) fun vs => vs.length = es.length := by
  induction es with
  | nil => exact C.pure rfl
  | cons e es ih =>
    obtain ⟨first, rest⟩ := List.forall_mem_cons.mp all
    unfold Eval.elementsWith
    split
    · refine C.bind (parts env e first) fun v _ => C.bind (ih rest) fun vs length => C.pure ?_
      simp [length]
    · exact C.fail _ nofun

/-- What holds of the evaluations of the parts of an expression and of the calls of functions
holds of the evaluation of the expression, provided it does of foldings. -/
theorem evalBy {apply : Value → Value → Nat → m Value}
    (applies : ∀ f v line, f.kind = .function → C.safe (apply f v line)) (env : Environment)
    {e : Expr} (all : e.All C.node)
    (fold : ∀ list function line, e = .listOp2 .fold list function line →
      ∀ id v, C.safe (Eval.fold (apply · · line) id v line)) : C.safe (evalBy f apply env e) := by
  have part : ∀ {p : Expr}, p ∈ e.children → C.safe (f env p) :=
    fun mem => parts env _ (all.child mem)
  have node := all.root
  cases e with
  | literal => exact safe_pure _
  | var name line =>
    simp only [Eval.evalBy, Eval.evalWith]
    split
    · exact safe_pure _
    · exact C.fail line fun category => by cases category
  | lam => exact C.newClosure _ _ (all.child (by simp))
  | app function argument line =>
    refine safe_bind (part (by simp)) fun v => ?_
    split
    · next kind =>
      exact safe_bind (part (by simp)) fun w => applies v w line kind
    · exact C.fail line fun category => by cases category
  | cond condition consequent alternative line =>
    exact safe_bind (part (by simp)) fun _ =>
      safe_bind (orFail line (.asBool _ _)) fun _ =>
        safe_ite (part (by simp)) (part (by simp))
  | binary op left right line =>
    exact safe_bind (part (by simp)) fun _ =>
      safe_bind (part (by simp)) fun _ => orFail line (.operator _ _ _)
  | letIn recursive name value body line =>
    exact safe_bind (part (by simp)) fun v =>
      safe_bind (C.bindSelf _ _ v) fun _ => parts _ body (all.child (by simp))
  | list tag elements line =>
    refine C.bind (elementsWith parts env fun p mem => all.child mem) fun vs length => ?_
    cases vs with
    | cons => exact C.newList _ _
    | nil =>
      -- Every element has a value, so there is no value only where there is no element.
      obtain rfl : elements = [] := List.length_eq_zero_iff.mp length.symm
      exact C.emptyLiteral node
  | listOp1 op first line =>
    refine C.bind (checkArity node rfl) fun _ arity => ?_
    refine safe_bind (part (by simp)) fun _ =>
      safe_bind (orFail line (.asList _ _)) fun _ => safe_bind (list _) fun _ => ?_
    cases op with
    | getSize | isEmpty => exact safe_pure _
    | _ => cases arity
  | listOp2 op first second line =>
    refine C.bind (checkArity node rfl) fun _ arity => ?_
    refine safe_bind (part (by simp)) fun _ =>
      safe_bind (orFail line (.asList _ _)) fun id =>
        safe_bind (part (by simp)) fun v => ?_
    refine listOp2 (fun f a kind => applies f a line kind) node rfl arity id v line ?_
    rintro rfl
    exact fold first second line rfl id v
  | listOp3 op first second third line =>
    refine C.bind (checkArity node rfl) fun _ arity => ?_
    refine safe_bind (part (by simp)) fun _ =>
      safe_bind (orFail line (.asList _ _)) fun id =>
        safe_bind (part (by simp)) fun v =>
          safe_bind (part (by simp)) fun _ =>
            safe_bind (orFail line (.asInt _ _)) fun n => ?_
    cases op with
    | insertAt => exact insertAt node rfl _ _ _ _
    | _ => cases arity

/-- What holds of the evaluations of the parts of an expression and of the bodies of closures
holds of the evaluation of the expression, provided it does of foldings. -/
theorem evalWith (env : Environment) {e : Expr} (all : e.All C.node)
    (fold : ∀ list function line, e = .listOp2 .fold list function line →
      ∀ id v, C.safe (Eval.fold (Eval.applyWith f · · line) id v line)) :
    C.safe (evalWith f env e) := by
  rw [← evalBy_applyWith]
  exact evalBy parts (fun v w line _ => applyWith parts v w line) env all fold

end Parts

end Confinement

end Eval

end ListLang
