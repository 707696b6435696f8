import ListLang.Proofs.Confinement
import ListLang.Proofs.Recording

/-!
# Only five operations change lists

Joining, appending, removing, inserting and filtering change the list that they are given. All
else that evaluation does to lists is to make new ones. So where neither the expression nor any
function at hand has a node of one of the five operations, the lists that were there stay as
they were, whatever is called and however often.

## Main definitions

* `Store.KeepsLists` — a store with the lists of another as they were.

## Main statements

* `list_eval_of_not_mutates` — evaluation without the five operations keeps all lists.
-/

namespace ListLang

namespace Store

variable {s t u : Store}

/-- `t` has the lists of `s` as they were. -/
structure KeepsLists (s t : Store) : Prop where
  size : s.lists.size ≤ t.lists.size
  same : ∀ id, s.Has (.list id) → t.list id = s.list id

theorem KeepsLists.refl (s : Store) : KeepsLists s s := ⟨Nat.le_refl _, fun _ _ => rfl⟩

theorem KeepsLists.trans (h : KeepsLists s t) (g : KeepsLists t u) : KeepsLists s u where
  size := Nat.le_trans h.size g.size
  same id has := (g.same id (Nat.lt_of_lt_of_le has h.size)).trans (h.same id has)

theorem KeepsLists.of_eq (same : t.lists = s.lists) : KeepsLists s t where
  size := Nat.le_of_eq (by rw [same])
  same id _ := by rw [list, same, ← list]

theorem keepsLists_addList (s : Store) (cell : ListCell) : KeepsLists s (s.addList cell).2 where
  size := by simp
  same _ has := list_addList_of_lt s cell has

end Store

/-! ## Evaluations that spare lists -/

namespace Eval

/-- What an evaluation that starts in `s` does where no node is of the five operations: it
spares the lists of `s`, it makes only functions without such nodes, and its result is as
`Q` says. -/
structure Spares {α : Type} (s : Store) (Q : α → Prop) (r : EStateM.Result Halt Store α) :
    Prop where
  lists : s.KeepsLists (endStore r)
  runs : (endStore r).Runs (¬ ·.mutates)
  result : ∀ a t, r = .ok a t → Q a

namespace Spares

variable {α β : Type} {s : Store} {Q : α → Prop} {R : β → Prop}

theorem ok {t : Store} {a : α} (lists : s.KeepsLists t) (runs : t.Runs (¬ ·.mutates))
    (result : Q a) : Spares s Q (.ok a t) where
  lists := lists
  runs := runs
  result := by
    intro _ _ same
    cases same
    exact result

theorem error (h : Halt) (runs : s.Runs (¬ ·.mutates)) :
    Spares s Q (.error h s : EStateM.Result Halt Store α) where
  lists := .refl s
  runs := runs
  result := nofun

theorem bind {a : Eval α} {f : α → Eval β} (first : Spares s Q (a s))
    (next : ∀ x, Q x → ∀ t, t.Runs (¬ ·.mutates) → Spares t R (f x t)) :
    Spares s R ((a >>= f) s) := by
  change Spares s R (EStateM.bind a f s)
  unfold EStateM.bind
  cases ran : a s with
  | ok x t =>
    rw [ran] at first
    have later := next x (first.result x t rfl) t first.runs
    exact ⟨first.lists.trans later.lists, later.runs, later.result⟩
  | error h t =>
    rw [ran] at first
    exact ⟨first.lists, first.runs, nofun⟩

end Spares

/-- Without nodes of the five operations, evaluation spares lists. -/
def sparing : Confinement Eval where
  node e := ¬ e.mutates
  holds a Q := ∀ s, s.Runs (¬ ·.mutates) → Spares s Q (a s)
  pure result s runs := .ok (.refl s) runs result
  bind first next s runs := (first s runs).bind next
  tooDeep s runs := .error _ runs
  fail _ _ _ s runs := .error _ runs
  wrongArity _ _ _ s runs := .error _ runs
  emptyLiteral _ s runs := .error _ runs
  get s runs := .ok (.refl s) runs trivial
  closure id s runs := .ok (.refl s) runs (runs id)
  newList _ _ s runs := .ok (s.keepsLists_addList _) runs trivial
  newClosure _ _ _ code s runs := .ok (.of_eq rfl) (runs.addClosure code) trivial
  bindSelf recursive name v s runs := by
    unfold bindSelf
    split
    · exact .ok (.of_eq rfl) (runs.bindName _ _ _) trivial
    · exact .ok (.refl s) runs trivial
  deepCopy spares mutates := absurd mutates spares
  setItems spares mutates := absurd mutates spares

end Eval

/-- Evaluation without nodes of the five operations spares lists. -/
theorem spares_eval (depth : Nat) (env : Environment) {e : Expr} (all : e.All (¬ ·.mutates)) :
    Eval.sparing.safe (eval depth env e) := by
  induction depth generalizing env e with
  | zero => exact Eval.sparing.tooDeep
  | succ depth ih =>
    have parts : ∀ env e, e.All (¬ ·.mutates) → Eval.sparing.safe (eval depth env e) :=
      fun env e all => ih env all
    refine Eval.Confinement.evalWith parts env all fun list function line _ id v => ?_
    -- The two checks of a folding are failures like all others.
    have fails : ∀ cause, Eval.sparing.safe (Eval.fail line cause : Eval Value) :=
      fun _ s runs => .error _ runs
    have applies : ∀ f a, Eval.sparing.safe (Eval.applyWith (eval depth) f a line) :=
      fun f a => Eval.Confinement.applyWith parts f a line
    exact Eval.Confinement.fold (applies v) (fun step w _ => applies step w) id line (fails _)
      fun n => fails _

/-- Where neither the expression nor the body of any closure has a node of an operation that
changes lists, evaluation leaves every list as it was, whether it gives a result or not. -/
theorem list_eval_of_not_mutates {e : Expr} {s : Store} (expression : ∀ n ∈ e.nodes, ¬ n.mutates)
    (bodies : ∀ c ∈ s.closures, ∀ n ∈ c.body.nodes, ¬ n.mutates) (depth : Nat)
    (env : Environment) {id : ListId} (has : s.Has (.list id)) :
    (Eval.endStore (eval depth env e s)).list id = s.list id := by
  have runs : s.Runs (¬ ·.mutates) := Store.runs_of_closures (by decide) bodies
  exact (spares_eval depth env expression s runs).lists.same id has

/-- A list of two numbers and a function that doubles a number. -/
def doubler : Store :=
  ⟨#[⟨.int, [.int 1, .int 2]⟩], #[⟨.empty, "n", .binary .add (.var "n" 1) (.var "n" 1) 1⟩]⟩

/-- The sum of what `f` makes of the items of the list that the recursive function gives. -/
def sumOfMapped : Expr :=
  .letIn true "list"
    (.lam "n" none (.cond (.binary .equality (.var "n" 1) (.literal (.integer 0) 1) 1) (.var "l" 1)
      (.app (.var "list" 1) (.binary .sub (.var "n" 1) (.literal (.integer 1) 1) 1) 1) 1) 1)
    (.listOp2 .fold
      (.listOp2 .map (.app (.var "list" 1) (.literal (.integer 2) 1) 1) (.var "f" 1) 1)
      (.lam "a" none (.lam "x" none (.binary .add (.var "a" 1) (.var "x" 1) 1) 1) 1) 1) 1

/-- Recursion, mapping and folding leave the list as it was. -/
theorem list_eval_of_not_mutates_sum :
    (eval 12 ⟨[("l", .list ⟨0⟩), ("f", .closure ⟨0⟩)]⟩ sumOfMapped).run' doubler = some (.int 6) ∧
      (Eval.endStore (eval 12 ⟨[("l", .list ⟨0⟩), ("f", .closure ⟨0⟩)]⟩ sumOfMapped doubler)).list
        ⟨0⟩ = ⟨.int, [.int 1, .int 2]⟩ :=
  ⟨by decide +kernel, list_eval_of_not_mutates (by decide) (by decide) 12 _ (by decide)⟩

end ListLang
