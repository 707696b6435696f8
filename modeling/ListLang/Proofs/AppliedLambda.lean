import ListLang.Proofs.Dependence
import ListLang.Proofs.Transport

/-!
# A plain `let` is an applied lambda

Binding a name by `let` and applying a lambda to the value end alike. The lambda becomes a
closure before the value is evaluated, so that the closures made from then on stand one place
further. Nothing leads to the closure of the lambda, and nothing else differs.

## Main definitions

* `ClosureId.past` — a numbering of closures that leaves one place out.
* `Store.Spare` — a store and the store with one closure more.
* `Store.Refers` — from lists to their items, and from closures to what they capture.

## Main statements

* `Store.Spare.transport` — evaluation with one closure more.
* `Store.Spare.not_reflTransGen` — nothing leads to a closure that was put in.
* `eval_letIn_app` — a `let` and the applied lambda end alike.
-/

namespace ListLang

open Renumberable
open Relation (ReflTransGen)
open Renaming (Ends ends_eval)

/-! ## Leaving a place out -/

namespace ClosureId

/-- The place `id` if that is before `n`, and the one behind it otherwise. -/
def past (n : Nat) (id : ClosureId) : ClosureId := if id.index < n then id else ⟨id.index + 1⟩

variable {n : Nat} {id : ClosureId}

theorem past_of_lt (before : id.index < n) : past n id = id := if_pos before

theorem past_of_le (behind : n ≤ id.index) : past n id = ⟨id.index + 1⟩ :=
  if_neg (Nat.not_lt.mpr behind)

theorem past_ne (n : Nat) (id : ClosureId) : past n id ≠ ⟨n⟩ := by
  rcases Nat.lt_or_ge id.index n with before | behind
  · rw [past_of_lt before]
    rintro rfl
    exact Nat.lt_irrefl _ before
  · rw [past_of_le behind]
    exact fun same => Nat.ne_of_gt (Nat.lt_succ_of_le behind) (congrArg index same)

theorem past_injective (n : Nat) : Function.Injective (past n) := by
  rintro ⟨i⟩ ⟨j⟩ same
  unfold past at same
  split at same <;> split at same <;> grind

/-- Every other place is used. -/
theorem exists_past_eq (ne : id ≠ ⟨n⟩) : ∃ old, past n old = id := by
  obtain ⟨i⟩ := id
  have ne : i ≠ n := fun same => ne (congrArg _ same)
  by_cases before : i < n
  · exact ⟨⟨i⟩, past_of_lt before⟩
  · refine ⟨⟨i - 1⟩, ?_⟩
    rw [past_of_le (by dsimp only; omega)]
    exact congrArg ClosureId.mk (by dsimp only; omega)

end ClosureId

open ClosureId (past past_of_lt past_of_le past_ne past_injective exists_past_eq)

theorem renumber_past_ne (n : Nat) (v : Value) : renumber (past n) v ≠ .closure ⟨n⟩ := by
  cases v with
  | closure id => exact fun same => past_ne n id (Value.closure.inj same)
  | _ => exact Value.noConfusion

namespace Store

variable {n : Nat} {c : Closure} {s t : Store}

/-- Places before the next one stay as they are. -/
theorem Has.renumber_past {v : Value} (has : s.Has v) :
    renumber (past s.closures.size) v = v := by
  cases v with
  | closure id => exact congrArg Value.closure (past_of_lt has)
  | _ => rfl

theorem closure_addClosure_of_ne {d : Closure} {id : ClosureId} (ne : id ≠ ⟨s.closures.size⟩) :
    (s.addClosure d).2.closure id = s.closure id := by
  rw [closure_addClosure_eq, if_neg fun same => ne (congrArg ClosureId.mk same)]

/-! ## One closure more -/

/-- The store `t` is `s` with the closure `c` put in at place `n`, where the closures from there
on move up by one place and what mentions them follows. -/
structure Spare (n : Nat) (c : Closure) (s t : Store) : Prop where
  bound : n ≤ s.closures.size
  lists_size : t.lists.size = s.lists.size
  closures_size : t.closures.size = s.closures.size + 1
  list : ∀ id, t.list id = renumber (past n) (s.list id)
  closure : ∀ id, t.closure (past n id) = renumber (past n) (s.closure id)
  spare : t.closure ⟨n⟩ = c

namespace Spare

/-- A closure added to a store in which nothing mentions its place. -/
theorem addClosure_self (valid : s.Valid) (c : Closure) :
    Spare s.closures.size c s (s.addClosure c).2 where
  bound := Nat.le_refl _
  lists_size := rfl
  closures_size := size_addClosure s c
  list id := by
    have same : renumber (past s.closures.size) (s.list id).items = (s.list id).items :=
      renumber_eq_self fun v mem => (valid.items id v mem).renumber_past
    exact (congrArg (ListCell.mk (s.list id).contentKind) same).symm
  closure id := by
    rcases Nat.lt_or_ge id.index s.closures.size with old | new
    · have same : renumber (past s.closures.size) (s.closure id).env = (s.closure id).env :=
        Environment.renumber_eq_self fun b mem => (valid.captured id b mem).renumber_past
      rw [past_of_lt old, closure_addClosure_of_lt s c old]
      exact (congrArg (Closure.mk · _ _) same).symm
    · rw [past_of_le new, closure_of_size_le new, closure_of_size_le (by simpa using new)]
      rfl
  spare := closure_addClosure s c

variable (h : Spare n c s t)

include h

theorem place : (⟨t.closures.size⟩ : ClosureId) = past n ⟨s.closures.size⟩ := by
  rw [h.closures_size]
  exact Eq.symm (past_of_le h.bound)

theorem index_past_lt (id : ClosureId) :
    (past n id).index < t.closures.size ↔ id.index < s.closures.size := by
  have bound := h.bound
  rw [h.closures_size]
  rcases Nat.lt_or_ge id.index n with before | behind
  · rw [past_of_lt before]
    omega
  · rw [past_of_le behind]
    exact Nat.succ_lt_succ_iff

theorem addList (cell : ListCell) :
    Spare n c (s.addList cell).2 (t.addList (renumber (past n) cell)).2 where
  bound := h.bound
  lists_size := by simp [h.lists_size]
  closures_size := h.closures_size
  list id := by
    rw [list_addList_eq, list_addList_eq, h.lists_size]
    split
    · rfl
    · exact h.list id
  closure := h.closure
  spare := h.spare

theorem addClosure (d : Closure) :
    Spare n c (s.addClosure d).2 (t.addClosure (renumber (past n) d)).2 where
  bound := by simpa using Nat.le_succ_of_le h.bound
  lists_size := h.lists_size
  closures_size := by simp [h.closures_size]
  list := h.list
  closure id := by
    by_cases new : id = ⟨s.closures.size⟩
    · subst new
      rw [← h.place]
      exact (closure_addClosure t _).trans (congrArg _ (closure_addClosure s d).symm)
    · have other : past n id ≠ ⟨t.closures.size⟩ := by
        rw [h.place]
        exact fun same => new (past_injective n same)
      rw [closure_addClosure_of_ne other, closure_addClosure_of_ne new]
      exact h.closure id
  spare := by
    have other : (⟨n⟩ : ClosureId) ≠ ⟨t.closures.size⟩ := by
      rw [h.place]
      exact (past_ne n _).symm
    rw [closure_addClosure_of_ne other]
    exact h.spare

theorem setItems (id : ListId) (items : List Value) :
    Spare n c (s.setItems id items) (t.setItems id (renumber (past n) items)) where
  bound := h.bound
  lists_size := by simp [h.lists_size]
  closures_size := h.closures_size
  list other := by
    by_cases same : other = id
    · subst same
      rcases Nat.lt_or_ge other.index s.lists.size with old | new
      · rw [list_setItems s items old, list_setItems t _ (h.lists_size ▸ old), h.list]
        rfl
      · rw [list_of_size_le (by simpa [h.lists_size] using new),
          list_of_size_le (by simpa using new)]
        rfl
    · rw [list_setItems_of_ne s items same, list_setItems_of_ne t _ same]
      exact h.list other
  closure := h.closure
  spare := h.spare

theorem bindName (id : ClosureId) (name : String) (v : Value) :
    Spare n c (s.bindName id name v) (t.bindName (past n id) name (renumber (past n) v)) where
  bound := by simpa using h.bound
  lists_size := h.lists_size
  closures_size := by simp [h.closures_size]
  list := h.list
  closure other := by
    by_cases same : other = id
    · subst same
      by_cases old : other.index < s.closures.size
      · rw [closure_bindName s name v old,
          closure_bindName t name _ ((h.index_past_lt other).mpr old), h.closure]
        rfl
      · have old' := mt (h.index_past_lt other).mp old
        rw [closure_of_size_le (by simpa using old'), closure_of_size_le (by simpa using old)]
        rfl
    · rw [closure_bindName_of_ne s name v same,
        closure_bindName_of_ne t name _ fun eq => same (past_injective n eq)]
      exact h.closure other
  spare := by
    rw [closure_bindName_of_ne t name _ (past_ne n id).symm]
    exact h.spare

end Spare

/-- Evaluation with one closure more. -/
def Spare.transport (n : Nat) (c : Closure) : Transport .identity (past n) where
  rel := Spare n c
  size h := h.lists_size
  list h := h.list
  place h := h.place
  closure h id := by
    rw [Relabelling.identity_carry]
    exact h.closure id
  addList h := h.addList
  addClosure h d := by
    rw [Relabelling.identity_carry]
    exact h.addClosure d
  setItems h := h.setItems
  bindName h := h.bindName

/-! ## What refers to a closure -/

/-- From a list to its items, and from a closure to what it captures. -/
inductive Refers (s : Store) : Value → Value → Prop where
  | item {id : ListId} {v : Value} : v ∈ (s.list id).items → Refers s (.list id) v
  | captured {id : ClosureId} {b : String × Value} : b ∈ (s.closure id).env.bindings →
    Refers s (.closure id) b.2

theorem Spare.ne_of_refers (h : Spare n c s t) (own : ∀ b ∈ c.env.bindings, b.2 ≠ .closure ⟨n⟩)
    {v w : Value} (refers : t.Refers v w) : w ≠ .closure ⟨n⟩ := by
  cases refers with
  | @item id v mem =>
    rw [h.list] at mem
    obtain ⟨v, -, rfl⟩ := List.mem_map.mp mem
    exact renumber_past_ne n v
  | @captured id b mem =>
    by_cases spare : id = ⟨n⟩
    · rw [spare, h.spare] at mem
      exact own b mem
    · obtain ⟨old, rfl⟩ := exists_past_eq spare
      rw [h.closure] at mem
      obtain ⟨b, -, rfl⟩ := List.mem_map.mp mem
      exact renumber_past_ne n b.2

/-- Nothing leads to the closure that was put in, but that closure itself. -/
theorem Spare.eq_of_reflTransGen (h : Spare n c s t)
    (own : ∀ b ∈ c.env.bindings, b.2 ≠ .closure ⟨n⟩) {v : Value}
    (path : ReflTransGen t.Refers v (.closure ⟨n⟩)) : v = .closure ⟨n⟩ := by
  cases path with
  | refl => rfl
  | tail _ last => exact absurd rfl (h.ne_of_refers own last)

theorem Has.ne_next {v : Value} (has : s.Has v) : v ≠ .closure ⟨s.closures.size⟩ := by
  rintro rfl
  exact Nat.lt_irrefl _ has

/-- Neither what was there before the closure nor what has other places leads to it. -/
theorem Spare.not_reflTransGen {base : Store} (h : Spare base.closures.size c s t)
    (own : ∀ b ∈ c.env.bindings, base.Has b.2) {v w : Value}
    (root : w = renumber (past base.closures.size) v ∨ base.Has w) :
    ¬ ReflTransGen t.Refers w (.closure ⟨base.closures.size⟩) := by
  intro path
  have reached := h.eq_of_reflTransGen (fun b mem => (own b mem).ne_next) path
  obtain rfl | old := root
  · exact renumber_past_ne _ v reached
  · exact old.ne_next reached

end Store

/-! ## Binding a name -/

/-- Neither of the evaluations ends, or both fail with one error, or both give results. What the
second leaves behind is what the first does, with the closure `c` put in behind those of `s`.
Neither the result nor anything that `s` has leads to that closure. -/
inductive EndAlikeBesides (s : Store) (c : Closure)
    (run run' : Nat → EStateM.Result Halt Store Value) : Prop where
  | never : (∀ depth, ∃ t t', run depth = .error .tooDeep t ∧ run' depth = .error .tooDeep t') →
    EndAlikeBesides s c run run'
  | fail {err : EvalError} {t t' : Store} : Ends run (.error (.failed err) t) →
    Ends run' (.error (.failed err) t') → t.Spare s.closures.size c t' →
    EndAlikeBesides s c run run'
  | give {v v' : Value} {t t' : Store} : Ends run (.ok v t) → Ends run' (.ok v' t') →
    v' = renumber (past s.closures.size) v → t.Spare s.closures.size c t' →
    (∀ w, w = v' ∨ s.Has w → ¬ ReflTransGen t'.Refers w (.closure ⟨s.closures.size⟩)) →
    EndAlikeBesides s c run run'

section Binding

variable {s : Store} {env : Environment} {x : String} {ty : Option Ty} {e₁ e₂ : Expr}
  {line line₁ line₂ : Nat}

/-- Where evaluations may nest deep enough for the lambda, the outcomes correspond. -/
theorem outcomes_letIn_app (valid : s.Valid) (has : ∀ b ∈ env.bindings, s.Has b.2) (depth : Nat) :
    (Store.Spare.transport s.closures.size ⟨env, x, e₂⟩).Outcomes
      (eval (depth + 2) env (.letIn false x e₁ e₂ line) s)
      (eval (depth + 2) env (.app (.lam x ty e₂ line₁) e₁ line₂) s) := by
  let T := Store.Spare.transport s.closures.size ⟨env, x, e₂⟩
  have same : renumber (past s.closures.size) env = env :=
    Environment.renumber_eq_self fun b mem => (has b mem).renumber_past
  -- The value is evaluated in the store with the closure of the lambda.
  have value := T.eval (depth + 1) env e₁ (Store.Spare.addClosure_self valid ⟨env, x, e₂⟩)
  rw [same, Relabelling.identity_expr] at value
  change T.Outcomes
    (EStateM.bind (eval (depth + 1) env e₁) (fun v => eval (depth + 1) (env.extend x v) e₂) s)
    (EStateM.bind (eval (depth + 1) env e₁)
      (fun v => Eval.applyWith (eval (depth + 1)) (.closure ⟨s.closures.size⟩) v line₂)
      (s.addClosure ⟨env, x, e₂⟩).2)
  unfold EStateM.bind
  generalize eval (depth + 1) env e₁ s = r,
    eval (depth + 1) env e₁ (s.addClosure ⟨env, x, e₂⟩).2 = r' at value ⊢
  cases value with
  | @ok v t t' h =>
    -- The call finds the lambda as it was made.
    have body := T.eval (depth + 1) (env.extend x v) e₂ h
    rw [← Environment.extend_renumber, same, Relabelling.identity_expr] at body
    change T.Outcomes _ (eval (depth + 1) ((t'.closure ⟨s.closures.size⟩).env.extend
      (t'.closure ⟨s.closures.size⟩).param _) (t'.closure ⟨s.closures.size⟩).body t')
    rw [Store.Spare.spare h]
    exact body
  | failed h => exact .failed h
  | tooDeep h => exact .tooDeep h

/-- Where the `let` nests too deeply, so does the application. -/
theorem tooDeep_app (valid : s.Valid) (has : ∀ b ∈ env.bindings, s.Has b.2) {depth : Nat}
    {t : Store} (ran : eval depth env (.letIn false x e₁ e₂ line) s = .error .tooDeep t) :
    ∃ t', eval depth env (.app (.lam x ty e₂ line₁) e₁ line₂) s = .error .tooDeep t' := by
  obtain _ | _ | depth := depth
  · exact ⟨s, rfl⟩
  · exact ⟨s, rfl⟩
  · have outcome : (Store.Spare.transport s.closures.size ⟨env, x, e₂⟩).Outcomes
        (eval (depth + 2) env (.letIn false x e₁ e₂ line) s)
        (eval (depth + 2) env (.app (.lam x ty e₂ line₁) e₁ line₂) s) :=
      outcomes_letIn_app valid has depth
    rw [ran] at outcome
    generalize eval (depth + 2) env (.app (.lam x ty e₂ line₁) e₁ line₂) s = r' at outcome ⊢
    cases outcome with
    | tooDeep => exact ⟨_, rfl⟩

/-- A `let` that is not recursive and the lambda of its body applied to its value end alike,
besides the closure of the lambda. -/
theorem eval_letIn_app (valid : s.Valid) (has : ∀ b ∈ env.bindings, s.Has b.2) :
    EndAlikeBesides s ⟨env, x, e₂⟩ (eval · env (.letIn false x e₁ e₂ line) s)
      (eval · env (.app (.lam x ty e₂ line₁) e₁ line₂) s) := by
  by_cases deep : ∀ depth, ∃ t, eval depth env (.letIn false x e₁ e₂ line) s = .error .tooDeep t
  · refine .never fun depth => ?_
    obtain ⟨t, ran⟩ := deep depth
    obtain ⟨t', ran'⟩ := tooDeep_app valid has ran
    exact ⟨t, t', ran, ran'⟩
  · obtain ⟨depth, ends⟩ := not_forall.mp deep
    obtain _ | _ | depth := depth
    · exact absurd ⟨s, rfl⟩ ends
    · exact absurd ⟨s, rfl⟩ ends
    have outcome : (Store.Spare.transport s.closures.size ⟨env, x, e₂⟩).Outcomes
        (eval (depth + 2) env (.letIn false x e₁ e₂ line) s)
        (eval (depth + 2) env (.app (.lam x ty e₂ line₁) e₁ line₂) s) :=
      outcomes_letIn_app valid has depth
    generalize ran : eval (depth + 2) env (.letIn false x e₁ e₂ line) s = r,
      ran' : eval (depth + 2) env (.app (.lam x ty e₂ line₁) e₁ line₂) s = r' at outcome
    cases outcome with
    | ok spare =>
      exact .give (ends_eval ran (by simp)) (ends_eval ran' (by simp)) rfl spare
        fun w root => spare.not_reflTransGen has root
    | failed spare => exact .fail (ends_eval ran (by simp)) (ends_eval ran' (by simp)) spare
    | @tooDeep t => exact absurd ⟨t, ran⟩ ends

end Binding

/-- A store with a list and a function that captures it. -/
def holder : Store :=
  ⟨#[⟨.int, [.int 1]⟩], #[⟨⟨[("xs", .list ⟨0⟩)]⟩, "y", .var "xs" 1⟩]⟩

/-- An environment that binds the list and the function of `holder`. -/
def holderNames : Environment := ⟨[("f", .closure ⟨0⟩), ("xs", .list ⟨0⟩)]⟩

/-- Appends to the list `xs`. -/
def appending : Expr := .listOp2 .append (.var "xs" 1) (.literal (.integer 2) 1) 1

/-- Makes a function that captures itself and the list `ys`. -/
def capturing : Expr :=
  .letIn true "g" (.lam "z" none (.app (.var "g" 1) (.var "ys" 1) 1) 1) (.var "g" 1) 1

/-- Where the value appends to a list and the body makes a function that captures itself, the
two evaluations give that function at different places. -/
theorem eval_letIn_app_capturing :
    holder.Valid ∧ (∀ b ∈ holderNames.bindings, holder.Has b.2) ∧
    (∃ t, eval 3 holderNames (.letIn false "ys" appending capturing 1) holder =
      .ok (.closure ⟨1⟩) t) ∧
    (∃ t, eval 3 holderNames (.app (.lam "ys" none capturing 1) appending 1) holder =
      .ok (.closure ⟨2⟩) t) ∧
    EndAlikeBesides holder ⟨holderNames, "ys", capturing⟩
      (eval · holderNames (.letIn false "ys" appending capturing 1) holder)
      (eval · holderNames (.app (.lam "ys" none capturing 1) appending 1) holder) := by
  have valid : holder.Valid := by
    constructor
    · rintro ⟨_ | id⟩ v mem
      · obtain rfl : v = .int 1 := List.mem_singleton.mp mem
        exact trivial
      · rw [Store.list_of_size_le (by simp [holder])] at mem
        exact absurd mem List.not_mem_nil
    · rintro ⟨_ | id⟩ b mem
      · obtain rfl : b = ("xs", .list ⟨0⟩) := List.mem_singleton.mp mem
        exact Nat.zero_lt_one
      · rw [Store.closure_of_size_le (by simp [holder])] at mem
        exact absurd mem List.not_mem_nil
  have has : ∀ b ∈ holderNames.bindings, holder.Has b.2 := by decide
  exact ⟨valid, has, ⟨_, rfl⟩, ⟨_, rfl⟩, eval_letIn_app valid has⟩

end ListLang
