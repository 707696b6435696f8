import ListLang.Proofs.Relabelling

/-!
# Annotations and tags have no meaning at run time

The types of parameters and the tags of list literals are read by nobody while a program runs.
An expression without them, in a store without them, does what it did with them: it halts at the
same depths, with the same error, or it gives the same value and leaves the same store but for
what was left out.

## Main definitions

* `Relabelling.bare` — leaves out the types of parameters and the tags of list literals.

## Main statements

* `eval_ignores_annotations` — evaluation of expressions that differ in types and tags only.
-/

namespace ListLang

/-- Leaves out the types of parameters and the tags of list literals, and keeps all lines. -/
def Relabelling.bare : Relabelling :=
  { identity with annotation := fun _ => none, tag := fun _ => .list }

open Relabelling (bare)

/-- Expressions that differ in the types of parameters and the tags of list literals only, in
stores whose functions do, are evaluated alike at every depth: to the same value, to the same
error or too deeply, with stores that again differ in types and tags only. -/
theorem eval_ignores_annotations {e e' : Expr} {s s' : Store} (exprs : bare.expr e = bare.expr e')
    (stores : bare.store s = bare.store s') (depth : Nat) (env : Environment) :
    (∃ v t t', eval depth env e s = .ok v t ∧ eval depth env e' s' = .ok v t' ∧
        bare.store t = bare.store t') ∨
      (∃ err t t', eval depth env e s = .error (.failed err) t ∧
        eval depth env e' s' = .error (.failed err) t' ∧ bare.store t = bare.store t') ∨
      ∃ t t', eval depth env e s = .error .tooDeep t ∧ eval depth env e' s' = .error .tooDeep t' ∧
        bare.store t = bare.store t' := by
  have agree := Relabelling.agree_eval exprs stores depth env
  generalize eval depth env e s = r, eval depth env e' s' = r' at agree
  cases agree with
  | @ok v t t' same => exact .inl ⟨v, t, t', rfl, rfl, same⟩
  | @failed line line' cause t t' lines same =>
    obtain rfl : line = line' := lines
    exact .inr (.inl ⟨⟨line, cause⟩, t, t', rfl, rfl, same⟩)
  | @tooDeep t t' same => exact .inr (.inr ⟨t, t', rfl, rfl, same⟩)

/-- A store with a function that adds two numbers one after the other, its second parameter with
the type `ty`. -/
def adder (ty : Option Ty) : Store :=
  ⟨#[], #[⟨.empty, "x", .lam "y" ty (.binary .add (.var "x" 1) (.var "y" 1) 1) 1⟩]⟩

/-- The sum of a list literal with the tag `tag`. -/
def sumOfPair (tag : Tag) : Expr :=
  .listOp2 .fold (.list tag [.literal (.integer 1) 1, .literal (.integer 2) 1] 1) (.var "f" 1) 1

/-- Folding looks at the form of a function and not at the type of its parameter. -/
theorem eval_ignores_annotations_fold :
    bare.expr (sumOfPair .integer) = bare.expr (sumOfPair .lam) ∧
      bare.store (adder (some (.base .int))) = bare.store (adder none) ∧
      ∃ t t', eval 5 ⟨[("f", .closure ⟨0⟩)]⟩ (sumOfPair .integer) (adder (some (.base .int))) =
          .ok (.int 3) t ∧
        eval 5 ⟨[("f", .closure ⟨0⟩)]⟩ (sumOfPair .lam) (adder none) = .ok (.int 3) t' ∧
        bare.store t = bare.store t' := by
  have exprs : bare.expr (sumOfPair .integer) = bare.expr (sumOfPair .lam) := rfl
  have stores : bare.store (adder (some (.base .int))) = bare.store (adder none) := by
    simp [Relabelling.store, Relabelling.closure, Relabelling.expr, adder, bare]
  have ran : (eval 5 ⟨[("f", .closure ⟨0⟩)]⟩ (sumOfPair .integer)).run'
      (adder (some (.base .int))) = some (.int 3) := by decide +kernel
  delta EStateM.run' EStateM.run at ran
  refine ⟨exprs, stores, ?_⟩
  obtain ⟨v, t, t', first, second, same⟩ | ⟨err, t, t', first, -⟩ | ⟨t, t', first, -⟩ :=
    eval_ignores_annotations exprs stores 5 ⟨[("f", .closure ⟨0⟩)]⟩
  · rw [first] at ran
    cases ran
    exact ⟨t, t', first, second, same⟩
  · rw [first] at ran
    cases ran
  · rw [first] at ran
    cases ran

end ListLang
