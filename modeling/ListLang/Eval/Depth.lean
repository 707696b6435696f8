import ListLang.Eval.Simulation

/-!
# Depth does not change answers

An evaluation either nests too deeply or answers as it does at every greater depth, so a
value or an error is the program's and not the bound's.

## Main definitions

* `Eval.Deepens` — one evaluation answers as another that does not nest too deeply.

## Main statements

* `eval_deepens` — evaluation at a greater depth answers as at a lesser one.
-/

namespace ListLang

namespace Eval

/-- `b` answers as `a`, unless `a` nests too deeply. -/
def Deepens {α : Type} (a b : Eval α) : Prop :=
  ∀ s, (∃ t, a s = .error .tooDeep t) ∨ b s = a s

namespace Deepens

theorem refl {α : Type} (a : Eval α) : Deepens a a := fun _ => .inr rfl

theorem bind {α β : Type} {a b : Eval α} {f g : α → Eval β} (first : Deepens a b)
    (next : ∀ x, Deepens (f x) (g x)) : Deepens (a >>= f) (b >>= g) := by
  intro s
  rcases first s with ⟨t, h⟩ | h
  · exact .inl ⟨t, by simp only [Bind.bind, EStateM.bind, h]⟩
  · simp only [Bind.bind, EStateM.bind, h]
    cases a s with
    | ok x t => exact next x t
    | error e t => exact .inr rfl

end Deepens

/-- Answering alike unless the first nests too deeply, as a relation of evaluations. -/
def deepening : Simulation Eval Eval where
  rel := Deepens
  pure _ := .refl _
  bind := .bind
  throw _ := .refl _
  get := .refl _
  step _ := .refl _

theorem evalWith_deepens {e₁ e₂ : Environment → Expr → Eval Value}
    (h : ∀ env e, Deepens (e₁ env e) (e₂ env e)) (env : Environment) (e : Expr) :
    Deepens (evalWith e₁ env e) (evalWith e₂ env e) := by
  refine deepening.evalWith h env e ?_
  rintro name value body line rfl
  exact deepening.letIn h (fun _ => .refl _) env value body line

end Eval

/-- Evaluation answers the same at every greater depth, unless it nests too deeply. -/
theorem eval_deepens (depth more : Nat) (env : Environment) (e : Expr) :
    Eval.Deepens (eval depth env e) (eval (depth + more) env e) := by
  induction depth generalizing env e with
  | zero => exact fun s => .inl ⟨s, rfl⟩
  | succ depth ih =>
    rw [Nat.succ_add]
    exact Eval.evalWith_deepens ih env e

end ListLang
