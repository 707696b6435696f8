import ListLang.Expr.Basic

/-!
# Relabelling expressions

An expression carries labels that do not decide what it computes: the lines of its nodes, the
types of parameters and the tags of list literals. A relabelling replaces them, each by a
function of the old one. The lines of constants are replaced apart from the other ones, because
no error is reported on them.

## Main definitions

* `Relabelling` — what the labels are replaced by.
* `Relabelling.expr` — an expression with its labels replaced.
* `Relabelling.identity` — the relabelling that keeps all labels.
-/

namespace ListLang

/-- What the labels of expressions are replaced by. Line 0, which is no line of a text, stays in
constants. -/
structure Relabelling where
  line : Nat → Nat
  constantLine : Nat → Nat
  annotation : Option Ty → Option Ty
  tag : Tag → Tag
  constantLine_zero : constantLine 0 = 0 := by rfl

namespace Relabelling

mutual

/-- The expression with its labels replaced. -/
def expr (r : Relabelling) : Expr → Expr
  | .literal value line => .literal value (r.constantLine line)
  | .var name line => .var name (r.line line)
  | .lam param paramTy body line =>
    .lam param (r.annotation paramTy) (r.expr body) (r.line line)
  | .app function argument line => .app (r.expr function) (r.expr argument) (r.line line)
  | .cond condition consequent alternative line =>
    .cond (r.expr condition) (r.expr consequent) (r.expr alternative) (r.line line)
  | .binary op left right line => .binary op (r.expr left) (r.expr right) (r.line line)
  | .letIn recursive name value body line =>
    .letIn recursive name (r.expr value) (r.expr body) (r.line line)
  | .list elementTag elements line => .list (r.tag elementTag) (r.exprs elements) (r.line line)
  | .listOp1 op first line => .listOp1 op (r.expr first) (r.line line)
  | .listOp2 op first second line => .listOp2 op (r.expr first) (r.expr second) (r.line line)
  | .listOp3 op first second third line =>
    .listOp3 op (r.expr first) (r.expr second) (r.expr third) (r.line line)

/-- The expressions with their labels replaced. -/
def exprs (r : Relabelling) : List Expr → List Expr
  | [] => []
  | e :: rest => r.expr e :: r.exprs rest

end

/-- The relabelling that keeps all labels. -/
def identity : Relabelling := ⟨id, id, id, id, rfl⟩

variable (r : Relabelling)

theorem exprs_eq_map (es : List Expr) : r.exprs es = es.map r.expr := by
  induction es with
  | nil => rfl
  | cons e es ih => simp [exprs, ih]

@[simp] theorem tag_expr (e : Expr) : (r.expr e).tag = e.tag := by
  cases e <;> rfl

theorem line_expr {e : Expr} (other : e.tag.dataKind?.isSome = false) :
    (r.expr e).line = r.line e.line := by
  cases e with
  | literal value => cases value <;> cases other
  | _ => rfl

@[simp] theorem expr_default : r.expr default = default := by
  change Expr.literal default (r.constantLine 0) = _
  rw [r.constantLine_zero]
  rfl

@[simp] theorem identity_expr (e : Expr) : identity.expr e = e := by
  induction e with
  | list tag elements line all =>
    have same : elements.map identity.expr = elements := by simpa using List.map_congr_left all
    rw [expr, exprs_eq_map, same]
    rfl
  | _ => simp_all [expr, identity]

end Relabelling

end ListLang
