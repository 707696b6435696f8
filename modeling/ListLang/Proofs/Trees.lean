import ListLang.Proofs.Yields
import Mathlib.Data.List.Basic

/-!
# Trees: their nodes, and trees up to lines

What the parser keeps form by form holds of every node of a program.

## Main definitions

* `Expr.nodes` — an expression with all expressions inside it.
* `Expr.unlined` — an expression without its lines. Two expressions are equal up to lines
  when they are the same without them.

## Main statements

* `Parser.Builds.nodes` — a property that the parser keeps, kept for all nodes.
-/

namespace ListLang.Expr

mutual

/-- The expression with all expressions inside it. -/
def nodes : Expr → List Expr
  | literal value line => [literal value line]
  | var name line => [var name line]
  | lam param paramTy body line => lam param paramTy body line :: body.nodes
  | app function argument line =>
    app function argument line :: (function.nodes ++ argument.nodes)
  | cond condition consequent alternative line =>
    cond condition consequent alternative line ::
      (condition.nodes ++ consequent.nodes ++ alternative.nodes)
  | binary op left right line => binary op left right line :: (left.nodes ++ right.nodes)
  | letIn recursive name value body line =>
    letIn recursive name value body line :: (value.nodes ++ body.nodes)
  | list elementTag elements line => list elementTag elements line :: allNodes elements
  | listOp1 op first line => listOp1 op first line :: first.nodes
  | listOp2 op first second line => listOp2 op first second line :: (first.nodes ++ second.nodes)
  | listOp3 op first second third line =>
    listOp3 op first second third line :: (first.nodes ++ second.nodes ++ third.nodes)

/-- The expressions with all expressions inside them. -/
def allNodes : List Expr → List Expr
  | [] => []
  | e :: rest => e.nodes ++ allNodes rest

end

mutual

/-- The expression with line 0 in all nodes. -/
def unlined : Expr → Expr
  | literal value _ => literal value 0
  | var name _ => var name 0
  | lam param paramTy body _ => lam param paramTy body.unlined 0
  | app function argument _ => app function.unlined argument.unlined 0
  | cond condition consequent alternative _ =>
    cond condition.unlined consequent.unlined alternative.unlined 0
  | binary op left right _ => binary op left.unlined right.unlined 0
  | letIn recursive name value body _ => letIn recursive name value.unlined body.unlined 0
  | list elementTag elements _ => list elementTag (allUnlined elements) 0
  | listOp1 op first _ => listOp1 op first.unlined 0
  | listOp2 op first second _ => listOp2 op first.unlined second.unlined 0
  | listOp3 op first second third _ => listOp3 op first.unlined second.unlined third.unlined 0

/-- The expressions with line 0 in all nodes. -/
def allUnlined : List Expr → List Expr
  | [] => []
  | e :: rest => e.unlined :: allUnlined rest

end

theorem allNodes_eq_flatMap (es : List Expr) : allNodes es = es.flatMap nodes := by
  induction es with
  | nil => rfl
  | cons e es ih => simp [allNodes, ih]

theorem self_mem_nodes (e : Expr) : e ∈ e.nodes := by
  cases e <;> exact List.mem_cons_self

theorem root_of_nodes {P : Expr → Prop} {e : Expr} (all : ∀ n ∈ e.nodes, P n) : P e :=
  all e e.self_mem_nodes

theorem allUnlined_eq_map (es : List Expr) : allUnlined es = es.map unlined := by
  induction es with
  | nil => rfl
  | cons e es ih => simp [allUnlined, ih]

theorem tag_unlined (e : Expr) : e.unlined.tag = e.tag := by
  cases e <;> simp only [unlined, tag]

theorem tag_eq_of_unlined_eq {e e' : Expr} (same : e'.unlined = e.unlined) : e'.tag = e.tag := by
  rw [← tag_unlined e', same, tag_unlined]

end ListLang.Expr

namespace ListLang

/-- What the parser keeps form by form it keeps for all nodes. -/
theorem Parser.Builds.nodes {T : Token → Prop} {P : Expr → Prop} (B : Builds T P) :
    Builds T fun e => ∀ n ∈ e.nodes, P n where
  integer token := by simpa [Expr.nodes] using B.integer token
  bool {b line} := by
    simp only [Expr.nodes, List.mem_singleton, forall_eq]
    exact B.bool
  string token := by simpa [Expr.nodes] using B.string token
  var token := by simpa [Expr.nodes] using B.var token
  lam token body := by
    simp only [Expr.nodes, List.forall_mem_cons]
    exact ⟨B.lam token (Expr.root_of_nodes body), body⟩
  app function argument := by
    simp only [Expr.nodes, List.forall_mem_cons, List.forall_mem_append]
    exact ⟨B.app (Expr.root_of_nodes function) (Expr.root_of_nodes argument),
      function, argument⟩
  cond first second third := by
    simp only [Expr.nodes, List.forall_mem_cons, List.forall_mem_append]
    exact ⟨B.cond (Expr.root_of_nodes first) (Expr.root_of_nodes second)
      (Expr.root_of_nodes third), ⟨first, second⟩, third⟩
  binary left right := by
    simp only [Expr.nodes, List.forall_mem_cons, List.forall_mem_append]
    exact ⟨B.binary (Expr.root_of_nodes left) (Expr.root_of_nodes right), left, right⟩
  letIn token value body := by
    simp only [Expr.nodes, List.forall_mem_cons, List.forall_mem_append]
    exact ⟨B.letIn token (Expr.root_of_nodes value) (Expr.root_of_nodes body),
      value, body⟩
  list element rest := by
    simp only [Expr.nodes, List.forall_mem_cons, Expr.allNodes, List.forall_mem_append,
      Expr.allNodes_eq_flatMap, List.mem_flatMap]
    refine ⟨B.list (Expr.root_of_nodes element) fun e mem =>
      ⟨Expr.root_of_nodes (rest e mem).1, (rest e mem).2⟩, element, ?_⟩
    rintro n ⟨e, mem, node⟩
    exact (rest e mem).1 n node
  listOp1 arity first := by
    simp only [Expr.nodes, List.forall_mem_cons]
    exact ⟨B.listOp1 arity (Expr.root_of_nodes first), first⟩
  listOp2 arity first second := by
    simp only [Expr.nodes, List.forall_mem_cons, List.forall_mem_append]
    exact ⟨B.listOp2 arity (Expr.root_of_nodes first) (Expr.root_of_nodes second),
      first, second⟩
  listOp3 arity first second third := by
    simp only [Expr.nodes, List.forall_mem_cons, List.forall_mem_append]
    exact ⟨B.listOp3 arity (Expr.root_of_nodes first) (Expr.root_of_nodes second)
      (Expr.root_of_nodes third), ⟨first, second⟩, third⟩

end ListLang
