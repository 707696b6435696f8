import ListLang.Kind
import ListLang.ListOperation
import ListLang.Operator
import ListLang.Ty

/-!
# Expressions

The syntax tree of a program. Every node keeps the line it came from, so that an error
in it can name the line. Trees are more general than programs: a list operation may
stand with a wrong number of operands and a list literal may be empty or mixed, and the
evaluator answers for those shapes as well.

## Main definitions

* `Expr` — the tree.
* `Tag` — the form of a node, by which the elements of a list literal are compared.
* `Expr.tag`, `Expr.line` — the form and the line of a node.
* `Expr.induction` — induction on trees, with all elements of a list literal at once.
-/

namespace ListLang

/-- The form of an expression. -/
inductive Tag where
  | integer
  | bool
  | string
  | list
  | var
  | lam
  | app
  | cond
  | binary
  | letIn
  | listOperation
  deriving DecidableEq, Repr, Inhabited

namespace Tag

/-- The form's name in messages. -/
def text : Tag → String
  | integer => "integer literal"
  | bool => "boolean literal"
  | string => "string literal"
  | list => "list literal"
  | var => "variable"
  | lam => "lambda"
  | app => "application"
  | cond => "if expression"
  | binary => "binary operation"
  | letIn => "let expression"
  | listOperation => "list operation"

/-- The kind of the values of a form that only writes data, which are the forms allowed
in a list literal. -/
def dataKind? : Tag → Option Kind
  | integer => some .int
  | bool => some .bool
  | string => some .string
  | list => some .list
  | _ => none

end Tag

/-- The constants of a program. -/
inductive Literal where
  | integer (n : Int64)
  | bool (b : Bool)
  | string (s : String)
  deriving DecidableEq, Repr, Inhabited

/-- The form of a constant. -/
def Literal.tag : Literal → Tag
  | integer _ => .integer
  | bool _ => .bool
  | string _ => .string

/-- Expressions, each node with its line. -/
inductive Expr where
  | literal (value : Literal) (line : Nat)
  | var (name : String) (line : Nat)
  | lam (param : String) (paramTy : Option Ty) (body : Expr) (line : Nat)
  | app (function argument : Expr) (line : Nat)
  | cond (condition consequent alternative : Expr) (line : Nat)
  | binary (op : Operator) (left right : Expr) (line : Nat)
  | letIn (recursive : Bool) (name : String) (value body : Expr) (line : Nat)
  | list (elementTag : Tag) (elements : List Expr) (line : Nat)
  | listOp1 (op : ListOperation) (first : Expr) (line : Nat)
  | listOp2 (op : ListOperation) (first second : Expr) (line : Nat)
  | listOp3 (op : ListOperation) (first second third : Expr) (line : Nat)
  deriving Repr, Inhabited

namespace Expr

/-- The line a node came from. -/
def line : Expr → Nat
  | literal _ line | var _ line | lam _ _ _ line | app _ _ line | cond _ _ _ line
  | binary _ _ _ line | letIn _ _ _ _ line | list _ _ line | listOp1 _ _ line
  | listOp2 _ _ _ line | listOp3 _ _ _ _ line => line

/-- The form of a node. -/
def tag : Expr → Tag
  | literal value _ => value.tag
  | var .. => .var
  | lam .. => .lam
  | app .. => .app
  | cond .. => .cond
  | binary .. => .binary
  | letIn .. => .letIn
  | list .. => .list
  | listOp1 .. | listOp2 .. | listOp3 .. => .listOperation

/-- Induction on trees. What is shown of a list literal may rely on all its elements. -/
@[elab_as_elim, induction_eliminator]
theorem induction {motive : Expr → Prop}
    (literal : ∀ value line, motive (literal value line))
    (var : ∀ name line, motive (var name line))
    (lam : ∀ param paramTy body line, motive body → motive (lam param paramTy body line))
    (app : ∀ function argument line, motive function → motive argument →
      motive (app function argument line))
    (cond : ∀ condition consequent alternative line, motive condition → motive consequent →
      motive alternative → motive (cond condition consequent alternative line))
    (binary : ∀ op left right line, motive left → motive right →
      motive (binary op left right line))
    (letIn : ∀ recursive name value body line, motive value → motive body →
      motive (letIn recursive name value body line))
    (list : ∀ elementTag elements line, (∀ e ∈ elements, motive e) →
      motive (list elementTag elements line))
    (listOp1 : ∀ op first line, motive first → motive (listOp1 op first line))
    (listOp2 : ∀ op first second line, motive first → motive second →
      motive (listOp2 op first second line))
    (listOp3 : ∀ op first second third line, motive first → motive second → motive third →
      motive (listOp3 op first second third line)) (e : Expr) : motive e :=
  @Expr.rec motive (fun es => ∀ e ∈ es, motive e) literal var lam app cond binary letIn
    list listOp1 listOp2 listOp3 (fun _ mem => absurd mem List.not_mem_nil)
    (fun _ _ first rest => List.forall_mem_cons.mpr ⟨first, rest⟩) e

end Expr

end ListLang
