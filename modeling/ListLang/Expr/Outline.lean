import ListLang.Expr.Basic
import ListLang.Integer
import ListLang.Outline
import ListLang.Text.Quoted

/-!
# Outlines of expressions

The tree of an expression with every part of it named, lines included.
-/

namespace ListLang

/-- A whole number in an outline. -/
def Outline.ofNat (n : Nat) : Outline := .leaf (toString n)

/-- A truth value in an outline. -/
def Outline.ofBool (b : Bool) : Outline := .leaf (if b then "true" else "false")

/-- A text in an outline. -/
def Outline.ofString (s : String) : Outline := .leaf (Text.Quoted.quoted s)

/-- A node's name with its fields. -/
def Outline.node (name : String) (fields : List (String × Outline)) : Outline :=
  .record name true (fields.map fun f => .field f.1 f.2)

/-- The name of a form in an outline. -/
def Tag.label : Tag → String
  | integer => "Integer"
  | bool => "Bool"
  | string => "String"
  | list => "List"
  | var => "Variable"
  | lam => "Lambda"
  | app => "Application"
  | cond => "If"
  | binary => "BinaryOp"
  | letIn => "Let"
  | listOperation => "ListOperation"

/-- The name of an operator in an outline. -/
def Operator.label : Operator → String
  | equality => "Equality"
  | add => "Add"
  | sub => "Sub"
  | concat => "Concat"
  | mul => "Mul"
  | div => "Div"
  | mod => "Mod"

/-- The outline of a type. -/
def Ty.outline : Ty → Outline
  | base b => .leaf b.name
  | function argument result => .call "Function" [argument.outline, result.outline]

/-- The outline of a parameter's type. -/
def Ty.outline? : Option Ty → Outline
  | none => .leaf "None"
  | some t => .call "Some" [t.outline]

/-- The outline of a constant. -/
def Literal.outline : Literal → Outline
  | integer n => .call "Integer" [.leaf (Integer.text n)]
  | bool b => .call "Bool" [.ofBool b]
  | string s => .call "String" [.ofString s]

namespace Expr

mutual

/-- The outline of an expression. -/
def outline : Expr → Outline
  | literal value line =>
    .node "Literal" [("value", value.outline), ("line", .ofNat line)]
  | var name line => .node "Variable" [("name", .ofString name), ("line", .ofNat line)]
  | lam param paramTy body line =>
    .node "Lambda" [("param", .ofString param), ("param_type", Ty.outline? paramTy),
      ("body", body.outline), ("line", .ofNat line)]
  | app function argument line =>
    .node "Application" [("function", function.outline), ("argument", argument.outline),
      ("line", .ofNat line)]
  | cond condition consequent alternative line =>
    .node "IfExpr" [("condition", condition.outline), ("then_branch", consequent.outline),
      ("else_branch", alternative.outline), ("line", .ofNat line)]
  | binary op left right line =>
    .node "BinaryOp" [("left", left.outline), ("op", .leaf op.label),
      ("right", right.outline), ("line", .ofNat line)]
  | letIn recursive name value body line =>
    .node "Let" [("recursive", .ofBool recursive), ("name", .ofString name),
      ("value", value.outline), ("body", body.outline), ("line", .ofNat line)]
  | list elementTag elements line =>
    .node "ListLiteral" [("element_tag", .leaf elementTag.label),
      ("elements", .sequence (outlines elements)), ("line", .ofNat line)]
  | listOp1 op first line =>
    .node "UnaryListOp" [("op", .leaf op.name), ("first", first.outline),
      ("line", .ofNat line)]
  | listOp2 op first second line =>
    .node "BinaryListOp" [("op", .leaf op.name), ("first", first.outline),
      ("second", second.outline), ("line", .ofNat line)]
  | listOp3 op first second third line =>
    .node "TernaryListOp" [("op", .leaf op.name), ("first", first.outline),
      ("second", second.outline), ("third", third.outline), ("line", .ofNat line)]

/-- The outlines of expressions, in order. -/
def outlines : List Expr → List Outline
  | [] => []
  | e :: rest => outline e :: outlines rest

end

end Expr

end ListLang
