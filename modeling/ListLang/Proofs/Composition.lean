import ListLang.Proofs.Grammar.Elsewhere

/-!
# Programs made of programs

A text that is put together from programs as the grammar puts expressions together is a program,
and its tree is put together from their trees. The programs may be any: one that goes on as far as
it can, such as a lambda, ends at the keyword or the parenthesis behind it.

## Main definitions

* `Composed` — the texts that are put together from programs, with their trees.

## Main statements

* `parse_composed` — such a text is a program with that tree, up to lines.
-/

namespace ListLang

/-- A program in parentheses. -/
def grouped (source : String) : String := "(" ++ source ++ ")"

/-- The text is put together from programs, and the expression from their trees. -/
inductive Composed : String → Expr → Prop
  | group {x e} : parse x = .ok e → Composed (grouped x) e
  | lam {name x e line} : Token.isName name → parse x = .ok e →
    Composed ("\\" ++ name ++ " => " ++ x) (.lam name none e line)
  | annotatedLam {name x e line} (t : Ty) : Token.isName name → parse x = .ok e →
    Composed ("\\" ++ name ++ " : " ++ t.text ++ " => " ++ x) (.lam name (some t) e line)
  | letIn {name x y e f line} : Token.isName name → parse x = .ok e → parse y = .ok f →
    Composed ("let " ++ name ++ " = " ++ x ++ " in " ++ y) (.letIn false name e f line)
  | letRec {name x y e f line} : Token.isName name → parse x = .ok e → parse y = .ok f →
    Composed ("let rec " ++ name ++ " = " ++ x ++ " in " ++ y) (.letIn true name e f line)
  | cond {x y z e f g line} : parse x = .ok e → parse y = .ok f → parse z = .ok g →
    Composed ("if " ++ x ++ " then " ++ y ++ " else " ++ z) (.cond e f g line)
  | binary {op : Operator} {x y e f line} : parse x = .ok e → parse y = .ok f →
    Composed (grouped x ++ " " ++ op.spelling ++ " " ++ grouped y) (.binary op e f line)
  | app {x y e f line} : parse x = .ok e → parse y = .ok f →
    Composed (grouped x ++ " " ++ grouped y) (.app e f line)
  | listOp1 {op : ListOperation} {x e line} : op.arity = 1 → parse x = .ok e →
    Composed (op.keyword ++ " " ++ grouped x) (.listOp1 op e line)
  | listOp2 {op : ListOperation} {x y e f line} : op.arity = 2 → parse x = .ok e →
    parse y = .ok f →
    Composed (op.keyword ++ " " ++ grouped x ++ " " ++ grouped y) (.listOp2 op e f line)
  | listOp3 {op : ListOperation} {x y z e f g line} : op.arity = 3 → parse x = .ok e →
    parse y = .ok f → parse z = .ok g →
    Composed (op.keyword ++ " " ++ grouped x ++ " " ++ grouped y ++ " " ++ grouped z)
      (.listOp3 op e f g line)

/-- A text put together from programs writes the expression put together from their trees. -/
theorem Composed.writes {text : String} {e : Expr} (composed : Composed text e) :
    Writes text e := by
  have grouping {x : String} {e : Expr} (parsed : parse x = .ok e) : WritesAtom (grouped x) e :=
    .group (writes_of_parse parsed)
  cases composed with
  | group parsed => exact (grouping parsed).writes
  | lam named parsed => exact .lam named (writes_of_parse parsed)
  | annotatedLam t named parsed => exact .annotatedLam named t (writes_of_parse parsed)
  | letIn named first second => exact .letIn named (writes_of_parse first) (writes_of_parse second)
  | letRec named first second =>
    exact .letRec named (writes_of_parse first) (writes_of_parse second)
  | cond first second third =>
    exact .cond (writes_of_parse first) (writes_of_parse second) (writes_of_parse third)
  | binary first second => exact .binary (grouping first) (grouping second)
  | app first second => exact .app (grouping first) (grouping second)
  | listOp1 arity first => exact (WritesAtom.listOp1 arity (grouping first)).writes
  | listOp2 arity first second =>
    exact (WritesAtom.listOp2 arity (grouping first) (grouping second)).writes
  | listOp3 arity first second third =>
    exact (WritesAtom.listOp3 arity (grouping first) (grouping second) (grouping third)).writes

/-- A text put together from programs is a program. Its tree is, up to lines, the one put together
from their trees. -/
theorem parse_composed {text : String} {e : Expr} (composed : Composed text e) :
    ∃ e', parse text = .ok e' ∧ e'.unlined = e.unlined := by
  obtain ⟨e', same, parsed⟩ := composed.writes.exists_parse
  exact ⟨e', parsed, same⟩

/-- Each of the lambdas goes on as far as it can and ends where the next keyword stands. -/
theorem parse_composed_open :
    ∃ e, parse "if \\x => x then \\y => y else \\z => z" = .ok e ∧
      e.unlined = .cond (.lam "x" none (.var "x" 0) 0) (.lam "y" none (.var "y" 0) 0)
        (.lam "z" none (.var "z" 0) 0) 0 := by
  have identity (name : String) (named : Token.isName name) :
      ∃ e, parse ("\\" ++ name ++ " => " ++ name) = .ok e ∧
        e.unlined = .lam name none (.var name 0) 0 := by
    have body : WritesAtom name (.var name 0) := .var named
    have written : Writes _ (.lam name none (.var name 0) 0) := .lam named body.writes
    obtain ⟨e, same, parsed⟩ := written.exists_parse
    exact ⟨e, parsed, same⟩
  obtain ⟨x, first, treeX⟩ := identity "x" (by decide)
  obtain ⟨y, second, treeY⟩ := identity "y" (by decide)
  obtain ⟨z, third, treeZ⟩ := identity "z" (by decide)
  have composed : Composed _ (.cond x y z 0) := .cond first second third
  obtain ⟨e, parsed, same⟩ := parse_composed composed
  refine ⟨e, ?_, by rw [same, Expr.unlined, treeX, treeY, treeZ]⟩
  rw [← parsed]
  congr 1

end ListLang
