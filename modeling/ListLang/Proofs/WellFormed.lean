import ListLang.Proofs.Grammar.Text

/-!
# Well-formed trees

The trees of programs are, up to lines, the well-formed ones. Every tree that is parsed is
well formed, and every well-formed tree is parsed from the text that writes it with all
parts in parentheses.

## Main definitions

* `Expr.WellFormed` — the nodes of a tree are such that a program can write them.
* `Expr.render` — a tree as a text, with all parts in parentheses.

## Main statements

* `parse_image` — parsing gives well-formed trees only, and all of them up to lines.
-/

namespace ListLang

namespace Expr

/-- What a node has to be for a program to write it, the nodes inside it apart. -/
def Proper : Expr → Prop
  | literal (.integer n) _ => 0 ≤ n.toInt
  | literal (.bool _) _ => True
  | literal (.string s) _ => '"' ∉ s.toList
  | var name _ | lam name _ _ _ | letIn _ name _ _ _ => Token.isName name
  | app .. | cond .. | binary .. => True
  | list elementTag elements _ => elements ≠ [] ∧ ∀ e ∈ elements, e.tag = elementTag
  | listOp1 op _ _ => op.arity = 1
  | listOp2 op _ _ _ => op.arity = 2
  | listOp3 op _ _ _ _ => op.arity = 3

instance : DecidablePred Proper
  | literal (.integer n) _ => inferInstanceAs (Decidable (0 ≤ n.toInt))
  | literal (.bool _) _ | app .. | cond .. | binary .. => inferInstanceAs (Decidable True)
  | literal (.string s) _ => inferInstanceAs (Decidable ('"' ∉ s.toList))
  | var name _ | lam name _ _ _ | letIn _ name _ _ _ =>
    inferInstanceAs (Decidable (Token.isName name = true))
  | list elementTag elements _ =>
    inferInstanceAs (Decidable (elements ≠ [] ∧ ∀ e ∈ elements, e.tag = elementTag))
  | listOp1 op _ _ => inferInstanceAs (Decidable (op.arity = 1))
  | listOp2 op _ _ _ => inferInstanceAs (Decidable (op.arity = 2))
  | listOp3 op _ _ _ _ => inferInstanceAs (Decidable (op.arity = 3))

/-- Integers are not negative, strings are without quotes, names are words that are not
reserved, list literals have elements, all of the form they record, and list operations have
as many operands as they take. -/
def WellFormed (e : Expr) : Prop := ∀ n ∈ e.nodes, n.Proper

instance (e : Expr) : Decidable e.WellFormed :=
  inferInstanceAs (Decidable (∀ n ∈ e.nodes, n.Proper))

/-- The text in parentheses. -/
def parenthesized (text : String) : String := "(" ++ text ++ ")"

mutual

/-- The tree as a text, with all parts in parentheses. -/
def render : Expr → String
  | literal value _ => value.token.spelling
  | var name _ => name
  | lam param none body _ => "\\" ++ param ++ " => " ++ parenthesized body.render
  | lam param (some t) body _ =>
    "\\" ++ param ++ " : " ++ t.text ++ " => " ++ parenthesized body.render
  | app function argument _ =>
    parenthesized function.render ++ " " ++ parenthesized argument.render
  | cond condition consequent alternative _ =>
    "if " ++ parenthesized condition.render ++ " then " ++ parenthesized consequent.render ++
      " else " ++ parenthesized alternative.render
  | binary op left right _ =>
    parenthesized left.render ++ " " ++ op.spelling ++ " " ++ parenthesized right.render
  | letIn false name value body _ =>
    "let " ++ name ++ " = " ++ parenthesized value.render ++ " in " ++ parenthesized body.render
  | letIn true name value body _ =>
    "let rec " ++ name ++ " = " ++ parenthesized value.render ++ " in " ++
      parenthesized body.render
  | list _ elements _ => "List[" ++ ", ".intercalate (renderAll elements) ++ "]"
  | listOp1 op first _ => op.keyword ++ " " ++ parenthesized first.render
  | listOp2 op first second _ =>
    op.keyword ++ " " ++ parenthesized first.render ++ " " ++ parenthesized second.render
  | listOp3 op first second third _ =>
    op.keyword ++ " " ++ parenthesized first.render ++ " " ++ parenthesized second.render ++
      " " ++ parenthesized third.render

/-- The trees as texts in parentheses. -/
def renderAll : List Expr → List String
  | [] => []
  | e :: rest => parenthesized e.render :: renderAll rest

end

theorem writesAtom_renderAll {es : List Expr} (written : ∀ e ∈ es, Writes e.render e) :
    List.Forall₂ WritesAtom (renderAll es) es := by
  induction es with
  | nil => exact .nil
  | cons e es ih =>
    obtain ⟨first, rest⟩ := List.forall_mem_cons.mp written
    exact .cons (.group first) (ih rest)

/-- The text of a well-formed tree writes the tree. -/
theorem WellFormed.writes {e : Expr} (h : e.WellFormed) : Writes e.render e := by
  induction e with
  | literal value line =>
    have proper : (literal value line).Proper := root_of_nodes h
    exact (WritesAtom.literal (by cases value <;> exact proper)).writes
  | var name line => exact (WritesAtom.var (root_of_nodes (P := Proper) h)).writes
  | lam param paramTy body line ih =>
    simp only [WellFormed, nodes, List.forall_mem_cons] at h
    have inner := (WritesAtom.group (ih h.2)).writes
    cases paramTy with
    | none => exact .lam h.1 inner
    | some t => exact .annotatedLam h.1 t inner
  | app function argument line ih₁ ih₂ =>
    simp only [WellFormed, nodes, List.forall_mem_cons, List.forall_mem_append] at h
    exact .app (.group (ih₁ h.2.1)) (.group (ih₂ h.2.2))
  | cond condition consequent alternative line ih₁ ih₂ ih₃ =>
    simp only [WellFormed, nodes, List.forall_mem_cons, List.forall_mem_append] at h
    obtain ⟨-, ⟨h₁, h₂⟩, h₃⟩ := h
    exact .cond (WritesAtom.group (ih₁ h₁)).writes (WritesAtom.group (ih₂ h₂)).writes
      (WritesAtom.group (ih₃ h₃)).writes
  | binary op left right line ih₁ ih₂ =>
    simp only [WellFormed, nodes, List.forall_mem_cons, List.forall_mem_append] at h
    exact .binary (.group (ih₁ h.2.1)) (.group (ih₂ h.2.2))
  | letIn recursive name value body line ih₁ ih₂ =>
    simp only [WellFormed, nodes, List.forall_mem_cons, List.forall_mem_append] at h
    obtain ⟨named, h₁, h₂⟩ := h
    have value := (WritesAtom.group (ih₁ h₁)).writes
    have body := (WritesAtom.group (ih₂ h₂)).writes
    cases recursive with
    | false => exact .letIn named value body
    | true => exact .letRec named value body
  | list elementTag elements line ih =>
    simp only [WellFormed, nodes, List.forall_mem_cons, allNodes_eq_flatMap,
      List.mem_flatMap] at h
    obtain ⟨⟨nonempty, tags⟩, parts⟩ := h
    have written := writesAtom_renderAll fun e mem => ih e mem fun n node => parts n ⟨e, mem, node⟩
    exact (WritesAtom.list written nonempty tags).writes
  | listOp1 op first line ih =>
    simp only [WellFormed, nodes, List.forall_mem_cons] at h
    exact (WritesAtom.listOp1 h.1 (.group (ih h.2))).writes
  | listOp2 op first second line ih₁ ih₂ =>
    simp only [WellFormed, nodes, List.forall_mem_cons, List.forall_mem_append] at h
    exact (WritesAtom.listOp2 h.1 (.group (ih₁ h.2.1)) (.group (ih₂ h.2.2))).writes
  | listOp3 op first second third line ih₁ ih₂ ih₃ =>
    simp only [WellFormed, nodes, List.forall_mem_cons, List.forall_mem_append] at h
    obtain ⟨arity, ⟨h₁, h₂⟩, h₃⟩ := h
    exact (WritesAtom.listOp3 arity (.group (ih₁ h₁)) (.group (ih₂ h₂)) (.group (ih₃ h₃))).writes

end Expr

theorem builds_proper : Parser.Builds Token.Writable Expr.Proper where
  integer token := token
  bool := trivial
  string token := token
  var token := token
  lam token _ := token
  app _ _ := trivial
  cond _ _ _ := trivial
  binary _ _ := trivial
  letIn token _ _ := token
  list _ rest := ⟨by simp, List.forall_mem_cons.mpr ⟨rfl, fun e mem => (rest e mem).2⟩⟩
  listOp1 arity _ := arity
  listOp2 arity _ _ := arity
  listOp3 arity _ _ _ := arity

/-- The image of the parser, up to lines, is the well-formed trees: a tree that is parsed is
well formed, and a well-formed tree is parsed from its text, which may stand in parentheses
as a whole. -/
theorem parse_image :
    (∀ source e, parse source = .ok e → e.WellFormed) ∧
      ∀ e : Expr, e.WellFormed → ∀ text ∈ [e.render, Expr.parenthesized e.render],
        ∃ e', parse text = .ok e' ∧ e'.unlined = e.unlined := by
  constructor
  · intro source e parsed
    exact builds_proper.nodes.of_parse (TokenStream.satisfies_writable source) parsed
  · intro e wellFormed text mem
    have written : Writes text e := by
      rcases List.mem_pair.mp mem with rfl | rfl
      · exact wellFormed.writes
      · exact (WritesAtom.group wellFormed.writes).writes
    obtain ⟨e', same, parsed⟩ := written.exists_parse
    exact ⟨e', parsed, same⟩

/-- A function with an annotation, applied to a list of a string that looks like code. -/
def Expr.annotatedCall : Expr :=
  .app (.lam "f" (some (.function (.function (.base .int) (.base .bool)) (.base .string)))
    (.letIn true "$" (.var "f" 5) (.listOp1 .getSize (.var "$" 0) 0) 0) 0)
    (.list .string [.literal (.string "in, ]\n") 2] 1) 3

theorem parse_image_annotatedCall :
    Expr.annotatedCall.WellFormed ∧ ∃ e',
      parse ("(\\f : (Int -> Bool) -> String => (let rec $ = (f) in (ListGetSize ($)))) " ++
        "(List[(\"in, ]\n\")])") = .ok e' ∧
      e'.unlined = Expr.annotatedCall.unlined ∧ e'.WellFormed := by
  have wellFormed : Expr.annotatedCall.WellFormed := by decide
  have text : Expr.annotatedCall.render =
      "(\\f : (Int -> Bool) -> String => (let rec $ = (f) in (ListGetSize ($)))) " ++
        "(List[(\"in, ]\n\")])" := by decide +kernel
  obtain ⟨e', parsed, same⟩ := parse_image.2 _ wellFormed _ List.mem_cons_self
  rw [text] at parsed
  exact ⟨wellFormed, e', parsed, same, parse_image.1 _ _ parsed⟩

end ListLang
