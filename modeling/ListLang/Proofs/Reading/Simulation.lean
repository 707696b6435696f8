import ListLang.Proofs.Reading.Bounds
import ListLang.Proofs.Trees
import Mathlib.Data.List.Forall2

/-!
# Relations between parsers

The parsers are written over any source of tokens. A relation between the parsers of two
sources that results, sequencing, failing and the steps on the sources respect is respected by
all parsers, form by form. The trees that related parsers build have the same form throughout,
and lines that are related at every node.

A relation has to know nothing of the bounds that the parsers recurse on: a bound that is great
enough for both sources serves both.

## Main definitions

* `Expr.Alike` — trees that are the same but for their lines, which are related.
* `Parser.Simulation` — a relation that the parsers respect.

## Main statements

* `Parser.Simulation.program` — the parsers of programs are related.
* `Expr.Alike.eq`, `Expr.Alike.unlined_eq`, `Expr.Alike.line_of_mem_nodes` — what likeness says
  for equal lines, for any lines and for lines with a property.
-/

namespace ListLang

/-- The same token, on related lines. -/
structure Located.Alike (lines : Nat → Nat → Prop) (x y : Located Token) : Prop where
  item : x.item = y.item
  line : lines x.line y.line

namespace Expr

/-- The same tree but for the lines, which are related at every node. -/
inductive Alike (lines : Nat → Nat → Prop) : Expr → Expr → Prop where
  | literal {value line line'} : lines line line' →
    Alike lines (.literal value line) (.literal value line')
  | var {name line line'} : lines line line' → Alike lines (.var name line) (.var name line')
  | lam {param paramTy body body' line line'} : Alike lines body body' → lines line line' →
    Alike lines (.lam param paramTy body line) (.lam param paramTy body' line')
  | app {e₁ e₁' e₂ e₂' line line'} : Alike lines e₁ e₁' → Alike lines e₂ e₂' →
    lines line line' → Alike lines (.app e₁ e₂ line) (.app e₁' e₂' line')
  | cond {e₁ e₁' e₂ e₂' e₃ e₃' line line'} : Alike lines e₁ e₁' → Alike lines e₂ e₂' →
    Alike lines e₃ e₃' → lines line line' →
    Alike lines (.cond e₁ e₂ e₃ line) (.cond e₁' e₂' e₃' line')
  | binary {op e₁ e₁' e₂ e₂' line line'} : Alike lines e₁ e₁' → Alike lines e₂ e₂' →
    lines line line' → Alike lines (.binary op e₁ e₂ line) (.binary op e₁' e₂' line')
  | letIn {recursive name e₁ e₁' e₂ e₂' line line'} : Alike lines e₁ e₁' → Alike lines e₂ e₂' →
    lines line line' →
    Alike lines (.letIn recursive name e₁ e₂ line) (.letIn recursive name e₁' e₂' line')
  | list {tag es es' line line'} : List.Forall₂ (Alike lines) es es' → lines line line' →
    Alike lines (.list tag es line) (.list tag es' line')
  | listOp1 {op e₁ e₁' line line'} : Alike lines e₁ e₁' → lines line line' →
    Alike lines (.listOp1 op e₁ line) (.listOp1 op e₁' line')
  | listOp2 {op e₁ e₁' e₂ e₂' line line'} : Alike lines e₁ e₁' → Alike lines e₂ e₂' →
    lines line line' → Alike lines (.listOp2 op e₁ e₂ line) (.listOp2 op e₁' e₂' line')
  | listOp3 {op e₁ e₁' e₂ e₂' e₃ e₃' line line'} : Alike lines e₁ e₁' → Alike lines e₂ e₂' →
    Alike lines e₃ e₃' → lines line line' →
    Alike lines (.listOp3 op e₁ e₂ e₃ line) (.listOp3 op e₁' e₂' e₃' line')

namespace Alike

variable {lines : Nat → Nat → Prop} {e e' : Expr}

theorem line (h : Alike lines e e') : lines e.line e'.line := by
  cases h <;> assumption

theorem tag_eq (h : Alike lines e e') : e.tag = e'.tag := by
  cases h <;> rfl

/-- What holds of each element and all trees like it holds along the elements. -/
theorem elements {es es' : List Expr} {motive : Expr → Expr → Prop}
    (all : ∀ e ∈ es, ∀ {e'}, Alike lines e e' → motive e e')
    (h : List.Forall₂ (Alike lines) es es') : List.Forall₂ motive es es' := by
  have both := (List.forall₂_and_left (p := fun e => ∀ {e'}, Alike lines e e' → motive e e')
    es es').mpr ⟨all, h⟩
  exact both.imp fun _ _ pair => pair.1 pair.2

/-- Trees with equal lines. -/
theorem eq (h : Alike lines e e') (same : ∀ {l l'}, lines l l' → l = l') : e = e' := by
  induction e generalizing e' with
  | list _ es _ all =>
    cases h with
    | list hs hl =>
      have equal := elements all hs
      rw [List.forall₂_eq_eq_eq] at equal
      rw [equal, same hl]
  | _ => cases h; grind

/-- Trees on any lines. -/
theorem unlined_eq (h : Alike lines e e') : e.unlined = e'.unlined := by
  induction e generalizing e' with
  | list _ es _ all =>
    cases h with
    | list hs =>
      have same : List.Forall₂ Eq (es.map unlined) (_ : List Expr) :=
        List.forall₂_map_left_iff.mpr (List.forall₂_map_right_iff.mpr (elements all hs))
      rw [List.forall₂_eq_eq_eq] at same
      simp only [unlined, allUnlined_eq_map, same]
  | _ => cases h; grind [unlined]

/-- Trees whose lines have a property. -/
theorem line_of_mem_nodes {P : Nat → Prop} (h : Alike lines e e')
    (le : ∀ {l l'}, lines l l' → P l) : ∀ x ∈ e.nodes, P x.line := by
  induction e generalizing e' with
  | list _ es _ all =>
    cases h with
    | list hs hl =>
      have each := (List.forall₂_and_left (R := fun _ _ => True) es _).mp
        (elements (fun e mem _ h => ⟨all e mem h, trivial⟩) hs)
      simp only [nodes, allNodes_eq_flatMap, List.forall_mem_cons, List.mem_flatMap]
      refine ⟨le hl, ?_⟩
      rintro x ⟨e, mem, inside⟩
      exact each.1 e mem x inside
  | _ => cases h; grind [nodes, Expr.line]

end Alike

end Expr

namespace Parser

/-- A relation between the parsers of two sources that all parsers respect. What results are
related by is a parameter of it. -/
structure Simulation (σ τ : Type) [TokenSource σ] [TokenSource τ] where
  lines : Nat → Nat → Prop
  rel : {α β : Type} → (α → β → Prop) → ParserOn σ α → ParserOn τ β → Prop
  pure : ∀ {α β : Type} {Q : α → β → Prop} {a : α} {b : β}, Q a b →
    rel Q (Pure.pure a) (Pure.pure b)
  bind : ∀ {α β γ δ : Type} {P : α → β → Prop} {Q : γ → δ → Prop} {p : ParserOn σ α}
    {q : ParserOn τ β} {f : α → ParserOn σ γ} {g : β → ParserOn τ δ},
    rel P p q → (∀ a b, P a b → rel Q (f a) (g b)) → rel Q (p >>= f) (q >>= g)
  fail : ∀ {α β : Type} {Q : α → β → Prop} {line line' : Nat} {cause : ParseError.Cause},
    lines line line' → (∀ f, cause ≠ .fault f) → rel Q (fail line cause) (fail line' cause)
  next : rel (Located.Alike lines) next next
  lookahead : rel (Located.Alike lines) lookahead lookahead
  bounded : ∀ {α β : Type} {Q : α → β → Prop} {f : Nat → ParserOn σ α} {g : Nat → ParserOn τ β},
    Settled f → Settled g → (∀ bound, rel Q (f bound) (g bound)) →
    rel Q (remaining >>= f) (remaining >>= g)

namespace Simulation

variable {σ τ : Type} [TokenSource σ] [TokenSource τ] (R : Simulation σ τ)

theorem ite {α β : Type} {Q : α → β → Prop} {c c' : Prop} [Decidable c] [Decidable c']
    {p p' : ParserOn σ α} {q q' : ParserOn τ β} (same : c ↔ c') (pos : c → R.rel Q p q)
    (neg : ¬ c → R.rel Q p' q') : R.rel Q (if c then p else p') (if c' then q else q') := by
  by_cases h : c
  · rw [if_pos h, if_pos (same.mp h)]
    exact pos h
  · rw [if_neg h, if_neg (mt same.mpr h)]
    exact neg h

theorem map {α β γ δ : Type} {P : α → β → Prop} {Q : γ → δ → Prop} {p : ParserOn σ α}
    {q : ParserOn τ β} {f : α → γ} {g : β → δ} (h : R.rel P p q)
    (le : ∀ a b, P a b → Q (f a) (g b)) : R.rel Q (f <$> p) (g <$> q) :=
  R.bind h fun a b hab => R.pure (le a b hab)

/-- Going on from a token, which is the same on both sides. -/
theorem bindToken {α β : Type} {Q : α → β → Prop} {p : ParserOn σ (Located Token)}
    {q : ParserOn τ (Located Token)} {f : Located Token → ParserOn σ α}
    {g : Located Token → ParserOn τ β} (h : R.rel (Located.Alike R.lines) p q)
    (cont : ∀ item line line', R.lines line line' → R.rel Q (f ⟨item, line⟩) (g ⟨item, line'⟩)) :
    R.rel Q (p >>= f) (q >>= g) := by
  refine R.bind h ?_
  rintro ⟨item, line⟩ ⟨_, line'⟩ ⟨rfl, lines⟩
  exact cont item line line' lines

theorem expect (t : Token) : R.rel R.lines (expect t) (expect t) :=
  R.bindToken R.next fun _ _ _ lines =>
    R.ite Iff.rfl (fun _ => R.pure lines) fun _ => R.fail lines (by simp)

theorem accept (t : Token) : R.rel Eq (accept t) (accept t) :=
  R.bindToken R.lookahead fun _ _ _ _ =>
    R.ite Iff.rfl (fun _ => R.bind R.next fun _ _ _ => R.pure rfl) fun _ => R.pure rfl

theorem binder : R.rel Eq binder binder := by
  refine R.bindToken R.next fun item _ _ lines => ?_
  cases item with
  | identifier => exact R.pure rfl
  | _ => exact R.fail lines (by simp)

/-! ## Types -/

theorem tyAtomWith {p : ParserOn σ Ty} {q : ParserOn τ Ty} (h : R.rel Eq p q) :
    R.rel Eq (tyAtomWith p) (tyAtomWith q) := by
  refine R.bindToken R.next fun item line line' lines => ?_
  dsimp only
  split
  · exact R.pure rfl
  · refine R.bind h ?_
    rintro t _ rfl
    exact R.bind (R.expect _) fun _ _ _ => R.pure rfl
  · exact R.fail lines (by simp)

theorem tyWithin (bound : Nat) : R.rel Eq (tyWithin bound) (tyWithin bound) := by
  induction bound with
  | zero => exact R.bindToken R.next fun _ _ _ lines => R.fail lines (by simp)
  | succ bound ih =>
    refine R.bind (R.tyAtomWith ih) ?_
    rintro argument _ rfl
    refine R.bind (R.accept _) ?_
    rintro arrow _ rfl
    refine R.ite Iff.rfl (fun _ => R.bind ih ?_) fun _ => R.pure rfl
    rintro result _ rfl
    exact R.pure rfl

/-! ## Expressions -/

section Atoms

variable {p : ParserOn σ (Option Expr)} {q : ParserOn τ (Option Expr)}
  (h : R.rel (Option.Rel (Expr.Alike R.lines)) p q)

include h

theorem requiredWith : R.rel (Expr.Alike R.lines) (requiredWith p) (requiredWith q) := by
  refine R.bind h ?_
  rintro _ _ (alike | _)
  · exact R.pure alike
  · exact R.bindToken R.lookahead fun _ _ _ lines => R.fail lines (by simp)

theorem operandWith (op : ListOperation) {line line' : Nat} (lines : R.lines line line') :
    R.rel (Expr.Alike R.lines) (operandWith p op line) (operandWith q op line') := by
  refine R.bind h ?_
  rintro _ _ (alike | _)
  · exact R.pure alike
  · exact R.fail lines (by simp)

theorem argumentsWith (bound : Nat) {e e' : Expr} (function : Expr.Alike R.lines e e') :
    R.rel (Expr.Alike R.lines) (argumentsWith p bound e) (argumentsWith q bound e') := by
  induction bound generalizing e e' with
  | zero => exact R.pure function
  | succ bound ih =>
    refine R.bind h ?_
    rintro _ _ (argument | _)
    · exact ih (.app function argument function.line)
    · exact R.pure function

theorem applicationWith (bound : Nat) :
    R.rel (Expr.Alike R.lines) (applicationWith p bound) (applicationWith q bound) :=
  R.bind (R.requiredWith h) fun _ _ function => R.argumentsWith h bound function

end Atoms

theorem climbWith {p : ParserOn σ Expr} {q : ParserOn τ Expr}
    (operand : R.rel (Expr.Alike R.lines) p q) (bound power : Nat) {e e' : Expr}
    (left : Expr.Alike R.lines e e') :
    R.rel (Expr.Alike R.lines) (climbWith p bound power e) (climbWith q bound power e') := by
  induction bound generalizing power e e' with
  | zero => exact R.pure left
  | succ bound ih =>
    refine R.bindToken R.lookahead fun item line line' lines => ?_
    cases item with
    | operator op =>
      refine R.ite Iff.rfl (fun _ => ?_) fun _ => R.pure left
      exact R.bind R.next fun _ _ _ => R.bind operand fun _ _ first =>
        R.bind (ih op.rightPower first) fun _ _ right => ih power (.binary left right lines)
    | _ => exact R.pure left

section Forms

variable {p : ParserOn σ (Option Expr)} {q : ParserOn τ (Option Expr)}
  (h : R.rel (Option.Rel (Expr.Alike R.lines)) p q)

include h

theorem expressionWith (bound : Nat) :
    R.rel (Expr.Alike R.lines) (expressionWith p bound) (expressionWith q bound) :=
  R.bind (R.applicationWith h bound) fun _ _ first =>
    R.climbWith (R.applicationWith h bound) bound 0 first

theorem elementsWith (tag : Tag) (bound : Nat) :
    R.rel (List.Forall₂ (Expr.Alike R.lines)) (elementsWith p tag bound)
      (elementsWith q tag bound) := by
  induction bound with
  | zero => exact R.pure .nil
  | succ bound ih =>
    refine R.bindToken R.lookahead fun item line line' lines =>
      R.ite Iff.rfl (fun _ => R.pure .nil) fun _ => ?_
    refine R.bind (R.expect _) fun _ _ _ => R.bindToken R.lookahead fun item line line' lines =>
      R.ite Iff.rfl (fun _ => R.fail lines (by simp)) fun _ => ?_
    refine R.bind (R.requiredWith h) fun e e' element => ?_
    rw [element.tag_eq]
    exact R.ite Iff.rfl (fun _ => R.bind ih fun _ _ rest => R.pure (.cons element rest))
      fun _ => R.fail element.line (by simp)

theorem listLiteralWith (bound : Nat) :
    R.rel (Expr.Alike R.lines) (listLiteralWith p bound) (listLiteralWith q bound) := by
  refine R.bind (R.expect _) fun line line' lines => R.bind (R.expect _) fun _ _ _ =>
    R.bindToken R.lookahead fun item _ _ lines' => ?_
  dsimp only
  split
  · exact R.fail lines' (by simp)
  · exact R.fail lines' (by simp)
  · refine R.bind (R.requiredWith h) fun e e' element => ?_
    rw [element.tag_eq]
    exact R.bind (R.elementsWith h _ bound) fun _ _ rest => R.bind (R.expect _) fun _ _ _ =>
      R.pure (.list (.cons element rest) lines)

theorem listOperationWith :
    R.rel (Expr.Alike R.lines) (listOperationWith p) (listOperationWith q) := by
  refine R.bindToken R.next fun item line line' lines => ?_
  cases item with
  | listOperation op =>
    refine R.bind (R.operandWith h op lines) fun _ _ first => ?_
    split
    · exact R.pure (.listOp1 first lines)
    · exact R.bind (R.operandWith h op lines) fun _ _ second =>
        R.pure (.listOp2 first second lines)
    · exact R.bind (R.operandWith h op lines) fun _ _ second =>
        R.bind (R.operandWith h op lines) fun _ _ third =>
          R.pure (.listOp3 first second third lines)
  | _ => exact R.fail lines (by simp)

end Forms

theorem groupingWith {p : ParserOn σ Expr} {q : ParserOn τ Expr}
    (h : R.rel (Expr.Alike R.lines) p q) :
    R.rel (Expr.Alike R.lines) (groupingWith p) (groupingWith q) :=
  R.bind (R.expect _) fun _ _ _ => R.bind h fun _ _ inner => R.bind (R.expect _) fun _ _ _ =>
    R.pure inner

theorem condWith {p : ParserOn σ Expr} {q : ParserOn τ Expr}
    (h : R.rel (Expr.Alike R.lines) p q) :
    R.rel (Expr.Alike R.lines) (condWith p) (condWith q) :=
  R.bind (R.expect _) fun _ _ lines => R.bind h fun _ _ condition =>
    R.bind (R.expect _) fun _ _ _ => R.bind h fun _ _ consequent =>
      R.bind (R.expect _) fun _ _ _ => R.bind h fun _ _ alternative =>
        R.pure (.cond condition consequent alternative lines)

theorem letInWith {p : ParserOn σ Expr} {q : ParserOn τ Expr}
    (h : R.rel (Expr.Alike R.lines) p q) :
    R.rel (Expr.Alike R.lines) (letInWith p) (letInWith q) := by
  refine R.bind (R.expect _) fun line line' lines => R.bind (R.accept _) ?_
  rintro recursive _ rfl
  refine R.bind R.binder ?_
  rintro name _ rfl
  exact R.bind (R.expect _) fun _ _ _ => R.bind h fun _ _ value =>
    R.bind (R.expect _) fun _ _ _ => R.bind h fun _ _ body => R.pure (.letIn value body lines)

theorem tokenAtom {f : Nat → Expr}
    (h : ∀ line line', R.lines line line' → Expr.Alike R.lines (f line) (f line')) :
    R.rel (Expr.Alike R.lines) (tokenAtom f) (tokenAtom f) :=
  R.bind R.next fun x y found => R.pure (h x.line y.line found.line)

variable [LawfulTokenSource σ] [LawfulTokenSource τ]

theorem ty : R.rel Eq ty ty := R.bounded settled_ty settled_ty R.tyWithin

theorem annotatedTy : R.rel Eq annotatedTy annotatedTy := by
  refine R.bind (R.accept _) ?_
  rintro given _ rfl
  refine R.ite Iff.rfl (fun _ => ?_) fun _ => R.pure rfl
  refine R.bind R.ty ?_
  rintro t _ rfl
  exact R.pure rfl

theorem lambdaWith {p : ParserOn σ Expr} {q : ParserOn τ Expr}
    (h : R.rel (Expr.Alike R.lines) p q) :
    R.rel (Expr.Alike R.lines) (lambdaWith p) (lambdaWith q) := by
  refine R.bind (R.expect _) fun line line' lines => R.bind R.binder ?_
  rintro param _ rfl
  refine R.bind R.annotatedTy ?_
  rintro paramTy _ rfl
  exact R.bind (R.expect _) fun _ _ _ => R.bind h fun _ _ body => R.pure (.lam body lines)

theorem atomWith {p : ParserOn σ (Option Expr)} {q : ParserOn τ (Option Expr)}
    (h : R.rel (Option.Rel (Expr.Alike R.lines)) p q) (bound : Nat) :
    R.rel (Option.Rel (Expr.Alike R.lines)) (atomWith p bound) (atomWith q bound) := by
  have some : ∀ {p q}, R.rel (Expr.Alike R.lines) p q →
      R.rel (Option.Rel (Expr.Alike R.lines)) (Option.some <$> p) (Option.some <$> q) :=
    fun h => R.map h fun _ _ alike => .some alike
  have inner := R.expressionWith h bound
  refine R.bindToken R.lookahead fun item line line' _ => ?_
  cases item with
  | integer | bool | string => exact some (R.tokenAtom fun _ _ lines => .literal lines)
  | identifier => exact some (R.tokenAtom fun _ _ lines => .var lines)
  | mark m =>
    cases m with
    | leftParen => exact some (R.groupingWith inner)
    | backslash => exact some (R.lambdaWith inner)
    | _ => exact R.pure .none
  | keyword k =>
    cases k with
    | listWord => exact some (R.listLiteralWith h bound)
    | letWord => exact some (R.letInWith inner)
    | ifWord => exact some (R.condWith inner)
    | _ => exact R.pure .none
  | listOperation => exact some (R.listOperationWith h)
  | _ => exact R.pure .none

theorem atomWithin (bound : Nat) :
    R.rel (Option.Rel (Expr.Alike R.lines)) (atomWithin bound) (atomWithin bound) := by
  induction bound with
  | zero => exact R.pure .none
  | succ bound ih => exact R.atomWith ih bound

theorem expression : R.rel (Expr.Alike R.lines) expression expression :=
  R.bounded settled_expression settled_expression fun bound =>
    R.expressionWith (R.atomWithin bound) bound

/-- The parsers of programs are related. -/
theorem program : R.rel (Expr.Alike R.lines) program program :=
  R.bind R.expression fun _ _ tree => R.bindToken R.lookahead fun _ _ _ lines =>
    R.ite Iff.rfl (fun _ => R.pure tree) fun _ => R.fail lines (by simp)

end Simulation

end Parser

end ListLang
