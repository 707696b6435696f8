import ListLang.Proofs.Grammar.Decision
import ListLang.Proofs.Trees
import Mathlib.Data.List.Forall2

/-!
# Texts that write expressions

A text writes an expression when it is cut into tokens that are read as the expression, whatever
lines they are on, provided that what follows ends every expression. An atom needs no such
proviso. There is a rule for each form: a text put together from texts that write the parts
writes the whole.

## Main definitions

* `TokenStream.Offers` — the tokens that stand from one place of a stream to another.
* `CutInto` — a text is read as tokens, wherever it stands.
* `Forms`, `FormsAtom` — tokens that are an expression, or an atom, wherever they stand.
* `Writes`, `WritesAtom` — a text writes an expression, or an atom.

## Main statements

* `Writes.exists_parse` — a text that writes an expression is a program, and its tree is the
  expression up to lines.
-/

namespace ListLang

namespace TokenStream

variable {s t u : TokenStream}

/-- From the first stream to the second stand the tokens, on whatever lines. -/
def Offers (s : TokenStream) (ts : List Token) (t : TokenStream) : Prop :=
  ∃ located, located.map Located.item = ts ∧ s = t.after located

@[simp] theorem offers_nil_iff : s.Offers [] t ↔ s = t := by
  simp [Offers]

@[simp] theorem offers_cons_iff {x : Token} {ts : List Token} :
    s.Offers (x :: ts) t ↔
      ∃ (line : Nat) (u : TokenStream), s = u.cons ⟨x, line⟩ ∧ u.Offers ts t := by
  constructor
  · rintro ⟨_ | ⟨⟨y, line⟩, rest⟩, items, rfl⟩
    · cases items
    · cases items
      exact ⟨line, t.after rest, rfl, rest, rfl, rfl⟩
  · rintro ⟨line, _, rfl, rest, rfl, rfl⟩
    exact ⟨⟨x, line⟩ :: rest, rfl, rfl⟩

@[simp] theorem offers_append_iff {ts us : List Token} :
    s.Offers (ts ++ us) t ↔ ∃ u, s.Offers ts u ∧ u.Offers us t := by
  induction ts generalizing s with
  | nil => simp
  | cons x ts ih =>
    simp only [List.cons_append, offers_cons_iff, ih]
    grind

theorem Offers.nil : s.Offers [] s := offers_nil_iff.mpr rfl

theorem Offers.cons {x : Token} {ts : List Token} {line : Nat} (h : s.Offers ts t) :
    (s.cons ⟨x, line⟩).Offers (x :: ts) t :=
  offers_cons_iff.mpr ⟨line, s, rfl, h⟩

theorem Offers.append {ts us : List Token} (h : s.Offers ts t) (g : t.Offers us u) :
    s.Offers (ts ++ us) u :=
  offers_append_iff.mpr ⟨t, h, g⟩

/-- The first token ahead ends every expression. -/
def Stops (s : TokenStream) : Prop :=
  ∃ x, s.peek? = some x ∧ x.item.startsAtom = false ∧ x.item.operator? = none

theorem Stops.cons {x : Token} {line : Nat} (ends : x.startsAtom = false)
    (other : x.operator? = none) (s : TokenStream) : (s.cons ⟨x, line⟩).Stops :=
  ⟨_, rfl, ends, other⟩

theorem stops_of_ahead_eq_nil (empty : s.ahead = []) : s.Stops :=
  ⟨_, peek?_of_ahead_eq_nil empty, rfl, rfl⟩

end TokenStream

/-! ## Texts where they stand -/

open TokenStream
open Lexeme (Loose isLayout)

theorem Lexeme.Loose.append {cs rest : List Char} (loose : Loose cs) (last : Loose rest) :
    Loose (cs ++ rest) := by
  cases cs with
  | nil => exact last
  | cons c cs => exact loose

/-- The text is read as the tokens, whatever stands behind it that goes on with no token. -/
def CutInto (cs : List Char) (ts : List Token) : Prop :=
  ∀ line rest, Loose rest → ∃ next, (ofText line (cs ++ rest)).Offers ts (ofText next rest)

namespace CutInto

variable {cs ds : List Char} {ts us : List Token} {t : Token}

theorem nil : CutInto [] [] := fun line _ _ => ⟨line, by simp⟩

/-- A token in front of a text that does not go on with it. -/
theorem cons (writable : t.Writable) (apart : t.Apart cs) (h : CutInto cs ts) :
    CutInto (t.spelling.toList ++ cs) (t :: ts) := by
  intro line rest loose
  have further : t.Apart (cs ++ rest) := by
    cases cs with
    | nil => exact Token.apart_of_loose loose t
    | cons c cs => exact apart
  rw [List.append_assoc, ofText_token writable further]
  obtain ⟨next, offers⟩ := h (line + t.spelling.toList.count '\n') rest loose
  exact ⟨next, offers.cons⟩

theorem token (writable : t.Writable) : CutInto t.spelling.toList [t] := by
  simpa using CutInto.nil.cons writable (by simp [Token.Apart])

theorem layout {c : Char} (layout : isLayout c) (h : CutInto cs ts) : CutInto (c :: cs) ts := by
  intro line rest loose
  rw [List.cons_append]
  obtain blank | lineEnd := Bool.or_eq_true_iff.mp layout
  · rw [ofText_blank blank]
    exact h line rest loose
  · rw [beq_iff_eq.mp lineEnd, ofText_lineEnd]
    exact h (line + 1) rest loose

theorem append (h : CutInto cs ts) (g : CutInto ds us) (apart : Loose ds) :
    CutInto (cs ++ ds) (ts ++ us) := by
  intro line rest loose
  obtain ⟨middle, offers₁⟩ := h line (ds ++ rest) (apart.append loose)
  obtain ⟨next, offers₂⟩ := g middle rest loose
  rw [List.append_assoc]
  exact ⟨next, offers₁.append offers₂⟩

/-- A token with a blank behind it. -/
theorem spaced (writable : t.Writable) (h : CutInto cs ts) :
    CutInto (t.spelling.toList ++ ' ' :: cs) (t :: ts) :=
  .cons writable (Token.apart_of_loose (.cons rfl _) _) (h.layout rfl)

/-- A text with a blank behind it. -/
theorem gap (h : CutInto cs ts) (g : CutInto ds us) : CutInto (cs ++ ' ' :: ds) (ts ++ us) :=
  h.append (g.layout rfl) (.cons rfl _)

end CutInto

namespace Phrase.Spans

variable {s t u : TokenStream} {e first second : Expr} {power : Nat}

theorem operators_of_stops (left : Expr) (stops : t.Stops) :
    (Phrase.operators power left left).Spans t t := by
  obtain ⟨x, sees, -, other⟩ := stops
  refine .joined sees fun op eq => ?_
  simp [eq, Token.operator?] at other

theorem application_of_atom (h : (Phrase.atom e).Spans s t) {x : Located Token}
    (sees : t.peek? = some x) (ends : x.item.startsAtom = false) :
    (Phrase.application e).Spans s t :=
  .application h (.applied sees ends)

theorem expression_of_atom (h : (Phrase.atom e).Spans s t) (stops : t.Stops) :
    (Phrase.expression e).Spans s t := by
  have ⟨x, sees, ends, _⟩ := stops
  exact .expression (h.application_of_atom sees ends) (operators_of_stops e stops)

theorem expression_of_atoms (h : (Phrase.atom first).Spans s t)
    (g : (Phrase.atom second).Spans t u) (stops : u.Stops) :
    (Phrase.expression (.app first second first.line)).Spans s u := by
  have ⟨x, sees, ends, _⟩ := stops
  exact .expression (.application h (.argument g (.applied sees ends)))
    (operators_of_stops _ stops)

theorem expression_of_operator {op : Operator} {line : Nat}
    (h : (Phrase.atom first).Spans s (t.cons ⟨.operator op, line⟩))
    (g : (Phrase.atom second).Spans t u) (stops : u.Stops) :
    (Phrase.expression (.binary op first second line)).Spans s u := by
  have ⟨x, sees, ends, _⟩ := stops
  exact .expression (h.application_of_atom rfl rfl) (.operator (Nat.zero_le _)
    (g.application_of_atom sees ends) (operators_of_stops _ stops) (operators_of_stops _ stops))

end Phrase.Spans

/-! ## Types -/

namespace Ty

/-- The tokens of a type as it is written. -/
def tokens : Ty → List Token
  | base b => [.typeName b]
  | function (base b) result => .typeName b :: .mark .arrow :: result.tokens
  | function argument result =>
    .mark .leftParen :: (argument.tokens ++ .mark .rightParen :: .mark .arrow :: result.tokens)

theorem cutInto_text (t : Ty) : CutInto t.text.toList t.tokens := by
  induction t using Ty.text.induct with
  | case1 b => exact .token (t := .typeName b) trivial
  | case2 b result ih =>
    simp only [text, tokens, String.toList_append, List.append_assoc]
    exact .spaced (t := .typeName b) trivial (.spaced (t := .mark .arrow) trivial ih)
  | case3 argument result composite ih₁ ih₂ =>
    simp only [text, tokens, String.toList_append, List.append_assoc]
    exact .cons (t := .mark .leftParen) trivial (fun _ _ => rfl)
      (ih₁.append (.spaced (t := .mark .rightParen) trivial (.spaced (t := .mark .arrow) trivial
        ih₂)) (.cons rfl _))

/-- The written form of a type is read as the type. -/
theorem spans_of_offers {ty : Ty} {s t : TokenStream} {x : Located Token}
    (offers : s.Offers ty.tokens t) (sees : t.peek? = some x) (other : x.item ≠ .mark .arrow) :
    Ty.Spans .whole ty s t := by
  induction ty using Ty.text.induct generalizing s t x with
  | case1 b =>
    simp only [tokens, TokenStream.offers_cons_iff, TokenStream.offers_nil_iff] at offers
    obtain ⟨l, _, rfl, rfl⟩ := offers
    exact .single .base sees other
  | case2 b result ih =>
    simp only [tokens, TokenStream.offers_cons_iff] at offers
    obtain ⟨l, _, rfl, m, _, rfl, offers⟩ := offers
    exact .function .base (ih offers sees other)
  | case3 argument result composite ih₁ ih₂ =>
    simp only [tokens, TokenStream.offers_cons_iff, TokenStream.offers_append_iff] at offers
    obtain ⟨l, _, rfl, _, offers₁, r, _, rfl, m, _, rfl, offers₂⟩ := offers
    exact .function (.group (ih₁ offers₁ rfl (by simp))) (ih₂ offers₂ sees other)

end Ty

/-! ## Tokens -/

/-- The tokens between the streams are the phrase up to lines, whatever the lines of what the
phrase goes on with. -/
def Phrase.SpansAlike : Phrase → TokenStream → TokenStream → Prop
  | atom e, s, t => ∃ e', e'.unlined = e.unlined ∧ (atom e').Spans s t
  | arguments function e, s, t => ∀ function', function'.unlined = function.unlined →
    ∃ e', e'.unlined = e.unlined ∧ (arguments function' e').Spans s t
  | application e, s, t => ∃ e', e'.unlined = e.unlined ∧ (application e').Spans s t
  | operators power left e, s, t => ∀ left', left'.unlined = left.unlined →
    ∃ e', e'.unlined = e.unlined ∧ (operators power left' e').Spans s t
  | expression e, s, t => ∃ e', e'.unlined = e.unlined ∧ (expression e').Spans s t
  | elements tag rest, s, t =>
    ∃ rest', rest'.map Expr.unlined = rest.map Expr.unlined ∧ (elements tag rest').Spans s t

/-- The tokens are the expression, up to lines, wherever the token behind them ends every
expression. -/
def Forms (ts : List Token) (e : Expr) : Prop :=
  ∀ s t, s.Offers ts t → t.Stops → (Phrase.expression e).SpansAlike s t

/-- The tokens are the expression as an atom, up to lines, wherever they stand. -/
def FormsAtom (ts : List Token) (e : Expr) : Prop :=
  ∀ s t, s.Offers ts t → (Phrase.atom e).SpansAlike s t

namespace FormsAtom

variable {ts ts₁ ts₂ ts₃ : List Token} {e f g : Expr} {line : Nat} {op : ListOperation}

theorem forms (h : FormsAtom ts e) : Forms ts e := by
  intro s t offers stops
  obtain ⟨e', same, read⟩ := h s t offers
  exact ⟨e', same, read.expression_of_atom stops⟩

theorem group (h : Forms ts e) : FormsAtom (.mark .leftParen :: (ts ++ [.mark .rightParen])) e := by
  intro s t offers
  simp only [offers_cons_iff, offers_append_iff, offers_nil_iff] at offers
  obtain ⟨l, _, rfl, _, inner, r, _, rfl, rfl⟩ := offers
  -- The closing parenthesis ends the expression, so nothing need be known of `t`.
  obtain ⟨e', same, read⟩ := h _ _ inner (.cons rfl rfl _)
  exact ⟨e', same, .group read⟩

theorem listOp1 (arity : op.arity = 1) (h : FormsAtom ts e) :
    FormsAtom (.listOperation op :: ts) (.listOp1 op e line) := by
  intro s t offers
  obtain ⟨l, _, rfl, inner⟩ := offers_cons_iff.mp offers
  obtain ⟨e', same, read⟩ := h _ _ inner
  exact ⟨.listOp1 op e' l, by simp only [Expr.unlined, same], .listOp1 arity read⟩

theorem listOp2 (arity : op.arity = 2) (h₁ : FormsAtom ts₁ e) (h₂ : FormsAtom ts₂ f) :
    FormsAtom (.listOperation op :: (ts₁ ++ ts₂)) (.listOp2 op e f line) := by
  intro s t offers
  simp only [offers_cons_iff, offers_append_iff] at offers
  obtain ⟨l, _, rfl, _, offers₁, offers₂⟩ := offers
  obtain ⟨e', same₁, read₁⟩ := h₁ _ _ offers₁
  obtain ⟨f', same₂, read₂⟩ := h₂ _ _ offers₂
  exact ⟨.listOp2 op e' f' l, by simp only [Expr.unlined, same₁, same₂],
    .listOp2 arity read₁ read₂⟩

theorem listOp3 (arity : op.arity = 3) (h₁ : FormsAtom ts₁ e) (h₂ : FormsAtom ts₂ f)
    (h₃ : FormsAtom ts₃ g) :
    FormsAtom (.listOperation op :: (ts₁ ++ (ts₂ ++ ts₃))) (.listOp3 op e f g line) := by
  intro s t offers
  simp only [offers_cons_iff, offers_append_iff] at offers
  obtain ⟨l, _, rfl, _, offers₁, _, offers₂, offers₃⟩ := offers
  obtain ⟨e', same₁, read₁⟩ := h₁ _ _ offers₁
  obtain ⟨f', same₂, read₂⟩ := h₂ _ _ offers₂
  obtain ⟨g', same₃, read₃⟩ := h₃ _ _ offers₃
  exact ⟨.listOp3 op e' f' g' l, by simp only [Expr.unlined, same₁, same₂, same₃],
    .listOp3 arity read₁ read₂ read₃⟩

end FormsAtom

namespace Forms

variable {ts ts₁ ts₂ ts₃ : List Token} {e f g : Expr} {line : Nat} {name : String}

theorem cond (h₁ : Forms ts₁ e) (h₂ : Forms ts₂ f) (h₃ : Forms ts₃ g) :
    Forms (.keyword .ifWord :: (ts₁ ++ .keyword .thenWord :: (ts₂ ++ .keyword .elseWord :: ts₃)))
      (.cond e f g line) := by
  intro s t offers stops
  simp only [offers_cons_iff, offers_append_iff] at offers
  obtain ⟨l, _, rfl, _, offers₁, m, _, rfl, _, offers₂, n, _, rfl, offers₃⟩ := offers
  obtain ⟨e', same₁, read₁⟩ := h₁ _ _ offers₁ (.cons rfl rfl _)
  obtain ⟨f', same₂, read₂⟩ := h₂ _ _ offers₂ (.cons rfl rfl _)
  obtain ⟨g', same₃, read₃⟩ := h₃ _ _ offers₃ stops
  refine ⟨.cond e' f' g' l, ?_, (Phrase.Spans.cond read₁ read₂ read₃).expression_of_atom stops⟩
  simp only [Expr.unlined, same₁, same₂, same₃]

theorem app (h₁ : FormsAtom ts₁ e) (h₂ : FormsAtom ts₂ f) :
    Forms (ts₁ ++ ts₂) (.app e f line) := by
  intro s t offers stops
  obtain ⟨_, offers₁, offers₂⟩ := offers_append_iff.mp offers
  obtain ⟨e', same₁, read₁⟩ := h₁ _ _ offers₁
  obtain ⟨f', same₂, read₂⟩ := h₂ _ _ offers₂
  exact ⟨.app e' f' e'.line, by simp only [Expr.unlined, same₁, same₂],
    read₁.expression_of_atoms read₂ stops⟩

theorem binary {op : Operator} (h₁ : FormsAtom ts₁ e) (h₂ : FormsAtom ts₂ f) :
    Forms (ts₁ ++ .operator op :: ts₂) (.binary op e f line) := by
  intro s t offers stops
  simp only [offers_append_iff, offers_cons_iff] at offers
  obtain ⟨_, offers₁, l, _, rfl, offers₂⟩ := offers
  obtain ⟨e', same₁, read₁⟩ := h₁ _ _ offers₁
  obtain ⟨f', same₂, read₂⟩ := h₂ _ _ offers₂
  exact ⟨.binary op e' f' l, by simp only [Expr.unlined, same₁, same₂],
    read₁.expression_of_operator read₂ stops⟩

theorem lam (h : Forms ts e) :
    Forms (.mark .backslash :: .identifier name :: .mark .fatArrow :: ts)
      (.lam name none e line) := by
  intro s t offers stops
  simp only [offers_cons_iff] at offers
  obtain ⟨l, _, rfl, m, _, rfl, n, _, rfl, offers⟩ := offers
  obtain ⟨e', same, read⟩ := h _ _ offers stops
  exact ⟨.lam name none e' l, by simp only [Expr.unlined, same],
    (Phrase.Spans.lam (.none rfl (by simp)) read).expression_of_atom stops⟩

theorem annotatedLam (t : Ty) (h : Forms ts e) :
    Forms (.mark .backslash :: .identifier name :: .mark .colon ::
      (t.tokens ++ .mark .fatArrow :: ts)) (.lam name (some t) e line) := by
  intro s u offers stops
  simp only [offers_cons_iff, offers_append_iff] at offers
  obtain ⟨l, _, rfl, m, _, rfl, n, _, rfl, _, annotation, a, _, rfl, offers⟩ := offers
  obtain ⟨e', same, read⟩ := h _ _ offers stops
  have annotated := Ty.spans_of_offers annotation rfl (by simp)
  exact ⟨.lam name (some t) e' l, by simp only [Expr.unlined, same],
    (Phrase.Spans.lam (.some annotated) read).expression_of_atom stops⟩

theorem letIn (h₁ : Forms ts₁ e) (h₂ : Forms ts₂ f) :
    Forms (.keyword .letWord :: .identifier name :: .mark .equals ::
      (ts₁ ++ .keyword .inWord :: ts₂)) (.letIn false name e f line) := by
  intro s t offers stops
  simp only [offers_append_iff, offers_cons_iff] at offers
  obtain ⟨l, _, rfl, m, _, rfl, n, _, rfl, _, offers₁, o, _, rfl, offers₂⟩ := offers
  obtain ⟨e', same₁, read₁⟩ := h₁ _ _ offers₁ (.cons rfl rfl _)
  obtain ⟨f', same₂, read₂⟩ := h₂ _ _ offers₂ stops
  exact ⟨.letIn false name e' f' l, by simp only [Expr.unlined, same₁, same₂],
    (Phrase.Spans.letIn read₁ read₂).expression_of_atom stops⟩

theorem letRec (h₁ : Forms ts₁ e) (h₂ : Forms ts₂ f) :
    Forms (.keyword .letWord :: .keyword .recWord :: .identifier name :: .mark .equals ::
      (ts₁ ++ .keyword .inWord :: ts₂)) (.letIn true name e f line) := by
  intro s t offers stops
  simp only [offers_append_iff, offers_cons_iff] at offers
  obtain ⟨l, _, rfl, r, _, rfl, m, _, rfl, n, _, rfl, _, offers₁, o, _, rfl, offers₂⟩ := offers
  obtain ⟨e', same₁, read₁⟩ := h₁ _ _ offers₁ (.cons rfl rfl _)
  obtain ⟨f', same₂, read₂⟩ := h₂ _ _ offers₂ stops
  exact ⟨.letIn true name e' f' l, by simp only [Expr.unlined, same₁, same₂],
    (Phrase.Spans.letRec read₁ read₂).expression_of_atom stops⟩

end Forms

/-! ## Texts -/

/-- The text writes the expression: its tokens are read as the expression, up to lines, where
the token behind them ends every expression. -/
def Writes (text : String) (e : Expr) : Prop := ∃ ts, CutInto text.toList ts ∧ Forms ts e

/-- The text writes the expression as an atom. -/
def WritesAtom (text : String) (e : Expr) : Prop := ∃ ts, CutInto text.toList ts ∧ FormsAtom ts e

theorem WritesAtom.writes {text : String} {e : Expr} (h : WritesAtom text e) :
    Writes text e := by
  obtain ⟨ts, cut, reads⟩ := h
  exact ⟨ts, cut, reads.forms⟩

/-- A text that writes an expression is a program. -/
theorem Writes.exists_parse {text : String} {e : Expr} (h : Writes text e) :
    ∃ e', e'.unlined = e.unlined ∧ parse text = .ok e' := by
  obtain ⟨ts, cut, forms⟩ := h
  obtain ⟨last, offers⟩ := cut 1 [] (by simp [Loose])
  rw [List.append_nil] at offers
  obtain ⟨e', same, read⟩ := forms _ _ offers (stops_of_ahead_eq_nil rfl)
  exact ⟨e', same, parse_ok_iff.mpr ⟨_, rfl, read⟩⟩

namespace WritesAtom

variable {x y z : String} {e f g : Expr} {line : Nat}

theorem literal {value : Literal} (writable : value.token.Writable) :
    WritesAtom value.token.spelling (.literal value line) := by
  refine ⟨[value.token], .token writable, fun s t offers => ?_⟩
  simp only [TokenStream.offers_cons_iff, TokenStream.offers_nil_iff] at offers
  obtain ⟨l, _, rfl, rfl⟩ := offers
  exact ⟨.literal value l, rfl, .literal⟩

theorem var {name : String} (named : Token.isName name) : WritesAtom name (.var name line) := by
  refine ⟨[.identifier name], CutInto.token (t := .identifier name) named, fun s t offers => ?_⟩
  simp only [TokenStream.offers_cons_iff, TokenStream.offers_nil_iff] at offers
  obtain ⟨l, _, rfl, rfl⟩ := offers
  exact ⟨.var name l, rfl, .var⟩

theorem group (hx : Writes x e) : WritesAtom ("(" ++ x ++ ")") e := by
  obtain ⟨ts, cut, reads⟩ := hx
  refine ⟨_, ?_, FormsAtom.group reads⟩
  simp only [String.toList_append, List.append_assoc]
  exact .cons (t := .mark .leftParen) trivial (fun _ _ => rfl)
    (cut.append (.token (t := .mark .rightParen) trivial) (.cons rfl _))

theorem listOp1 {op : ListOperation} (arity : op.arity = 1) (hx : WritesAtom x e) :
    WritesAtom (op.keyword ++ " " ++ x) (.listOp1 op e line) := by
  obtain ⟨ts, cut, reads⟩ := hx
  refine ⟨_, ?_, FormsAtom.listOp1 arity reads⟩
  simp only [String.toList_append, List.append_assoc]
  exact .spaced (t := .listOperation op) trivial cut

theorem listOp2 {op : ListOperation} (arity : op.arity = 2) (hx : WritesAtom x e)
    (hy : WritesAtom y f) :
    WritesAtom (op.keyword ++ " " ++ x ++ " " ++ y) (.listOp2 op e f line) := by
  obtain ⟨ts₁, cut₁, reads₁⟩ := hx
  obtain ⟨ts₂, cut₂, reads₂⟩ := hy
  refine ⟨_, ?_, FormsAtom.listOp2 arity reads₁ reads₂⟩
  simp only [String.toList_append, List.append_assoc]
  exact .spaced (t := .listOperation op) trivial (cut₁.gap cut₂)

theorem listOp3 {op : ListOperation} (arity : op.arity = 3) (hx : WritesAtom x e)
    (hy : WritesAtom y f) (hz : WritesAtom z g) :
    WritesAtom (op.keyword ++ " " ++ x ++ " " ++ y ++ " " ++ z) (.listOp3 op e f g line) := by
  obtain ⟨ts₁, cut₁, reads₁⟩ := hx
  obtain ⟨ts₂, cut₂, reads₂⟩ := hy
  obtain ⟨ts₃, cut₃, reads₃⟩ := hz
  refine ⟨_, ?_, FormsAtom.listOp3 arity reads₁ reads₂ reads₃⟩
  simp only [String.toList_append, List.append_assoc]
  exact .spaced (t := .listOperation op) trivial (cut₁.gap (cut₂.gap cut₃))

/-- The elements behind the first one, each with a comma before it, and the closing bracket. -/
def restText (xs : List String) : String := xs.foldr (fun x more => ", " ++ x ++ more) "]"

theorem intercalate_append_bracket (x : String) (xs : List String) :
    ", ".intercalate (x :: xs) ++ "]" = x ++ restText xs := by
  induction xs generalizing x with
  | nil => simp [restText]
  | cons y ys ih => simp [String.intercalate_cons_cons, String.append_assoc, ih, restText]

theorem loose_restText (xs : List String) : Lexeme.Loose (restText xs).toList := by
  cases xs with
  | nil => exact .cons rfl _
  | cons x xs =>
    rw [restText, List.foldr_cons, String.append_assoc, String.toList_append]
    exact .cons rfl _

theorem elements {tag : Tag} {xs : List String} {es : List Expr}
    (written : List.Forall₂ WritesAtom xs es) (tags : ∀ e ∈ es, e.tag = tag) :
    ∃ ts, CutInto (restText xs).toList ts ∧
      ∀ s t, s.Offers ts t → (Phrase.elements tag es).SpansAlike s t := by
  induction written with
  | nil =>
    refine ⟨[.mark .rightBracket], .token (t := .mark .rightBracket) trivial,
      fun s t offers => ?_⟩
    simp only [TokenStream.offers_cons_iff, TokenStream.offers_nil_iff] at offers
    obtain ⟨l, _, rfl, rfl⟩ := offers
    exact ⟨[], rfl, .close⟩
  | @cons x e xs es first _ ih =>
    obtain ⟨same, tags⟩ := List.forall_mem_cons.mp tags
    obtain ⟨ts₁, cut₁, reads₁⟩ := first
    obtain ⟨ts₂, cut₂, reads₂⟩ := ih tags
    refine ⟨.mark .comma :: (ts₁ ++ ts₂), ?_, fun s t offers => ?_⟩
    · rw [restText, List.foldr_cons]
      simp only [String.toList_append, List.append_assoc]
      exact .cons (t := .mark .comma) trivial (fun _ _ => rfl)
        ((cut₁.append cut₂ (loose_restText xs)).layout rfl)
    · simp only [TokenStream.offers_cons_iff, TokenStream.offers_append_iff] at offers
      obtain ⟨l, _, rfl, _, offers₁, offers₂⟩ := offers
      obtain ⟨e', same₁, read₁⟩ := reads₁ _ _ offers₁
      obtain ⟨es', same₂, read₂⟩ := reads₂ _ _ offers₂
      exact ⟨e' :: es', by simp only [List.map_cons, same₁, same₂],
        .element read₁ ((Expr.tag_eq_of_unlined_eq same₁).trans same) read₂⟩

theorem list {tag : Tag} {xs : List String} {es : List Expr}
    (written : List.Forall₂ WritesAtom xs es) (nonempty : es ≠ []) (tags : ∀ e ∈ es, e.tag = tag) :
    WritesAtom ("List[" ++ ", ".intercalate xs ++ "]") (.list tag es line) := by
  cases written with
  | nil => exact absurd rfl nonempty
  | @cons x e xs es first rest =>
    obtain ⟨rfl, tags⟩ := List.forall_mem_cons.mp tags
    obtain ⟨ts₁, cut₁, reads₁⟩ := first
    obtain ⟨ts₂, cut₂, reads₂⟩ := elements rest tags
    refine ⟨.keyword .listWord :: .mark .leftBracket :: (ts₁ ++ ts₂), ?_, fun s t offers => ?_⟩
    · rw [String.append_assoc, intercalate_append_bracket]
      simp only [String.toList_append]
      exact .cons (t := .keyword .listWord) trivial
        (Token.apart_of_loose (.cons rfl _) _) (.cons (t := .mark .leftBracket) trivial
          (fun _ _ => rfl) (cut₁.append cut₂ (loose_restText xs)))
    · simp only [TokenStream.offers_cons_iff, TokenStream.offers_append_iff] at offers
      obtain ⟨l, _, rfl, m, _, rfl, _, offers₁, offers₂⟩ := offers
      obtain ⟨e', same₁, read₁⟩ := reads₁ _ _ offers₁
      obtain ⟨es', same₂, read₂⟩ := reads₂ _ _ offers₂
      have tag := Expr.tag_eq_of_unlined_eq same₁
      rw [← tag] at read₂
      refine ⟨.list e'.tag (e' :: es') l, ?_, .list read₁ read₂⟩
      simp only [Expr.unlined, Expr.allUnlined_eq_map, List.map_cons, same₁, same₂, tag]

end WritesAtom

namespace Writes

variable {x y z : String} {e f g : Expr} {line : Nat}

theorem cond (hx : Writes x e) (hy : Writes y f) (hz : Writes z g) :
    Writes ("if " ++ x ++ " then " ++ y ++ " else " ++ z) (.cond e f g line) := by
  obtain ⟨ts₁, cut₁, reads₁⟩ := hx
  obtain ⟨ts₂, cut₂, reads₂⟩ := hy
  obtain ⟨ts₃, cut₃, reads₃⟩ := hz
  refine ⟨_, ?_, Forms.cond reads₁ reads₂ reads₃⟩
  simp only [String.toList_append, List.append_assoc]
  exact .spaced (t := .keyword .ifWord) trivial (cut₁.gap (.spaced (t := .keyword .thenWord) trivial
    (cut₂.gap (.spaced (t := .keyword .elseWord) trivial cut₃))))

theorem app (hx : WritesAtom x e) (hy : WritesAtom y f) :
    Writes (x ++ " " ++ y) (.app e f line) := by
  obtain ⟨ts₁, cut₁, reads₁⟩ := hx
  obtain ⟨ts₂, cut₂, reads₂⟩ := hy
  refine ⟨_, ?_, Forms.app reads₁ reads₂⟩
  simp only [String.toList_append, List.append_assoc]
  exact cut₁.gap cut₂

theorem binary {op : Operator} (hx : WritesAtom x e) (hy : WritesAtom y f) :
    Writes (x ++ " " ++ op.spelling ++ " " ++ y) (.binary op e f line) := by
  obtain ⟨ts₁, cut₁, reads₁⟩ := hx
  obtain ⟨ts₂, cut₂, reads₂⟩ := hy
  refine ⟨ts₁ ++ .operator op :: ts₂, ?_, Forms.binary reads₁ reads₂⟩
  simp only [String.toList_append, List.append_assoc]
  exact cut₁.gap (.spaced (t := .operator op) trivial cut₂)

theorem lam {param : String} (named : Token.isName param) (hx : Writes x e) :
    Writes ("\\" ++ param ++ " => " ++ x) (.lam param none e line) := by
  obtain ⟨ts, cut, reads⟩ := hx
  refine ⟨_, ?_, Forms.lam reads⟩
  simp only [String.toList_append, List.append_assoc]
  exact .cons (t := .mark .backslash) trivial (fun _ _ => rfl)
    (.spaced (t := .identifier param) named (.spaced (t := .mark .fatArrow) trivial cut))

theorem annotatedLam {param : String} (named : Token.isName param) (t : Ty) (hx : Writes x e) :
    Writes ("\\" ++ param ++ " : " ++ t.text ++ " => " ++ x) (.lam param (some t) e line) := by
  obtain ⟨ts, cut, reads⟩ := hx
  refine ⟨_, ?_, Forms.annotatedLam t reads⟩
  simp only [String.toList_append, List.append_assoc]
  exact .cons (t := .mark .backslash) trivial (fun _ _ => rfl)
    (.spaced (t := .identifier param) named (.spaced (t := .mark .colon) trivial
      (t.cutInto_text.gap (.spaced (t := .mark .fatArrow) trivial cut))))

theorem letIn {name : String} (named : Token.isName name) (hx : Writes x e) (hy : Writes y f) :
    Writes ("let " ++ name ++ " = " ++ x ++ " in " ++ y) (.letIn false name e f line) := by
  obtain ⟨ts₁, cut₁, reads₁⟩ := hx
  obtain ⟨ts₂, cut₂, reads₂⟩ := hy
  refine ⟨_, ?_, Forms.letIn reads₁ reads₂⟩
  simp only [String.toList_append, List.append_assoc]
  exact .spaced (t := .keyword .letWord) trivial (.spaced (t := .identifier name) named
    (.spaced (t := .mark .equals) trivial (cut₁.gap
      (.spaced (t := .keyword .inWord) trivial cut₂))))

theorem letRec {name : String} (named : Token.isName name) (hx : Writes x e) (hy : Writes y f) :
    Writes ("let rec " ++ name ++ " = " ++ x ++ " in " ++ y) (.letIn true name e f line) := by
  obtain ⟨ts₁, cut₁, reads₁⟩ := hx
  obtain ⟨ts₂, cut₂, reads₂⟩ := hy
  refine ⟨_, ?_, Forms.letRec reads₁ reads₂⟩
  simp only [String.toList_append, List.append_assoc]
  exact .spaced (t := .keyword .letWord) trivial (.spaced (t := .keyword .recWord) trivial
    (.spaced (t := .identifier name) named (.spaced (t := .mark .equals) trivial
      (cut₁.gap (.spaced (t := .keyword .inWord) trivial cut₂)))))

end Writes

end ListLang
