import ListLang.Program

/-!
# What parsers build

A property of trees that every form keeps, as the parser puts the form together, holds of
every tree that the parser builds. The forms may rely on a property of all tokens of the text.

## Main definitions

* `Parser.Yields` — the results of a parser have a property.
* `Parser.Builds` — a property of trees that the parser keeps, form by form.
* `Expr.Regular` — trees with list literals of one form and operations with all operands.

## Main statements

* `Parser.Builds.program` — programs have every property that the parser keeps.
* `regular_of_parse` — programs are regular.
-/

namespace ListLang

/-- Every token ahead has the property `T`. -/
def TokenStream.Satisfies (T : Token → Prop) (s : TokenStream) : Prop :=
  ∀ t line, ⟨.token t, line⟩ ∈ s.ahead → T t

namespace Parser

/-- Where every token ahead has the property `T`, the results of `p` have the property `Q`. -/
def Yields (T : Token → Prop) {α : Type} (p : Parser α) (Q : α → Prop) : Prop :=
  ∀ s, s.Satisfies T → ∀ a t, p s = .ok a t → Q a ∧ t.Satisfies T

namespace Yields

variable {T : Token → Prop} {α β : Type}

theorem pure {Q : α → Prop} {a : α} (h : Q a) : Yields T (Pure.pure a) Q := by
  rintro s sat _ _ ⟨⟩
  exact ⟨h, sat⟩

theorem bind {p : Parser α} {f : α → Parser β} {Q : α → Prop} {R : β → Prop}
    (first : Yields T p Q) (next : ∀ a, Q a → Yields T (f a) R) : Yields T (p >>= f) R := by
  intro s sat b t ok
  change EStateM.bind p f s = .ok b t at ok
  unfold EStateM.bind at ok
  split at ok
  · next a u ran =>
    obtain ⟨h, sat⟩ := first s sat a u ran
    exact next a h u sat b t ok
  · cases ok

theorem fail {Q : α → Prop} (line : Nat) (cause : ParseError.Cause) :
    Yields T (Parser.fail line cause) Q := by
  rintro s sat _ _ ⟨⟩

theorem ite {c : Prop} [Decidable c] {p q : Parser α} {Q : α → Prop}
    (pos : c → Yields T p Q) (neg : ¬ c → Yields T q Q) :
    Yields T (if c then p else q) Q := by
  split
  · exact pos ‹c›
  · exact neg ‹¬ c›

theorem map {p : Parser α} {f : α → β} {Q : α → Prop} {R : β → Prop} (h : Yields T p Q)
    (le : ∀ a, Q a → R (f a)) : Yields T (f <$> p) R :=
  bind h fun a ha => pure (le a ha)

theorem next : Yields T next fun found => T found.item ∨ found.item = .endOfInput := by
  intro s sat a t ok
  change TokenStream.next s = .ok a t at ok
  unfold TokenStream.next at ok
  split at ok <;> cases ok
  · exact ⟨.inr rfl, sat⟩
  · next t line rest eq =>
    have all : ∀ t line, ⟨.token t, line⟩ ∈ s.ahead → T t := sat
    rw [eq] at all
    exact ⟨.inl (all t line (by simp)), fun t line mem => all t line (by simp [mem])⟩

theorem lookahead : Yields T lookahead fun found => T found.item ∨ found.item = .endOfInput := by
  intro s sat a t ok
  change TokenStream.lookahead s = .ok a t at ok
  unfold TokenStream.lookahead at ok
  split at ok <;> cases ok
  · exact ⟨.inr rfl, sat⟩
  · next t line rest eq => exact ⟨.inl (sat t line (by simp [eq])), sat⟩

theorem remaining : Yields T remaining fun _ => True := by
  rintro s sat _ _ ⟨⟩
  exact ⟨trivial, sat⟩

theorem expect (t : Token) : Yields T (expect t) fun _ => True :=
  bind next fun _ _ => ite (fun _ => pure trivial) fun _ => fail _ _

theorem accept (t : Token) : Yields T (accept t) fun _ => True :=
  bind lookahead fun _ _ =>
    ite (fun _ => bind next fun _ _ => pure trivial) fun _ => pure trivial

theorem binder : Yields T binder fun name => T (.identifier name) := by
  refine bind next fun found h => ?_
  split
  · next name eq =>
    rw [eq] at h
    exact pure (h.resolve_right (by simp))
  · exact fail _ _

theorem ty : Yields T ty fun _ => True := by
  have within : ∀ bound, Yields T (tyWithin bound) fun _ => True := by
    intro bound
    induction bound with
    | zero => exact bind next fun _ _ => fail _ _
    | succ bound ih =>
      have atom : Yields T (tyAtomWith (tyWithin bound)) fun _ => True := by
        refine bind next fun found _ => ?_
        split
        · exact pure trivial
        · exact bind ih fun _ _ => bind (expect _) fun _ _ => pure trivial
        · exact fail _ _
      exact bind atom fun _ _ => bind (accept _) fun _ _ =>
        ite (fun _ => bind ih fun _ _ => pure trivial) fun _ => pure trivial
  exact bind remaining fun bound _ => within bound

end Yields

/-- A property of trees that holds of what the parser puts together, given that the tokens
have the property `T`. -/
structure Builds (T : Token → Prop) (P : Expr → Prop) : Prop where
  integer : ∀ {n line}, T (.integer n) → P (.literal (.integer n) line)
  bool : ∀ {b line}, P (.literal (.bool b) line)
  string : ∀ {s line}, T (.string s) → P (.literal (.string s) line)
  var : ∀ {name line}, T (.identifier name) → P (.var name line)
  lam : ∀ {param paramTy body line}, T (.identifier param) → P body →
    P (.lam param paramTy body line)
  app : ∀ {function argument}, P function → P argument →
    P (.app function argument function.line)
  cond : ∀ {condition consequent alternative line}, P condition → P consequent →
    P alternative → P (.cond condition consequent alternative line)
  binary : ∀ {op left right line}, P left → P right → P (.binary op left right line)
  letIn : ∀ {recursive name value body line}, T (.identifier name) → P value → P body →
    P (.letIn recursive name value body line)
  list : ∀ {element rest line}, P element → (∀ e ∈ rest, P e ∧ e.tag = element.tag) →
    P (.list element.tag (element :: rest) line)
  listOp1 : ∀ {op first line}, op.arity = 1 → P first → P (.listOp1 op first line)
  listOp2 : ∀ {op first second line}, op.arity = 2 → P first → P second →
    P (.listOp2 op first second line)
  listOp3 : ∀ {op first second third line}, op.arity = 3 → P first → P second → P third →
    P (.listOp3 op first second third line)

namespace Builds

variable {T : Token → Prop} {P : Expr → Prop} (B : Builds T P)

/-- The trees of an optional atom have the property `P`. -/
def Optional (P : Expr → Prop) (o : Option Expr) : Prop := ∀ e, o = some e → P e

section Parts

variable {atom : Parser (Option Expr)} (h : Yields T atom (Optional P))

include h

theorem requiredWith : Yields T (requiredWith atom) P := by
  refine .bind h fun o ho => ?_
  cases o with
  | some e => exact .pure (ho e rfl)
  | none => exact .bind .lookahead fun _ _ => .fail _ _

theorem operandWith (op : ListOperation) (line : Nat) : Yields T (operandWith atom op line) P := by
  refine .bind h fun o ho => ?_
  cases o with
  | some e => exact .pure (ho e rfl)
  | none => exact .fail _ _

include B

theorem argumentsWith (bound : Nat) {function : Expr} (hf : P function) :
    Yields T (argumentsWith atom bound function) P := by
  induction bound generalizing function with
  | zero => exact .pure hf
  | succ bound ih =>
    refine .bind h fun o ho => ?_
    cases o with
    | some e => exact ih (B.app hf (ho e rfl))
    | none => exact .pure hf

theorem applicationWith (bound : Nat) : Yields T (applicationWith atom bound) P :=
  .bind (requiredWith h) fun _ hf => B.argumentsWith h bound hf

theorem climbWith (bounds bound power : Nat) {left : Expr} (hl : P left) :
    Yields T (climbWith (Parser.applicationWith atom bounds) bound power left) P := by
  induction bound generalizing power left with
  | zero => exact .pure hl
  | succ bound ih =>
    refine .bind .lookahead fun found _ => ?_
    split
    · refine .ite (fun _ => ?_) fun _ => .pure hl
      refine .bind .next fun _ _ => .bind (B.applicationWith h bounds) fun _ hf =>
        .bind (ih _ hf) fun _ hr => ih _ (B.binary hl hr)
    · exact .pure hl

theorem expressionWith (bound : Nat) : Yields T (expressionWith atom bound) P :=
  .bind (B.applicationWith h bound) fun _ hf => B.climbWith h bound bound 0 hf

omit B in
theorem elementsWith (tag : Tag) (bound : Nat) :
    Yields T (elementsWith atom tag bound) fun es => ∀ e ∈ es, P e ∧ e.tag = tag := by
  induction bound with
  | zero => exact .pure (by simp)
  | succ bound ih =>
    refine .bind .lookahead fun _ _ => .ite (fun _ => .pure (by simp)) fun _ => ?_
    refine .bind (.expect _) fun _ _ => .bind .lookahead fun _ _ =>
      .ite (fun _ => .fail _ _) fun _ => .bind (requiredWith h) fun e he => ?_
    refine .ite (fun same => .bind ih fun es hes => .pure ?_) fun _ => .fail _ _
    rintro x (_ | ⟨_, mem⟩)
    · exact ⟨he, same⟩
    · exact hes x mem

theorem listLiteralWith (bound : Nat) : Yields T (listLiteralWith atom bound) P := by
  refine .bind (.expect _) fun _ _ => .bind (.expect _) fun _ _ => .bind .lookahead fun _ _ => ?_
  split
  · exact .fail _ _
  · exact .fail _ _
  · exact .bind (requiredWith h) fun _ he => .bind (elementsWith h _ bound) fun _ hes =>
      .bind (.expect _) fun _ _ => .pure (B.list he hes)

theorem listOperationWith : Yields T (listOperationWith atom) P := by
  refine .bind .next fun found _ => ?_
  split
  · next op _ =>
    refine .bind (operandWith h op _) fun _ h₁ => ?_
    split
    · next arity => exact .pure (B.listOp1 arity h₁)
    · next arity =>
      exact .bind (operandWith h op _) fun _ h₂ => .pure (B.listOp2 arity h₁ h₂)
    · next one two =>
      have arity : op.arity = 3 := by
        cases op with
        | insertAt => rfl
        | getSize | isEmpty => exact absurd rfl one
        | _ => exact absurd rfl two
      exact .bind (operandWith h op _) fun _ h₂ => .bind (operandWith h op _) fun _ h₃ =>
        .pure (B.listOp3 arity h₁ h₂ h₃)
  · exact .fail _ _

end Parts

section Expressions

variable {expression : Parser Expr} (h : Yields T expression P)

include h

theorem groupingWith : Yields T (groupingWith expression) P :=
  .bind (.expect _) fun _ _ => .bind h fun _ he => .bind (.expect _) fun _ _ => .pure he

include B

theorem lambdaWith : Yields T (lambdaWith expression) P := by
  have annotated : Yields T annotatedTy fun _ => True :=
    .bind (.accept _) fun _ _ => .ite (fun _ => .bind .ty fun _ _ => .pure trivial) fun _ =>
      .pure trivial
  exact .bind (.expect _) fun _ _ => .bind .binder fun _ hn => .bind annotated fun _ _ =>
    .bind (.expect _) fun _ _ => .bind h fun _ hb => .pure (B.lam hn hb)

theorem letInWith : Yields T (letInWith expression) P :=
  .bind (.expect _) fun _ _ => .bind (.accept _) fun _ _ => .bind .binder fun _ hn =>
    .bind (.expect _) fun _ _ => .bind h fun _ hv => .bind (.expect _) fun _ _ =>
      .bind h fun _ hb => .pure (B.letIn hn hv hb)

theorem condWith : Yields T (condWith expression) P :=
  .bind (.expect _) fun _ _ => .bind h fun _ h₁ => .bind (.expect _) fun _ _ =>
    .bind h fun _ h₂ => .bind (.expect _) fun _ _ => .bind h fun _ h₃ =>
      .pure (B.cond h₁ h₂ h₃)

end Expressions

include B

theorem atomWith {atom : Parser (Option Expr)} (h : Yields T atom (Optional P)) (bound : Nat) :
    Yields T (atomWith atom bound) (Optional P) := by
  have some : ∀ {p : Parser Expr}, Yields T p P → Yields T (Option.some <$> p) (Optional P) :=
    fun hp => .map hp fun _ he => by rintro _ ⟨⟩; exact he
  have token : ∀ {f : Nat → Expr}, (∀ line, P (f line)) → Yields T (tokenAtom f) P :=
    fun hf => .bind .next fun found _ => .pure (hf found.line)
  have inner := B.expressionWith h bound
  have other : Yields T (Pure.pure none) (Optional P) := .pure fun e none => by cases none
  refine .bind .lookahead fun found ht => ?_
  obtain ⟨item, line⟩ := found
  cases item with
  | integer n => exact some (token fun _ => B.integer (ht.resolve_right (by simp)))
  | bool b => exact some (token fun _ => B.bool)
  | string s => exact some (token fun _ => B.string (ht.resolve_right (by simp)))
  | identifier name => exact some (token fun _ => B.var (ht.resolve_right (by simp)))
  | mark m =>
    cases m with
    | leftParen => exact some (groupingWith inner)
    | backslash => exact some (B.lambdaWith inner)
    | _ => exact other
  | keyword k =>
    cases k with
    | listWord => exact some (B.listLiteralWith h bound)
    | letWord => exact some (B.letInWith inner)
    | ifWord => exact some (B.condWith inner)
    | _ => exact other
  | listOperation op => exact some (B.listOperationWith h)
  | _ => exact other

theorem atomWithin (bound : Nat) : Yields T (atomWithin bound) (Optional P) := by
  induction bound with
  | zero => exact .pure fun e none => by cases none
  | succ bound ih => exact B.atomWith ih bound

/-- Programs have every property that the parser keeps. -/
theorem program : Yields T Parser.program P := by
  have expression : Yields T Parser.expression P :=
    .bind .remaining fun bound _ => B.expressionWith (B.atomWithin bound) bound
  exact .bind expression fun _ he => .bind .lookahead fun _ _ =>
    .ite (fun _ => .pure he) fun _ => .fail _ _

end Builds

end Parser

theorem parse_eq_ok_iff {source : String} {e : Expr} :
    parse source = .ok e ↔ ∃ rest, Parser.program (TokenStream.ofSource source) = .ok e rest := by
  unfold parse
  split <;> simp_all

theorem Parser.Builds.of_parse {T : Token → Prop} {P : Expr → Prop} (B : Builds T P)
    {source : String} {e : Expr} (tokens : (TokenStream.ofSource source).Satisfies T)
    (parsed : parse source = .ok e) : P e := by
  obtain ⟨rest, ran⟩ := parse_eq_ok_iff.mp parsed
  exact (B.program _ tokens e rest ran).1

/-! ## Regular trees -/

namespace Expr

mutual

/-- Every list literal has elements, all of the form it records, and every list operation has
as many operands as it takes. -/
def Regular : Expr → Prop
  | literal .. | var .. => True
  | lam _ _ body _ => body.Regular
  | app function argument _ => function.Regular ∧ argument.Regular
  | cond condition consequent alternative _ =>
    condition.Regular ∧ consequent.Regular ∧ alternative.Regular
  | binary _ left right _ => left.Regular ∧ right.Regular
  | letIn _ _ value body _ => value.Regular ∧ body.Regular
  | list elementTag elements _ =>
    elements ≠ [] ∧ (∀ e ∈ elements, e.tag = elementTag) ∧ AllRegular elements
  | listOp1 op first _ => op.arity = 1 ∧ first.Regular
  | listOp2 op first second _ => op.arity = 2 ∧ first.Regular ∧ second.Regular
  | listOp3 op first second third _ =>
    op.arity = 3 ∧ first.Regular ∧ second.Regular ∧ third.Regular

/-- Every one of the trees is regular. -/
def AllRegular : List Expr → Prop
  | [] => True
  | e :: rest => e.Regular ∧ AllRegular rest

end

theorem allRegular_iff {es : List Expr} : AllRegular es ↔ ∀ e ∈ es, e.Regular := by
  induction es with
  | nil => simp [AllRegular]
  | cons e es ih => simp [AllRegular, ih]

end Expr

theorem builds_regular : Parser.Builds (fun _ => True) Expr.Regular where
  integer _ := trivial
  bool := trivial
  string _ := trivial
  var _ := trivial
  lam _ body := body
  app function argument := ⟨function, argument⟩
  cond condition consequent alternative := ⟨condition, consequent, alternative⟩
  binary left right := ⟨left, right⟩
  letIn _ value body := ⟨value, body⟩
  list element rest := by
    refine ⟨by simp, ?_, element, Expr.allRegular_iff.mpr fun e mem => (rest e mem).1⟩
    rintro e (_ | ⟨_, mem⟩)
    · rfl
    · exact (rest e mem).2
  listOp1 arity first := ⟨arity, first⟩
  listOp2 arity first second := ⟨arity, first, second⟩
  listOp3 arity first second third := ⟨arity, first, second, third⟩

/-- Programs are regular. -/
theorem regular_of_parse {source : String} {e : Expr} (parsed : parse source = .ok e) :
    e.Regular :=
  builds_regular.of_parse (fun _ _ _ => trivial) parsed

end ListLang
