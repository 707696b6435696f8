import ListLang.Proofs.Grammar.Basic
import ListLang.Proofs.Yields

/-!
# Parsing decides the grammar

Each parser of the parts of expressions succeeds exactly where the rules of the part apply.
The parsers count down a bound of the tokens ahead, so they are compared with the rules on
streams within the bound.

## Main statements

* `Parser.expression_ok_iff` — the parser of expressions decides their rules.
* `parse_ok_iff` — a text is a program exactly when its tokens are an expression.
-/

namespace ListLang.Parser

variable {s t u : TokenStream}

/-- The rules of an optional atom: none is read where none can start. -/
def AtomSpans : Option Expr → TokenStream → TokenStream → Prop
  | some e, s, t => (Phrase.atom e).Spans s t
  | none, s, t => t = s ∧ ∃ x, s.peek? = some x ∧ x.item.startsAtom = false

section Parts

variable {bound : Nat} {atom : Parser (Option Expr)} (h : Decides bound atom AtomSpans)

include h

theorem decides_requiredWith :
    Decides bound (requiredWith atom) fun e => (Phrase.atom e).Spans := by
  intro s enough e u
  simp only [requiredWith, bind_ok_iff, h s enough]
  constructor
  · rintro ⟨_ | found, t, read, ok⟩
    · obtain ⟨_, _, _, failed⟩ := bind_ok_iff.mp ok
      exact (fail_ok_iff.mp failed).elim
    · obtain ⟨rfl, rfl⟩ := pure_ok_iff.mp ok
      exact read
  · intro read
    exact ⟨some e, u, read, rfl⟩

theorem decides_operandWith (op : ListOperation) (line : Nat) :
    Decides bound (operandWith atom op line) fun e => (Phrase.atom e).Spans := by
  intro s enough e u
  simp only [operandWith, bind_ok_iff, h s enough]
  constructor
  · rintro ⟨_ | found, t, read, ok⟩
    · exact (fail_ok_iff.mp ok).elim
    · obtain ⟨rfl, rfl⟩ := pure_ok_iff.mp ok
      exact read
  · intro read
    exact ⟨some e, u, read, rfl⟩

theorem decides_argumentsWith {rounds : Nat} (within : rounds ≤ bound) (function : Expr) :
    Decides rounds (argumentsWith atom rounds function) fun e =>
      (Phrase.arguments function e).Spans := by
  induction rounds generalizing function with
  | zero =>
    intro s enough e u
    have empty : s.ahead = [] := List.length_eq_zero_iff.mp (by omega)
    simp only [argumentsWith, pure_ok_iff]
    constructor
    · rintro ⟨rfl, rfl⟩
      exact .applied (TokenStream.peek?_of_ahead_eq_nil empty) rfl
    · intro read
      cases read with
      | applied => exact ⟨rfl, rfl⟩
      | argument first =>
        have := first.length_le
        simp [empty, Phrase.least] at this
  | succ rounds ih =>
    intro s enough e u
    simp only [argumentsWith, bind_ok_iff, h s (by omega)]
    constructor
    · rintro ⟨_ | argument, t, read, ok⟩
      · obtain ⟨rfl, rfl⟩ := pure_ok_iff.mp ok
        obtain ⟨rfl, x, sees, other⟩ := read
        exact .applied sees other
      · -- An atom takes a token, so what is behind it is within one round less.
        have shorter : t.ahead.length + 1 ≤ s.ahead.length := read.length_le
        exact .argument read ((ih (by omega) _ t (by omega) _ _).mp ok)
    · intro read
      cases read with
      | applied sees other => exact ⟨none, s, ⟨rfl, _, sees, other⟩, rfl⟩
      | @argument _ argument _ _ t _ first rest =>
        have shorter : t.ahead.length + 1 ≤ s.ahead.length := first.length_le
        exact ⟨some argument, t, first, (ih (by omega) _ t (by omega) _ _).mpr rest⟩

theorem decides_applicationWith :
    Decides bound (applicationWith atom bound) fun e => (Phrase.application e).Spans := by
  intro s enough e u
  simp only [applicationWith, bind_ok_iff, decides_requiredWith h s enough]
  constructor
  · rintro ⟨function, t, read, ok⟩
    have := read.length_le
    exact .application read ((decides_argumentsWith h (Nat.le_refl _) _ t (by omega) _ _).mp ok)
  · intro read
    cases read with
    | @application function _ _ t _ first rest =>
      have := first.length_le
      exact ⟨function, t, first,
        (decides_argumentsWith h (Nat.le_refl _) _ t (by omega) _ _).mpr rest⟩

end Parts

section Operators

variable {operand : Parser Expr}

theorem climbWith_stop {rounds power : Nat} {left e : Expr} {x : Located Token}
    (sees : s.peek? = some x) (loose : ∀ op, x.item = .operator op → op.leftPower < power) :
    climbWith operand rounds power left s = .ok e u ↔ e = left ∧ u = s := by
  cases rounds with
  | zero => exact pure_ok_iff
  | succ rounds =>
    rw [climbWith, bind_of_ok (lookahead_ok_iff.mpr ⟨rfl, sees⟩)]
    obtain ⟨item, line⟩ := x
    cases item with
    | operator op => simp [Nat.not_le.mpr (loose op rfl)]
    | _ => exact pure_ok_iff

theorem climbWith_operator {rounds power line : Nat} {op : Operator} {left e : Expr}
    (binds : power ≤ op.leftPower) :
    climbWith operand (rounds + 1) power left (s.cons ⟨.operator op, line⟩) = .ok e u ↔
      ∃ first t, operand s = .ok first t ∧
        ∃ right v, climbWith operand rounds op.rightPower first t = .ok right v ∧
          climbWith operand rounds power (.binary op left right line) v = .ok e u := by
  rw [climbWith, bind_of_ok (lookahead_cons _)]
  simp only [if_pos binds]
  rw [bind_of_ok (next_cons _)]
  simp only [bind_ok_iff]

theorem decides_climbWith {bound : Nat}
    (h : Decides bound operand fun e => (Phrase.application e).Spans) {rounds : Nat}
    (within : rounds ≤ bound) (power : Nat) (left : Expr) :
    Decides rounds (climbWith operand rounds power left) fun e =>
      (Phrase.operators power left e).Spans := by
  induction rounds generalizing power left with
  | zero =>
    intro s enough e u
    have empty : s.ahead = [] := List.length_eq_zero_iff.mp (by omega)
    have sees := TokenStream.peek?_of_ahead_eq_nil empty
    rw [climbWith_stop sees (by simp [TokenStream.ending])]
    constructor
    · rintro ⟨rfl, rfl⟩
      exact .joined sees (by simp [TokenStream.ending])
    · intro read
      cases read with
      | joined => exact ⟨rfl, rfl⟩
      | operator => simp at empty
  | succ rounds ih =>
    intro s enough e u
    constructor
    · intro ok
      obtain ⟨x, _, looked, _⟩ := bind_ok_iff.mp ok
      obtain ⟨-, sees⟩ := lookahead_ok_iff.mp looked
      by_cases loose : ∀ op, x.item = .operator op → op.leftPower < power
      · obtain ⟨rfl, rfl⟩ := (climbWith_stop sees loose).mp ok
        exact .joined sees loose
      · obtain ⟨op, eq, binds⟩ : ∃ op, x.item = .operator op ∧ power ≤ op.leftPower := by
          simpa using loose
        obtain ⟨item, line⟩ := x
        obtain rfl : item = .operator op := eq
        obtain ⟨rest, rfl⟩ := TokenStream.exists_cons_of_peek? sees (by simp)
        simp only [TokenStream.ahead_cons, List.length_cons] at enough
        obtain ⟨first, t, ran, right, v, inner, outer⟩ := (climbWith_operator binds).mp ok
        -- The operator and its operand take tokens, so one round less is enough both for the
        -- operators that the right operand goes on with and for those behind it.
        have first := (h rest (by omega) _ _).mp ran
        have := first.length_le
        have inner := (ih (by omega) _ _ t (by omega) _ _).mp inner
        have := inner.length_le
        exact .operator binds first inner ((ih (by omega) _ _ v (by omega) _ _).mp outer)
    · intro read
      cases read with
      | joined sees loose => exact (climbWith_stop sees loose).mpr ⟨rfl, rfl⟩
      | @operator _ op _ first right _ line rest t v _ binds operand inner outer =>
        simp only [TokenStream.ahead_cons, List.length_cons] at enough
        have := operand.length_le
        have := inner.length_le
        exact (climbWith_operator binds).mpr ⟨first, t, (h rest (by omega) _ _).mpr operand,
          right, v, (ih (by omega) _ _ t (by omega) _ _).mpr inner,
          (ih (by omega) _ _ v (by omega) _ _).mpr outer⟩

end Operators

section Forms

variable {bound : Nat} {atom : Parser (Option Expr)} (h : Decides bound atom AtomSpans)

include h

theorem decides_expressionWith :
    Decides bound (expressionWith atom bound) fun e => (Phrase.expression e).Spans := by
  intro s enough e u
  have operators := decides_climbWith (decides_applicationWith h) (Nat.le_refl bound) 0
  simp only [expressionWith, binaryWith, bind_ok_iff, decides_applicationWith h s enough]
  constructor
  · rintro ⟨first, t, read, ok⟩
    have := read.length_le
    exact .expression read ((operators _ t (by omega) _ _).mp ok)
  · intro read
    cases read with
    | @expression first _ _ t _ read rest =>
      have := read.length_le
      exact ⟨first, t, read, (operators _ t (by omega) _ _).mpr rest⟩

theorem groupingWith_ok_iff {l : Nat} {e : Expr} (enough : s.ahead.length ≤ bound) :
    groupingWith (expressionWith atom bound) (s.cons ⟨.mark .leftParen, l⟩) = .ok e u ↔
      ∃ r, (Phrase.expression e).Spans s (u.cons ⟨.mark .rightParen, r⟩) := by
  rw [groupingWith, bind_of_ok (expect_mark_ok_iff.mpr rfl)]
  simp only [bind_ok_iff, decides_expressionWith h s enough, expect_mark_ok_iff, pure_ok_iff]
  constructor
  · rintro ⟨_, _, inner, r, _, rfl, rfl, rfl⟩
    exact ⟨r, inner⟩
  · rintro ⟨r, inner⟩
    exact ⟨e, _, inner, r, u, rfl, rfl, rfl⟩

theorem elementsWith_ok_iff {rounds : Nat} (within : rounds ≤ bound) {tag : Tag} {es : List Expr}
    (enough : s.ahead.length ≤ rounds) :
    (∃ line, elementsWith atom tag rounds s = .ok es (u.cons ⟨.mark .rightBracket, line⟩)) ↔
      (Phrase.elements tag es).Spans s u := by
  induction rounds generalizing s es with
  | zero =>
    have empty : s.ahead = [] := List.length_eq_zero_iff.mp (by omega)
    constructor
    · rintro ⟨line, ok⟩
      obtain ⟨-, rfl⟩ := pure_ok_iff.mp ok
      simp at empty
    · intro read
      have := read.length_le
      simp [empty, Phrase.least] at this
  | succ rounds ih =>
    constructor
    · rintro ⟨line, ran⟩
      obtain ⟨found, _, looked, ok⟩ := bind_ok_iff.mp ran
      obtain ⟨rfl, -⟩ := lookahead_ok_iff.mp looked
      split at ok
      · obtain ⟨rfl, rfl⟩ := pure_ok_iff.mp ok
        exact .close
      simp only [bind_ok_iff, expect_mark_ok_iff, lookahead_ok_iff] at ok
      obtain ⟨l, t, rfl, _, _, ⟨rfl, -⟩, ok⟩ := ok
      simp only [TokenStream.ahead_cons, List.length_cons] at enough
      split at ok
      · exact (fail_ok_iff.mp ok).elim
      obtain ⟨e, v, first, ok⟩ := bind_ok_iff.mp ok
      rw [decides_requiredWith h t (by omega)] at first
      have := first.length_le
      split at ok
      · next same =>
        obtain ⟨rest, _, ran, ok⟩ := bind_ok_iff.mp ok
        obtain ⟨rfl, rfl⟩ := pure_ok_iff.mp ok
        exact .element first same ((ih (by omega) (by omega)).mp ⟨line, ran⟩)
      · exact (fail_ok_iff.mp ok).elim
    · intro read
      cases read with
      | close => exact ⟨_, rfl⟩
      | @element e _ rest l t v _ first same more =>
        simp only [TokenStream.ahead_cons, List.length_cons] at enough
        have := first.length_le
        obtain ⟨line, ran⟩ := (ih (by omega) (by omega)).mpr more
        obtain ⟨x, sees, starts⟩ := first.startsAtom
        have other : ¬ (x.item = .mark .comma ∨ x.item = .mark .rightBracket) := by
          rintro (eq | eq) <;> simp [eq, Token.startsAtom] at starts
        refine ⟨line, ?_⟩
        rw [elementsWith, bind_of_ok (lookahead_cons _), if_neg (by simp),
          bind_of_ok (expect_mark_ok_iff.mpr rfl),
          bind_of_ok (lookahead_ok_iff.mpr ⟨rfl, sees⟩), if_neg other,
          bind_of_ok ((decides_requiredWith h t (by omega) _ _).mpr first), if_pos same,
          bind_of_ok ran]
        rfl

omit h in
theorem listLiteralWith_of_other {x : Located Token} {line l : Nat} (sees : s.peek? = some x)
    (open₁ : x.item ≠ .mark .rightBracket) (open₂ : x.item ≠ .mark .comma) :
    listLiteralWith atom bound
        ((s.cons ⟨.mark .leftBracket, l⟩).cons ⟨.keyword .listWord, line⟩) =
      (do
        let element ← requiredWith atom
        let rest ← elementsWith atom element.tag bound
        let _ ← expect (.mark .rightBracket)
        pure (Expr.list element.tag (element :: rest) line)) s := by
  rw [listLiteralWith, bind_of_ok (expect_keyword_ok_iff.mpr rfl),
    bind_of_ok (expect_mark_ok_iff.mpr rfl), bind_of_ok (lookahead_ok_iff.mpr ⟨rfl, sees⟩)]
  obtain ⟨item, _⟩ := x
  cases item with
  | mark m =>
    cases m with
    | rightBracket => exact absurd rfl open₁
    | comma => exact absurd rfl open₂
    | _ => rfl
  | _ => rfl

theorem listLiteralWith_ok_iff {line : Nat} {e : Expr} (enough : s.ahead.length ≤ bound) :
    listLiteralWith atom bound (s.cons ⟨.keyword .listWord, line⟩) = .ok e u ↔
      ∃ element rest l t v, e = .list element.tag (element :: rest) line ∧
        s = t.cons ⟨.mark .leftBracket, l⟩ ∧ (Phrase.atom element).Spans t v ∧
        (Phrase.elements element.tag rest).Spans v u := by
  constructor
  · intro ran
    have ok := ran
    rw [listLiteralWith, bind_of_ok (expect_keyword_ok_iff.mpr rfl)] at ok
    obtain ⟨l, t, opened, inside⟩ := bind_ok_iff.mp ok
    rw [expect_mark_ok_iff] at opened
    subst opened
    obtain ⟨found, _, looked, chosen⟩ := bind_ok_iff.mp inside
    obtain ⟨rfl, sees⟩ := lookahead_ok_iff.mp looked
    have open₁ : found.item ≠ .mark .rightBracket := by
      intro eq
      rw [eq] at chosen
      exact fail_ok_iff.mp chosen
    have open₂ : found.item ≠ .mark .comma := by
      intro eq
      rw [eq] at chosen
      exact fail_ok_iff.mp chosen
    have enough := Nat.le_of_succ_le enough
    rw [listLiteralWith_of_other sees open₁ open₂] at ran
    simp only [bind_ok_iff, decides_requiredWith h t enough, expect_mark_ok_iff, pure_ok_iff] at ran
    obtain ⟨element, v, first, rest, _, more, r, _, rfl, rfl, rfl⟩ := ran
    have := first.length_le
    exact ⟨element, rest, l, t, v, rfl, rfl, first,
      (elementsWith_ok_iff h (Nat.le_refl _) (by omega)).mp ⟨r, more⟩⟩
  · rintro ⟨element, rest, l, t, v, rfl, rfl, first, more⟩
    have := first.length_le
    have enough := Nat.le_of_succ_le enough
    obtain ⟨r, ran⟩ := (elementsWith_ok_iff h (Nat.le_refl bound) (by omega)).mpr more
    obtain ⟨x, sees, starts⟩ := first.startsAtom
    rw [listLiteralWith_of_other sees (fun eq => by simp [eq, Token.startsAtom] at starts)
      fun eq => by simp [eq, Token.startsAtom] at starts,
      bind_of_ok ((decides_requiredWith h t enough _ _).mpr first), bind_of_ok ran,
      bind_of_ok (expect_mark_ok_iff.mpr rfl)]
    rfl

theorem listOperationWith_ok_iff {line : Nat} {op : ListOperation} {e : Expr}
    (enough : s.ahead.length ≤ bound) :
    listOperationWith atom (s.cons ⟨.listOperation op, line⟩) = .ok e u ↔
      (op.arity = 1 ∧ ∃ first, e = .listOp1 op first line ∧ (Phrase.atom first).Spans s u) ∨
      (op.arity = 2 ∧ ∃ first second t, e = .listOp2 op first second line ∧
        (Phrase.atom first).Spans s t ∧ (Phrase.atom second).Spans t u) ∨
      (op.arity = 3 ∧ ∃ first second third t v, e = .listOp3 op first second third line ∧
        (Phrase.atom first).Spans s t ∧ (Phrase.atom second).Spans t v ∧
        (Phrase.atom third).Spans v u) := by
  have operand := decides_operandWith h op line
  have arities : op.arity = 1 ∨ op.arity = 2 ∨ op.arity = 3 := by
    cases op <;> simp [ListOperation.arity]
  rw [listOperationWith, bind_of_ok (next_cons _)]
  simp only [bind_ok_iff, operand s enough]
  rcases arities with arity | arity | arity <;> simp only [arity, bind_ok_iff, pure_ok_iff]
  · constructor
    · rintro ⟨first, t, read, rfl, rfl⟩
      exact .inl ⟨trivial, first, rfl, read⟩
    · rintro (⟨-, first, rfl, read⟩ | ⟨⟨⟩, -⟩ | ⟨⟨⟩, -⟩)
      exact ⟨first, u, read, rfl, rfl⟩
  · constructor
    · rintro ⟨first, t, read, second, _, ran, rfl, rfl⟩
      have := read.length_le
      exact .inr (.inl ⟨trivial, first, second, t, rfl, read, (operand t (by omega) _ _).mp ran⟩)
    · rintro (⟨⟨⟩, -⟩ | ⟨-, first, second, t, rfl, read₁, read₂⟩ | ⟨⟨⟩, -⟩)
      have := read₁.length_le
      exact ⟨first, t, read₁, second, u, (operand t (by omega) _ _).mpr read₂, rfl, rfl⟩
  · constructor
    · rintro ⟨first, t, read₁, second, v, ran₂, third, _, ran₃, rfl, rfl⟩
      have := read₁.length_le
      have read₂ := (operand t (by omega) _ _).mp ran₂
      have := read₂.length_le
      exact .inr (.inr ⟨trivial, first, second, third, t, v, rfl, read₁, read₂,
        (operand v (by omega) _ _).mp ran₃⟩)
    · rintro (⟨⟨⟩, -⟩ | ⟨⟨⟩, -⟩ | ⟨-, first, second, third, t, v, rfl, read₁, read₂, read₃⟩)
      have := read₁.length_le
      have := read₂.length_le
      exact ⟨first, t, read₁, second, v, (operand t (by omega) _ _).mpr read₂, third, u,
        (operand v (by omega) _ _).mpr read₃, rfl, rfl⟩

theorem lambdaWith_ok_iff {line : Nat} {e : Expr} (enough : s.ahead.length ≤ bound) :
    lambdaWith (expressionWith atom bound) (s.cons ⟨.mark .backslash, line⟩) = .ok e u ↔
      ∃ param paramTy body l a t v, e = .lam param paramTy body line ∧
        s = t.cons ⟨.identifier param, l⟩ ∧
        Ty.Annotates paramTy t (v.cons ⟨.mark .fatArrow, a⟩) ∧
        (Phrase.expression body).Spans v u := by
  have inner := decides_expressionWith h
  rw [lambdaWith, bind_of_ok (expect_mark_ok_iff.mpr rfl)]
  simp only [bind_ok_iff, binder_ok_iff, annotatedTy_ok_iff, expect_mark_ok_iff, pure_ok_iff]
  constructor
  · rintro ⟨param, t, ⟨l, rfl⟩, paramTy, _, annotated, a, v, rfl, body, _, ran, rfl, rfl⟩
    have := annotated.length_le
    simp only [TokenStream.ahead_cons, List.length_cons] at this enough
    exact ⟨param, paramTy, body, l, a, t, v, rfl, rfl, annotated,
      (inner v (by omega) _ _).mp ran⟩
  · rintro ⟨param, paramTy, body, l, a, t, v, rfl, rfl, annotated, read⟩
    have := annotated.length_le
    simp only [TokenStream.ahead_cons, List.length_cons] at this enough
    exact ⟨param, t, ⟨l, rfl⟩, paramTy, _, annotated, a, v, rfl, body, u,
      (inner v (by omega) _ _).mpr read, rfl, rfl⟩

theorem letInWith_ok_iff {line : Nat} {e : Expr} (enough : s.ahead.length ≤ bound) :
    letInWith (expressionWith atom bound) (s.cons ⟨.keyword .letWord, line⟩) = .ok e u ↔
      ∃ recursive name value body l q i t v, e = .letIn recursive name value body line ∧
        (recursive = false ∧ s = (t.cons ⟨.mark .equals, q⟩).cons ⟨.identifier name, l⟩ ∨
          recursive = true ∧ ∃ r, s =
            ((t.cons ⟨.mark .equals, q⟩).cons ⟨.identifier name, l⟩).cons ⟨.keyword .recWord, r⟩) ∧
        (Phrase.expression value).Spans t (v.cons ⟨.keyword .inWord, i⟩) ∧
        (Phrase.expression body).Spans v u := by
  have inner := decides_expressionWith h
  rw [letInWith, bind_of_ok (expect_keyword_ok_iff.mpr rfl)]
  simp only [bind_ok_iff, accept_ok_iff (x := .keyword .recWord) (by simp), binder_ok_iff,
    expect_mark_ok_iff, expect_keyword_ok_iff, pure_ok_iff]
  constructor
  · rintro ⟨recursive, _, accepted, name, _, ⟨l, rfl⟩, q, t, rfl, value, _, ran₁, i, v, rfl,
      body, _, ran₂, rfl, rfl⟩
    have shape : recursive = false ∧ s = (t.cons ⟨.mark .equals, q⟩).cons ⟨.identifier name, l⟩ ∨
        recursive = true ∧ ∃ r, s = ((t.cons ⟨.mark .equals, q⟩).cons
          ⟨.identifier name, l⟩).cons ⟨.keyword .recWord, r⟩ := by
      rcases accepted with accepted | ⟨rfl, rfl, -⟩
      · exact .inr accepted
      · exact .inl ⟨rfl, rfl⟩
    have : t.ahead.length ≤ bound := by
      rcases shape with ⟨-, rfl⟩ | ⟨-, r, rfl⟩ <;> simp at enough <;> omega
    have read₁ := (inner t this _ _).mp ran₁
    have := read₁.length_le
    simp only [TokenStream.ahead_cons, List.length_cons] at this
    exact ⟨recursive, name, value, body, l, q, i, t, v, rfl, shape, read₁,
      (inner v (by omega) _ _).mp ran₂⟩
  · rintro ⟨recursive, name, value, body, l, q, i, t, v, rfl, shape, read₁, read₂⟩
    have : t.ahead.length ≤ bound := by
      rcases shape with ⟨-, rfl⟩ | ⟨-, r, rfl⟩ <;> simp at enough <;> omega
    have ran₁ := (inner t this _ _).mpr read₁
    have := read₁.length_le
    simp only [TokenStream.ahead_cons, List.length_cons] at this
    refine ⟨recursive, (t.cons ⟨.mark .equals, q⟩).cons ⟨.identifier name, l⟩, ?_, name, _,
      ⟨l, rfl⟩, q, t, rfl, value, _, ran₁, i, v, rfl, body, u,
      (inner v (by omega) _ _).mpr read₂, rfl, rfl⟩
    rcases shape with ⟨rfl, rfl⟩ | accepted
    · exact .inr ⟨rfl, rfl, _, rfl, by simp⟩
    · exact .inl accepted

theorem condWith_ok_iff {line : Nat} {e : Expr} (enough : s.ahead.length ≤ bound) :
    condWith (expressionWith atom bound) (s.cons ⟨.keyword .ifWord, line⟩) = .ok e u ↔
      ∃ condition consequent alternative m n t v, e = .cond condition consequent alternative line ∧
        (Phrase.expression condition).Spans s (t.cons ⟨.keyword .thenWord, m⟩) ∧
        (Phrase.expression consequent).Spans t (v.cons ⟨.keyword .elseWord, n⟩) ∧
        (Phrase.expression alternative).Spans v u := by
  have inner := decides_expressionWith h
  rw [condWith, bind_of_ok (expect_keyword_ok_iff.mpr rfl)]
  simp only [bind_ok_iff, inner s enough, expect_keyword_ok_iff, pure_ok_iff]
  constructor
  · rintro ⟨condition, _, read₁, m, t, rfl, consequent, _, ran₂, n, v, rfl, alternative, _, ran₃,
      rfl, rfl⟩
    have := read₁.length_le
    simp only [TokenStream.ahead_cons, List.length_cons] at this
    have read₂ := (inner t (by omega) _ _).mp ran₂
    have := read₂.length_le
    simp only [TokenStream.ahead_cons, List.length_cons] at this
    exact ⟨condition, consequent, alternative, m, n, t, v, rfl, read₁, read₂,
      (inner v (by omega) _ _).mp ran₃⟩
  · rintro ⟨condition, consequent, alternative, m, n, t, v, rfl, read₁, read₂, read₃⟩
    have := read₁.length_le
    simp only [TokenStream.ahead_cons, List.length_cons] at this
    have ran₂ := (inner t (by omega) _ _).mpr read₂
    have := read₂.length_le
    simp only [TokenStream.ahead_cons, List.length_cons] at this
    exact ⟨condition, _, read₁, m, t, rfl, consequent, _, ran₂, n, v, rfl, alternative, u,
      (inner v (by omega) _ _).mpr read₃, rfl, rfl⟩

theorem spans_of_atomWith {o : Option Expr} (within : s.ahead.length ≤ bound + 1)
    (ran : atomWith atom bound s = .ok o u) : AtomSpans o s u := by
  obtain ⟨⟨item, line⟩, _, looked, ok⟩ := bind_ok_iff.mp ran
  obtain ⟨rfl, sees⟩ := lookahead_ok_iff.mp looked
  -- The end of input is seen where nothing is ahead; any other token is the first one ahead.
  by_cases ended : item = .endOfInput
  · subst ended
    obtain ⟨rfl, rfl⟩ := pure_ok_iff.mp ok
    exact ⟨rfl, _, sees, rfl⟩
  obtain ⟨rest, rfl⟩ := TokenStream.exists_cons_of_peek? sees ended
  have enough : rest.ahead.length ≤ bound := Nat.le_of_succ_le_succ within
  have none : (pure none : Parser (Option Expr)) (rest.cons ⟨item, line⟩) = .ok o u →
      item.startsAtom = false → AtomSpans o (rest.cons ⟨item, line⟩) u := by
    intro ok other
    obtain ⟨rfl, rfl⟩ := pure_ok_iff.mp ok
    exact ⟨rfl, _, sees, other⟩
  cases item with
  | integer | bool | string => cases ok; exact .literal
  | identifier name => cases ok; exact .var
  | mark m =>
    cases m with
    | leftParen =>
      obtain ⟨e, form, rfl⟩ := map_ok_iff.mp ok
      obtain ⟨r, inner⟩ := (groupingWith_ok_iff h enough).mp form
      exact .group inner
    | backslash =>
      obtain ⟨e, form, rfl⟩ := map_ok_iff.mp ok
      obtain ⟨param, paramTy, body, l, a, t, v, rfl, rfl, annotated, inner⟩ :=
        (lambdaWith_ok_iff h enough).mp form
      exact .lam annotated inner
    | _ => exact none ok rfl
  | keyword k =>
    cases k with
    | listWord =>
      obtain ⟨e, form, rfl⟩ := map_ok_iff.mp ok
      obtain ⟨element, rest, l, t, v, rfl, rfl, first, more⟩ :=
        (listLiteralWith_ok_iff h enough).mp form
      exact .list first more
    | letWord =>
      obtain ⟨e, form, rfl⟩ := map_ok_iff.mp ok
      obtain ⟨_, name, value, body, l, q, i, t, v, rfl, ⟨rfl, rfl⟩ | ⟨rfl, r, rfl⟩, read₁, read₂⟩ :=
        (letInWith_ok_iff h enough).mp form
      · exact .letIn read₁ read₂
      · exact .letRec read₁ read₂
    | ifWord =>
      obtain ⟨e, form, rfl⟩ := map_ok_iff.mp ok
      obtain ⟨condition, consequent, alternative, m, n, t, v, rfl, read₁, read₂, read₃⟩ :=
        (condWith_ok_iff h enough).mp form
      exact .cond read₁ read₂ read₃
    | _ => exact none ok rfl
  | listOperation op =>
    obtain ⟨e, form, rfl⟩ := map_ok_iff.mp ok
    obtain ⟨arity, first, rfl, read⟩ | ⟨arity, first, second, t, rfl, read₁, read₂⟩ |
      ⟨arity, first, second, third, t, v, rfl, read₁, read₂, read₃⟩ :=
        (listOperationWith_ok_iff h enough).mp form
    · exact .listOp1 arity read
    · exact .listOp2 arity read₁ read₂
    · exact .listOp3 arity read₁ read₂ read₃
  | _ => exact none ok rfl

theorem atomWith_of_spans {e : Expr} (enough : s.ahead.length ≤ bound + 1)
    (read : (Phrase.atom e).Spans s u) : atomWith atom bound s = .ok (some e) u := by
  have some : ∀ {p : Parser Expr} {t : TokenStream}, p t = .ok e u →
      (Option.some <$> p) t = .ok (some e) u := fun ok => map_ok_iff.mpr ⟨e, ok, rfl⟩
  cases read <;> rw [atomWith, bind_of_ok (lookahead_cons _)] <;>
    replace enough := Nat.le_of_succ_le_succ enough
  case literal value _ => cases value <;> rfl
  case var => rfl
  case group inner => exact some ((groupingWith_ok_iff h enough).mpr ⟨_, inner⟩)
  case lam annotated inner =>
    exact some ((lambdaWith_ok_iff h enough).mpr ⟨_, _, _, _, _, _, _, rfl, rfl, annotated, inner⟩)
  case letIn read₁ read₂ =>
    exact some ((letInWith_ok_iff h enough).mpr ⟨_, _, _, _, _, _, _, _, _, rfl, .inl ⟨rfl, rfl⟩,
      read₁, read₂⟩)
  case letRec read₁ read₂ =>
    exact some ((letInWith_ok_iff h enough).mpr ⟨_, _, _, _, _, _, _, _, _, rfl,
      .inr ⟨rfl, _, rfl⟩, read₁, read₂⟩)
  case cond read₁ read₂ read₃ =>
    exact some ((condWith_ok_iff h enough).mpr ⟨_, _, _, _, _, _, _, rfl, read₁, read₂, read₃⟩)
  case list first more =>
    exact some ((listLiteralWith_ok_iff h enough).mpr ⟨_, _, _, _, _, rfl, rfl, first, more⟩)
  case listOp1 arity read =>
    exact some ((listOperationWith_ok_iff h enough).mpr (.inl ⟨arity, _, rfl, read⟩))
  case listOp2 arity read₁ read₂ =>
    exact some ((listOperationWith_ok_iff h enough).mpr
      (.inr (.inl ⟨arity, _, _, _, rfl, read₁, read₂⟩)))
  case listOp3 arity read₁ read₂ read₃ =>
    exact some ((listOperationWith_ok_iff h enough).mpr
      (.inr (.inr ⟨arity, _, _, _, _, _, rfl, read₁, read₂, read₃⟩)))

theorem decides_atomWith : Decides (bound + 1) (atomWith atom bound) AtomSpans := by
  intro s enough o u
  refine ⟨spans_of_atomWith h enough, fun read => ?_⟩
  cases o with
  | some e => exact atomWith_of_spans h enough read
  | none =>
    obtain ⟨rfl, ⟨item, line⟩, sees, other⟩ := read
    rw [atomWith, bind_of_ok (lookahead_ok_iff.mpr ⟨rfl, sees⟩)]
    cases item with
    | mark m => cases m <;> first | rfl | cases other
    | keyword k => cases k <;> first | rfl | cases other
    | _ => first | rfl | cases other

end Forms

theorem decides_atomWithin (bound : Nat) : Decides bound (atomWithin bound) AtomSpans := by
  induction bound with
  | zero =>
    intro s enough o u
    have empty : s.ahead = [] := List.length_eq_zero_iff.mp (by omega)
    rw [atomWithin, pure_ok_iff]
    constructor
    · rintro ⟨rfl, rfl⟩
      exact ⟨rfl, _, TokenStream.peek?_of_ahead_eq_nil empty, rfl⟩
    · intro read
      cases o with
      | some e =>
        have := Phrase.Spans.length_le read
        simp [empty, Phrase.least] at this
      | none => exact ⟨rfl, read.1⟩
  | succ bound ih => exact decides_atomWith ih

/-- The parser of expressions decides their rules. -/
theorem expression_ok_iff {e : Expr} :
    expression s = .ok e u ↔ (Phrase.expression e).Spans s u := by
  simp only [expression, binary, bind_ok_iff, remaining_ok_iff]
  constructor
  · rintro ⟨_, _, ⟨rfl, rfl⟩, ok⟩
    exact (decides_expressionWith (decides_atomWithin _) _ (Nat.le_succ _) _ _).mp ok
  · intro read
    exact ⟨_, _, ⟨rfl, rfl⟩,
      (decides_expressionWith (decides_atomWithin _) _ (Nat.le_succ _) _ _).mpr read⟩

/-- The parser of programs decides the rules of expressions that the end of input follows. -/
theorem program_ok_iff {e : Expr} :
    program s = .ok e u ↔
      (Phrase.expression e).Spans s u ∧ ∃ x, u.peek? = some x ∧ x.item = .endOfInput := by
  simp only [program, bind_ok_iff, expression_ok_iff, lookahead_ok_iff]
  constructor
  · rintro ⟨_, _, read, x, _, ⟨rfl, sees⟩, ok⟩
    split at ok
    · next ended =>
      obtain ⟨rfl, rfl⟩ := pure_ok_iff.mp ok
      exact ⟨read, x, sees, ended⟩
    · exact (fail_ok_iff.mp ok).elim
  · rintro ⟨read, x, sees, ended⟩
    exact ⟨e, u, read, x, u, ⟨rfl, sees⟩, by simp [ended]⟩

end ListLang.Parser

namespace ListLang

theorem TokenStream.satisfies_writable (source : String) :
    (ofSource source).Satisfies Token.Writable :=
  fun _ _ mem => writable_of_mem_ofText mem

theorem TokenStream.ahead_eq_nil_of_ended {s : TokenStream} (writable : s.Satisfies Token.Writable)
    {x : Located Token} (sees : s.peek? = some x) (ended : x.item = .endOfInput) :
    s.ahead = [] := by
  obtain ⟨_ | ⟨⟨_ | _, line⟩, rest⟩, last⟩ := s
  · rfl
  · cases sees
    have : Token.endOfInput.Writable := ended ▸ writable _ _ List.mem_cons_self
    exact this.elim
  · cases sees

/-- A text is a program exactly when its tokens, all of them, are an expression. -/
theorem parse_ok_iff {source : String} {e : Expr} :
    parse source = .ok e ↔
      ∃ u : TokenStream, u.ahead = [] ∧ (Phrase.expression e).Spans (.ofSource source) u := by
  rw [parse_eq_ok_iff]
  constructor
  · rintro ⟨u, ok⟩
    obtain ⟨read, x, sees, ended⟩ := Parser.program_ok_iff.mp ok
    have builds : Parser.Builds Token.Writable fun _ => True := by
      constructor <;> intros <;> trivial
    have rest := (builds.program _ (TokenStream.satisfies_writable source) e u ok).2
    exact ⟨u, TokenStream.ahead_eq_nil_of_ended rest sees ended, read⟩
  · rintro ⟨u, empty, read⟩
    exact ⟨u, Parser.program_ok_iff.mpr ⟨read, _, TokenStream.peek?_of_ahead_eq_nil empty, rfl⟩⟩

end ListLang
