import ListLang.Parser.Expr
import ListLang.Proofs.Spelling

/-!
# The grammar

What the tokens between two places of a stream are read as, given as rules, and parsers as
deciders of those rules: a parser succeeds exactly where a rule applies, with the tree that
the rule gives and the rest of the stream that the rule leaves. Where an application or an
expression can go on it has to, so the rules look at the first token behind it.

## Main definitions

* `Ty.Spans` — the rules of type annotations.
* `Phrase`, `Phrase.Spans` — the rules of expressions and their parts.
* `Parser.Decides` — a parser succeeds exactly where the rules apply.

## Main statements

* `Parser.ty_ok_iff` — the parser of types decides their rules.
-/

namespace ListLang

namespace TokenStream

/-- The first token ahead, unless it is a fault. -/
def peek? (s : TokenStream) : Option (Located Token) :=
  match s.ahead with
  | [] => some s.ending
  | ⟨.token t, line⟩ :: _ => some ⟨t, line⟩
  | ⟨.fault _, _⟩ :: _ => none

theorem peek?_of_ahead_eq_nil {s : TokenStream} (empty : s.ahead = []) :
    s.peek? = some s.ending := by
  simp [peek?, empty]

theorem exists_cons_of_peek? {s : TokenStream} {t : Located Token} (sees : s.peek? = some t)
    (ne : t.item ≠ .endOfInput) : ∃ u : TokenStream, s = u.cons t := by
  unfold peek? at sees
  split at sees
  · cases sees
    exact absurd rfl ne
  · next item line rest ahead =>
    cases sees
    exact ⟨{ s with ahead := rest }, by simp [cons, ← ahead]⟩
  · cases sees

end TokenStream

/-! ## The rules -/

/-- Whether an atom can start with the token. -/
def Token.startsAtom : Token → Bool
  | integer _ | bool _ | string _ | identifier _ | mark .leftParen | mark .backslash
  | keyword .listWord | keyword .letWord | keyword .ifWord | listOperation _ => true
  | mark _ | keyword _ | typeName _ | operator _ | lineEnd | blank | endOfInput => false

/-- The token that writes a constant. -/
def Literal.token : Literal → Token
  | integer n => .integer n
  | bool b => .bool b
  | string s => .string s

/-- A type by itself, or one that can stand on the left of an arrow. -/
inductive Ty.Form where
  | whole
  | atom

/-- The tokens from the first stream to the second are the type. -/
inductive Ty.Spans : Ty.Form → Ty → TokenStream → TokenStream → Prop
  | base {b line s} : Spans .atom (.base b) (s.cons ⟨.typeName b, line⟩) s
  | group {t l r s u} : Spans .whole t s (u.cons ⟨.mark .rightParen, r⟩) →
    Spans .atom t (s.cons ⟨.mark .leftParen, l⟩) u
  | single {t s u x} : Spans .atom t s u → u.peek? = some x → x.item ≠ .mark .arrow →
    Spans .whole t s u
  | function {argument result line s t u} :
    Spans .atom argument s (t.cons ⟨.mark .arrow, line⟩) → Spans .whole result t u →
    Spans .whole (.function argument result) s u

/-- The tokens from the first stream to the second are the annotation of a parameter. -/
inductive Ty.Annotates : Option Ty → TokenStream → TokenStream → Prop
  | none {s x} : s.peek? = some x → x.item ≠ .mark .colon → Annotates none s s
  | some {t line s u} : Ty.Spans .whole t s u →
    Annotates (some t) (s.cons ⟨.mark .colon, line⟩) u

/-- The parts of programs. -/
inductive Phrase where
  /-- An atom. -/
  | atom (e : Expr)
  /-- The atoms that `function` is applied to, which make it `e`. -/
  | arguments (function e : Expr)
  /-- An atom with the atoms it is applied to. -/
  | application (e : Expr)
  /-- The operators of left power at least `power` and their right operands, which make
  `left` the expression `e`. -/
  | operators (power : Nat) (left e : Expr)
  /-- An expression. -/
  | expression (e : Expr)
  /-- The elements of a list literal behind the first one, with the closing bracket. -/
  | elements (tag : Tag) (rest : List Expr)

/-- The tokens from the first stream to the second are the phrase. -/
inductive Phrase.Spans : Phrase → TokenStream → TokenStream → Prop
  | literal {value line s} : Spans (.atom (.literal value line)) (s.cons ⟨value.token, line⟩) s
  | var {name line s} : Spans (.atom (.var name line)) (s.cons ⟨.identifier name, line⟩) s
  | group {e l r s t} : Spans (.expression e) s (t.cons ⟨.mark .rightParen, r⟩) →
    Spans (.atom e) (s.cons ⟨.mark .leftParen, l⟩) t
  | lam {param paramTy body line l a s t u} :
    Ty.Annotates paramTy s (t.cons ⟨.mark .fatArrow, a⟩) → Spans (.expression body) t u →
    Spans (.atom (.lam param paramTy body line))
      ((s.cons ⟨.identifier param, l⟩).cons ⟨.mark .backslash, line⟩) u
  | letIn {name value body line l q i s t u} :
    Spans (.expression value) s (t.cons ⟨.keyword .inWord, i⟩) → Spans (.expression body) t u →
    Spans (.atom (.letIn false name value body line))
      (((s.cons ⟨.mark .equals, q⟩).cons ⟨.identifier name, l⟩).cons ⟨.keyword .letWord, line⟩) u
  | letRec {name value body line r l q i s t u} :
    Spans (.expression value) s (t.cons ⟨.keyword .inWord, i⟩) → Spans (.expression body) t u →
    Spans (.atom (.letIn true name value body line))
      ((((s.cons ⟨.mark .equals, q⟩).cons ⟨.identifier name, l⟩).cons ⟨.keyword .recWord, r⟩).cons
        ⟨.keyword .letWord, line⟩) u
  | cond {condition consequent alternative line h l s t u v} :
    Spans (.expression condition) s (t.cons ⟨.keyword .thenWord, h⟩) →
    Spans (.expression consequent) t (u.cons ⟨.keyword .elseWord, l⟩) →
    Spans (.expression alternative) u v →
    Spans (.atom (.cond condition consequent alternative line))
      (s.cons ⟨.keyword .ifWord, line⟩) v
  | list {element rest line l s t u} :
    Spans (.atom element) s t → Spans (.elements element.tag rest) t u →
    Spans (.atom (.list element.tag (element :: rest) line))
      ((s.cons ⟨.mark .leftBracket, l⟩).cons ⟨.keyword .listWord, line⟩) u
  | listOp1 {op first line s t} : op.arity = 1 → Spans (.atom first) s t →
    Spans (.atom (.listOp1 op first line)) (s.cons ⟨.listOperation op, line⟩) t
  | listOp2 {op first second line s t u} : op.arity = 2 → Spans (.atom first) s t →
    Spans (.atom second) t u →
    Spans (.atom (.listOp2 op first second line)) (s.cons ⟨.listOperation op, line⟩) u
  | listOp3 {op first second third line s t u v} : op.arity = 3 → Spans (.atom first) s t →
    Spans (.atom second) t u → Spans (.atom third) u v →
    Spans (.atom (.listOp3 op first second third line)) (s.cons ⟨.listOperation op, line⟩) v
  | close {tag line s} : Spans (.elements tag []) (s.cons ⟨.mark .rightBracket, line⟩) s
  | element {e tag rest line s t u} : Spans (.atom e) s t → e.tag = tag →
    Spans (.elements tag rest) t u →
    Spans (.elements tag (e :: rest)) (s.cons ⟨.mark .comma, line⟩) u
  | applied {function s x} : s.peek? = some x → x.item.startsAtom = false →
    Spans (.arguments function function) s s
  | argument {function argument e s t u} : Spans (.atom argument) s t →
    Spans (.arguments (.app function argument function.line) e) t u →
    Spans (.arguments function e) s u
  | application {function e s t u} : Spans (.atom function) s t →
    Spans (.arguments function e) t u → Spans (.application e) s u
  | joined {power left s x} : s.peek? = some x →
    (∀ op, x.item = .operator op → op.leftPower < power) → Spans (.operators power left left) s s
  | operator {power op left first right e line s t u v} : power ≤ op.leftPower →
    Spans (.application first) s t → Spans (.operators op.rightPower first right) t u →
    Spans (.operators power (.binary op left right line) e) u v →
    Spans (.operators power left e) (s.cons ⟨.operator op, line⟩) v
  | expression {first e s t u} : Spans (.application first) s t →
    Spans (.operators 0 first e) t u → Spans (.expression e) s u

namespace Phrase

/-- The least number of tokens of the phrase. -/
def least : Phrase → Nat
  | arguments .. | operators .. => 0
  | _ => 1

end Phrase

theorem Ty.Spans.length_lt {form : Ty.Form} {t : Ty} {s u : TokenStream}
    (h : Ty.Spans form t s u) : u.ahead.length < s.ahead.length := by
  induction h with
  | single _ _ _ ih => exact ih
  | _ => simp only [TokenStream.ahead_cons, List.length_cons] at *; omega

theorem Ty.Annotates.length_le {o : Option Ty} {s u : TokenStream} (h : Ty.Annotates o s u) :
    u.ahead.length ≤ s.ahead.length := by
  cases h with
  | none => exact Nat.le_refl _
  | some written =>
    have := written.length_lt
    simp only [TokenStream.ahead_cons, List.length_cons]
    omega

theorem Phrase.Spans.length_le {p : Phrase} {s t : TokenStream} (h : p.Spans s t) :
    t.ahead.length + p.least ≤ s.ahead.length := by
  induction h with
  | lam annotated _ ih =>
    have := annotated.length_le
    simp only [Phrase.least, TokenStream.ahead_cons, List.length_cons] at *
    omega
  | _ => simp only [Phrase.least, TokenStream.ahead_cons, List.length_cons] at *; omega

theorem Phrase.Spans.startsAtom {e : Expr} {s t : TokenStream} (h : (Phrase.atom e).Spans s t) :
    ∃ x, s.peek? = some x ∧ x.item.startsAtom = true := by
  cases h with
  | @literal value => cases value <;> exact ⟨_, rfl, rfl⟩
  | _ => exact ⟨_, rfl, rfl⟩

/-! ## Reading single tokens -/

theorem bind_of_ok {ε σ α β : Type} {p : EStateM ε σ α} {f : α → EStateM ε σ β} {s t : σ} {a : α}
    (ok : p s = .ok a t) : (p >>= f) s = f a t := by
  change EStateM.bind p f s = f a t
  simp [EStateM.bind, ok]

theorem bind_of_error {ε σ α β : Type} {p : EStateM ε σ α} {f : α → EStateM ε σ β} {s t : σ} {e : ε}
    (failed : p s = .error e t) : (p >>= f) s = .error e t := by
  change EStateM.bind p f s = .error e t
  simp [EStateM.bind, failed]

namespace Parser

variable {α β : Type} {s t u : TokenStream}

theorem bind_ok_iff {σ : Type} {p : ParserOn σ α} {f : α → ParserOn σ β} {s u : σ} {b : β} :
    (p >>= f) s = .ok b u ↔ ∃ a t, p s = .ok a t ∧ f a t = .ok b u := by
  change EStateM.bind p f s = .ok b u ↔ _
  unfold EStateM.bind
  cases p s with
  | ok a t => exact ⟨fun ran => ⟨a, t, rfl, ran⟩, by rintro ⟨_, _, ⟨⟩, ran⟩; exact ran⟩
  | error e t => simp

theorem map_ok_iff {p : Parser α} {f : α → β} {b : β} :
    (f <$> p) s = .ok b u ↔ ∃ a, p s = .ok a u ∧ f a = b := by
  change EStateM.map f p s = .ok b u ↔ _
  unfold EStateM.map
  cases p s with
  | ok a t => exact ⟨by rintro ⟨⟩; exact ⟨a, rfl, rfl⟩, by rintro ⟨_, ⟨⟩, rfl⟩; rfl⟩
  | error e t => simp

@[simp] theorem pure_ok_iff {a b : α} :
    (pure a : Parser α) s = .ok b u ↔ b = a ∧ u = s := by
  change EStateM.Result.ok a s = .ok b u ↔ _
  simp [eq_comm]

@[simp] theorem fail_ok_iff {line : Nat} {cause : ParseError.Cause} {a : α} :
    (fail line cause : Parser α) s = .ok a u ↔ False := by
  change EStateM.Result.error _ s = .ok a u ↔ False
  simp

theorem remaining_ok_iff {n : Nat} :
    remaining s = .ok n u ↔ n = s.ahead.length + 1 ∧ u = s := by
  change EStateM.Result.ok (s.ahead.length + 1) s = .ok n u ↔ _
  simp [eq_comm]

theorem lookahead_ok_iff {x : Located Token} :
    lookahead s = .ok x u ↔ s = u ∧ s.peek? = some x := by
  rcases s with ⟨_ | ⟨⟨_ | _, line⟩, rest⟩, last⟩ <;>
    simp [lookahead, TokenStream.lookahead, TokenStream.peek?, TokenStream.ending, and_comm]

theorem lookahead_cons (x : Located Token) : lookahead (s.cons x) = .ok x (s.cons x) := rfl

theorem next_cons (x : Located Token) : next (s.cons x) = .ok x s := rfl

theorem next_ok_iff {x : Located Token} (ne : x.item ≠ .endOfInput) :
    next s = .ok x u ↔ s = u.cons x := by
  rcases s with ⟨_ | ⟨⟨_ | _, line⟩, rest⟩, last⟩
  · have : ⟨[], last⟩ ≠ u.cons x := by simp [TokenStream.cons]
    simp only [next, TokenStream.next, TokenStream.ending, EStateM.Result.ok.injEq, this, iff_false,
      not_and]
    rintro rfl
    exact absurd rfl ne
  · obtain ⟨item, l⟩ := x
    obtain ⟨ahead, lastLine⟩ := u
    simp only [next, TokenStream.next, TokenStream.cons]
    grind
  · simp [next, TokenStream.next, TokenStream.cons]

theorem expect_ok_iff {x : Token} {line : Nat} (ne : x ≠ .endOfInput) :
    expect x s = .ok line u ↔ s = u.cons ⟨x, line⟩ := by
  rw [← next_ok_iff (by exact ne)]
  simp only [expect, bind_ok_iff]
  constructor
  · rintro ⟨found, t, took, ok⟩
    split at ok
    · next eq =>
      obtain ⟨rfl, rfl⟩ := pure_ok_iff.mp ok
      rw [took, ← eq]
    · exact (fail_ok_iff.mp ok).elim
  · intro took
    exact ⟨_, _, took, by simp⟩

@[simp] theorem expect_mark_ok_iff {m : Mark} {line : Nat} :
    expect (.mark m) s = .ok line u ↔ s = u.cons ⟨.mark m, line⟩ :=
  expect_ok_iff (by simp)

@[simp] theorem expect_keyword_ok_iff {k : Keyword} {line : Nat} :
    expect (.keyword k) s = .ok line u ↔ s = u.cons ⟨.keyword k, line⟩ :=
  expect_ok_iff (by simp)

theorem accept_ok_iff {x : Token} {b : Bool} (ne : x ≠ .endOfInput) :
    accept x s = .ok b u ↔
      (b = true ∧ ∃ line, s = u.cons ⟨x, line⟩) ∨
      (b = false ∧ u = s ∧ ∃ y, s.peek? = some y ∧ y.item ≠ x) := by
  simp only [accept, bind_ok_iff, lookahead_ok_iff]
  constructor
  · rintro ⟨found, t, ⟨rfl, sees⟩, ok⟩
    split at ok
    · next eq =>
      obtain ⟨rest, rfl⟩ := TokenStream.exists_cons_of_peek? sees (eq ▸ ne)
      obtain ⟨_, _, took, ok⟩ := bind_ok_iff.mp ok
      cases took
      obtain ⟨rfl, rfl⟩ := pure_ok_iff.mp ok
      exact .inl ⟨rfl, found.line, by rw [← eq]; rfl⟩
    · next other =>
      obtain ⟨rfl, rfl⟩ := pure_ok_iff.mp ok
      exact .inr ⟨rfl, rfl, found, sees, other⟩
  · rintro (⟨rfl, line, rfl⟩ | ⟨rfl, rfl, y, sees, other⟩)
    · refine ⟨_, _, ⟨rfl, rfl⟩, ?_⟩
      rw [if_pos rfl]
      rfl
    · exact ⟨y, u, ⟨rfl, sees⟩, by simp [other]⟩

theorem binder_ok_iff {name : String} :
    binder s = .ok name u ↔ ∃ line, s = u.cons ⟨.identifier name, line⟩ := by
  simp only [binder, bind_ok_iff]
  constructor
  · rintro ⟨⟨item, line⟩, t, took, ok⟩
    cases item with
    | identifier found =>
      obtain ⟨rfl, rfl⟩ := pure_ok_iff.mp ok
      exact ⟨line, (next_ok_iff (by simp)).mp took⟩
    | _ => exact (fail_ok_iff.mp ok).elim
  · rintro ⟨line, rfl⟩
    exact ⟨_, _, next_cons _, by simp⟩

/-! ## Types -/

/-- On streams with at most `bound` tokens ahead the parser succeeds exactly where the rules
`R` apply. -/
def Decides (bound : Nat) (p : Parser α) (R : α → TokenStream → TokenStream → Prop) : Prop :=
  ∀ s, s.ahead.length ≤ bound → ∀ a t, p s = .ok a t ↔ R a s t

theorem decides_tyAtomWith {bound : Nat} {ty : Parser Ty}
    (h : Decides bound ty (Ty.Spans .whole)) :
    Decides (bound + 1) (tyAtomWith ty) (Ty.Spans .atom) := by
  intro s enough t u
  simp only [tyAtomWith, bind_ok_iff]
  constructor
  · rintro ⟨⟨item, line⟩, rest, took, ok⟩
    cases item with
    | typeName b =>
      obtain ⟨rfl, rfl⟩ := pure_ok_iff.mp ok
      rw [(next_ok_iff (by simp)).mp took]
      exact .base
    | mark m =>
      cases m with
      | leftParen =>
        rw [next_ok_iff (by simp)] at took
        subst took
        simp only [bind_ok_iff, expect_mark_ok_iff, pure_ok_iff] at ok
        obtain ⟨_, _, inner, r, _, rfl, rfl, rfl⟩ := ok
        exact .group ((h _ (Nat.le_of_succ_le_succ enough) _ _).mp inner)
      | _ => exact (fail_ok_iff.mp ok).elim
    | _ => exact (fail_ok_iff.mp ok).elim
  · intro written
    cases written with
    | base => exact ⟨_, _, next_cons _, rfl⟩
    | group inner =>
      refine ⟨_, _, next_cons _, ?_⟩
      simp only [bind_ok_iff, expect_mark_ok_iff, pure_ok_iff]
      exact ⟨t, _, (h _ (Nat.le_of_succ_le_succ enough) _ _).mpr inner, _, u, rfl, rfl, rfl⟩

theorem decides_tyWithin (bound : Nat) : Decides bound (tyWithin bound) (Ty.Spans .whole) := by
  induction bound with
  | zero =>
    intro s enough t u
    constructor
    · intro ok
      obtain ⟨_, _, _, failed⟩ := bind_ok_iff.mp ok
      exact (fail_ok_iff.mp failed).elim
    · intro written
      have := written.length_lt
      omega
  | succ bound ih =>
    intro s enough t u
    simp only [tyWithin, bind_ok_iff, decides_tyAtomWith ih s enough,
      accept_ok_iff (x := .mark .arrow) (by simp)]
    constructor
    · rintro ⟨argument, v, first, _, w, ⟨rfl, line, rfl⟩ | ⟨rfl, rfl, x, sees, other⟩, ok⟩
      · obtain ⟨result, _, second, ok⟩ := bind_ok_iff.mp ok
        obtain ⟨rfl, rfl⟩ := pure_ok_iff.mp ok
        have shorter := first.length_lt
        rw [TokenStream.ahead_cons, List.length_cons] at shorter
        exact .function first ((ih w (by omega) _ _).mp second)
      · obtain ⟨rfl, rfl⟩ := pure_ok_iff.mp ok
        exact .single first sees other
    · intro written
      cases written with
      | single first sees other =>
        exact ⟨t, u, first, false, u, .inr ⟨rfl, rfl, _, sees, other⟩, rfl⟩
      | @function argument result line _ w _ first second =>
        refine ⟨argument, _, first, true, w, .inl ⟨rfl, line, rfl⟩, ?_⟩
        have shorter := first.length_lt
        rw [TokenStream.ahead_cons, List.length_cons] at shorter
        exact bind_ok_iff.mpr ⟨result, u, (ih w (by omega) _ _).mpr second, rfl⟩

/-- The parser of types decides their rules. -/
theorem ty_ok_iff {t : Ty} : ty s = .ok t u ↔ Ty.Spans .whole t s u := by
  simp only [ty, bind_ok_iff, remaining_ok_iff]
  constructor
  · rintro ⟨_, _, ⟨rfl, rfl⟩, ok⟩
    exact (decides_tyWithin _ _ (Nat.le_succ _) _ _).mp ok
  · intro written
    exact ⟨_, _, ⟨rfl, rfl⟩, (decides_tyWithin _ _ (Nat.le_succ _) _ _).mpr written⟩

theorem annotatedTy_ok_iff {o : Option Ty} : annotatedTy s = .ok o u ↔ Ty.Annotates o s u := by
  simp only [annotatedTy, bind_ok_iff, accept_ok_iff (x := .mark .colon) (by simp)]
  constructor
  · rintro ⟨_, t, ⟨rfl, line, rfl⟩ | ⟨rfl, rfl, x, sees, other⟩, ok⟩
    · obtain ⟨found, _, written, ok⟩ := bind_ok_iff.mp ok
      obtain ⟨rfl, rfl⟩ := pure_ok_iff.mp ok
      exact .some (ty_ok_iff.mp written)
    · obtain ⟨rfl, rfl⟩ := pure_ok_iff.mp ok
      exact .none sees other
  · intro annotated
    cases annotated with
    | none sees other => exact ⟨false, s, .inr ⟨rfl, rfl, _, sees, other⟩, rfl⟩
    | some written =>
      exact ⟨true, _, .inl ⟨rfl, _, rfl⟩, bind_ok_iff.mpr ⟨_, _, ty_ok_iff.mpr written, rfl⟩⟩

end Parser

end ListLang
