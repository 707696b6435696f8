import ListLang.Proofs.Concatenation
import ListLang.Proofs.Linearization
import ListLang.Proofs.Reading.Simulation

/-!
# Phrases that stand elsewhere

The tokens of a phrase are read as the same phrase wherever they stand: on other lines, and in
front of other tokens. The lines of the tree are those of the tokens. A phrase that ends in an
expression goes on as far as it can, so behind it has to stand the token that stood there before,
or one that ends every expression. A phrase that ends with a token of its own can stand in front
of anything.

## Main definitions

* `TokenStream.Replaces` — what can stand behind a phrase in the place of something else.
* `TokenStream.Repeats` — the same tokens, on related lines.
* `Phrase.Moves` — the tokens of a phrase are the phrase elsewhere too.

## Main statements

* `Phrase.Spans.moves` — every phrase moves. There is a rule for each form, as in the grammar.
* `writes_of_parse` — a program writes its expression.
* `writesAtom_of_parse` — a constant, a name or a list literal writes it as an atom.
-/

namespace ListLang

open TokenStream

namespace TokenStream

variable {s s' t t' u u' : TokenStream} {ts us : List Token}

/-- No atom starts at the front of the stream. -/
def EndsAtoms (s : TokenStream) : Prop :=
  ∃ x, s.peek? = some x ∧ x.item.startsAtom = false

/-- At the front of the stream stands no operator of left power `power` or more. -/
def EndsBelow (s : TokenStream) (power : Nat) : Prop :=
  ∃ x, s.peek? = some x ∧ ∀ op, x.item = .operator op → op.leftPower < power

theorem EndsBelow.mono {power power' : Nat} (ends : s.EndsBelow power) (le : power ≤ power') :
    s.EndsBelow power' := by
  obtain ⟨x, sees, below⟩ := ends
  exact ⟨x, sees, fun op eq => Nat.lt_of_lt_of_le (below op eq) le⟩

theorem Stops.endsAtoms (stops : s.Stops) : s.EndsAtoms := by
  obtain ⟨x, sees, ends, -⟩ := stops
  exact ⟨x, sees, ends⟩

theorem Stops.endsBelow (stops : s.Stops) (power : Nat) : s.EndsBelow power := by
  obtain ⟨x, sees, -, other⟩ := stops
  exact ⟨x, sees, fun op eq => by simp [eq, Token.operator?] at other⟩

/-- `t'` can stand behind a phrase in the place of `t`. -/
def Replaces (t' t : TokenStream) : Prop :=
  t'.Stops ∨ ∃ x x', t.peek? = some x ∧ t'.peek? = some x' ∧ x'.item = x.item

theorem Replaces.cons (x : Token) (l l' : Nat) : (t'.cons ⟨x, l'⟩).Replaces (t.cons ⟨x, l⟩) :=
  .inr ⟨_, _, rfl, rfl, rfl⟩

theorem Replaces.endsAtoms (replaces : t'.Replaces t) (ends : t.EndsAtoms) : t'.EndsAtoms := by
  obtain stops | ⟨x, x', sees, sees', same⟩ := replaces
  · exact stops.endsAtoms
  · obtain ⟨y, found, ends⟩ := ends
    cases found.symm.trans sees
    exact ⟨x', sees', same ▸ ends⟩

theorem Replaces.endsBelow (replaces : t'.Replaces t) {power : Nat} (ends : t.EndsBelow power) :
    t'.EndsBelow power := by
  obtain stops | ⟨x, x', sees, sees', same⟩ := replaces
  · exact stops.endsBelow power
  · obtain ⟨y, found, ends⟩ := ends
    cases found.symm.trans sees
    exact ⟨x', sees', same ▸ ends⟩

/-- From the first stream to the second stand the tokens, on lines related to theirs. -/
def Repeats (lines : Nat → Nat → Prop) (s : TokenStream) (xs : List (Located Token))
    (t : TokenStream) : Prop :=
  ∃ ys, List.Forall₂ (Located.Alike lines) xs ys ∧ s = t.after ys

section Repeats

variable {lines : Nat → Nat → Prop} {x : Located Token} {xs ys : List (Located Token)}

@[simp] theorem repeats_nil_iff : s.Repeats lines [] t ↔ s = t := by
  simp [Repeats]

@[simp] theorem repeats_cons_iff : s.Repeats lines (x :: xs) t ↔
    ∃ (line : Nat) (u : TokenStream), lines x.line line ∧ s = u.cons ⟨x.item, line⟩ ∧
      u.Repeats lines xs t := by
  constructor
  · rintro ⟨_, _ | ⟨same, rest⟩, rfl⟩
    exact ⟨_, _, same.line, by rw [same.item]; rfl, _, rest, rfl⟩
  · rintro ⟨line, _, related, rfl, ys, rest, rfl⟩
    exact ⟨⟨x.item, line⟩ :: ys, .cons ⟨rfl, related⟩ rest, rfl⟩

@[simp] theorem repeats_append_iff :
    s.Repeats lines (xs ++ ys) t ↔ ∃ u, s.Repeats lines xs u ∧ u.Repeats lines ys t := by
  induction xs generalizing s with
  | nil => simp
  | cons x xs ih =>
    simp only [List.cons_append, repeats_cons_iff, ih]
    grind

theorem Repeats.offers (repeats : s.Repeats lines xs t) : s.Offers (xs.map Located.item) t := by
  obtain ⟨ys, same, rfl⟩ := repeats
  refine ⟨ys, ?_, rfl⟩
  induction same with
  | nil => rfl
  | cons first _ ih => rw [List.map_cons, List.map_cons, ih, first.item]

theorem repeats_of_offers (offers : s.Offers (xs.map Located.item) t) :
    s.Repeats (fun _ _ => True) xs t := by
  induction xs generalizing s with
  | nil => simpa using offers
  | cons x xs ih =>
    obtain ⟨line, u, rfl, rest⟩ := offers_cons_iff.mp offers
    exact repeats_cons_iff.mpr ⟨line, u, trivial, rfl, ih rest⟩

/-- What starts with the same tokens can be replaced. -/
theorem Replaces.start (repeats : t'.Repeats lines xs u') (some : xs ≠ []) :
    t'.Replaces (u.after xs) := by
  obtain ⟨x, xs, rfl⟩ := List.exists_cons_of_ne_nil some
  obtain ⟨line, _, -, rfl, -⟩ := repeats_cons_iff.mp repeats
  exact .cons x.item x.line line

/-- Behind the same tokens, or none, what can be replaced can be replaced with them. -/
theorem Replaces.before (replaces : u'.Replaces u) (repeats : t'.Repeats lines xs u') :
    t'.Replaces (u.after xs) := by
  by_cases none : xs = []
  · subst none
    rw [repeats_nil_iff.mp repeats]
    exact replaces
  · exact .start repeats none

end Repeats

end TokenStream

/-! ## Types -/

/-- A type is read elsewhere, where no arrow follows or none can be taken. -/
theorem Ty.Spans.elsewhere {form : Ty.Form} {ty : Ty} {s t : TokenStream}
    (h : Ty.Spans form ty s t) : ∃ ts, s.Offers ts t ∧ ∀ s' t', s'.Offers ts t' →
      (form = .whole → ∃ x, t'.peek? = some x ∧ x.item ≠ .mark .arrow) →
      Ty.Spans form ty s' t' := by
  induction h with
  | base =>
    refine ⟨_, .cons .nil, fun s' t' offers _ => ?_⟩
    simp only [offers_cons_iff, offers_nil_iff] at offers
    obtain ⟨l, _, rfl, rfl⟩ := offers
    exact .base
  | group _ ih =>
    obtain ⟨ts, inner, again⟩ := ih
    refine ⟨_, .cons (inner.append (.cons .nil)), fun s' t' offers _ => ?_⟩
    simp only [offers_cons_iff, offers_append_iff, offers_nil_iff] at offers
    obtain ⟨l, _, rfl, _, inner, r, _, rfl, rfl⟩ := offers
    exact .group (again _ _ inner fun _ => ⟨_, rfl, by simp⟩)
  | single _ _ _ ih =>
    obtain ⟨ts, inner, again⟩ := ih
    refine ⟨ts, inner, fun s' t' offers ends => ?_⟩
    obtain ⟨x, sees, other⟩ := ends rfl
    exact .single (again _ _ offers (by simp)) sees other
  | function _ _ ih₁ ih₂ =>
    obtain ⟨ts₁, first, again₁⟩ := ih₁
    obtain ⟨ts₂, second, again₂⟩ := ih₂
    refine ⟨_, first.append second.cons, fun s' t' offers ends => ?_⟩
    simp only [offers_cons_iff, offers_append_iff] at offers
    obtain ⟨_, first, l, _, rfl, second⟩ := offers
    exact .function (again₁ _ _ first (by simp)) (again₂ _ _ second ends)

/-- An annotation is read elsewhere in front of the arrow of its lambda. -/
theorem Ty.Annotates.elsewhere {o : Option Ty} {s t : TokenStream} {line : Nat}
    (h : Ty.Annotates o s (t.cons ⟨.mark .fatArrow, line⟩)) :
    ∃ ts, s.Offers ts (t.cons ⟨.mark .fatArrow, line⟩) ∧
      ∀ (s' t' : TokenStream) (line' : Nat), s'.Offers ts (t'.cons ⟨.mark .fatArrow, line'⟩) →
        Ty.Annotates o s' (t'.cons ⟨.mark .fatArrow, line'⟩) := by
  generalize t.cons ⟨.mark .fatArrow, line⟩ = u at h ⊢
  cases h with
  | none =>
    refine ⟨[], .nil, fun s' t' line' offers => ?_⟩
    rw [offers_nil_iff.mp offers]
    exact .none rfl (by simp)
  | some written =>
    obtain ⟨ts, inner, again⟩ := written.elsewhere
    refine ⟨_, inner.cons, fun s' t' line' offers => ?_⟩
    obtain ⟨l, _, rfl, inner⟩ := offers_cons_iff.mp offers
    exact .some (again _ _ inner fun _ => ⟨_, rfl, by simp⟩)

/-! ## Phrases -/

namespace Phrase

/-- Whether the phrase always ends with a token of its own. -/
def isClosed : Phrase → Bool
  | atom (.literal ..) | atom (.var ..) | atom (.list ..) | elements .. => true
  | _ => false

variable (lines : Nat → Nat → Prop)

/-- The tokens between the streams are the phrase on related lines, where those of what the phrase
goes on with are related. -/
def SpansOn : Phrase → TokenStream → TokenStream → Prop
  | atom e, s, t => ∃ e', e.Alike lines e' ∧ (atom e').Spans s t
  | arguments function e, s, t => ∀ function', function.Alike lines function' →
    ∃ e', e.Alike lines e' ∧ (arguments function' e').Spans s t
  | application e, s, t => ∃ e', e.Alike lines e' ∧ (application e').Spans s t
  | operators power left e, s, t => ∀ left', left.Alike lines left' →
    ∃ e', e.Alike lines e' ∧ (operators power left' e').Spans s t
  | expression e, s, t => ∃ e', e.Alike lines e' ∧ (expression e').Spans s t
  | elements tag rest, s, t =>
    ∃ rest', List.Forall₂ (Expr.Alike lines) rest rest' ∧ (elements tag rest').Spans s t

/-- The tokens between the streams are the phrase elsewhere too, where what stands behind it can
stand there. -/
def Moves (p : Phrase) (s t : TokenStream) : Prop :=
  ∃ xs, s = t.after xs ∧
    ∀ s' t', s'.Repeats lines xs t' → p.isClosed ∨ t'.Replaces t → p.SpansOn lines s' t'

namespace Moves

variable {lines}
variable {p q r : Phrase} {s t u v : TokenStream} {e e₁ e₂ e₃ left right : Expr} {line l : Nat}

/-- Two phrases, one behind the other. -/
theorem seq (h₁ : p.Moves lines s t) (h₂ : q.Moves lines t u) :
    ∃ xs, s = u.after xs ∧ ∀ s' u', s'.Repeats lines xs u' → u'.Replaces u →
      ∃ t', p.SpansOn lines s' t' ∧ q.SpansOn lines t' u' := by
  obtain ⟨xs₁, rfl, again₁⟩ := h₁
  obtain ⟨xs₂, rfl, again₂⟩ := h₂
  refine ⟨xs₁ ++ xs₂, (after_append _ _ _).symm, fun s' u' repeats ends => ?_⟩
  obtain ⟨t', first, second⟩ := repeats_append_iff.mp repeats
  exact ⟨t', again₁ _ _ first (.inr (ends.before second)), again₂ _ _ second (.inr ends)⟩

/-- Three phrases, one behind the other. -/
theorem seq₃ (h₁ : p.Moves lines s t) (h₂ : q.Moves lines t u) (h₃ : r.Moves lines u v) :
    ∃ xs, s = v.after xs ∧ ∀ s' v', s'.Repeats lines xs v' → v'.Replaces v →
      ∃ t' u', p.SpansOn lines s' t' ∧ q.SpansOn lines t' u' ∧ r.SpansOn lines u' v' := by
  obtain ⟨xs₁, rfl, again₁⟩ := h₁.seq h₂
  obtain ⟨xs₂, rfl, again₂⟩ := h₃
  refine ⟨xs₁ ++ xs₂, (after_append _ _ _).symm, fun s' v' repeats ends => ?_⟩
  obtain ⟨u', front, last⟩ := repeats_append_iff.mp repeats
  obtain ⟨t', read₁, read₂⟩ := again₁ _ _ front (ends.before last)
  exact ⟨t', u', read₁, read₂, again₂ _ _ last (.inr ends)⟩

theorem literal {value : Literal} :
    (atom (.literal value line)).Moves lines (s.cons ⟨value.token, line⟩) s := by
  refine ⟨[_], rfl, fun s' t' repeats _ => ?_⟩
  simp only [repeats_cons_iff, repeats_nil_iff] at repeats
  obtain ⟨l, _, related, rfl, rfl⟩ := repeats
  exact ⟨.literal value l, .literal related, .literal⟩

theorem var {name : String} :
    (atom (.var name line)).Moves lines (s.cons ⟨.identifier name, line⟩) s := by
  refine ⟨[_], rfl, fun s' t' repeats _ => ?_⟩
  simp only [repeats_cons_iff, repeats_nil_iff] at repeats
  obtain ⟨l, _, related, rfl, rfl⟩ := repeats
  exact ⟨.var name l, .var related, .var⟩

theorem group {r : Nat} (h : (expression e).Moves lines s (t.cons ⟨.mark .rightParen, r⟩)) :
    (atom e).Moves lines (s.cons ⟨.mark .leftParen, l⟩) t := by
  obtain ⟨xs, rfl, again⟩ := h
  refine ⟨_ :: (xs ++ [_]), by rw [after_cons, after_append]; rfl, fun s' t' repeats _ => ?_⟩
  simp only [repeats_cons_iff, repeats_append_iff, repeats_nil_iff] at repeats
  obtain ⟨l', _, -, rfl, _, inner, r', _, -, rfl, rfl⟩ := repeats
  obtain ⟨e', alike, read⟩ := again _ _ inner (.inr (.cons _ _ _))
  exact ⟨e', alike, .group read⟩

theorem lam {param : String} {paramTy : Option Ty} {a : Nat}
    (annotated : Ty.Annotates paramTy s (t.cons ⟨.mark .fatArrow, a⟩))
    (h : (expression e).Moves lines t u) :
    (atom (.lam param paramTy e line)).Moves lines
      ((s.cons ⟨.identifier param, l⟩).cons ⟨.mark .backslash, line⟩) u := by
  obtain ⟨_, ⟨xs₁, rfl, rfl⟩, again₁⟩ := annotated.elsewhere
  obtain ⟨xs₂, rfl, again₂⟩ := h
  refine ⟨_ :: _ :: (xs₁ ++ _ :: xs₂), by rw [after_cons, after_cons, after_append]; rfl,
    fun s' t' repeats follows => ?_⟩
  simp only [repeats_cons_iff, repeats_append_iff] at repeats
  obtain ⟨b, _, related, rfl, l', _, -, rfl, _, first, a', _, -, rfl, second⟩ := repeats
  obtain ⟨e', alike, read⟩ := again₂ _ _ second (.inr (follows.resolve_left Bool.false_ne_true))
  exact ⟨.lam param paramTy e' b, .lam alike related, .lam (again₁ _ _ _ first.offers) read⟩

/-- The value and the body of a `let`. -/
theorem letParts {i : Nat} (h₁ : (expression e₁).Moves lines s (t.cons ⟨.keyword .inWord, i⟩))
    (h₂ : (expression e₂).Moves lines t u) :
    ∃ xs, s = u.after xs ∧ ∀ s' u', s'.Repeats lines xs u' → u'.Replaces u →
      ∃ (e₁' e₂' : Expr) (t' : TokenStream) (i' : Nat),
        e₁.Alike lines e₁' ∧ e₂.Alike lines e₂' ∧
        (expression e₁').Spans s' (t'.cons ⟨.keyword .inWord, i'⟩) ∧
        (expression e₂').Spans t' u' := by
  obtain ⟨xs₁, rfl, again₁⟩ := h₁
  obtain ⟨xs₂, rfl, again₂⟩ := h₂
  refine ⟨xs₁ ++ _ :: xs₂, by rw [after_append]; rfl, fun s' u' repeats ends => ?_⟩
  simp only [repeats_cons_iff, repeats_append_iff] at repeats
  obtain ⟨_, first, i', _, -, rfl, second⟩ := repeats
  obtain ⟨e₁', alike₁, read₁⟩ := again₁ _ _ first (.inr (.cons _ _ _))
  obtain ⟨e₂', alike₂, read₂⟩ := again₂ _ _ second (.inr ends)
  exact ⟨e₁', e₂', _, i', alike₁, alike₂, read₁, read₂⟩

theorem letIn {name : String} {q i : Nat}
    (h₁ : (expression e₁).Moves lines s (t.cons ⟨.keyword .inWord, i⟩))
    (h₂ : (expression e₂).Moves lines t u) :
    (atom (.letIn false name e₁ e₂ line)).Moves lines (((s.cons ⟨.mark .equals, q⟩).cons
      ⟨.identifier name, l⟩).cons ⟨.keyword .letWord, line⟩) u := by
  obtain ⟨xs, rfl, again⟩ := letParts h₁ h₂
  refine ⟨_ :: _ :: _ :: xs, rfl, fun s' t' repeats follows => ?_⟩
  simp only [repeats_cons_iff] at repeats
  obtain ⟨b, _, related, rfl, l', _, -, rfl, q', _, -, rfl, parts⟩ := repeats
  obtain ⟨e₁', e₂', _, _, alike₁, alike₂, read₁, read₂⟩ :=
    again _ _ parts (follows.resolve_left Bool.false_ne_true)
  exact ⟨.letIn false name e₁' e₂' b, .letIn alike₁ alike₂ related, .letIn read₁ read₂⟩

theorem letRec {name : String} {r q i : Nat}
    (h₁ : (expression e₁).Moves lines s (t.cons ⟨.keyword .inWord, i⟩))
    (h₂ : (expression e₂).Moves lines t u) :
    (atom (.letIn true name e₁ e₂ line)).Moves lines ((((s.cons ⟨.mark .equals, q⟩).cons
      ⟨.identifier name, l⟩).cons ⟨.keyword .recWord, r⟩).cons ⟨.keyword .letWord, line⟩) u := by
  obtain ⟨xs, rfl, again⟩ := letParts h₁ h₂
  refine ⟨_ :: _ :: _ :: _ :: xs, rfl, fun s' t' repeats follows => ?_⟩
  simp only [repeats_cons_iff] at repeats
  obtain ⟨b, _, related, rfl, r', _, -, rfl, l', _, -, rfl, q', _, -, rfl, parts⟩ := repeats
  obtain ⟨e₁', e₂', _, _, alike₁, alike₂, read₁, read₂⟩ :=
    again _ _ parts (follows.resolve_left Bool.false_ne_true)
  exact ⟨.letIn true name e₁' e₂' b, .letIn alike₁ alike₂ related, .letRec read₁ read₂⟩

theorem cond {h : Nat} (h₁ : (expression e₁).Moves lines s (t.cons ⟨.keyword .thenWord, h⟩))
    (h₂ : (expression e₂).Moves lines t (u.cons ⟨.keyword .elseWord, l⟩))
    (h₃ : (expression e₃).Moves lines u v) :
    (atom (.cond e₁ e₂ e₃ line)).Moves lines (s.cons ⟨.keyword .ifWord, line⟩) v := by
  obtain ⟨xs₁, rfl, again₁⟩ := h₁
  obtain ⟨xs₂, rfl, again₂⟩ := h₂
  obtain ⟨xs₃, rfl, again₃⟩ := h₃
  refine ⟨_ :: (xs₁ ++ _ :: (xs₂ ++ _ :: xs₃)),
    by rw [after_cons, after_append, after_cons, after_append]; rfl,
    fun s' t' repeats follows => ?_⟩
  simp only [repeats_cons_iff, repeats_append_iff] at repeats
  obtain ⟨b, _, related, rfl, _, first, h', _, -, rfl, _, second, l', _, -, rfl, third⟩ := repeats
  obtain ⟨e₁', alike₁, read₁⟩ := again₁ _ _ first (.inr (.cons _ _ _))
  obtain ⟨e₂', alike₂, read₂⟩ := again₂ _ _ second (.inr (.cons _ _ _))
  obtain ⟨e₃', alike₃, read₃⟩ := again₃ _ _ third (.inr (follows.resolve_left Bool.false_ne_true))
  exact ⟨.cond e₁' e₂' e₃' b, .cond alike₁ alike₂ alike₃ related, .cond read₁ read₂ read₃⟩

theorem listOp1 {op : ListOperation} (arity : op.arity = 1) (h : (atom e).Moves lines s t) :
    (atom (.listOp1 op e line)).Moves lines (s.cons ⟨.listOperation op, line⟩) t := by
  obtain ⟨xs, rfl, again⟩ := h
  refine ⟨_ :: xs, rfl, fun s' t' repeats follows => ?_⟩
  obtain ⟨b, _, related, rfl, inner⟩ := repeats_cons_iff.mp repeats
  obtain ⟨e', alike, read⟩ := again _ _ inner (.inr (follows.resolve_left Bool.false_ne_true))
  exact ⟨.listOp1 op e' b, .listOp1 alike related, .listOp1 arity read⟩

theorem listOp2 {op : ListOperation} (arity : op.arity = 2) (h₁ : (atom e₁).Moves lines s t)
    (h₂ : (atom e₂).Moves lines t u) :
    (atom (.listOp2 op e₁ e₂ line)).Moves lines (s.cons ⟨.listOperation op, line⟩) u := by
  obtain ⟨xs, rfl, again⟩ := h₁.seq h₂
  refine ⟨_ :: xs, rfl, fun s' t' repeats follows => ?_⟩
  obtain ⟨b, _, related, rfl, parts⟩ := repeats_cons_iff.mp repeats
  obtain ⟨_, ⟨e₁', alike₁, read₁⟩, e₂', alike₂, read₂⟩ :=
    again _ _ parts (follows.resolve_left Bool.false_ne_true)
  exact ⟨.listOp2 op e₁' e₂' b, .listOp2 alike₁ alike₂ related, .listOp2 arity read₁ read₂⟩

theorem listOp3 {op : ListOperation} (arity : op.arity = 3) (h₁ : (atom e₁).Moves lines s t)
    (h₂ : (atom e₂).Moves lines t u) (h₃ : (atom e₃).Moves lines u v) :
    (atom (.listOp3 op e₁ e₂ e₃ line)).Moves lines (s.cons ⟨.listOperation op, line⟩) v := by
  obtain ⟨xs, rfl, again⟩ := h₁.seq₃ h₂ h₃
  refine ⟨_ :: xs, rfl, fun s' t' repeats follows => ?_⟩
  obtain ⟨b, _, related, rfl, parts⟩ := repeats_cons_iff.mp repeats
  obtain ⟨_, _, ⟨e₁', alike₁, read₁⟩, ⟨e₂', alike₂, read₂⟩, e₃', alike₃, read₃⟩ :=
    again _ _ parts (follows.resolve_left Bool.false_ne_true)
  exact ⟨.listOp3 op e₁' e₂' e₃' b, .listOp3 alike₁ alike₂ alike₃ related,
    .listOp3 arity read₁ read₂ read₃⟩

theorem close {tag : Tag} :
    (elements tag []).Moves lines (s.cons ⟨.mark .rightBracket, line⟩) s := by
  refine ⟨[_], rfl, fun s' t' repeats _ => ?_⟩
  simp only [repeats_cons_iff, repeats_nil_iff] at repeats
  obtain ⟨l, _, -, rfl, rfl⟩ := repeats
  exact ⟨[], .nil, .close⟩

/-- An element of a list literal and the ones behind it. -/
theorem elementParts {tag : Tag} {rest : List Expr} (h₁ : (atom e).Moves lines s t)
    (h₂ : (elements tag rest).Moves lines t u) (some : (elements tag rest).Spans t u) :
    ∃ xs, s = u.after xs ∧ ∀ s' u', s'.Repeats lines xs u' →
      ∃ (e' : Expr) (rest' : List Expr) (t' : TokenStream),
        e.Alike lines e' ∧ List.Forall₂ (Expr.Alike lines) rest rest' ∧
        (atom e').Spans s' t' ∧ (elements tag rest').Spans t' u' := by
  obtain ⟨xs₁, rfl, again₁⟩ := h₁
  obtain ⟨xs₂, rfl, again₂⟩ := h₂
  refine ⟨xs₁ ++ xs₂, (after_append _ _ _).symm, fun s' u' repeats => ?_⟩
  obtain ⟨_, first, second⟩ := repeats_append_iff.mp repeats
  have bracket : xs₂ ≠ [] := by
    rintro rfl
    exact Nat.not_succ_le_self _ some.length_le
  obtain ⟨e', alike₁, read₁⟩ := again₁ _ _ first (.inr (.start second bracket))
  obtain ⟨rest', alike₂, read₂⟩ := again₂ _ _ second (.inl rfl)
  exact ⟨e', rest', _, alike₁, alike₂, read₁, read₂⟩

theorem element {tag : Tag} {rest : List Expr} (h₁ : (atom e).Moves lines s t)
    (same : e.tag = tag) (h₂ : (elements tag rest).Moves lines t u)
    (some : (elements tag rest).Spans t u) :
    (elements tag (e :: rest)).Moves lines (s.cons ⟨.mark .comma, line⟩) u := by
  obtain ⟨xs, rfl, again⟩ := elementParts h₁ h₂ some
  refine ⟨_ :: xs, rfl, fun s' t' repeats _ => ?_⟩
  obtain ⟨l', _, -, rfl, parts⟩ := repeats_cons_iff.mp repeats
  obtain ⟨e', rest', _, alike₁, alike₂, read₁, read₂⟩ := again _ _ parts
  exact ⟨e' :: rest', .cons alike₁ alike₂, .element read₁ (alike₁.tag_eq.symm.trans same) read₂⟩

theorem list {rest : List Expr} (h₁ : (atom e).Moves lines s t)
    (h₂ : (elements e.tag rest).Moves lines t u) (some : (elements e.tag rest).Spans t u) :
    (atom (.list e.tag (e :: rest) line)).Moves lines
      ((s.cons ⟨.mark .leftBracket, l⟩).cons ⟨.keyword .listWord, line⟩) u := by
  obtain ⟨xs, rfl, again⟩ := elementParts h₁ h₂ some
  refine ⟨_ :: _ :: xs, rfl, fun s' t' repeats _ => ?_⟩
  simp only [repeats_cons_iff] at repeats
  obtain ⟨b, _, related, rfl, l', _, -, rfl, parts⟩ := repeats
  obtain ⟨e', rest', _, alike₁, alike₂, read₁, read₂⟩ := again _ _ parts
  have tag := alike₁.tag_eq
  rw [tag] at read₂ ⊢
  exact ⟨.list e'.tag (e' :: rest') b, .list (.cons alike₁ alike₂) related, .list read₁ read₂⟩

theorem applied (ends : s.EndsAtoms) : (arguments e e).Moves lines s s := by
  refine ⟨[], rfl, fun s' t' repeats follows => ?_⟩
  obtain rfl := repeats_nil_iff.mp repeats
  obtain ⟨x', sees', ends'⟩ := (follows.resolve_left Bool.false_ne_true).endsAtoms ends
  exact fun e' alike => ⟨e', alike, .applied sees' ends'⟩

theorem argument (h₁ : (atom e₁).Moves lines s t)
    (h₂ : (arguments (.app e e₁ e.line) e₂).Moves lines t u) :
    (arguments e e₂).Moves lines s u := by
  obtain ⟨xs, rfl, again⟩ := h₁.seq h₂
  refine ⟨xs, rfl, fun s' t' repeats follows => ?_⟩
  obtain ⟨_, ⟨e₁', alike₁, read₁⟩, more⟩ :=
    again _ _ repeats (follows.resolve_left Bool.false_ne_true)
  intro e' alike
  obtain ⟨e₂', alike₂, read₂⟩ := more (.app e' e₁' e'.line) (.app alike alike₁ alike.line)
  exact ⟨e₂', alike₂, .argument read₁ read₂⟩

theorem application (h₁ : (atom e₁).Moves lines s t) (h₂ : (arguments e₁ e).Moves lines t u) :
    (application e).Moves lines s u := by
  obtain ⟨xs, rfl, again⟩ := h₁.seq h₂
  refine ⟨xs, rfl, fun s' t' repeats follows => ?_⟩
  obtain ⟨_, ⟨e₁', alike₁, read₁⟩, more⟩ :=
    again _ _ repeats (follows.resolve_left Bool.false_ne_true)
  obtain ⟨e', alike, read⟩ := more e₁' alike₁
  exact ⟨e', alike, .application read₁ read⟩

theorem joined {power : Nat} (ends : s.EndsBelow power) :
    (operators power left left).Moves lines s s := by
  refine ⟨[], rfl, fun s' t' repeats follows => ?_⟩
  obtain rfl := repeats_nil_iff.mp repeats
  obtain ⟨x', sees', ends'⟩ := (follows.resolve_left Bool.false_ne_true).endsBelow ends
  exact fun left' alike => ⟨left', alike, .joined sees' ends'⟩

theorem operator {power : Nat} {op : Operator} (binds : power ≤ op.leftPower)
    (h₁ : (Phrase.application e₁).Moves lines s t)
    (h₂ : (operators op.rightPower e₁ right).Moves lines t u)
    (h₃ : (operators power (.binary op left right line) e).Moves lines u v) :
    (operators power left e).Moves lines (s.cons ⟨.operator op, line⟩) v := by
  obtain ⟨xs, rfl, again⟩ := h₁.seq₃ h₂ h₃
  refine ⟨_ :: xs, rfl, fun s' t' repeats follows => ?_⟩
  obtain ⟨b, _, related, rfl, parts⟩ := repeats_cons_iff.mp repeats
  obtain ⟨_, _, ⟨e₁', alike₁, read₁⟩, inner, more⟩ :=
    again _ _ parts (follows.resolve_left Bool.false_ne_true)
  obtain ⟨right', alike₂, read₂⟩ := inner e₁' alike₁
  intro left' alike
  obtain ⟨e', alike₃, read₃⟩ := more (.binary op left' right' b) (.binary alike alike₂ related)
  exact ⟨e', alike₃, .operator binds read₁ read₂ read₃⟩

theorem expression (h₁ : (Phrase.application e₁).Moves lines s t)
    (h₂ : (operators 0 e₁ e).Moves lines t u) : (expression e).Moves lines s u := by
  obtain ⟨xs, rfl, again⟩ := h₁.seq h₂
  refine ⟨xs, rfl, fun s' t' repeats follows => ?_⟩
  obtain ⟨_, ⟨e₁', alike₁, read₁⟩, more⟩ :=
    again _ _ repeats (follows.resolve_left Bool.false_ne_true)
  obtain ⟨e', alike, read⟩ := more e₁' alike₁
  exact ⟨e', alike, .expression read₁ read⟩

end Moves

/-- A phrase is read alike wherever its tokens stand. -/
theorem Spans.moves {p : Phrase} {s t : TokenStream} (h : p.Spans s t) : p.Moves lines s t := by
  induction h with
  | literal => exact .literal
  | var => exact .var
  | group _ ih => exact ih.group
  | lam annotated _ ih => exact .lam annotated ih
  | letIn _ _ ih₁ ih₂ => exact .letIn ih₁ ih₂
  | letRec _ _ ih₁ ih₂ => exact .letRec ih₁ ih₂
  | cond _ _ _ ih₁ ih₂ ih₃ => exact .cond ih₁ ih₂ ih₃
  | list _ some ih₁ ih₂ => exact .list ih₁ ih₂ some
  | listOp1 arity _ ih => exact .listOp1 arity ih
  | listOp2 arity _ _ ih₁ ih₂ => exact .listOp2 arity ih₁ ih₂
  | listOp3 arity _ _ _ ih₁ ih₂ ih₃ => exact .listOp3 arity ih₁ ih₂ ih₃
  | close => exact .close
  | element _ same some ih₁ ih₂ => exact .element ih₁ same ih₂ some
  | applied sees ends => exact .applied ⟨_, sees, ends⟩
  | argument _ _ ih₁ ih₂ => exact .argument ih₁ ih₂
  | application _ _ ih₁ ih₂ => exact .application ih₁ ih₂
  | joined sees ends => exact .joined ⟨_, sees, ends⟩
  | operator binds _ _ _ ih₁ ih₂ ih₃ => exact .operator binds ih₁ ih₂ ih₃
  | expression _ _ ih₁ ih₂ => exact .expression ih₁ ih₂

/-- Arguments, if there are any, make an application. -/
theorem Spans.arguments_cases {function e : Expr} {s t : TokenStream}
    (h : (arguments function e).Spans s t) : (e = function ∧ s = t) ∨ e.tag = .app := by
  generalize phrase : arguments function e = p at h
  induction h generalizing function e with
  | applied =>
    cases phrase
    exact .inl ⟨rfl, rfl⟩
  | argument _ _ _ ih =>
    cases phrase
    obtain ⟨rfl, -⟩ | made := ih rfl
    · exact .inr rfl
    · exact .inr made
  | _ => cases phrase

/-- Operators, if there are any, make a binary operation. -/
theorem Spans.operators_cases {power : Nat} {left e : Expr} {s t : TokenStream}
    (h : (operators power left e).Spans s t) : (e = left ∧ s = t) ∨ e.tag = .binary := by
  generalize phrase : operators power left e = p at h
  induction h generalizing power left e with
  | joined =>
    cases phrase
    exact .inl ⟨rfl, rfl⟩
  | operator _ _ _ _ _ _ ih =>
    cases phrase
    obtain ⟨rfl, -⟩ | made := ih rfl
    · exact .inr rfl
    · exact .inr made
  | _ => cases phrase

/-- An expression that is no application and no binary operation is an atom. -/
theorem Spans.atom_of_expression {e : Expr} {s t : TokenStream}
    (h : (Phrase.expression e).Spans s t)
    (single : e.tag ≠ .app) (simple : e.tag ≠ .binary) : (atom e).Spans s t := by
  cases h with
  | expression first more =>
    cases first with
    | application function rest =>
      obtain ⟨rfl, rfl⟩ := more.operators_cases.resolve_right simple
      obtain ⟨rfl, rfl⟩ := rest.arguments_cases.resolve_right single
      exact function

end Phrase

/-! ## Programs -/

section Parsed

variable {source : String} {e : Expr}

theorem cutInto_of_offers {u : TokenStream} {ts : List Token} (empty : u.ahead = [])
    (offers : (ofSource source).Offers ts u) : CutInto source.toList ts := by
  obtain ⟨located, items, stream⟩ := offers
  have all : (ofText 1 source.toList).tokens = .ok (located ++ [u.ending]) := by
    have last : u.tokens = .ok [u.ending] := by simp [TokenStream.tokens, empty, drain]
    change (ofSource source).tokens = _
    rw [stream, tokens_after, last]
    rfl
  obtain ⟨us, same, cut⟩ := cutInto_of_tokens all
  obtain rfl : us = ts := by
    simpa [items, ending] using same.symm
  exact cut

/-- A program writes its expression: its tokens are the expression wherever they stand. -/
theorem writes_of_parse (parsed : parse source = .ok e) : Writes source e := by
  obtain ⟨u, empty, read⟩ := parse_ok_iff.mp parsed
  obtain ⟨xs, stream, again⟩ := read.moves fun _ _ => True
  refine ⟨_, cutInto_of_offers empty ⟨xs, rfl, stream⟩, fun s t offers stops => ?_⟩
  obtain ⟨e', alike, spans⟩ := again s t (repeats_of_offers offers) (.inr (.inl stops))
  exact ⟨e', alike.unlined_eq.symm, spans⟩

/-- A program that is a constant, a name or a list writes it as an atom. -/
theorem writesAtom_of_parse (parsed : parse source = .ok e) (closed : (Phrase.atom e).isClosed) :
    WritesAtom source e := by
  obtain ⟨u, empty, read⟩ := parse_ok_iff.mp parsed
  have plain : e.tag ≠ .app ∧ e.tag ≠ .binary := by
    cases e with
    | literal value => cases value <;> simp [Expr.tag, Literal.tag]
    | _ => simp_all [Phrase.isClosed, Expr.tag]
  obtain ⟨xs, stream, again⟩ := (read.atom_of_expression plain.1 plain.2).moves fun _ _ => True
  refine ⟨_, cutInto_of_offers empty ⟨xs, rfl, stream⟩, fun s t offers => ?_⟩
  obtain ⟨e', alike, spans⟩ := again s t (repeats_of_offers offers) (.inl closed)
  exact ⟨e', alike.unlined_eq.symm, spans⟩

end Parsed

end ListLang
