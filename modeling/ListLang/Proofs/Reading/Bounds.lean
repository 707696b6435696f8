import ListLang.Parser.Expr

/-!
# Bounds of parsers

The parsers recurse on a bound of the tokens that they take. A bound that the source does not
exceed is never used up, because each step down takes a token: two parsers that differ in such
bounds only have the same outcome, be it a tree or an error, and leave the source the same.

## Main definitions

* `LawfulTokenSource` — sources whose size goes down with every token that is taken.
* `Parser.Agree` — parsers that agree on small sources, and the least number of tokens they take.
* `Parser.Settled` — parsers for which every bound that is great enough is as good as another.

## Main statements

* `Parser.agree_atomWithin` — atoms within two bounds agree.
* `Parser.settled_ty`, `Parser.settled_expression` — the bounds of types and expressions.
-/

namespace ListLang

open TokenSource (size)

/-- Sources whose size counts the end of input and goes down with every other token that is
taken, and in which looking at a token leaves it to be taken and looked at again. -/
class LawfulTokenSource (σ : Type) [TokenSource σ] : Prop where
  size_pos : ∀ s : σ, 0 < size s
  size_next_le : ∀ {s t : σ} {x}, TokenSource.next s = .ok x t → size t ≤ size s
  size_next_lt : ∀ {s t : σ} {x}, TokenSource.next s = .ok x t → x.item ≠ .endOfInput →
    size t < size s
  size_lookahead_le : ∀ {s t : σ} {x}, TokenSource.lookahead s = .ok x t → size t ≤ size s
  next_lookahead : ∀ {s t : σ} {x}, TokenSource.lookahead s = .ok x t →
    ∃ u, TokenSource.next t = .ok x u
  lookahead_lookahead : ∀ {s t : σ} {x}, TokenSource.lookahead s = .ok x t →
    TokenSource.lookahead t = .ok x t

instance : LawfulTokenSource TokenStream where
  size_pos _ := Nat.succ_pos _
  size_next_le {s t x} ok := by
    change TokenStream.next s = .ok x t at ok
    unfold TokenStream.next at ok
    split at ok <;> cases ok <;> simp_all [size]
  size_next_lt {s t x} ok ne := by
    change TokenStream.next s = .ok x t at ok
    unfold TokenStream.next at ok
    split at ok <;> cases ok <;> simp_all [size, TokenStream.ending]
  size_lookahead_le {s t x} ok := by
    change TokenStream.lookahead s = .ok x t at ok
    unfold TokenStream.lookahead at ok
    split at ok <;> cases ok <;> exact Nat.le_refl _
  next_lookahead {s t x} ok := by
    change TokenStream.lookahead s = .ok x t at ok
    unfold TokenStream.lookahead at ok
    change ∃ u, TokenStream.next t = .ok x u
    split at ok <;> cases ok <;> simp_all [TokenStream.next]
  lookahead_lookahead {s t x} ok := by
    have same : s = t := by
      change TokenStream.lookahead s = .ok x t at ok
      unfold TokenStream.lookahead at ok
      split at ok <;> cases ok <;> rfl
    exact same ▸ ok

namespace Parser

variable {σ α β : Type} [TokenSource σ]

/-- On sources of size at most `bound` the parsers have the same outcome. With a result `a` they
take at least `takes a` tokens. -/
def Agree (bound : Nat) (takes : α → Nat) (p q : ParserOn σ α) : Prop :=
  ∀ s, size s ≤ bound → p s = q s ∧ ∀ a t, p s = .ok a t → size t + takes a ≤ size s

/-- Every bound that the source does not exceed gives the same outcome. -/
def Settled (p : Nat → ParserOn σ α) : Prop :=
  ∀ bound s, size s ≤ bound → p bound s = p (size s) s

namespace Agree

variable {bound : Nat} {takes : α → Nat} {p q : ParserOn σ α}

theorem mono {less : Nat} (h : Agree bound takes p q) (le : less ≤ bound) : Agree less takes p q :=
  fun s small => h s (Nat.le_trans small le)

theorem weaken {fewer : α → Nat} (h : Agree bound takes p q) (le : ∀ a, fewer a ≤ takes a) :
    Agree bound fewer p q := by
  intro s small
  obtain ⟨same, shrinks⟩ := h s small
  refine ⟨same, fun a t ok => ?_⟩
  have := shrinks a t ok
  have := le a
  omega

theorem pure (a : α) : Agree bound (fun _ => 0) (Pure.pure a : ParserOn σ α) (Pure.pure a) := by
  refine fun s _ => ⟨rfl, ?_⟩
  rintro _ _ ⟨⟩
  exact Nat.le_refl _

theorem fail (line : Nat) (cause : ParseError.Cause) :
    Agree bound takes (Parser.fail line cause : ParserOn σ α) (Parser.fail line cause) := by
  refine fun s _ => ⟨rfl, ?_⟩
  rintro _ _ ⟨⟩

/-- What the first parser takes makes the source smaller for the second. -/
theorem bind {takes' : β → Nat} {f g : α → ParserOn σ β} (first : Agree bound takes p q)
    (next : ∀ a, Agree (bound - takes a) (fun b => takes' b - takes a) (f a) (g a)) :
    Agree bound takes' (p >>= f) (q >>= g) := by
  intro s small
  obtain ⟨same, shrinks⟩ := first s small
  change EStateM.bind p f s = EStateM.bind q g s ∧
    ∀ b t, EStateM.bind p f s = .ok b t → size t + takes' b ≤ size s
  simp only [EStateM.bind, ← same]
  cases ran : p s with
  | ok a t =>
    have shorter := shrinks a t ran
    obtain ⟨same', shrinks'⟩ := next a t (by omega)
    refine ⟨same', fun b u ok => ?_⟩
    have : size u + (takes' b - takes a) ≤ size t := shrinks' b u ok
    omega
  | error e t => exact ⟨rfl, by rintro _ _ ⟨⟩⟩

theorem ite {c : Prop} [Decidable c] {p' q' : ParserOn σ α} (pos : c → Agree bound takes p q)
    (neg : ¬ c → Agree bound takes p' q') :
    Agree bound takes (if c then p else p') (if c then q else q') := by
  split
  · exact pos ‹c›
  · exact neg ‹¬ c›

theorem map {takes' : β → Nat} (f : α → β) (h : Agree bound takes p q)
    (le : ∀ a, takes' (f a) ≤ takes a) : Agree bound takes' (f <$> p) (f <$> q) := by
  intro s small
  obtain ⟨same, shrinks⟩ := h s small
  constructor
  · change EStateM.map f p s = EStateM.map f q s
    simp only [EStateM.map, same]
  · intro b t ok
    change EStateM.map f p s = .ok b t at ok
    unfold EStateM.map at ok
    split at ok
    · next a u ran =>
      have shorter := shrinks a u ran
      have := le a
      cases ok
      omega
    · cases ok

theorem settled {f : Nat → ParserOn σ α}
    (h : ∀ least n m, least ≤ n → least ≤ m → Agree least takes (f n) (f m)) : Settled f :=
  fun n s small => (h (size s) n (size s) small (Nat.le_refl _) s (Nat.le_refl _)).1

end Agree

/-! ## Tokens -/

variable [LawfulTokenSource σ] {bound : Nat}

/-- Parsers that agree on sources of no size agree on all there are. -/
theorem agree_zero {takes : α → Nat} (p q : ParserOn σ α) : Agree 0 takes p q :=
  fun s small => absurd (LawfulTokenSource.size_pos s) (Nat.not_lt.mpr small)

/-- Induction on a size that two bounds are great enough for. No source is of size 0, and each step
down takes a token. -/
theorem bounds_induction {motive : Nat → Nat → Nat → Prop} (zero : ∀ n m, motive 0 n m)
    (succ : ∀ size n m, size ≤ n → size ≤ m → (∀ less ≤ size, motive less n m) →
      motive (size + 1) (n + 1) (m + 1)) {size n m : Nat} (hn : size ≤ n) (hm : size ≤ m) :
    motive size n m := by
  induction n generalizing size m with
  | zero =>
    obtain rfl := Nat.le_zero.mp hn
    exact zero 0 m
  | succ n ih =>
    cases size with
    | zero => exact zero (n + 1) m
    | succ size =>
      cases m with
      | zero => omega
      | succ m => exact succ size n m (by omega) (by omega) fun less le => ih (by omega) (by omega)

/-- The end of input is no token that is taken. -/
def counts (x : Located Token) : Nat := if x.item = .endOfInput then 0 else 1

theorem agree_next : Agree bound counts (next : ParserOn σ _) next := by
  refine fun s _ => ⟨rfl, fun x t ok => ?_⟩
  unfold counts
  split
  · exact LawfulTokenSource.size_next_le ok
  · next ne => exact LawfulTokenSource.size_next_lt ok ne

theorem agree_lookahead : Agree bound (fun _ => 0) (lookahead : ParserOn σ _) lookahead :=
  fun _ _ => ⟨rfl, fun _ _ ok => LawfulTokenSource.size_lookahead_le ok⟩

/-- Going on from a token that was looked at, with the token still to be taken. -/
theorem agree_lookahead_bind {takes : α → Nat} {f g : Located Token → ParserOn σ α}
    (h : ∀ x s t, next s = .ok x t → size s ≤ bound →
      f x s = g x s ∧ ∀ a t, f x s = .ok a t → size t + takes a ≤ size s) :
    Agree bound takes (lookahead >>= f) (lookahead >>= g) := by
  intro s small
  change EStateM.bind lookahead f s = EStateM.bind lookahead g s ∧
    ∀ a t, EStateM.bind lookahead f s = .ok a t → size t + takes a ≤ size s
  simp only [EStateM.bind]
  cases ran : (lookahead s : EStateM.Result _ σ _) with
  | ok x t =>
    have le := LawfulTokenSource.size_lookahead_le ran
    obtain ⟨u, took⟩ := LawfulTokenSource.next_lookahead ran
    obtain ⟨same, shrinks⟩ := h x t u took (Nat.le_trans le small)
    exact ⟨same, fun a v ok => Nat.le_trans (shrinks a v ok) le⟩
  | error e t => exact ⟨rfl, by rintro _ _ ⟨⟩⟩

theorem agree_expect {t : Token} (ne : t ≠ .endOfInput) :
    Agree bound (fun _ => 1) (expect t : ParserOn σ _) (expect t) := by
  refine .bind agree_next fun found => .ite (fun same => ?_) fun _ => .fail _ _
  have one : counts found = 1 := by simp [counts, same, ne]
  exact (Agree.pure _).weaken fun _ => by simp [one]

theorem agree_accept (t : Token) :
    Agree bound (fun _ => 0) (accept t : ParserOn σ _) (accept t) := by
  refine .bind agree_lookahead fun _ => .ite (fun _ => ?_) fun _ => .pure _
  refine .bind agree_next fun _ => ?_
  exact (Agree.pure _).weaken fun _ => by simp

theorem agree_binder : Agree bound (fun _ => 1) (binder : ParserOn σ _) binder := by
  refine .bind agree_next fun found => ?_
  split
  · next name eq =>
    have one : counts found = 1 := by simp [counts, eq]
    exact (Agree.pure _).weaken fun _ => by simp [one]
  · exact .fail _ _

/-! ## Types -/

theorem agree_tyAtomWith {ty ty' : ParserOn σ Ty} (h : Agree bound (fun _ => 1) ty ty') :
    Agree (bound + 1) (fun _ => 1) (tyAtomWith ty) (tyAtomWith ty') := by
  refine .bind agree_next fun found => ?_
  split
  · next b eq =>
    have one : counts found = 1 := by simp [counts, eq]
    exact (Agree.pure _).weaken fun _ => by simp [one]
  · next eq =>
    have one : counts found = 1 := by simp [counts, eq]
    rw [one]
    refine .bind (h.weaken fun _ => Nat.zero_le _) fun _ => ?_
    exact .bind (agree_expect (by simp)) fun _ => (Agree.pure _).weaken fun _ => by simp
  · exact .fail _ _

theorem agree_tyWithin {n m : Nat} (hn : bound ≤ n) (hm : bound ≤ m) :
    Agree bound (fun _ => 1) (tyWithin n : ParserOn σ _) (tyWithin m) := by
  refine bounds_induction (motive := fun bound n m =>
    Agree bound (fun _ => 1) (tyWithin n : ParserOn σ _) (tyWithin m))
    (fun _ _ => agree_zero _ _) (fun bound n m _ _ ih => ?_) hn hm
  have inner := ih bound (Nat.le_refl _)
  refine .bind (agree_tyAtomWith inner) fun _ => ?_
  refine .bind (agree_accept _) fun _ => .ite (fun _ => ?_) fun _ =>
    (Agree.pure _).weaken fun _ => by simp
  refine .bind (inner.weaken fun _ => Nat.zero_le _) fun _ => ?_
  exact (Agree.pure _).weaken fun _ => by simp

/-- Types within bounds that are great enough. -/
theorem settled_ty : Settled (tyWithin : Nat → ParserOn σ Ty) :=
  Agree.settled fun _ _ _ => agree_tyWithin

theorem agree_annotatedTy :
    Agree bound (fun _ => 0) (annotatedTy : ParserOn σ _) annotatedTy := by
  have ty : Agree bound (fun _ => 0) (ty : ParserOn σ _) ty := by
    refine fun s _ => ⟨rfl, fun t u ok => ?_⟩
    have within := agree_tyWithin (σ := σ) (Nat.le_refl (size s)) (Nat.le_refl _) s (Nat.le_refl _)
    exact Nat.le_of_succ_le (within.2 t u ok)
  refine .bind (agree_accept _) fun _ => .ite (fun _ => ?_) fun _ => .pure _
  exact .bind ty fun _ => .pure _

/-! ## Expressions -/

/-- The least number of tokens of an optional atom. -/
def atomCounts : Option Expr → Nat
  | some _ => 1
  | none => 0

section Parts

variable {atom atom' : ParserOn σ (Option Expr)} (h : Agree bound atomCounts atom atom')

include h

theorem agree_requiredWith :
    Agree bound (fun _ => 1) (requiredWith atom) (requiredWith atom') := by
  refine .bind h fun o => ?_
  cases o with
  | some e => exact .pure e
  | none => exact .bind agree_lookahead fun _ => .fail _ _

omit [LawfulTokenSource σ] in
theorem agree_operandWith (op : ListOperation) (line : Nat) :
    Agree bound (fun _ => 1) (operandWith atom op line) (operandWith atom' op line) := by
  refine .bind h fun o => ?_
  cases o with
  | some e => exact .pure e
  | none => exact .fail _ _

/-- Each argument takes a token, so the rounds that are left are enough for the rest. -/
theorem agree_argumentsWith {n m : Nat} (hn : bound ≤ n) (hm : bound ≤ m) (function : Expr) :
    Agree bound (fun _ => 0) (argumentsWith atom n function) (argumentsWith atom' m function) := by
  refine bounds_induction (motive := fun bound n m => Agree bound atomCounts atom atom' →
    ∀ function, Agree bound (fun _ => 0) (argumentsWith atom n function)
      (argumentsWith atom' m function))
    (fun _ _ _ _ => agree_zero _ _) (fun bound n m _ _ ih h function => ?_) hn hm h function
  refine .bind h fun o => ?_
  cases o with
  | some e => exact ih bound (Nat.le_refl _) (h.mono (Nat.le_succ _)) _
  | none => exact .pure _

theorem agree_applicationWith {n m : Nat} (hn : bound ≤ n) (hm : bound ≤ m) :
    Agree bound (fun _ => 1) (applicationWith atom n) (applicationWith atom' m) := by
  refine .bind (agree_requiredWith h) fun function => ?_
  exact agree_argumentsWith (h.mono (Nat.sub_le _ _)) (by omega) (by omega) function

end Parts

/-- Each operator is followed by an operand, which takes a token. -/
theorem agree_climbWith {operand operand' : ParserOn σ Expr}
    (h : Agree bound (fun _ => 1) operand operand') {n m : Nat} (hn : bound ≤ n) (hm : bound ≤ m)
    (power : Nat) (left : Expr) :
    Agree bound (fun _ => 0) (climbWith operand n power left)
      (climbWith operand' m power left) := by
  refine bounds_induction (motive := fun bound n m => Agree bound (fun _ => 1) operand operand' →
    ∀ power left, Agree bound (fun _ => 0) (climbWith operand n power left)
      (climbWith operand' m power left))
    (fun _ _ _ _ _ => agree_zero _ _) (fun bound n m _ _ ih h power left => ?_) hn hm h power left
  refine .bind agree_lookahead fun found => ?_
  split
  · refine .ite (fun _ => ?_) fun _ => .pure _
    refine .bind agree_next fun x => .bind (h.mono (by omega)) fun first => ?_
    -- The operator may not count, but the operand behind it has taken a token.
    have inner := ih (bound + 1 - 0 - counts x - 1) (by omega) (h.mono (by omega))
    refine .bind (inner _ first) fun right => ?_
    exact ((inner _ _).mono (Nat.sub_le _ _)).weaken fun _ => by simp
  · exact .pure _

section Forms

variable {atom atom' : ParserOn σ (Option Expr)} (h : Agree bound atomCounts atom atom')
  {n m : Nat} (hn : bound ≤ n) (hm : bound ≤ m)

include h hn hm

theorem agree_expressionWith :
    Agree bound (fun _ => 1) (expressionWith atom n) (expressionWith atom' m) := by
  refine .bind (agree_applicationWith h hn hm) fun first => ?_
  exact (agree_climbWith (agree_applicationWith h hn hm) hn hm 0 first).mono (Nat.sub_le _ _)

theorem agree_elementsWith (tag : Tag) :
    Agree bound (fun _ => 0) (elementsWith atom tag n) (elementsWith atom' tag m) := by
  refine bounds_induction (motive := fun bound n m => Agree bound atomCounts atom atom' →
    Agree bound (fun _ => 0) (elementsWith atom tag n) (elementsWith atom' tag m))
    (fun _ _ _ => agree_zero _ _) (fun bound n m _ _ ih h => ?_) hn hm h
  refine .bind agree_lookahead fun _ => .ite (fun _ => .pure _) fun _ => ?_
  refine .bind (agree_expect (by simp)) fun _ => .bind agree_lookahead fun _ =>
    .ite (fun _ => .fail _ _) fun _ => ?_
  refine .bind (agree_requiredWith (h.mono (by omega))) fun element =>
    .ite (fun _ => ?_) fun _ => .fail _ _
  exact .bind (ih _ (by omega) (h.mono (by omega))) fun _ => .pure _

theorem agree_listLiteralWith :
    Agree (bound + 1) (fun _ => 1) (listLiteralWith atom n) (listLiteralWith atom' m) := by
  refine .bind (agree_expect (by simp)) fun _ => .bind (agree_expect (by simp)) fun _ =>
    .bind agree_lookahead fun _ => ?_
  split
  · exact .fail _ _
  · exact .fail _ _
  · refine .bind (agree_requiredWith (h.mono (by omega))) fun element => ?_
    refine .bind ((agree_elementsWith h hn hm _).mono (by omega)) fun _ => ?_
    exact .bind (agree_expect (by simp)) fun _ => .pure _

omit hn hm in
theorem agree_listOperationWith :
    Agree (bound + 1) (fun _ => 1) (listOperationWith atom) (listOperationWith atom') := by
  refine .bind agree_next fun found => ?_
  split
  · next op eq =>
    have one : counts found = 1 := by simp [counts, eq]
    have operand := agree_operandWith h op found.line
    rw [one]
    refine .bind operand fun _ => ?_
    split
    · exact .pure _
    · exact .bind (operand.mono (by omega)) fun _ => .pure _
    · exact .bind (operand.mono (by omega)) fun _ => .bind (operand.mono (by omega)) fun _ =>
        .pure _
  · exact .fail _ _

end Forms

section Expressions

variable {expression expression' : ParserOn σ Expr}
  (h : Agree bound (fun _ => 1) expression expression')

include h

theorem agree_groupingWith :
    Agree (bound + 1) (fun _ => 1) (groupingWith expression) (groupingWith expression') :=
  .bind (agree_expect (by simp)) fun _ => .bind h fun _ => .bind (agree_expect (by simp)) fun _ =>
    .pure _

theorem agree_lambdaWith :
    Agree (bound + 1) (fun _ => 1) (lambdaWith expression) (lambdaWith expression') :=
  .bind (agree_expect (by simp)) fun _ => .bind agree_binder fun _ => .bind agree_annotatedTy
    fun _ => .bind (agree_expect (by simp)) fun _ => .bind (h.mono (by omega)) fun _ => .pure _

theorem agree_letInWith :
    Agree (bound + 1) (fun _ => 1) (letInWith expression) (letInWith expression') :=
  .bind (agree_expect (by simp)) fun _ => .bind (agree_accept _) fun _ => .bind agree_binder
    fun _ => .bind (agree_expect (by simp)) fun _ => .bind (h.mono (by omega)) fun _ =>
      .bind (agree_expect (by simp)) fun _ => .bind (h.mono (by omega)) fun _ => .pure _

theorem agree_condWith :
    Agree (bound + 1) (fun _ => 1) (condWith expression) (condWith expression') :=
  .bind (agree_expect (by simp)) fun _ => .bind h fun _ => .bind (agree_expect (by simp)) fun _ =>
    .bind (h.mono (by omega)) fun _ => .bind (agree_expect (by simp)) fun _ =>
      .bind (h.mono (by omega)) fun _ => .pure _

end Expressions

theorem agree_atomWith {atom atom' : ParserOn σ (Option Expr)}
    (h : Agree bound atomCounts atom atom') {n m : Nat} (hn : bound ≤ n) (hm : bound ≤ m) :
    Agree (bound + 1) atomCounts (atomWith atom n) (atomWith atom' m) := by
  have some : ∀ {p q : ParserOn σ Expr}, Agree (bound + 1) (fun _ => 1) p q →
      Agree (bound + 1) atomCounts (Option.some <$> p) (Option.some <$> q) :=
    fun hp => .map _ hp fun _ => Nat.le_refl _
  have other : Agree (bound + 1) atomCounts (Pure.pure none : ParserOn σ _) (Pure.pure none) := by
    refine fun s _ => ⟨rfl, ?_⟩
    rintro _ _ ⟨⟩
    exact Nat.le_refl _
  have inner := agree_expressionWith h hn hm
  refine agree_lookahead_bind fun found s t took small => ?_
  -- A token that makes an atom by itself is the one that was looked at.
  have token : ∀ f : Nat → Expr, found.item ≠ .endOfInput →
      (Option.some <$> tokenAtom f : ParserOn σ _) s = (Option.some <$> tokenAtom f) s ∧
        ∀ o u, (Option.some <$> tokenAtom f : ParserOn σ _) s = .ok o u →
          size u + atomCounts o ≤ size s := by
    refine fun f ne => ⟨rfl, fun o u ok => ?_⟩
    have ran : (Option.some <$> tokenAtom f : ParserOn σ _) s =
        .ok (Option.some (f found.line)) t := by
      change EStateM.map _ (EStateM.bind next _) s = _
      simp only [EStateM.map, EStateM.bind, took]
      rfl
    cases ran.symm.trans ok
    exact LawfulTokenSource.size_next_lt took ne
  obtain ⟨item, line⟩ := found
  cases item with
  | integer | bool | string | identifier => exact token _ (by simp)
  | mark m =>
    cases m with
    | leftParen => exact some (agree_groupingWith inner) s small
    | backslash => exact some (agree_lambdaWith inner) s small
    | _ => exact other s small
  | keyword k =>
    cases k with
    | listWord => exact some (agree_listLiteralWith h hn hm) s small
    | letWord => exact some (agree_letInWith inner) s small
    | ifWord => exact some (agree_condWith inner) s small
    | _ => exact other s small
  | listOperation op => exact some (agree_listOperationWith h) s small
  | _ => exact other s small

/-- Atoms within two bounds that are great enough. -/
theorem agree_atomWithin {n m : Nat} (hn : bound ≤ n) (hm : bound ≤ m) :
    Agree bound atomCounts (atomWithin n : ParserOn σ _) (atomWithin m) := by
  refine bounds_induction (motive := fun bound n m =>
    Agree bound atomCounts (atomWithin n : ParserOn σ _) (atomWithin m))
    (fun _ _ => agree_zero _ _) (fun bound n m hn hm ih => ?_) hn hm
  exact agree_atomWith (ih bound (Nat.le_refl _)) hn hm

/-- Expressions within bounds that are great enough. -/
theorem settled_expression :
    Settled fun n => (expressionWith (atomWithin n) n : ParserOn σ Expr) :=
  Agree.settled fun _ _ _ hn hm => agree_expressionWith (agree_atomWithin hn hm) hn hm

end Parser

end ListLang
