import ListLang.Proofs.Grammar.Elsewhere
import ListLang.Proofs.Layout

/-!
# Operator precedence

Operands with operators between them are grouped as in a textbook: the equality on the far left
is the root of the tree, or else the addition, subtraction or concatenation on the far right, or
else the multiplication, division or remainder on the far right; what stands on both sides of
the root is grouped in the same way. The parser finds the same tree from left to right, with two
powers for each operator.

## Main definitions

* `Chain` — operands with operators between them, as text and as tree.
* `grouping` — the tree by the textbook.

## Main statements

* `root?_cons` — the root is found from the root of what stands behind the first operator.
* `grouping_cons` — the first operator takes what binds its right operand at least as strongly
  as its right power.
* `parse_chain` — a chain is a program, and its tree is that of the textbook.
-/

namespace ListLang

open TokenStream

/-! ## The textbook -/

namespace Operator

/-- Whether the operator adds, subtracts or concatenates. -/
def isSum : Operator → Bool
  | add | sub | concat => true
  | equality | mul | div | mod => false

/-- Whether the operator multiplies, divides or takes the remainder. -/
def isProduct : Operator → Bool
  | mul | div | mod => true
  | equality | add | sub | concat => false

variable {o p : Operator}

/-- An operator that is not taken into a right operand does not bind more on its left. -/
theorem leftPower_le_of_lt : o.leftPower < p.rightPower → o.leftPower ≤ p.leftPower := by
  cases o <;> cases p <;> decide

/-- An operator that is taken into a right operand does not bind less on its left. -/
theorem leftPower_le_of_le : p.rightPower ≤ o.leftPower → p.leftPower ≤ o.leftPower := by
  cases o <;> cases p <;> decide

/-- What is taken into a right operand takes no less into its own right operand. -/
theorem rightPower_le_of_le : p.rightPower ≤ o.leftPower → p.rightPower ≤ o.rightPower := by
  cases o <;> cases p <;> decide

end Operator

section Cut

variable {α : Type}

/-- The list cut at the first element with the property. -/
def cutFirst (p : α → Bool) : List α → Option (List α × α × List α)
  | [] => none
  | x :: rest =>
    if p x then some ([], x, rest)
    else (cutFirst p rest).map fun (before, y, behind) => (x :: before, y, behind)

/-- The list cut at the last element with the property. -/
def cutLast (p : α → Bool) : List α → Option (List α × α × List α)
  | [] => none
  | x :: rest =>
    match cutLast p rest with
    | some (before, y, behind) => some (x :: before, y, behind)
    | none => if p x then some ([], x, rest) else none

variable {p : α → Bool} {xs before behind : List α} {y : α}

theorem cutFirst_eq_some (cut : cutFirst p xs = some (before, y, behind)) :
    xs = before ++ y :: behind ∧ p y := by
  induction xs generalizing before with
  | nil => cases cut
  | cons x xs ih =>
    rw [cutFirst] at cut
    split at cut
    · next first =>
      cases cut
      exact ⟨rfl, first⟩
    · obtain ⟨⟨before, y, behind⟩, later, eq⟩ := Option.map_eq_some_iff.mp cut
      cases eq
      obtain ⟨rfl, has⟩ := ih later
      exact ⟨rfl, has⟩

theorem cutLast_eq_some (cut : cutLast p xs = some (before, y, behind)) :
    xs = before ++ y :: behind ∧ p y := by
  induction xs generalizing before with
  | nil => cases cut
  | cons x xs ih =>
    rw [cutLast] at cut
    split at cut
    · next later =>
      cases cut
      obtain ⟨rfl, has⟩ := ih later
      exact ⟨rfl, has⟩
    · split at cut
      · next last =>
        cases cut
        exact ⟨rfl, last⟩
      · cases cut

end Cut

section Root

variable {α : Type}

/-- The links cut at their root: the first equality, or else the last sum, or else the last
product. -/
def root? (links : List (Operator × α)) :
    Option (List (Operator × α) × (Operator × α) × List (Operator × α)) :=
  (cutFirst (·.1 == .equality) links).or
    ((cutLast (·.1.isSum) links).or (cutLast (·.1.isProduct) links))

variable {links before behind : List (Operator × α)} {link root : Operator × α}

theorem root?_eq_some (cut : root? links = some (before, root, behind)) :
    links = before ++ root :: behind := by
  obtain first | ⟨-, cut⟩ := Option.or_eq_some_iff.mp cut
  · exact (cutFirst_eq_some first).1
  obtain last | ⟨-, last⟩ := Option.or_eq_some_iff.mp cut
  · exact (cutLast_eq_some last).1
  · exact (cutLast_eq_some last).1

/-- The root is that of the links behind the first one, if it binds less than what that one
wants on its right. -/
theorem root?_cons (link : Operator × α) (links : List (Operator × α)) :
    root? (link :: links) =
      match root? links with
      | some (before, root, behind) =>
        if root.1.leftPower < link.1.rightPower then some (link :: before, root, behind)
        else some ([], link, links)
      | none => some ([], link, links) := by
  obtain ⟨op, x⟩ := link
  have equality : ∀ before root behind,
      cutFirst (·.1 == Operator.equality) links = some (before, root, behind) →
      root.1 = .equality := fun _ _ _ cut => by simpa using (cutFirst_eq_some cut).2
  have sum : ∀ before root behind, cutLast (·.1.isSum) links = some (before, root, behind) →
      root.1.isSum := fun _ _ _ cut => (cutLast_eq_some cut).2
  have product : ∀ before root behind,
      cutLast (·.1.isProduct) links = some (before, root, behind) → root.1.isProduct :=
    fun _ _ _ cut => (cutLast_eq_some cut).2
  unfold root?
  rw [cutFirst, cutLast, cutLast]
  cases first : cutFirst (·.1 == Operator.equality) links with
  | some cut =>
    obtain ⟨before, ⟨o, y⟩, behind⟩ := cut
    obtain rfl : o = .equality := equality _ _ _ first
    cases op <;> rfl
  | none =>
    cases last : cutLast (·.1.isSum) links with
    | some cut =>
      obtain ⟨before, ⟨o, y⟩, behind⟩ := cut
      have := sum _ _ _ last
      cases o <;> cases this <;> cases op <;> rfl
    | none =>
      cases last' : cutLast (·.1.isProduct) links with
      | some cut =>
        obtain ⟨before, ⟨o, y⟩, behind⟩ := cut
        have := product _ _ _ last'
        cases o <;> cases this <;> cases op <;> rfl
      | none => cases op <;> rfl

/-- Without a root there are no links. -/
theorem eq_nil_of_root?_eq_none (none : root? links = none) : links = [] := by
  cases links with
  | nil => rfl
  | cons link links =>
    rw [root?_cons] at none
    split at none
    · split at none <;> cases none
    · cases none

/-- No operator binds less than the root. -/
theorem leftPower_root_le (cut : root? links = some (before, root, behind)) :
    ∀ other ∈ links, root.1.leftPower ≤ other.1.leftPower := by
  induction links generalizing before root behind with
  | nil => cases cut
  | cons link links ih =>
    rw [root?_cons] at cut
    split at cut
    · next before' root' behind' inner =>
      split at cut
      · next less =>
        cases cut
        exact List.forall_mem_cons.mpr ⟨Operator.leftPower_le_of_lt less, ih inner⟩
      · next more =>
        cases cut
        refine List.forall_mem_cons.mpr ⟨Nat.le_refl _, fun other mem => ?_⟩
        exact Operator.leftPower_le_of_le (Nat.le_trans (Nat.le_of_not_lt more) (ih inner _ mem))
    · next none =>
      cases cut
      simp [eq_nil_of_root?_eq_none none]

/-- The first link stands before the root of the others, or is the root itself and takes all the
others into its right operand. -/
theorem root?_cons_cases (link : Operator × α) (links : List (Operator × α)) :
    (∃ before root behind, root? links = some (before, root, behind) ∧
        root.1.leftPower < link.1.rightPower ∧
        root? (link :: links) = some (link :: before, root, behind)) ∨
      (∀ other ∈ links, link.1.rightPower ≤ other.1.leftPower) ∧
        root? (link :: links) = some ([], link, links) := by
  rw [root?_cons]
  cases cut : root? links with
  | none => exact .inr ⟨by simp [eq_nil_of_root?_eq_none cut], rfl⟩
  | some parts =>
    obtain ⟨before, root, behind⟩ := parts
    dsimp only
    split
    · next less => exact .inl ⟨before, root, behind, rfl, less, rfl⟩
    · next more =>
      exact .inr ⟨fun other mem =>
        Nat.le_trans (Nat.le_of_not_lt more) (leftPower_root_le cut other mem), rfl⟩

/-- The root is also that of the links behind some of those before it. -/
theorem root?_of_append {front : List (Operator × α)}
    (cut : root? (front ++ (before ++ root :: behind)) = some (front ++ before, root, behind)) :
    root? (before ++ root :: behind) = some (before, root, behind) := by
  induction front with
  | nil => exact cut
  | cons link front ih =>
    obtain ⟨b, r, a, inner, -, eq⟩ | ⟨-, eq⟩ :=
      root?_cons_cases link (front ++ (before ++ root :: behind))
    · cases eq.symm.trans cut
      exact ih inner
    · cases eq.symm.trans cut

end Root

/-- The tree of the operand `first` and the operators and operands behind it: the root with what
stands before it on its left and what stands behind it on its right. -/
def grouping (first : Expr) (links : List (Operator × Expr)) : Expr :=
  match _cut : root? links with
  | none => first
  | some (before, (op, operand), behind) =>
    .binary op (grouping first before) (grouping operand behind) 0
termination_by links.length
decreasing_by
  all_goals
    have := congrArg List.length (root?_eq_some _cut)
    simp only [List.length_append, List.length_cons] at this
    omega

theorem grouping_of_root {first operand : Expr} {op : Operator}
    {links before behind : List (Operator × Expr)}
    (cut : root? links = some (before, (op, operand), behind)) :
    grouping first links = .binary op (grouping first before) (grouping operand behind) 0 := by
  rw [grouping]
  split
  · next none => cases none.symm.trans cut
  · next found =>
    cases found.symm.trans cut
    rfl

@[simp] theorem grouping_nil (first : Expr) : grouping first [] = first := by
  rw [grouping]
  rfl

/-- The first operator takes into its right operand the links that bind at least as strongly as
its right power, up to the first one that does not, and is the left operand of the others. -/
theorem grouping_cons (left operand : Expr) {op : Operator} {inner outer : List (Operator × Expr)}
    (taken : ∀ link ∈ inner, op.rightPower ≤ link.1.leftPower)
    (refused : ∀ link ∈ outer.head?, link.1.leftPower < op.rightPower) :
    grouping left ((op, operand) :: (inner ++ outer)) =
      grouping (.binary op left (grouping operand inner) 0) outer := by
  obtain ⟨before, ⟨o, x⟩, behind, cut, less, whole⟩ | ⟨all, whole⟩ :=
    root?_cons_cases (op, operand) (inner ++ outer)
  · -- the root stands in `outer`, because it binds less than all that is taken
    obtain ⟨between, rfl, rfl⟩ : ∃ between, before = inner ++ between ∧
        outer = between ++ (o, x) :: behind := by
      obtain ⟨between, eq⟩ | ⟨_ | ⟨link, between⟩, rfl, eq⟩ :=
        List.append_eq_append_iff.mp (root?_eq_some cut)
      · exact ⟨between, eq⟩
      · exact ⟨[], by simp, eq.symm⟩
      · cases eq
        exact absurd less (Nat.not_lt_of_le (taken _ (by simp)))
    have refused' : ∀ link ∈ between.head?, link.1.leftPower < op.rightPower := by
      cases between with
      | nil => simp
      | cons link between => simpa using refused
    rw [grouping_of_root whole, grouping_cons left operand taken refused',
      grouping_of_root (root?_of_append cut)]
  · obtain rfl : outer = [] := by
      cases outer with
      | nil => rfl
      | cons link outer =>
        exact absurd (refused link rfl) (Nat.not_lt_of_le (all link (by simp)))
    rw [grouping_of_root whole, grouping_nil, grouping_nil, List.append_nil]
termination_by outer.length

/-! ## Climbing -/

/-- The tokens between the streams are operators with operands behind them, each up to lines. -/
inductive Linked : List (Operator × Expr) → TokenStream → TokenStream → Prop
  | nil {s} : Linked [] s s
  | cons {op operand operand' links line s t u} : operand'.unlined = operand.unlined →
    (Phrase.application operand').Spans s t → Linked links t u →
    Linked ((op, operand) :: links) (s.cons ⟨.operator op, line⟩) u

namespace Linked

variable {links inner outer : List (Operator × Expr)} {s t u : TokenStream}

theorem split (h : Linked (inner ++ outer) s u) : ∃ t, Linked inner s t ∧ Linked outer t u := by
  induction inner generalizing s with
  | nil => exact ⟨s, .nil, h⟩
  | cons link inner ih =>
    cases h with
    | cons same read more =>
      obtain ⟨t, first, second⟩ := ih more
      exact ⟨t, .cons same read first, second⟩

end Linked

/-- The links behind an operator: those that it takes into its right operand, and the others. -/
theorem exists_taken (op : Operator) (links : List (Operator × Expr)) :
    ∃ inner outer, links = inner ++ outer ∧
      (∀ link ∈ inner, op.rightPower ≤ link.1.leftPower) ∧
      ∀ link ∈ outer.head?, link.1.leftPower < op.rightPower := by
  refine ⟨links.takeWhile (op.rightPower ≤ ·.1.leftPower),
    links.dropWhile (op.rightPower ≤ ·.1.leftPower), List.takeWhile_append_dropWhile.symm,
    fun link mem => by simpa using List.mem_takeWhile_imp mem, fun link first => ?_⟩
  have := List.head?_dropWhile_not (fun link : Operator × Expr =>
    decide (op.rightPower ≤ link.1.leftPower)) links
  rw [first] at this
  simpa using this

/-- Operators that bind at least as strongly as the power are read as the textbook groups them,
where those that follow bind less. -/
theorem Linked.operators {links : List (Operator × Expr)} {s u : TokenStream} {power : Nat}
    (linked : Linked links s u) (bind : ∀ link ∈ links, power ≤ link.1.leftPower)
    (keeps : ∀ op : Operator, power ≤ op.leftPower → power ≤ op.rightPower)
    (ends : u.EndsBelow power) (left : Expr) :
    (Phrase.operators power left (grouping left links)).SpansAlike s u := by
  intro left' same
  cases linked with
  | nil =>
    obtain ⟨x, sees, other⟩ := ends
    exact ⟨left', by simpa using same, .joined sees other⟩
  | @cons op operand operand' links line s t _ same₁ read more =>
    obtain ⟨binds, bind⟩ := List.forall_mem_cons.mp bind
    obtain ⟨inner, outer, rfl, taken, refused⟩ := exists_taken op links
    obtain ⟨v, first, second⟩ := more.split
    have between : v.EndsBelow op.rightPower := by
      cases second with
      | nil => exact ends.mono (keeps op binds)
      | cons => exact ⟨_, rfl, fun o eq => by cases eq; exact refused _ rfl⟩
    obtain ⟨right, same₂, read₂⟩ :=
      first.operators taken (fun _ => Operator.rightPower_le_of_le) between operand _ same₁
    have joined : (Expr.binary op left' right line).unlined =
        (Expr.binary op left (grouping operand inner) 0).unlined := by
      simp only [Expr.unlined, same, same₂]
    obtain ⟨e, same₃, read₃⟩ := second.operators
      (fun link mem => bind link (List.mem_append_right _ mem)) keeps ends _ _ joined
    exact ⟨e, by rw [same₃, grouping_cons left operand taken refused],
      .operator binds read read₂ read₃⟩
termination_by links.length

/-! ## Chains -/

/-- The text is a program that ends with a token of its own: a constant, a list literal, a name or
an expression in parentheses. -/
inductive ClosedAtom : String → Expr → Prop
  | constant {text e} : parse text = .ok e → e.tag.dataKind?.isSome → ClosedAtom text e
  | name {text e} : parse text = .ok e → e.tag = .var → ClosedAtom text e
  | group {text e} : parse text = .ok e → ClosedAtom ("(" ++ text ++ ")") e

/-- A text that is an atom by itself, with its tree. -/
structure Atom where
  text : String
  tree : Expr
  closed : ClosedAtom text tree

/-- An atom with the atoms it is applied to. -/
structure Operand where
  function : Atom
  arguments : List Atom

/-- Operands with operators between them. -/
structure Chain where
  first : Operand
  links : List (Operator × Operand)

namespace Operand

/-- The atoms one after the other. -/
def text (x : Operand) : String :=
  x.function.text ++ x.arguments.foldr (fun atom more => " " ++ atom.text ++ more) ""

/-- The function applied to one atom after the other. -/
def tree (x : Operand) : Expr :=
  x.arguments.foldl (fun function atom => .app function atom.tree 0) x.function.tree

end Operand

namespace Chain

/-- The operands with the operators between them. -/
def text (chain : Chain) : String :=
  chain.first.text ++ chain.links.foldr
    (fun (op, operand) more => " " ++ op.spelling ++ " " ++ operand.text ++ more) ""

/-- The tree that the textbook gives. -/
def tree (chain : Chain) : Expr :=
  grouping chain.first.tree (chain.links.map fun (op, operand) => (op, operand.tree))

end Chain

theorem Atom.writes (atom : Atom) : WritesAtom atom.text atom.tree := by
  obtain ⟨text, e, closed⟩ := atom
  cases closed with
  | constant parsed constant =>
    refine writesAtom_of_parse parsed ?_
    cases e with
    | literal | list => rfl
    | _ => cases constant
  | name parsed name =>
    refine writesAtom_of_parse parsed ?_
    cases e with
    | var => rfl
    | literal value => cases value <;> cases name
    | _ => cases name
  | group parsed => exact .group (writes_of_parse parsed)

/-- The atoms that stand behind a function are its arguments. -/
theorem forms_arguments (atoms : List Atom) :
    ∃ ts, (∀ s t, s.Offers ts t → t.EndsAtoms → ∀ function : Expr, (Phrase.arguments function
        (atoms.foldl (fun f atom => .app f atom.tree 0) function)).SpansAlike s t) ∧
      CutInto (atoms.foldr (fun atom more => " " ++ atom.text ++ more) "").toList ts ∧
      Lexeme.Loose (atoms.foldr (fun atom more => " " ++ atom.text ++ more) "").toList := by
  induction atoms with
  | nil =>
    refine ⟨[], fun s t offers ends function function' same => ?_, .nil, by simp [Lexeme.Loose]⟩
    obtain rfl := offers_nil_iff.mp offers
    obtain ⟨x, sees, ends⟩ := ends
    exact ⟨function', same, .applied sees ends⟩
  | cons atom atoms ih =>
    obtain ⟨ts₁, cut₁, read₁⟩ := atom.writes
    obtain ⟨ts₂, read₂, cut₂, loose⟩ := ih
    refine ⟨ts₁ ++ ts₂, fun s t offers ends function function' same => ?_, ?_, ?_⟩
    · obtain ⟨u, offers₁, offers₂⟩ := offers_append_iff.mp offers
      obtain ⟨e₁, same₁, spans₁⟩ := read₁ _ _ offers₁
      obtain ⟨e, same₂, spans₂⟩ := read₂ _ _ offers₂ ends (.app function atom.tree 0)
        (.app function' e₁ function'.line) (by simp only [Expr.unlined, same, same₁])
      exact ⟨e, same₂, .argument spans₁ spans₂⟩
    · simp only [List.foldr_cons, String.toList_append, List.append_assoc]
      exact (cut₁.append cut₂ loose).layout rfl
    · simp only [List.foldr_cons, String.toList_append, List.append_assoc]
      exact .cons rfl _

theorem Operand.forms (operand : Operand) : ∃ ts, CutInto operand.text.toList ts ∧
    ∀ s t, s.Offers ts t → t.EndsAtoms → (Phrase.application operand.tree).SpansAlike s t := by
  obtain ⟨ts₁, cut₁, read₁⟩ := operand.function.writes
  obtain ⟨ts₂, read₂, cut₂, loose⟩ := forms_arguments operand.arguments
  refine ⟨ts₁ ++ ts₂, ?_, fun s t offers ends => ?_⟩
  · rw [Operand.text, String.toList_append]
    exact cut₁.append cut₂ loose
  · obtain ⟨u, offers₁, offers₂⟩ := offers_append_iff.mp offers
    obtain ⟨f, same₁, spans₁⟩ := read₁ _ _ offers₁
    obtain ⟨e, same₂, spans₂⟩ := read₂ _ _ offers₂ ends _ _ same₁
    exact ⟨e, same₂, .application spans₁ spans₂⟩

theorem Linked.endsAtoms {links : List (Operator × Expr)} {s t : TokenStream}
    (linked : Linked links s t) (stops : t.Stops) : s.EndsAtoms := by
  cases linked with
  | nil => exact stops.endsAtoms
  | cons => exact ⟨_, rfl, rfl⟩

/-- The operators of a chain with the operands behind them. -/
theorem forms_links (links : List (Operator × Operand)) :
    ∃ ts, (∀ s t, s.Offers ts t → t.Stops →
        Linked (links.map fun (op, operand) => (op, operand.tree)) s t) ∧
      CutInto (links.foldr (fun (op, operand) more =>
        " " ++ op.spelling ++ " " ++ operand.text ++ more) "").toList ts ∧
      Lexeme.Loose (links.foldr (fun (op, operand) more =>
        " " ++ op.spelling ++ " " ++ operand.text ++ more) "").toList := by
  induction links with
  | nil =>
    refine ⟨[], fun s t offers _ => ?_, .nil, by simp [Lexeme.Loose]⟩
    rw [offers_nil_iff.mp offers]
    exact .nil
  | cons link links ih =>
    obtain ⟨op, operand⟩ := link
    obtain ⟨ts₁, cut₁, read₁⟩ := operand.forms
    obtain ⟨ts₂, read₂, cut₂, loose⟩ := ih
    refine ⟨.operator op :: (ts₁ ++ ts₂), fun s t offers stops => ?_, ?_, ?_⟩
    · simp only [offers_cons_iff, offers_append_iff] at offers
      obtain ⟨line, _, rfl, u, offers₁, offers₂⟩ := offers
      have linked := read₂ _ _ offers₂ stops
      obtain ⟨e, same, spans⟩ := read₁ _ _ offers₁ (linked.endsAtoms stops)
      exact .cons same spans linked
    · simp only [List.foldr_cons, String.toList_append, List.append_assoc]
      exact .layout rfl (.cons (t := .operator op) trivial
        (Token.apart_of_loose (.cons rfl _) _) ((cut₁.append cut₂ loose).layout rfl))
    · simp only [List.foldr_cons, String.toList_append, List.append_assoc]
      exact .cons rfl _

theorem Chain.forms (chain : Chain) :
    ∃ ts, CutInto chain.text.toList ts ∧ Forms ts chain.tree := by
  obtain ⟨ts₁, cut₁, read₁⟩ := chain.first.forms
  obtain ⟨ts₂, read₂, cut₂, loose⟩ := forms_links chain.links
  refine ⟨ts₁ ++ ts₂, ?_, fun s t offers stops => ?_⟩
  · rw [Chain.text, String.toList_append]
    exact cut₁.append cut₂ loose
  · obtain ⟨u, offers₁, offers₂⟩ := offers_append_iff.mp offers
    have linked := read₂ _ _ offers₂ stops
    obtain ⟨first, same₁, spans₁⟩ := read₁ _ _ offers₁ (linked.endsAtoms stops)
    obtain ⟨e, same₂, spans₂⟩ := linked.operators (fun _ _ => Nat.zero_le _)
      (fun _ _ => Nat.zero_le _) (stops.endsBelow 0) _ _ same₁
    exact ⟨e, same₂, .expression spans₁ spans₂⟩

/-- A chain of operands and operators, however it is laid out, is a program, and its tree is, up
to lines, the one that the textbook gives. -/
theorem parse_chain (chain : Chain) :
    (∃ e, parse chain.text = .ok e ∧ e.unlined = chain.tree.unlined) ∧
      ∀ source ts ts', tokenize chain.text = .ok ts → tokenize source = .ok ts' →
        ts'.map Located.item = ts.map Located.item →
        ∃ e, parse source = .ok e ∧ e.unlined = chain.tree.unlined := by
  obtain ⟨ts, cut, forms⟩ := chain.forms
  obtain ⟨e, parsed, same⟩ : ∃ e, parse chain.text = .ok e ∧ e.unlined = chain.tree.unlined := by
    obtain ⟨last, offers⟩ := cut 1 [] (by simp [Lexeme.Loose])
    rw [List.append_nil] at offers
    obtain ⟨e, same, read⟩ := forms _ _ offers (stops_of_ahead_eq_nil rfl)
    exact ⟨e, parse_ok_iff.mpr ⟨_, rfl, read⟩, same⟩
  refine ⟨⟨e, parsed, same⟩, fun source ts ts' first second tokens => ?_⟩
  obtain ⟨e', other, parsed', found, trees⟩ | ⟨_, _, -, failed, -⟩ :=
    parse_alike second first tokens
  · cases found.symm.trans parsed
    exact ⟨e', parsed', trees.trans same⟩
  · cases failed.symm.trans parsed

/-- A chain of all three levels, laid out in another way. The first equality is the root, and the
application and the product bind more than the sum. -/
theorem parse_chain_levels :
    ∃ e, parse "f 1==x\n+2*(\\y => y) == x" = .ok e ∧
      e.unlined = .binary .equality (.app (.var "f" 0) (.literal (.integer 1) 0) 0)
        (.binary .equality
          (.binary .add (.var "x" 0)
            (.binary .mul (.literal (.integer 2) 0) (.lam "y" none (.var "y" 0) 0) 0) 0)
          (.var "x" 0) 0) 0 := by
  have constant (value : Literal) (writable : value.token.Writable) :
      ∃ a : Atom, a.text = value.token.spelling ∧ a.tree.unlined = .literal value 0 := by
    have written : WritesAtom value.token.spelling (.literal value 0) := .literal writable
    obtain ⟨e, same, parsed⟩ := written.writes.exists_parse
    refine ⟨⟨_, e, .constant parsed ?_⟩, rfl, same⟩
    rw [Expr.tag_eq_of_unlined_eq same]
    cases value <;> rfl
  have name (name : String) (named : Token.isName name) :
      ∃ a : Atom, a.text = name ∧ a.tree.unlined = .var name 0 := by
    have written : WritesAtom name (.var name 0) := .var named
    obtain ⟨e, same, parsed⟩ := written.writes.exists_parse
    exact ⟨⟨_, e, .name parsed (Expr.tag_eq_of_unlined_eq same)⟩, rfl, same⟩
  obtain ⟨f, textF, treeF⟩ := name "f" (by decide)
  obtain ⟨x, textX, treeX⟩ := name "x" (by decide)
  obtain ⟨one, text1, tree1⟩ := constant (.integer 1) (by decide)
  obtain ⟨two, text2, tree2⟩ := constant (.integer 2) (by decide)
  have body : WritesAtom "y" (.var "y" 0) := .var (by decide)
  have written : Writes _ (.lam "y" none (.var "y" 0) 0) := .lam (by decide) body.writes
  obtain ⟨lam, treeLam, parsed⟩ := written.exists_parse
  let chain : Chain := ⟨⟨f, [one]⟩, [(.equality, ⟨x, []⟩), (.add, ⟨two, []⟩),
    (.mul, ⟨⟨_, lam, .group parsed⟩, []⟩), (.equality, ⟨x, []⟩)]⟩
  have text : chain.text = "f 1 == x + 2 * (\\y => y) == x" := by
    simp only [chain, Chain.text, Operand.text, List.foldr_cons, List.foldr_nil, textF, textX,
      text1, text2]
    decide +kernel
  have tree : chain.tree = .binary .equality (.app f.tree one.tree 0) (.binary .equality
      (.binary .add x.tree (.binary .mul two.tree lam 0) 0) x.tree 0) 0 := by
    change grouping (.app f.tree one.tree 0) [(.equality, x.tree), (.add, two.tree), (.mul, lam),
      (.equality, x.tree)] = _
    rw [grouping_of_root rfl, grouping_nil, grouping_of_root rfl, grouping_nil,
      grouping_of_root rfl, grouping_nil, grouping_of_root rfl, grouping_nil, grouping_nil]
  have first : tokenize chain.text = .ok [⟨.identifier "f", 1⟩, ⟨.integer 1, 1⟩,
      ⟨.operator .equality, 1⟩, ⟨.identifier "x", 1⟩, ⟨.operator .add, 1⟩, ⟨.integer 2, 1⟩,
      ⟨.operator .mul, 1⟩, ⟨.mark .leftParen, 1⟩, ⟨.mark .backslash, 1⟩, ⟨.identifier "y", 1⟩,
      ⟨.mark .fatArrow, 1⟩, ⟨.identifier "y", 1⟩, ⟨.mark .rightParen, 1⟩,
      ⟨.operator .equality, 1⟩, ⟨.identifier "x", 1⟩, ⟨.endOfInput, 1⟩] := by
    rw [text]
    decide +kernel
  have second : tokenize "f 1==x\n+2*(\\y => y) == x" = .ok [⟨.identifier "f", 1⟩,
      ⟨.integer 1, 1⟩, ⟨.operator .equality, 1⟩, ⟨.identifier "x", 1⟩, ⟨.operator .add, 2⟩,
      ⟨.integer 2, 2⟩, ⟨.operator .mul, 2⟩, ⟨.mark .leftParen, 2⟩, ⟨.mark .backslash, 2⟩,
      ⟨.identifier "y", 2⟩, ⟨.mark .fatArrow, 2⟩, ⟨.identifier "y", 2⟩, ⟨.mark .rightParen, 2⟩,
      ⟨.operator .equality, 2⟩, ⟨.identifier "x", 2⟩, ⟨.endOfInput, 2⟩] := by
    decide +kernel
  obtain ⟨e, parsed, same⟩ := (parse_chain chain).2 _ _ _ first second rfl
  refine ⟨e, parsed, ?_⟩
  simp [same, tree, Expr.unlined, treeF, treeX, tree1, tree2, treeLam]

end ListLang
