import ListLang.Eval.Expr
import ListLang.Proofs.Containment
import ListLang.Proofs.WellFormed

/-!
# What list literals evaluate to

A list literal holds constants and further list literals. Its leaves are the elements that are no
list literals, at any depth and from left to right. A literal of a program whose leaves are all
constants evaluates to a list with those constants, made of new lists only. Any other one fails at
its first leaf that is no constant. Neither depends on the names that are bound, and neither
changes a list that was there before.

## Main definitions

* `Expr.leaves` — the leaves of a literal.
* `Built` — values are what elements write, in lists that have been made one after the other.
* `Outcome` — what can come of elements.

## Main statements

* `elements_outcome`, `eval_outcome` — what comes of elements, and of one of them.
* `eval_listLiteral` — what list literals of programs evaluate to.
-/

namespace ListLang

namespace Expr

mutual

/-- The elements of a list literal that are no list literals, at any depth and from left to
right. Any other expression is a leaf itself. -/
def leaves : Expr → List Expr
  | list _ elements _ => allLeaves elements
  | e => [e]

/-- The leaves of the expressions. -/
def allLeaves : List Expr → List Expr
  | [] => []
  | e :: rest => e.leaves ++ allLeaves rest

end

/-- Whether the expression is a constant. -/
def isLiteral : Expr → Bool
  | literal .. => true
  | _ => false

/-- The first leaf of the expressions that is no constant. -/
def firstOther? (es : List Expr) : Option Expr := (allLeaves es).find? (!·.isLiteral)

theorem firstOther?_cons (e : Expr) (es : List Expr) :
    firstOther? (e :: es) = (firstOther? [e]).or (firstOther? es) := by
  simp [firstOther?, allLeaves, List.find?_append]

theorem firstOther?_list (tag : Tag) (elements : List Expr) (line : Nat) :
    firstOther? [list tag elements line] = firstOther? elements := by
  simp [firstOther?, allLeaves, leaves]

/-- An expression that writes no data is a leaf and no constant. -/
theorem firstOther?_of_dataKind? {e : Expr} (other : e.tag.dataKind? = none) :
    firstOther? [e] = some e := by
  cases e with
  | literal value => cases value <;> cases other
  | list => cases other
  | _ => rfl

end Expr

/-! ## Lists made one after the other -/

/-- The values `vs` are what the expressions `es` write, and the lists of the store from the place
`lo` up to the place `hi` are the ones that they are made of, every list behind the lists in it. -/
inductive Built (t : Store) : Nat → Nat → List Expr → List Value → Prop
  | nil {lo} : Built t lo lo [] []
  | literal {lo hi es vs value line} : Built t lo hi es vs →
    Built t lo hi (.literal value line :: es) (value.value :: vs)
  | list {lo mid hi es vs tag elements line kind items} : Built t lo mid elements items →
    tag.dataKind? = some kind → t.list ⟨mid⟩ = ⟨kind, items⟩ → Built t (mid + 1) hi es vs →
    Built t lo hi (.list tag elements line :: es) (.list ⟨mid⟩ :: vs)

namespace Built

variable {t u : Store} {lo mid hi : Nat} {e : Expr} {es : List Expr} {v : Value} {vs : List Value}

theorem le (built : Built t lo hi es vs) : lo ≤ hi := by
  induction built with
  | nil => exact Nat.le_refl _
  | literal _ ih => exact ih
  | list _ _ _ _ ih₁ ih₂ => omega

theorem mono (built : Built t lo hi es vs) (adds : t.Extends u) (old : hi ≤ t.lists.size) :
    Built u lo hi es vs := by
  induction built with
  | nil => exact .nil
  | literal _ ih => exact .literal (ih old)
  | @list _ mid hi _ _ _ _ _ _ _ _ kind cell rest ih₁ ih₂ =>
    have lt : mid < t.lists.size := Nat.lt_of_lt_of_le rest.le old
    exact .list (ih₁ (Nat.le_of_lt lt)) kind ((adds.old ⟨mid⟩ lt).trans cell) (ih₂ old)

theorem cons (first : Built t lo mid [e] [v]) (rest : Built t mid hi es vs) :
    Built t lo hi (e :: es) (v :: vs) := by
  cases first with
  | literal nil =>
    cases nil
    exact .literal rest
  | list items kind cell nil =>
    cases nil
    exact .list items kind cell rest

/-- The form of an expression says the kind of what it writes. -/
theorem head (built : Built t lo hi (e :: es) vs) :
    ∃ v rest, vs = v :: rest ∧ e.tag.dataKind? = some v.kind := by
  cases built with
  | @literal _ _ _ _ value => cases value <;> exact ⟨_, _, rfl, rfl⟩
  | list => exact ⟨_, _, rfl, rfl⟩

end Built

/-! ## Evaluating elements -/

/-- What comes of the expressions `es` as elements in the store `s`: either the values that they
write, or the failure at their first leaf that is no constant. Lists are only added. -/
inductive Outcome {α : Type} (s : Store) (es : List Expr) (values : α → List Value) :
    EStateM.Result Halt Store α → Prop
  | built {a t} : Expr.firstOther? es = none → s.Extends t →
    Built t s.lists.size t.lists.size es (values a) → Outcome s es values (.ok a t)
  | refused {x t} : Expr.firstOther? es = some x → s.Extends t →
    Outcome s es values (.error (.failed ⟨x.line, .unsupportedElement x.tag⟩) t)

/-- What comes of elements, where it is known of each of them that writes data. -/
theorem elements_outcome {es : List Expr} (each : ∀ e ∈ es, e.tag.dataKind?.isSome → ∀ s,
      ∃ r least, (∀ env, ∀ depth ≥ least, eval depth env e s = r) ∧ Outcome s [e] (fun v => [v]) r)
    (s : Store) : ∃ r least,
      (∀ env, ∀ depth ≥ least, Eval.elementsWith (eval depth env) es s = r) ∧
        Outcome s es id r := by
  induction es generalizing s with
  | nil => exact ⟨.ok [] s, 0, fun _ _ _ => rfl, .built rfl (.refl s) .nil⟩
  | cons e es ih =>
    obtain ⟨first, rest⟩ := List.forall_mem_cons.mp each
    cases data : e.tag.dataKind? with
    | none =>
      -- The element is refused before it is evaluated, so it is the first such leaf.
      have other := Expr.firstOther?_of_dataKind? data
      refine ⟨_, 0, fun env depth _ => ?_, .refused (x := e) ?_ (.refl s)⟩
      · rw [Eval.elementsWith, data]
        rfl
      · rw [Expr.firstOther?_cons, other, Option.some_or]
    | some kind =>
      have data : e.tag.dataKind?.isSome := by simp [data]
      obtain ⟨r, least, ran, outcome⟩ := first data s
      cases outcome with
      | @refused x t found adds =>
        refine ⟨_, least, fun env depth enough => ?_, .refused (x := x) ?_ adds⟩
        · rw [Eval.elementsWith, if_pos data, bind_of_error (ran env depth enough)]
        · rw [Expr.firstOther?_cons, found, Option.some_or]
      | @built v t constants adds built =>
        obtain ⟨r, least', ran', outcome⟩ := ih rest t
        cases outcome with
        | @refused x u found adds' =>
          refine ⟨_, max least least', fun env depth enough => ?_,
            .refused (x := x) ?_ (adds.trans adds')⟩
          · rw [Eval.elementsWith, if_pos data, bind_of_ok (ran env depth (by omega)),
              bind_of_error (ran' env depth (by omega))]
          · rw [Expr.firstOther?_cons, constants, Option.none_or, found]
        | @built vs u constants' adds' built' =>
          -- The lists of the first element stay as they are while those of the rest are made, which
          -- go on at the place where the first ones end.
          refine ⟨.ok (v :: vs) u, max least least', fun env depth enough => ?_,
            .built ?_ (adds.trans adds') ((built.mono adds' (Nat.le_refl _)).cons built')⟩
          · rw [Eval.elementsWith, if_pos data, bind_of_ok (ran env depth (by omega)),
              bind_of_ok (ran' env depth (by omega))]
            rfl
          · rw [Expr.firstOther?_cons, constants, constants', Option.none_or]

/-- What comes of an element that writes data, in a well-formed tree. -/
theorem eval_outcome {e : Expr} (wellFormed : e.WellFormed) (data : e.tag.dataKind?.isSome)
    (s : Store) : ∃ r least, (∀ env, ∀ depth ≥ least, eval depth env e s = r) ∧
      Outcome s [e] (fun v => [v]) r := by
  induction e generalizing s with
  | literal value line =>
    refine ⟨.ok value.value s, 1, fun env depth enough => ?_, .built rfl (.refl s) (.literal .nil)⟩
    obtain ⟨depth, rfl⟩ : ∃ k, depth = k + 1 := ⟨depth - 1, by omega⟩
    rfl
  | list tag elements line ih =>
    simp only [Expr.WellFormed, Expr.nodes, List.forall_mem_cons, Expr.allNodes_eq_flatMap,
      List.mem_flatMap] at wellFormed
    obtain ⟨⟨nonempty, tags⟩, parts⟩ := wellFormed
    obtain ⟨r, least, ran, outcome⟩ :=
      elements_outcome (fun e mem => ih e mem fun n node => parts n ⟨e, mem, node⟩) s
    cases outcome with
    | @refused x t found adds =>
      refine ⟨_, least + 1, fun env depth enough => ?_, .refused (x := x) ?_ adds⟩
      · obtain ⟨depth, rfl⟩ : ∃ k, depth = k + 1 := ⟨depth - 1, by omega⟩
        exact bind_of_error (ran env depth (by omega))
      · rw [Expr.firstOther?_list, found]
    | @built vs t constants adds built =>
      -- There is a first element, whose value gives the content kind and whose form is recorded.
      obtain _ | ⟨e, es⟩ := elements
      · exact absurd rfl nonempty
      obtain ⟨v, rest, rfl, kind⟩ := built.head
      rw [tags e List.mem_cons_self] at kind
      refine ⟨.ok (.list ⟨t.lists.size⟩) (t.addList ⟨v.kind, v :: rest⟩).2, least + 1,
        fun env depth enough => ?_, .built ?_ (adds.addList _) ?_⟩
      · obtain ⟨depth, rfl⟩ : ∃ k, depth = k + 1 := ⟨depth - 1, by omega⟩
        exact (bind_of_ok (ran env depth (by omega))).trans rfl
      · rw [Expr.firstOther?_list, constants]
      · rw [Store.size_addList]
        exact .list (built.mono (.addList (.refl t) _) (Nat.le_refl _)) kind
          (Store.list_addList ..) .nil
  | _ => cases data

/-- A list literal of a program evaluates alike in every environment. It has a value exactly where
its leaves are all constants: a list that is made of new lists, with the elements in order and the
content kinds that the literals record. Otherwise it fails at its first leaf that is no constant.
The lists that were there before are left as they were. -/
theorem eval_listLiteral {source : String} {tree : Expr} (parsed : parse source = .ok tree)
    {tag : Tag} {elements : List Expr} {line : Nat} (node : .list tag elements line ∈ tree.nodes)
    (s : Store) :
    let e := Expr.list tag elements line
    ∃ (r : EStateM.Result Halt Store Value) (least : Nat),
      (∀ env, ∀ depth ≥ least, eval depth env e s = r) ∧
      ((∃ v t, r = .ok v t) ↔ ∀ x ∈ e.leaves, x.isLiteral = true) ∧
      (∀ v t, r = .ok v t → s.Extends t ∧ Built t s.lists.size t.lists.size [e] [v]) ∧
      ∀ halt t, r = .error halt t → s.Extends t ∧
        ∃ x, e.leaves.find? (!·.isLiteral) = some x ∧
          halt = .failed ⟨x.line, .unsupportedElement x.tag⟩ := by
  intro e
  have wellFormed : e.WellFormed := builds_proper.nodes.nodes.of_parse
    (TokenStream.satisfies_writable source) parsed e node
  obtain ⟨r, least, ran, outcome⟩ := eval_outcome wellFormed rfl s
  have leaves : Expr.firstOther? [e] = e.leaves.find? (!·.isLiteral) := by
    simp [Expr.firstOther?, Expr.allLeaves]
  refine ⟨r, least, ran, ?_⟩
  cases outcome with
  | @built v t constants adds built =>
    rw [leaves, List.find?_eq_none] at constants
    refine ⟨⟨fun _ x mem => ?_, fun _ => ⟨v, t, rfl⟩⟩, ?_, ?_⟩
    · simpa using constants x mem
    · rintro _ _ ⟨⟩
      exact ⟨adds, built⟩
    · rintro _ _ ⟨⟩
  | @refused x t found adds =>
    rw [leaves] at found
    have other : x.isLiteral = false := by simpa using List.find?_some found
    refine ⟨⟨?_, fun all => ?_⟩, ?_, ?_⟩
    · rintro ⟨_, _, ⟨⟩⟩
    · cases other.symm.trans (all x (List.mem_of_find?_eq_some found))
    · rintro _ _ ⟨⟩
    · rintro _ _ ⟨⟩
      exact ⟨adds, x, found, rfl⟩

/-- The variable on the second line is the first leaf that is no constant, behind a list that has
been made by then. With a constant in its place the lists are made in every store. -/
theorem eval_listLiteral_variable :
    (∃ tree, parse "List[List[1, 2],\nList[x, y]]" = .ok tree ∧ ∀ s : Store, ∃ t least,
      s.Extends t ∧ ∀ env, ∀ depth ≥ least,
        eval depth env tree s = .error (.failed ⟨2, .unsupportedElement .var⟩) t) ∧
    ∃ tree, parse "List[List[1, 2],\nList[3]]" = .ok tree ∧ ∀ s : Store, ∃ v t least,
      s.Extends t ∧ Built t s.lists.size t.lists.size [tree] [v] ∧
        ∀ env, ∀ depth ≥ least, eval depth env tree s = .ok v t := by
  have exists_list (source : String) (other : Option (Nat × Tag))
      (found : (parse source).toOption.map (fun tree =>
        (tree.tag, (tree.leaves.find? (!·.isLiteral)).map fun x => (x.line, x.tag))) =
          some (.list, other)) :
      ∃ tag elements line, parse source = .ok (.list tag elements line) ∧
        ((Expr.list tag elements line).leaves.find? (!·.isLiteral)).map
          (fun x => (x.line, x.tag)) = other := by
    cases parsed : parse source with
    | error e => simp [parsed, Except.toOption] at found
    | ok tree =>
      simp only [parsed, Except.toOption, Option.map_some, Option.some_inj, Prod.mk.injEq] at found
      cases tree with
      | list tag elements line => exact ⟨tag, elements, line, rfl, found.2⟩
      | literal value => cases value <;> cases found.1
      | _ => cases found.1
  constructor
  · obtain ⟨tag, elements, line, parsed, first⟩ :=
      exists_list "List[List[1, 2],\nList[x, y]]" (some (2, .var)) (by decide +kernel)
    obtain ⟨x, leaf, place⟩ := Option.map_eq_some_iff.mp first
    obtain ⟨two, isVar⟩ := Prod.mk.inj place
    refine ⟨_, parsed, fun s => ?_⟩
    obtain ⟨r, least, ran, value, -, refused⟩ := eval_listLiteral parsed (Expr.self_mem_nodes _) s
    cases r with
    | ok v t =>
      have constant := value.mp ⟨v, t, rfl⟩ x (List.mem_of_find?_eq_some leaf)
      have other := List.find?_some leaf
      simp [constant] at other
    | error halt t =>
      obtain ⟨adds, y, leaf', rfl⟩ := refused halt t rfl
      cases leaf.symm.trans leaf'
      rw [two, isVar] at ran
      exact ⟨t, least, adds, ran⟩
  · obtain ⟨tag, elements, line, parsed, first⟩ :=
      exists_list "List[List[1, 2],\nList[3]]" none (by decide +kernel)
    rw [Option.map_eq_none_iff, List.find?_eq_none] at first
    refine ⟨_, parsed, fun s => ?_⟩
    obtain ⟨r, least, ran, value, built, -⟩ := eval_listLiteral parsed (Expr.self_mem_nodes _) s
    obtain ⟨v, t, rfl⟩ := value.mpr fun x mem => by simpa using first x mem
    obtain ⟨adds, built⟩ := built v t rfl
    exact ⟨v, t, least, adds, built, ran⟩

end ListLang
