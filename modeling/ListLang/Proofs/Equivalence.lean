import ListLang.Proofs.Equality

/-!
# Equality of values is an equivalence

Two lists are equal without looking when they are the same list. Comparing them by their content
kinds and items instead gives the same answer, and gives it within as many steps down as there
are lists, wherever no list is inside itself. There equality is an equivalence of the values of
the store, and values that are equal are shown alike.

## Main definitions

* `Store.compareWithin` — compares values, and lists always by what is in them.

## Main statements

* `Store.compareWithin_eq` — comparing what is in lists answers what equality answers.
* `Store.Same.snapshot_eq` — equal values are written out alike.
* `equal_equivalence` — equality is an equivalence, and equal values are shown alike.
-/

namespace ListLang

namespace Store

variable {s : Store} {v w : Value} {a b : ListId}

/-- Whether two values are equal, looking at most `depth` steps into lists. Lists are compared by
their content kinds and their items, also where they are the same list. There is no answer where
the steps are not enough. -/
def compareWithin (s : Store) : Nat → Value → Value → Option Bool
  | 0, .list _, .list _ => none
  | depth + 1, .list a, .list b =>
    if (s.list a).contentKind = (s.list b).contentKind ∧
        (s.list a).items.length = (s.list b).items.length then
      ((s.list a).items.zip (s.list b).items).allM fun p => compareWithin s depth p.1 p.2
    else some false
  | _, v, w => some (v == w)

/-- Values that are not both lists are compared without a step down. -/
theorem compareWithin_of_ne (depth : Nat) (other : ¬ (v.kind = .list ∧ w.kind = .list)) :
    s.compareWithin depth v w = some (s.equal v w) := by
  have plain : s.compareWithin depth v w = some (v == w) := by
    unfold compareWithin
    split
    · exact absurd ⟨rfl, rfl⟩ other
    · exact absurd ⟨rfl, rfl⟩ other
    · rfl
  rw [plain, Option.some_inj, Bool.eq_iff_iff, equal_iff_eq other, beq_iff_eq]

theorem Same.kind_eq (same : Same s s v w) : v.kind = w.kind := by
  cases same <;> rfl

theorem allM_eq_some_all {α : Type} {f : α → Option Bool} {g : α → Bool} {xs : List α}
    (h : ∀ x ∈ xs, f x = some (g x)) : xs.allM f = some (xs.all g) := by
  induction xs with
  | nil => rfl
  | cons x xs ih =>
    obtain ⟨first, rest⟩ := List.forall_mem_cons.mp h
    rw [List.allM, first, List.all_cons]
    cases here : g x with
    | true => exact ih rest
    | false => rfl

section Acyclic

variable (acyclic : s.Acyclic) (valid : s.Valid)

include acyclic valid

theorem equal_list_iff (has : s.Has (.list a)) : s.equal (.list a) (.list b) = true ↔
    (s.list a).contentKind = (s.list b).contentKind ∧
      (s.list a).items.length = (s.list b).items.length ∧
      ((s.list a).items.zip (s.list b).items).all (fun p => s.equal p.1 p.2) = true := by
  rw [equal_iff_same acyclic valid has, same_list_iff, List.forall₂_iff_zip, List.all_eq_true]
  refine and_congr_right fun _ => and_congr_right fun _ => ?_
  constructor
  · exact fun items p mem => (equal_iff_same acyclic valid
      (valid.items a _ (List.of_mem_zip mem).1)).mpr (items mem)
  · exact fun items v w mem => (equal_iff_same acyclic valid
      (valid.items a _ (List.of_mem_zip mem).1)).mp (items _ mem)

/-- Lists are compared rightly where the items that stand in the same places are. -/
theorem compareWithin_list {depth : Nat} (has : s.Has (.list a))
    (items : ∀ p ∈ (s.list a).items.zip (s.list b).items,
      s.compareWithin depth p.1 p.2 = some (s.equal p.1 p.2)) :
    s.compareWithin (depth + 1) (.list a) (.list b) = some (s.equal (.list a) (.list b)) := by
  rw [compareWithin]
  split
  · next alike =>
    rw [allM_eq_some_all items, Option.some_inj, Bool.eq_iff_iff, equal_list_iff acyclic valid has]
    exact ⟨fun all => ⟨alike.1, alike.2, all⟩, fun equal => equal.2.2⟩
  · next unlike =>
    rw [Option.some_inj, eq_comm, Bool.eq_false_iff, Ne, equal_list_iff acyclic valid has]
    exact fun equal => unlike ⟨equal.1, equal.2.1⟩

/-- Comparing what is in lists, with steps enough, answers what equality answers. -/
theorem compareWithin_eq {depth : Nat} (has : s.Has v)
    (nests : ∀ id, v = .list id → s.Nests depth id) (w : Value) :
    s.compareWithin depth v w = some (s.equal v w) := by
  induction depth generalizing v w with
  | zero =>
    refine compareWithin_of_ne 0 fun lists => ?_
    cases v with
    | list a => exact nests a rfl
    | _ => cases lists.1
  | succ depth ih =>
    by_cases lists : v.kind = .list ∧ w.kind = .list
    · cases v with
      | list a =>
        cases w with
        | list b =>
          refine compareWithin_list acyclic valid has fun p mem => ?_
          have inside : p.1 ∈ (s.list a).items := (List.of_mem_zip mem).1
          refine ih (valid.items a _ inside) (fun inner found => ?_) p.2
          rw [found] at inside
          exact nests a rfl inner inside
        | _ => cases lists.2
      | _ => cases lists.1
    · exact compareWithin_of_ne _ lists

/-- Equal values of an acyclic store are written out alike. -/
theorem Same.snapshot_eq (same : Same s s v w) (hasᵥ : s.Has v) (has : s.Has w) :
    s.snapshot v = s.snapshot w := by
  induction same with
  | plain => rfl
  | @list a b kind length _ ih =>
    -- What is in the lists has places in the store as well, so both can be written out.
    have items : (s.list a).items.map s.snapshot = (s.list b).items.map s.snapshot := by
      rw [← List.forall₂_eq_eq_eq, List.forall₂_map_left_iff, List.forall₂_map_right_iff,
        List.forall₂_iff_zip]
      refine ⟨length, fun {_ _} mem => ?_⟩
      obtain ⟨left, right⟩ := List.of_mem_zip mem
      exact ih _ mem (valid.items a _ left) (valid.items b _ right)
    rw [(acyclic.nests valid hasᵥ).snapshot_list, (acyclic.nests valid has).snapshot_list, kind,
      items]

end Acyclic

end Store

/-- The values of a store. -/
abbrev Store.Values (s : Store) : Type := {v : Value // s.Has v}

/-- Where no list is inside itself, equality is an equivalence of the values of the store. It is
the answer of comparing lists by their content kinds and items alone, which comes within as many
steps down as there are lists. Equal values have one kind and are shown as one text. -/
theorem equal_equivalence {s : Store} (acyclic : s.Acyclic) (valid : s.Valid) :
    Equivalence (fun v w : s.Values => s.equal v w = true) ∧
    (∀ v w : s.Values, ∀ depth ≥ s.lists.size,
      s.compareWithin depth v w = some (s.equal v w)) ∧
    ∀ v w : s.Values, s.equal v w = true →
      v.val.kind = w.val.kind ∧ (s.snapshot v).text = (s.snapshot w).text := by
  have same : ∀ v w : s.Values, s.equal v w = true ↔ s.Same s v w :=
    fun v _ => Store.equal_iff_same acyclic valid v.property
  refine ⟨⟨fun v => ?_, fun {v w} equal => ?_, fun {u v w} first second => ?_⟩,
    fun v w depth enough => ?_, fun v w equal => ?_⟩
  · exact (same v v).mpr (Store.same_self acyclic valid v)
  · exact (same w v).mpr ((same v w).mp equal).symm
  · exact (same u w).mpr (((same u v).mp first).trans ((same v w).mp second))
  · refine Store.compareWithin_eq acyclic valid v.property (fun id list => ?_) w
    have has : s.Has (.list id) := list ▸ v.property
    exact (acyclic.nests valid has).mono enough
  · have alike := (same v w).mp equal
    exact ⟨alike.kind_eq, by rw [alike.snapshot_eq acyclic valid v.property w.property]⟩

/-- Whether no list is inside itself can be checked list by list. -/
theorem Store.acyclic_of_ends {s : Store} (ends : ∀ i < s.lists.size, s.ends ⟨i⟩ = true) :
    s.Acyclic := by
  intro id cycle
  obtain ⟨_, edge, -⟩ := Relation.TransGen.head'_iff.mp cycle
  exact (ends_iff.mp (ends id.index (lt_size_of_mem edge))).not_transGen cycle

/-- A store with two lists of the same functions, a list that holds one of them twice, and a list
that holds both. -/
def Store.paired : Store :=
  let s := (Store.empty.addClosure ⟨⟨[]⟩, "x", .var "x" 1⟩).2
  let s := (s.addList ⟨.function, [.closure ⟨0⟩, .builtin .charCode]⟩).2
  let s := (s.addList ⟨.function, [.closure ⟨0⟩, .builtin .charCode]⟩).2
  let s := (s.addList ⟨.list, [.list ⟨0⟩, .list ⟨0⟩]⟩).2
  (s.addList ⟨.list, [.list ⟨1⟩, .list ⟨0⟩]⟩).2

/-- Lists that share lists in different ways are equal and shown alike, and comparing what is in
them says so too. -/
theorem equal_equivalence_paired :
    Store.paired.Acyclic ∧ Store.paired.Valid ∧
      Store.paired.equal (.list ⟨2⟩) (.list ⟨3⟩) = true ∧
      Store.paired.equal (.list ⟨3⟩) (.list ⟨2⟩) = true ∧
      Store.paired.compareWithin 4 (.list ⟨2⟩) (.list ⟨3⟩) = some true ∧
      (Store.paired.snapshot (.list ⟨2⟩)).text = (Store.paired.snapshot (.list ⟨3⟩)).text := by
  have valid : Store.paired.Valid :=
    ((((Store.Valid.empty.addClosure (by decide)).addList (by decide)).addList (by decide)).addList
      (by decide)).addList (by decide)
  have acyclic : Store.paired.Acyclic := Store.acyclic_of_ends (by decide)
  have equal : Store.paired.equal (.list ⟨2⟩) (.list ⟨3⟩) = true := by decide
  obtain ⟨equivalence, compared, alike⟩ := equal_equivalence acyclic valid
  let v : Store.paired.Values := ⟨.list ⟨2⟩, by decide⟩
  let w : Store.paired.Values := ⟨.list ⟨3⟩, by decide⟩
  refine ⟨acyclic, valid, equal, equivalence.symm (x := v) (y := w) equal, ?_,
    (alike v w equal).2⟩
  exact (compared v w 4 (by decide)).trans (congrArg some equal)

end ListLang
