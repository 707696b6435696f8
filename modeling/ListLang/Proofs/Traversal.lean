import ListLang.Proofs.Equivalence

/-!
# Searching and copying lists

What is put into a list is searched for that list, and copied if the list is found. Both go from
each list to the lists in it, as often as they meet it and as deep as it goes. Where no list is
inside itself they end, within as many steps down as there are lists: the search finds the lists
inside a list and the list itself, at any depth, and the copy is equal to the list while all lists
in it are new.

## Main definitions

* `Store.searchWithin` — looks for a list, and has no answer where the steps run out.
* `Store.duplicateWithin` — copies a list, and has no answer where the steps run out.

## Main statements

* `Store.searchWithin_eq`, `Store.duplicateWithin_run` — with steps enough there is an answer.
* `Store.not_old_of_copy` — nothing in a copy was there before.
* `traversals_end` — searching and copying end and do what putting values into lists needs.
-/

namespace ListLang

open Relation (ReflTransGen)

namespace Store

variable {s : Store} {v : Value} {id target : ListId} {depth : Nat}

/-! ## Searching -/

/-- Whether the list `target` is `id` or found inside it, looking at most `depth` steps down. There
is no answer where the steps are not enough. -/
def searchWithin (s : Store) (target : ListId) : Nat → ListId → Option Bool
  | 0, _ => none
  | depth + 1, id =>
    if id = target then some true
    else (s.list id).items.anyM fun
      | .list inner => searchWithin s target depth inner
      | _ => some false

theorem anyM_eq_some_any {α : Type} {f : α → Option Bool} {g : α → Bool} {xs : List α}
    (h : ∀ x ∈ xs, f x = some (g x)) : xs.anyM f = some (xs.any g) := by
  induction xs with
  | nil => rfl
  | cons x xs ih =>
    obtain ⟨first, rest⟩ := List.forall_mem_cons.mp h
    rw [List.anyM, first, List.any_cons]
    cases here : g x with
    | true => rfl
    | false => exact ih rest

/-- With steps enough the search has an answer. -/
theorem searchWithin_eq (nests : s.Nests depth id) (target : ListId) :
    s.searchWithin target depth id = some (s.reachesWithin target depth id) := by
  induction depth generalizing id with
  | zero => exact nests.elim
  | succ depth ih =>
    rw [searchWithin, reachesWithin]
    split
    · next same => rw [same, beq_self_eq_true, Bool.true_or]
    · next other =>
      rw [beq_eq_false_iff_ne.mpr other, Bool.false_or]
      refine anyM_eq_some_any fun v mem => ?_
      cases v with
      | list inner => exact ih (nests inner mem)
      | _ => rfl

/-- With steps enough their number does not matter. -/
theorem Acyclic.reachesWithin_eq (acyclic : s.Acyclic) (valid : s.Valid) (has : s.Has (.list id))
    (enough : s.lists.size ≤ depth) (target : ListId) :
    s.reachesWithin target depth id = s.reaches id target := by
  have nests : s.Nests depth id := (acyclic.nests valid has).mono enough
  rw [Bool.eq_iff_iff, reaches_iff acyclic valid has]
  exact ⟨reflTransGen_of_reachesWithin, reachesWithin_of_reflTransGen nests⟩

/-! ## Copying -/

/-- Copies the list at `id` with the lists inside it, going at most `depth` steps down. There is no
answer where the steps are not enough. -/
def duplicateWithin : Nat → ListId → StateT Store Option ListId
  | 0, _ => failure
  | depth + 1, id => do
    let cell := (← get).list id
    let items ← cell.items.mapM fun
      | .list inner => Value.list <$> duplicateWithin depth inner
      | item => pure item
    modifyGet (·.addList { cell with items })

/-- An item as it is put into a copy, if the steps are enough. -/
def duplicateItem (depth : Nat) : Value → StateT Store Option Value
  | .list inner => Value.list <$> duplicateWithin depth inner
  | item => pure item

theorem duplicateWithin_succ_run (s : Store) (depth : Nat) (id : ListId) :
    (duplicateWithin (depth + 1) id).run s =
      (((s.list id).items.mapM (duplicateItem depth)).run s).bind fun copies =>
        some (copies.2.addList { s.list id with items := copies.1 }) := rfl

/-- A traversal has an answer where each of its steps has one. -/
theorem mapM_run_eq_some {α β σ : Type} {I : σ → Prop} {f : α → StateT σ Option β}
    {g : α → StateM σ β} {xs : List α}
    (same : ∀ x ∈ xs, ∀ s, I s → (f x).run s = some ((g x).run s) ∧ I ((g x).run s).2) {s : σ}
    (holds : I s) : (xs.mapM f).run s = some ((xs.mapM g).run s) := by
  induction xs generalizing s with
  | nil => rfl
  | cons x xs ih =>
    obtain ⟨first, holds⟩ := same x List.mem_cons_self s holds
    have rest := ih (fun y mem => same y (List.mem_cons_of_mem _ mem)) holds
    rw [mapM_cons_run, List.mapM_cons, StateT.run_bind, first]
    change ((xs.mapM f).run ((g x).run s).2 >>= _) = _
    rw [rest]
    rfl

/-- With steps enough the copy is made. -/
theorem duplicateWithin_run (valid : s.Valid) (has : s.Has (.list id)) (nests : s.Nests depth id) :
    (duplicateWithin depth id).run s = some ((copyWithin depth id).run s) := by
  induction depth generalizing s id with
  | zero => exact nests.elim
  | succ depth ih =>
    have items : ((s.list id).items.mapM (duplicateItem depth)).run s =
        some (((s.list id).items.mapM (copyItem depth)).run s) := by
      refine mapM_run_eq_some (I := fun t => Extends s t ∧ t.Valid) ?_ ⟨.refl s, valid⟩
      rintro v mem t ⟨adds, validₜ⟩
      have hasᵥ := valid.items id v mem
      have hasₜ := hasᵥ.mono adds.grows
      refine ⟨?_, adds.trans (extends_copyItem (extends_copyWithin depth) t v),
        validₜ.copyItem hasₜ⟩
      cases v with
      | list inner =>
        have nestsₜ := (nests inner mem).extends adds valid hasᵥ
        simp only [duplicateItem, StateT.run_map, ih validₜ hasₜ nestsₜ]
        rfl
      | _ => rfl
    rw [duplicateWithin_succ_run, items, copyWithin_succ_run]
    rfl

/-- Nothing in a copy of a list was there before. -/
theorem not_old_of_copy (acyclic : s.Acyclic) (valid : s.Valid) (has : s.Has (.list id))
    {b : ListId} (path : ReflTransGen (s.deepCopy id).2.Holds (s.deepCopy id).1 b) :
    s.lists.size ≤ b.index := by
  have spec := copyWithin_spec copyable_acyclic s.lists.size s id ⟨valid, acyclic⟩ has
  obtain ⟨fresh, new⟩ := spec.fresh (acyclic.nests valid has)
  exact fresh.reflTransGen new path

/-- A list is equal to a copy of it, where both are. -/
theorem equal_deepCopy (acyclic : s.Acyclic) (valid : s.Valid) (has : s.Has (.list id)) :
    (s.deepCopy id).2.equal (.list id) (.list (s.deepCopy id).1) = true := by
  have adds : Extends s (s.deepCopy id).2 := extends_copyWithin _ s id
  have spec := copyWithin_spec copyable_acyclic s.lists.size s id ⟨valid, acyclic⟩ has
  refine (equal_iff_same spec.keeps.2 spec.keeps.1 (has.mono adds.grows)).mpr ?_
  -- The list is in the new store what it was in the old one, and there the copy is equal to it.
  have kept : Same s (s.deepCopy id).2 (.list id) (.list id) := by
    refine same_of_kept acyclic valid fun b path => adds.old b ?_
    obtain rfl | ⟨a, -, edge⟩ := path.cases_tail
    · exact has
    · exact valid.items a _ edge
  exact kept.symm.trans (copy_deepCopy acyclic valid has).equal

end Store

/-- In a store where no list is inside itself, searching a list and copying it end within as many
steps down as there are lists, and more steps change nothing. The search finds a list exactly where
it is the list that is searched or comes after it in a chain of elements. The copy changes no list
and no closure that is there. It is equal to the list, and only what is no list is in both: every
list found in the copy is new. -/
theorem traversals_end {s : Store} (acyclic : s.Acyclic) (valid : s.Valid) {a : ListId}
    (has : s.Has (.list a)) :
    (∀ target, (∀ depth ≥ s.lists.size,
        s.searchWithin target depth a = some (s.reaches a target)) ∧
      (s.reaches a target = true ↔ ReflTransGen s.Holds a target)) ∧
    (∀ depth ≥ s.lists.size, (Store.duplicateWithin depth a).run s = some (s.deepCopy a)) ∧
    let (copy, t) := s.deepCopy a
    Store.Extends s t ∧ t.equal (.list a) (.list copy) = true ∧
      Store.Copy s t (.list a) (.list copy) ∧
      ∀ b, ReflTransGen t.Holds copy b → s.lists.size ≤ b.index := by
  have nests : ∀ depth ≥ s.lists.size, s.Nests depth a :=
    fun depth enough => (acyclic.nests valid has).mono enough
  refine ⟨fun target => ⟨fun depth enough => ?_, Store.reaches_iff acyclic valid has⟩,
    fun depth enough => ?_, Store.extends_copyWithin _ s a, Store.equal_deepCopy acyclic valid has,
    Store.copy_deepCopy acyclic valid has, fun b => Store.not_old_of_copy acyclic valid has⟩
  · rw [Store.searchWithin_eq (nests depth enough), acyclic.reachesWithin_eq valid has enough]
  · rw [Store.duplicateWithin_run valid has (nests depth enough),
      Store.copyWithin_run_eq valid has (nests depth enough) (nests _ (Nat.le_refl _))]
    rfl

/-- A list that holds another twice is copied with two copies of that one. -/
theorem traversals_end_paired :
    Store.paired.Acyclic ∧ Store.paired.Valid ∧ Store.paired.Has (.list ⟨2⟩) ∧
      Store.paired.searchWithin ⟨0⟩ 4 ⟨2⟩ = some true ∧
      Store.paired.searchWithin ⟨1⟩ 4 ⟨2⟩ = some false ∧
      Store.paired.searchWithin ⟨0⟩ 1 ⟨2⟩ = none ∧
      (Store.duplicateWithin 4 ⟨2⟩).run Store.paired = some (Store.paired.deepCopy ⟨2⟩) ∧
      ((Store.paired.deepCopy ⟨2⟩).2.list (Store.paired.deepCopy ⟨2⟩).1).items =
        [.list ⟨4⟩, .list ⟨5⟩] ∧
      (Store.paired.deepCopy ⟨2⟩).2.equal (.list ⟨2⟩)
        (.list (Store.paired.deepCopy ⟨2⟩).1) = true := by
  have valid : Store.paired.Valid :=
    ((((Store.Valid.empty.addClosure (by decide)).addList (by decide)).addList (by decide)).addList
      (by decide)).addList (by decide)
  have acyclic : Store.paired.Acyclic := Store.acyclic_of_ends (by decide)
  have has : Store.paired.Has (.list ⟨2⟩) := by decide
  obtain ⟨searched, copied, -, equal, -, -⟩ := traversals_end acyclic valid has
  refine ⟨acyclic, valid, has, ?_, ?_, by decide, copied 4 (by decide), by decide, equal⟩
  · exact ((searched ⟨0⟩).1 4 (by decide)).trans (by decide)
  · exact ((searched ⟨1⟩).1 4 (by decide)).trans (by decide)

end ListLang
