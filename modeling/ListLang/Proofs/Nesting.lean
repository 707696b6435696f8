import ListLang.Proofs.Containment
import ListLang.Value.Snapshot
import Mathlib.Data.List.Nodup
import Mathlib.Data.List.Perm.Subperm

/-!
# How deep lists nest

Going from a list to the lists in it ends where the store is acyclic, after fewer steps than
there are lists. So the functions that look into lists within a bound never come to it: they
satisfy the equations that recursion from a list to its items would give them, and a copy
shares no list with what was there.

## Main definitions

* `Store.Nests` — the lists found from a list on end within a number of steps.
* `Store.Settled` — looking into lists ends, and is described by recursion on their items.

## Main statements

* `Store.Acyclic.nests`, `Store.Nests.bounded` — the number of lists is a bound.
* `Store.reaches_iff` — reaching is being found inside or being the same.
* `Store.extends_copyWithin`, `Store.copyWithin_spec` — what copying adds to a store.
* `Store.Acyclic.settled` — acyclic stores are settled.
-/

namespace ListLang.Store

open Relation (ReflTransGen TransGen)

variable {s t u : Store} {id target : ListId} {depth : Nat}

/-- The lists found from the list at `id` on end within `depth` steps. -/
def Nests (s : Store) : Nat → ListId → Prop
  | 0, _ => False
  | depth + 1, id => ∀ inner, s.Holds id inner → s.Nests depth inner

theorem Nests.mono {more : Nat} (nests : s.Nests depth id) (le : depth ≤ more) :
    s.Nests more id := by
  induction depth generalizing id more with
  | zero => exact nests.elim
  | succ depth ih =>
    obtain ⟨more, rfl⟩ : ∃ k, more = k + 1 := ⟨more - 1, by omega⟩
    exact fun inner edge => ih (nests inner edge) (by omega)

theorem Nests.extends (nests : s.Nests depth id) (h : Extends s t) (valid : s.Valid)
    (old : id.index < s.lists.size) : t.Nests depth id := by
  induction depth generalizing id with
  | zero => exact nests
  | succ depth ih =>
    intro inner edge
    rw [Holds, h.old id old] at edge
    exact ih (nests inner edge) (valid.items id _ edge)

theorem Nests.acc (nests : s.Nests depth id) : Acc (fun b a => s.Holds a b) id := by
  induction depth generalizing id with
  | zero => exact nests.elim
  | succ depth ih => exact ⟨_, fun inner edge => ih (nests inner edge)⟩

theorem length_le_of_nodup {path : List ListId} {bound : Nat} (nodup : path.Nodup)
    (lt : ∀ p ∈ path, p.index < bound) : path.length ≤ bound := by
  have injective : Function.Injective ListId.index := fun a b h => by cases a; cases b; simp_all
  have subset : path.map ListId.index ⊆ List.range bound := by
    intro i mem
    obtain ⟨p, inPath, rfl⟩ := List.mem_map.mp mem
    exact List.mem_range.mpr (lt p inPath)
  simpa using (List.subperm_of_subset (nodup.map injective) subset).length_le

/-- A way down from list to list that has come past `path` leaves fewer lists to come, where
every list found from here on is one of the store's and not inside itself. -/
theorem nests_of_path {path : List ListId} (nodup : path.Nodup)
    (above : ∀ p ∈ path, p.index < s.lists.size ∧ TransGen s.Holds p id)
    (below : ∀ b, ReflTransGen s.Holds id b → b.index < s.lists.size ∧ ¬ TransGen s.Holds b b)
    (enough : s.lists.size ≤ path.length + depth) : s.Nests depth id := by
  have nodup : (id :: path).Nodup :=
    List.nodup_cons.mpr ⟨fun mem => (below id .refl).2 (above id mem).2, nodup⟩
  induction depth generalizing id path with
  | zero =>
    have : ∀ p ∈ id :: path, p.index < s.lists.size := by
      rintro p (_ | ⟨_, mem⟩)
      · exact (below id .refl).1
      · exact (above p mem).1
    have := length_le_of_nodup nodup this
    simp only [List.length_cons] at this
    omega
  | succ depth ih =>
    intro inner edge
    have above' : ∀ p ∈ id :: path, p.index < s.lists.size ∧ TransGen s.Holds p inner := by
      rintro p (_ | ⟨_, mem⟩)
      · exact ⟨(below id .refl).1, .single edge⟩
      · exact ⟨(above p mem).1, (above p mem).2.tail edge⟩
    refine ih nodup above' (fun b path => below b (.head edge path))
      (by simp only [List.length_cons]; omega) ?_
    exact List.nodup_cons.mpr
      ⟨fun mem => (below inner (.single edge)).2 (above' inner mem).2, nodup⟩

theorem Acyclic.nests (acyclic : s.Acyclic) (valid : s.Valid) (old : id.index < s.lists.size) :
    s.Nests s.lists.size id := by
  refine nests_of_path List.nodup_nil (by simp) (fun b path => ⟨?_, acyclic b⟩) (by simp)
  obtain rfl | ⟨a, -, edge⟩ := path.cases_tail
  · exact old
  · exact valid.items a _ edge

theorem Nests.reflTransGen {b : ListId} (nests : s.Nests depth id)
    (path : ReflTransGen s.Holds id b) : ∃ depth, s.Nests depth b := by
  induction path with
  | refl => exact ⟨depth, nests⟩
  | tail _ edge ih =>
    obtain ⟨_ | depth, nests⟩ := ih
    · exact nests.elim
    · exact ⟨depth, nests _ edge⟩

theorem Nests.not_transGen (nests : s.Nests depth id) : ¬ TransGen s.Holds id id := by
  induction depth generalizing id with
  | zero => exact nests.elim
  | succ depth ih =>
    intro cycle
    obtain ⟨inner, edge, path⟩ := Relation.TransGen.head'_iff.mp cycle
    exact ih (nests inner edge) (.tail' path edge)

/-- Where lists end within some number of steps, the number of lists is a bound too. -/
theorem Nests.bounded (nests : s.Nests depth id)
    (has : ∀ b, ReflTransGen s.Holds id b → b.index < s.lists.size) :
    s.Nests s.lists.size id := by
  refine nests_of_path List.nodup_nil (by simp) (fun b path => ⟨has b path, ?_⟩) (by simp)
  obtain ⟨_, nests⟩ := nests.reflTransGen path
  exact nests.not_transGen

theorem endsWithin_iff : s.endsWithin depth id = true ↔ s.Nests depth id := by
  induction depth generalizing id with
  | zero => simp [endsWithin, Nests]
  | succ depth ih =>
    simp only [endsWithin, List.all_eq_true, Nests, Holds]
    constructor
    · exact fun all inner mem => ih.mp (all _ mem)
    · intro nests v mem
      cases v with
      | list inner => exact ih.mpr (nests inner mem)
      | _ => rfl

theorem ends_iff : s.ends id = true ↔ s.Nests s.lists.size id := endsWithin_iff

theorem Acyclic.wellFounded (acyclic : s.Acyclic) (valid : s.Valid) :
    WellFounded fun b a => s.Holds a b := by
  refine ⟨fun id => ?_⟩
  by_cases old : id.index < s.lists.size
  · exact (acyclic.nests valid old).acc
  · exact ⟨_, fun inner edge => absurd (lt_size_of_mem edge) old⟩

/-! ## Reaching -/

theorem reachesWithin_zero : s.reachesWithin target 0 id = (id == target) := rfl

theorem reachesWithin_succ : s.reachesWithin target (depth + 1) id = true ↔
    id = target ∨ ∃ inner, s.Holds id inner ∧ s.reachesWithin target depth inner = true := by
  simp only [reachesWithin, Bool.or_eq_true, beq_iff_eq, List.any_eq_true, Holds]
  refine or_congr_right ⟨?_, ?_⟩
  · rintro ⟨v, mem, reaches⟩
    cases v with
    | list inner => exact ⟨inner, mem, reaches⟩
    | _ => simp at reaches
  · rintro ⟨inner, mem, reaches⟩
    exact ⟨_, mem, reaches⟩

theorem reflTransGen_of_reachesWithin (reaches : s.reachesWithin target depth id = true) :
    ReflTransGen s.Holds id target := by
  induction depth generalizing id with
  | zero =>
    rw [reachesWithin_zero, beq_iff_eq] at reaches
    exact reaches ▸ .refl
  | succ depth ih =>
    obtain rfl | ⟨inner, edge, reaches⟩ := reachesWithin_succ.mp reaches
    · exact .refl
    · exact .head edge (ih reaches)

theorem reachesWithin_of_reflTransGen (nests : s.Nests depth id)
    (path : ReflTransGen s.Holds id target) : s.reachesWithin target depth id = true := by
  induction depth generalizing id with
  | zero => exact nests.elim
  | succ depth ih =>
    refine reachesWithin_succ.mpr ?_
    obtain rfl | ⟨inner, edge, path⟩ := Relation.ReflTransGen.cases_head path
    · exact .inl rfl
    · exact .inr ⟨inner, edge, ih (nests inner edge) path⟩

/-- A list reaches the lists found inside it and itself. -/
theorem reaches_iff (acyclic : s.Acyclic) (valid : s.Valid) (old : id.index < s.lists.size) :
    s.reaches id target = true ↔ ReflTransGen s.Holds id target :=
  ⟨reflTransGen_of_reachesWithin, reachesWithin_of_reflTransGen (acyclic.nests valid old)⟩

/-! ## Copying -/

/-- An item as it is put into a copy. -/
def copyItem (depth : Nat) : Value → StateM Store Value
  | .list inner => Value.list <$> copyWithin depth inner
  | item => pure item

theorem copyWithin_succ_run (s : Store) (depth : Nat) (id : ListId) :
    (copyWithin (depth + 1) id).run s =
      let copies := ((s.list id).items.mapM (copyItem depth)).run s
      copies.2.addList { s.list id with items := copies.1 } := rfl

theorem mapM_cons_run {α β σ : Type} (f : α → StateM σ β) (x : α) (xs : List α) (s : σ) :
    ((x :: xs).mapM f).run s =
      ((((f x).run s).1 :: ((xs.mapM f).run ((f x).run s).2).1),
        ((xs.mapM f).run ((f x).run s).2).2) := by
  simp only [List.mapM_cons, StateT.run_bind]
  rfl

section Adding

variable (adds : ∀ s id, Extends s ((copyWithin depth id).run s).2)

include adds

theorem extends_copyItem (s : Store) (v : Value) : Extends s ((copyItem depth v).run s).2 := by
  cases v with
  | list inner => exact adds s inner
  | _ => exact .refl s

theorem extends_copyItems (s : Store) (items : List Value) :
    Extends s ((items.mapM (copyItem depth)).run s).2 := by
  induction items generalizing s with
  | nil => exact .refl s
  | cons v vs rest =>
    rw [mapM_cons_run]
    exact (extends_copyItem adds s v).trans (rest _)

end Adding

/-- Copying only adds lists. -/
theorem extends_copyWithin (depth : Nat) (s : Store) (id : ListId) :
    Extends s ((copyWithin depth id).run s).2 := by
  induction depth generalizing s id with
  | zero => exact .refl s
  | succ depth ih => exact (extends_copyItems ih s (s.list id).items).addList _

/-- The lists of `t` from place `base` on hold no list before that. -/
def Fresh (base : Nat) (t : Store) : Prop :=
  ∀ a b, base ≤ a.index → t.Holds a b → base ≤ b.index

theorem Fresh.refl (s : Store) : Fresh s.lists.size s :=
  fun _ _ new edge => absurd (lt_size_of_mem edge) (Nat.not_lt.mpr new)

theorem Fresh.trans {base : Nat} (first : Fresh base t) (h : Extends t u)
    (second : Fresh t.lists.size u) (le : base ≤ t.lists.size) : Fresh base u := by
  intro a b new edge
  by_cases old : a.index < t.lists.size
  · rw [Holds, h.old a old] at edge
    exact first a b new edge
  · exact Nat.le_trans le (second a b (Nat.not_lt.mp old) edge)

theorem Fresh.addList {base : Nat} (fresh : Fresh base t) {cell : ListCell}
    (items : ∀ b, .list b ∈ cell.items → base ≤ b.index) : Fresh base (t.addList cell).2 := by
  intro a b new edge
  rw [Holds, list_addList_eq] at edge
  split at edge
  · exact items b edge
  · exact fresh a b new edge

/-- Nothing from place `base` on leads before it. -/
theorem Fresh.reflTransGen {base : Nat} (fresh : Fresh base t) {a b : ListId}
    (new : base ≤ a.index) (path : ReflTransGen t.Holds a b) : base ≤ b.index := by
  induction path with
  | refl => exact new
  | tail _ edge ih => exact fresh _ _ ih edge

/-- A property of stores that adding a list like one of the store's keeps. -/
structure Copyable (P : Store → Prop) : Prop where
  valid : ∀ s, P s → s.Valid
  addList : ∀ s cell like, P s → (∀ v ∈ cell.items, s.Has v) →
    cell.contentKind = (s.list like).contentKind →
    cell.items.map Value.kind = (s.list like).items.map Value.kind → P (s.addList cell).2

/-- What a copy of the list at `id` adds to a store. Within enough steps, all of it is new. -/
structure CopySpec (P : Store → Prop) (s : Store) (depth : Nat) (id : ListId)
    (r : ListId × Store) : Prop where
  keeps : P r.2
  has : r.2.Has (.list r.1)
  fresh : s.Nests depth id → Fresh s.lists.size r.2 ∧ s.lists.size ≤ r.1.index

/-- What copies of items add to a store. -/
structure CopyItemsSpec (P : Store → Prop) (s : Store) (depth : Nat) (items : List Value)
    (r : List Value × Store) : Prop where
  keeps : P r.2
  has : ∀ v ∈ r.1, r.2.Has v
  kinds : r.1.map Value.kind = items.map Value.kind
  fresh : (∀ b, .list b ∈ items → s.Nests depth b) →
    Fresh s.lists.size r.2 ∧ ∀ b, .list b ∈ r.1 → s.lists.size ≤ b.index

theorem CopyItemsSpec.same {P : Store → Prop} (items : List Value) (keeps : P s)
    (has : ∀ v ∈ items, s.Has v) (flat : ∀ b, .list b ∉ items) :
    CopyItemsSpec P s depth items (items, s) :=
  ⟨keeps, has, rfl, fun _ => ⟨.refl s, fun b mem => absurd mem (flat b)⟩⟩

theorem copyItem_spec {P : Store → Prop}
    (ih : ∀ s id, P s → s.Has (.list id) →
      CopySpec P s depth id ((copyWithin depth id).run s))
    (s : Store) (v : Value) (keeps : P s) (has : s.Has v) :
    CopyItemsSpec P s depth [v]
      ([((copyItem depth v).run s).1], ((copyItem depth v).run s).2) := by
  cases v with
  | list inner =>
    have spec := ih s inner keeps has
    have ran : (copyItem depth (.list inner)).run s =
      (.list ((copyWithin depth inner).run s).1, ((copyWithin depth inner).run s).2) := rfl
    rw [ran]
    refine ⟨spec.keeps, by simpa using spec.has, rfl, fun nests => ?_⟩
    obtain ⟨fresh, new⟩ := spec.fresh (nests inner (by simp))
    exact ⟨fresh, by simpa using new⟩
  | _ => exact CopyItemsSpec.same [_] keeps (by simpa using has) (by simp)

theorem copyItems_spec {P : Store → Prop} (copyable : Copyable P)
    (ih : ∀ s id, P s → s.Has (.list id) →
      CopySpec P s depth id ((copyWithin depth id).run s))
    (items : List Value) (s : Store) (keeps : P s) (has : ∀ v ∈ items, s.Has v) :
    CopyItemsSpec P s depth items ((items.mapM (copyItem depth)).run s) := by
  induction items generalizing s with
  | nil => exact CopyItemsSpec.same [] keeps (by simp) (by simp)
  | cons v vs rest =>
    rw [mapM_cons_run]
    have first := copyItem_spec ih s v keeps (has v (by simp))
    have adds₁ := extends_copyItem (extends_copyWithin depth) s v
    generalize (copyItem depth v).run s = a at first adds₁ ⊢
    have second := rest a.2 first.keeps fun w mem => (has w (by simp [mem])).mono adds₁.grows
    have adds₂ := extends_copyItems (extends_copyWithin depth) a.2 vs
    generalize (vs.mapM (copyItem depth)).run a.2 = b at second adds₂ ⊢
    refine ⟨second.keeps, ?_, ?_, fun nests => ?_⟩
    · intro w mem
      obtain rfl | mem := List.mem_cons.mp mem
      · exact (first.has _ (by simp)).mono adds₂.grows
      · exact second.has w mem
    · have := first.kinds
      simp_all [second.kinds]
    · obtain ⟨fresh₁, new₁⟩ := first.fresh fun b mem => nests b (by simp_all)
      have valid := copyable.valid s keeps
      obtain ⟨fresh₂, new₂⟩ := second.fresh fun b mem =>
        (nests b (by simp [mem])).extends adds₁ valid (has (.list b) (by simp [mem]))
      refine ⟨fresh₁.trans adds₂ fresh₂ adds₁.size, fun b mem => ?_⟩
      obtain same | mem := List.mem_cons.mp mem
      · exact new₁ b (by simp [same])
      · exact Nat.le_trans adds₁.size (new₂ b mem)

/-- Copying keeps what adding lists keeps, and within enough steps makes a list whose lists
are all new. -/
theorem copyWithin_spec {P : Store → Prop} (copyable : Copyable P) (depth : Nat) (s : Store)
    (id : ListId) (keeps : P s) (has : s.Has (.list id)) :
    CopySpec P s depth id ((copyWithin depth id).run s) := by
  induction depth generalizing s id with
  | zero => exact ⟨keeps, has, fun nests => nests.elim⟩
  | succ depth ih =>
    have items := copyItems_spec copyable ih (s.list id).items s keeps
      ((copyable.valid s keeps).items id)
    have adds := extends_copyItems (extends_copyWithin depth) s (s.list id).items
    rw [copyWithin_succ_run]
    generalize ((s.list id).items.mapM (copyItem depth)).run s = copies at items adds ⊢
    have same := adds.old id has
    refine ⟨copyable.addList _ _ id items.keeps items.has (by rw [same])
      (by rw [same]; exact items.kinds), has_addList _ _, fun nests => ?_⟩
    obtain ⟨fresh, new⟩ := items.fresh nests
    exact ⟨fresh.addList new, adds.size⟩

theorem copyable_valid : Copyable Valid where
  valid _ valid := valid
  addList _ _ _ valid has _ _ := valid.addList has

theorem Valid.copyWithin (valid : s.Valid) (has : s.Has (.list id)) :
    ((copyWithin depth id).run s).2.Valid :=
  (copyWithin_spec copyable_valid depth s id valid has).keeps

theorem mapM_run_congr {α β σ : Type} {I : σ → Prop} {f g : α → StateM σ β} {xs : List α}
    (same : ∀ x ∈ xs, ∀ s, I s → (f x).run s = (g x).run s ∧ I ((g x).run s).2) {s : σ}
    (holds : I s) : (xs.mapM f).run s = (xs.mapM g).run s := by
  induction xs generalizing s with
  | nil => rfl
  | cons x xs ih =>
    obtain ⟨first, holds⟩ := same x (by simp) s holds
    rw [mapM_cons_run, mapM_cons_run, first, ih (fun y mem => same y (by simp [mem])) holds]

/-- Within enough steps a copy does not depend on their number. -/
theorem copyWithin_run_eq {more : Nat} (valid : s.Valid) (has : s.Has (.list id))
    (nests : s.Nests depth id) (nests' : s.Nests more id) :
    (copyWithin depth id).run s = (copyWithin more id).run s := by
  induction depth generalizing s id more with
  | zero => exact nests.elim
  | succ depth ih =>
    obtain _ | more := more
    · exact nests'.elim
    rw [copyWithin_succ_run, copyWithin_succ_run]
    have items : ((s.list id).items.mapM (copyItem depth)).run s =
        ((s.list id).items.mapM (copyItem more)).run s := by
      refine mapM_run_congr (I := fun t => Extends s t ∧ t.Valid) ?_ ⟨.refl s, valid⟩
      rintro v mem t ⟨adds, validₜ⟩
      have hasᵥ := valid.items id v mem
      cases v with
      | list inner =>
        have hasₜ := hasᵥ.mono adds.grows
        refine ⟨?_, adds.trans (extends_copyWithin _ _ _), .copyWithin validₜ hasₜ⟩
        have same := ih validₜ hasₜ ((nests inner mem).extends adds valid hasᵥ)
          ((nests' inner mem).extends adds valid hasᵥ)
        simp only [copyItem, StateT.run_map, same]
      | _ => exact ⟨rfl, adds, validₜ⟩
    rw [items]

/-! ## Looking into lists ends -/

/-- An item of a list as a copy of the list has it. -/
def copyOf : Value → StateM Store Value
  | .list inner => do
    let copy ← modifyGet (·.deepCopy inner)
    pure (.list copy)
  | item => pure item

/-- Looking into lists ends: no way down from list to list goes on for ever, and what is found
on it is described by recursion from each list to its items. -/
structure Settled (s : Store) : Prop where
  wellFounded : WellFounded fun b a => s.Holds a b
  snapshot : ∀ id, s.Has (.list id) → s.snapshot (.list id) =
    .list (s.list id).contentKind ((s.list id).items.map s.snapshot)
  equal : ∀ a b, s.Has (.list a) → s.equal (.list a) (.list b) =
    (a == b || (s.list a).contentKind == (s.list b).contentKind &&
      (s.list a).items.isEqv (s.list b).items s.equal)
  reaches : ∀ id target, s.Has (.list id) → s.reaches id target =
    (id == target || (s.list id).items.any fun
      | .list inner => s.reaches inner target
      | _ => false)
  deepCopy : ∀ id, s.Has (.list id) → s.deepCopy id =
    StateT.run (do
      let items ← (s.list id).items.mapM copyOf
      modifyGet (·.addList { s.list id with items })) s

theorem snapshotWithin_eq {more : Nat} {v : Value}
    (nests : ∀ id, v = .list id → s.Nests depth id ∧ s.Nests more id) :
    s.snapshotWithin depth v = s.snapshotWithin more v := by
  induction depth generalizing v more with
  | zero =>
    cases v with
    | list id => exact (nests id rfl).1.elim
    | _ => cases more <;> rfl
  | succ depth ih =>
    cases v with
    | list id =>
      obtain ⟨ends, ends'⟩ := nests id rfl
      obtain _ | more := more
      · exact ends'.elim
      simp only [snapshotWithin]
      congr 1
      refine List.map_congr_left fun v mem => ih ?_
      rintro inner rfl
      exact ⟨ends inner mem, ends' inner mem⟩
    | _ => cases more <;> rfl

theorem isEqv_congr {α : Type} {f g : α → α → Bool} {xs : List α}
    (same : ∀ x ∈ xs, ∀ y, f x y = g x y) (ys : List α) : xs.isEqv ys f = xs.isEqv ys g := by
  induction xs generalizing ys with
  | nil => cases ys <;> rfl
  | cons x xs ih =>
    cases ys with
    | nil => rfl
    | cons y ys =>
      simp only [List.isEqv, same x (by simp), ih (fun z mem => same z (by simp [mem]))]

theorem equalWithin_eq {more : Nat} {v w : Value}
    (nests : ∀ id, v = .list id → s.Nests depth id ∧ s.Nests more id) :
    s.equalWithin depth v w = s.equalWithin more v w := by
  induction depth generalizing v w more with
  | zero =>
    cases v with
    | list id => exact (nests id rfl).1.elim
    | _ => cases more <;> rfl
  | succ depth ih =>
    cases v with
    | list id =>
      obtain ⟨ends, ends'⟩ := nests id rfl
      obtain _ | more := more
      · exact ends'.elim
      cases w with
      | list other =>
        simp only [equalWithin]
        congr 2
        refine isEqv_congr (fun v mem w => ih ?_) _
        rintro inner rfl
        exact ⟨ends inner mem, ends' inner mem⟩
      | _ => rfl
    | _ => cases more <;> rfl

/-- One step down from a list leaves a bound that is smaller by one and still enough. -/
theorem Nests.of_holds (nests : s.Nests s.lists.size id) : ∃ n, s.lists.size = n + 1 ∧
    ∀ inner, s.Holds id inner → s.Nests n inner := by
  cases size : s.lists.size with
  | zero => rw [size] at nests; exact nests.elim
  | succ n => rw [size] at nests; exact ⟨n, rfl, nests⟩

theorem Nests.snapshot_list (nests : s.Nests s.lists.size id) : s.snapshot (.list id) =
    .list (s.list id).contentKind ((s.list id).items.map s.snapshot) := by
  obtain ⟨n, size, inside⟩ := nests.of_holds
  have unfolded : s.snapshot (.list id) = .list (s.list id).contentKind
      ((s.list id).items.map (s.snapshotWithin n)) := by rw [snapshot, size]; rfl
  rw [unfolded]
  congr 1
  refine List.map_congr_left fun v mem => snapshotWithin_eq ?_
  rintro inner rfl
  exact ⟨inside inner mem, (inside inner mem).mono (by omega)⟩

theorem Nests.equal_list (nests : s.Nests s.lists.size id) (other : ListId) :
    s.equal (.list id) (.list other) =
      (id == other || (s.list id).contentKind == (s.list other).contentKind &&
        (s.list id).items.isEqv (s.list other).items s.equal) := by
  obtain ⟨n, size, inside⟩ := nests.of_holds
  have le : s.lists.size ≤ s.lists.size * s.lists.size := Nat.le_mul_self _
  have bound : s.equal (.list id) (.list other) =
      s.equalWithin (n + 1) (.list id) (.list other) := by
    refine equalWithin_eq ?_
    rintro _ ⟨⟩
    exact ⟨nests.mono le, size ▸ nests⟩
  rw [bound, equalWithin]
  congr 2
  refine isEqv_congr (fun v mem w => equalWithin_eq ?_) _
  rintro inner rfl
  exact ⟨inside inner mem, (inside inner mem).mono (by omega)⟩

section Settled

variable (acyclic : s.Acyclic) (valid : s.Valid)

include acyclic valid

theorem Acyclic.reaches_eq (has : s.Has (.list id)) (target : ListId) : s.reaches id target =
    (id == target || (s.list id).items.any fun
      | .list inner => s.reaches inner target
      | _ => false) := by
  rw [Bool.eq_iff_iff, reaches_iff acyclic valid has]
  simp only [Bool.or_eq_true, beq_iff_eq, List.any_eq_true]
  constructor
  · intro path
    obtain rfl | ⟨inner, edge, path⟩ := Relation.ReflTransGen.cases_head path
    · exact .inl rfl
    · exact .inr ⟨_, edge, (reaches_iff acyclic valid (valid.items id _ edge)).mpr path⟩
  · rintro (rfl | ⟨v, mem, path⟩)
    · exact .refl
    · cases v with
      | list inner =>
        exact .head mem ((reaches_iff acyclic valid (valid.items id _ mem)).mp path)
      | _ => simp at path

theorem Acyclic.deepCopy_eq (has : s.Has (.list id)) : s.deepCopy id =
    StateT.run (do
      let items ← (s.list id).items.mapM copyOf
      modifyGet (·.addList { s.list id with items })) s := by
  obtain ⟨n, size, nests⟩ := (acyclic.nests valid has).of_holds
  have items : ((s.list id).items.mapM (copyItem n)).run s =
      ((s.list id).items.mapM copyOf).run s := by
    refine mapM_run_congr (I := fun t => Extends s t ∧ t.Valid) ?_ ⟨.refl s, valid⟩
    rintro v mem t ⟨adds, validₜ⟩
    have hasᵥ := valid.items id v mem
    cases v with
    | list inner =>
      have hasₜ := hasᵥ.mono adds.grows
      refine ⟨?_, adds.trans (extends_copyWithin _ _ _), .copyWithin validₜ hasₜ⟩
      have ends := (nests inner mem).extends adds valid hasᵥ
      have enough : n ≤ t.lists.size := by have := adds.size; omega
      have same := copyWithin_run_eq validₜ hasₜ ends (ends.mono enough)
      simp only [copyItem, StateT.run_map, same]
      rfl
    | _ => exact ⟨rfl, adds, validₜ⟩
  rw [deepCopy, size, copyWithin_succ_run, items]
  rfl

/-- Looking into the lists of an acyclic store ends. -/
theorem Acyclic.settled : s.Settled where
  wellFounded := acyclic.wellFounded valid
  snapshot _ has := (acyclic.nests valid has).snapshot_list
  equal _ b has := (acyclic.nests valid has).equal_list b
  reaches _ target has := acyclic.reaches_eq valid has target
  deepCopy _ has := acyclic.deepCopy_eq valid has

end Settled

end ListLang.Store
