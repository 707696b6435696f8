import ListLang.Proofs.Copies

/-!
# Equality of values, from one store to another

Lists are equal when they have one content kind and equal items, and other values when they are
the same. Said so, equality can be asked of a value as it is in one store and a value as it is in
another, such as the stores before and after a step. Within one acyclic store it is what comparing
values answers, so passing over a list that is compared with itself changes no answer.

## Main definitions

* `Store.Same` — a value of one store is equal to a value of another.

## Main statements

* `Store.Same.symm`, `Store.Same.trans` — equality along stores.
* `Store.equal_iff_same` — equality within a store is what comparing answers.
* `Store.same_of_kept` — a value is equal to what it is in a store that keeps its lists.
-/

namespace ListLang.Store

open Relation (ReflTransGen)

variable {s t u : Store} {v w x : Value} {a b : ListId}

/-- The value `v` of the store `s` is equal to the value `w` of the store `t`. -/
inductive Same (s t : Store) : Value → Value → Prop
  | plain {v : Value} : v.kind ≠ .list → Same s t v v
  | list {a b : ListId} : (s.list a).contentKind = (t.list b).contentKind →
    (s.list a).items.length = (t.list b).items.length →
    (∀ p ∈ (s.list a).items.zip (t.list b).items, Same s t p.1 p.2) →
    Same s t (.list a) (.list b)

theorem same_list_iff : Same s t (.list a) (.list b) ↔
    (s.list a).contentKind = (t.list b).contentKind ∧
      List.Forall₂ (Same s t) (s.list a).items (t.list b).items := by
  rw [List.forall₂_iff_zip]
  constructor
  · rintro (other | ⟨kind, length, items⟩)
    · exact absurd rfl other
    · exact ⟨kind, length, fun {_ _} mem => items _ mem⟩
  · rintro ⟨kind, length, items⟩
    exact .list kind length fun _ mem => items mem

theorem Same.symm (same : Same s t v w) : Same t s w v := by
  induction same with
  | plain other => exact .plain other
  | list kind length _ ih =>
    refine same_list_iff.mpr ⟨kind.symm, List.Forall₂.flip ?_⟩
    exact List.forall₂_iff_zip.mpr ⟨length, fun {_ _} mem => ih _ mem⟩

theorem forall₂_trans {R S T : Value → Value → Prop} {xs ys zs : List Value}
    (first : List.Forall₂ R xs ys) (second : List.Forall₂ S ys zs)
    (trans : ∀ x y z, R x y → S y z → T x z) : List.Forall₂ T xs zs := by
  induction first generalizing zs with
  | nil =>
    cases second
    exact .nil
  | cons here _ ih =>
    cases second with
    | cons there rest => exact .cons (trans _ _ _ here there) (ih rest)

theorem Same.trans (first : Same s t v w) (second : Same t u w x) : Same s u v x := by
  induction first generalizing x with
  | plain other =>
    cases second with
    | plain => exact .plain other
    | list => exact absurd rfl other
  | @list a b kind length _ ih =>
    cases second with
    | plain other => exact absurd rfl other
    | list kind' length' items' =>
      have here := List.forall₂_iff_zip.mpr ⟨length, fun {_ _} mem => @ih _ mem⟩
      have there := List.forall₂_iff_zip.mpr ⟨length', fun {_ _} mem => items' _ mem⟩
      exact same_list_iff.mpr ⟨kind.trans kind',
        forall₂_trans here there fun _ _ _ step same => step same⟩

/-- A copy is equal to what it is a copy of. -/
theorem Copy.equal (copy : Copy s t v w) : Same s t v w := by
  induction copy with
  | same other => exact .plain other
  | list _ _ kind length _ ih => exact .list kind.symm length ih

/-- Values that are not both lists are equal only where they are the same. -/
theorem same_iff_eq (other : ¬ (v.kind = .list ∧ w.kind = .list)) : Same s t v w ↔ v = w := by
  constructor
  · rintro (_ | _)
    · rfl
    · exact absurd ⟨rfl, rfl⟩ other
  · rintro rfl
    exact .plain fun list => other ⟨list, list⟩

theorem equal_iff_eq (other : ¬ (v.kind = .list ∧ w.kind = .list)) :
    s.equal v w = true ↔ v = w := by
  have plain : ∀ depth, s.equalWithin depth v w = (v == w) := by
    intro depth
    unfold equalWithin
    split
    · exact absurd ⟨rfl, rfl⟩ other
    · rfl
  rw [equal, plain, beq_iff_eq]

theorem isEqv_iff_forall₂ {f : Value → Value → Bool} {R : Value → Value → Prop}
    {xs : List Value} (h : ∀ x ∈ xs, ∀ y, f x y = true ↔ R x y) (ys : List Value) :
    xs.isEqv ys f = true ↔ List.Forall₂ R xs ys := by
  induction xs generalizing ys with
  | nil => cases ys <;> simp [List.isEqv]
  | cons x xs ih =>
    cases ys with
    | nil => simp [List.isEqv]
    | cons y ys =>
      obtain ⟨first, rest⟩ := List.forall_mem_cons.mp h
      rw [List.isEqv, Bool.and_eq_true, first, ih rest, List.forall₂_cons]

section Acyclic

variable (acyclic : s.Acyclic) (valid : s.Valid)

include acyclic valid

/-- A list is equal to what it is in a store that keeps all lists found from it on. -/
theorem same_of_kept (kept : ∀ b, ReflTransGen s.Holds a b → t.list b = s.list b) :
    Same s t (.list a) (.list a) := by
  induction a using (acyclic.wellFounded valid).induction with
  | _ a ih =>
    refine same_list_iff.mpr ⟨by rw [kept a .refl], ?_⟩
    rw [kept a .refl, List.forall₂_same]
    intro v mem
    cases v with
    | list inner => exact ih inner mem fun b path => kept b (.head mem path)
    | _ => exact .plain nofun

theorem same_self (v : Value) : Same s s v v := by
  cases v with
  | list => exact same_of_kept acyclic valid fun _ _ => rfl
  | _ => exact .plain nofun

/-- Comparing two values of an acyclic store answers whether they are equal. -/
theorem equal_iff_same (has : s.Has v) : s.equal v w = true ↔ Same s s v w := by
  by_cases lists : v.kind = .list ∧ w.kind = .list
  · cases v with
    | list a =>
      induction a using (acyclic.wellFounded valid).induction generalizing w with
      | _ a ih =>
        cases w with
        | list b =>
          have items : (s.list a).items.isEqv (s.list b).items s.equal = true ↔
              List.Forall₂ (Same s s) (s.list a).items (s.list b).items := by
            refine isEqv_iff_forall₂ (fun v mem w => ?_) _
            by_cases inner : v.kind = .list ∧ w.kind = .list
            · cases v with
              | list c => exact ih c mem (valid.items a _ mem) inner
              | _ => cases inner.1
            · rw [equal_iff_eq inner, same_iff_eq inner]
          rw [(acyclic.nests valid has).equal_list, Bool.or_eq_true, Bool.and_eq_true, items,
            beq_iff_eq, beq_iff_eq, ← same_list_iff]
          -- The same list is equal to itself without looking.
          exact or_iff_right_of_imp fun same => same ▸ same_self acyclic valid (.list a)
        | _ => cases lists.2
    | _ => cases lists.1
  · rw [equal_iff_eq lists, same_iff_eq lists]

end Acyclic

end ListLang.Store
