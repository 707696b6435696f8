import ListLang.Eval.List
import ListLang.Proofs.Grammar.Basic
import ListLang.Proofs.Nesting

/-!
# Copies of lists

A copy of a list is a new list with the same content kind. Its items are those of the list, the
lists among them copied in turn. An element that is put into a list is copied when it leads to
that list, and is put in as it is otherwise.

## Main definitions

* `Store.Copy` — a value and its copy in a later store.
* `Store.Leads` — a value is or holds a list, at any depth.
* `Store.PutIn` — what is put into a list for a value.

## Main statements

* `Store.copy_copyWithin` — copying a list makes a copy of it.
* `Eval.detach_putIn` — what becomes of an element that is put into a list.
-/

namespace ListLang

open Relation (ReflTransGen)

namespace Store

variable {s s' t u : Store} {v w : Value} {id target : ListId} {depth : Nat}

/-- In the later store `t` the value `w` is a copy of the value `v` of the store `s`. Only lists are
copied. The copy of a list is new, and so is every list in it. -/
inductive Copy (s t : Store) : Value → Value → Prop
  | same {v : Value} : v.kind ≠ .list → Copy s t v v
  | list {a b : ListId} : s.lists.size ≤ b.index → t.Has (.list b) →
    (t.list b).contentKind = (s.list a).contentKind →
    (s.list a).items.length = (t.list b).items.length →
    (∀ p ∈ (s.list a).items.zip (t.list b).items, Copy s t p.1 p.2) →
    Copy s t (.list a) (.list b)

theorem Copy.list_of_forall₂ {a b : ListId} (new : s.lists.size ≤ b.index)
    (has : t.Has (.list b)) (kind : (t.list b).contentKind = (s.list a).contentKind)
    (items : List.Forall₂ (Copy s t) (s.list a).items (t.list b).items) :
    Copy s t (.list a) (.list b) :=
  .list new has kind items.length_eq fun _ mem => (List.forall₂_iff_zip.mp items).2 mem

/-- A copy stays one in a store that keeps the lists made since, and is one of the value in an
earlier store that has it. -/
theorem Copy.mono (copy : Copy s t v w) (older : Extends s' s) (valid : s'.Valid) (has : s'.Has v)
    (size : t.lists.size ≤ u.lists.size)
    (kept : ∀ b : ListId, s.lists.size ≤ b.index → b.index < t.lists.size → u.list b = t.list b) :
    Copy s' u v w := by
  induction copy with
  | same other => exact .same other
  | @list a b new hasCopy kind length _ ih =>
    have before : s.list a = s'.list a := older.old a has
    have after : u.list b = t.list b := kept b new hasCopy
    refine .list (Nat.le_trans older.size new) (Nat.lt_of_lt_of_le hasCopy size)
      (by rw [after, kind, before]) (by rw [after, ← before, length]) fun p mem => ?_
    rw [after, ← before] at mem
    exact ih p mem (valid.items a _ (before ▸ (List.of_mem_zip mem).1))

/-- A copy stays one where only lists are added. -/
theorem Copy.extends (copy : Copy s t v w) (more : Extends t u) (valid : s.Valid) (has : s.Has v) :
    Copy s u v w :=
  copy.mono (.refl s) valid has more.size fun b _ old => more.old b old

/-! ## Copying makes copies -/

theorem Valid.copyItem (valid : s.Valid) (has : s.Has v) : ((copyItem depth v).run s).2.Valid := by
  cases v with
  | list => exact valid.copyWithin has
  | _ => exact valid

/-- Copying the items of a list in a later store makes copies of them. -/
theorem forall₂_copyItems (ih : ∀ {t : Store} {id : ListId}, t.Valid → t.Has (.list id) →
      t.Nests depth id →
      Copy t ((copyWithin depth id).run t).2 (.list id) (.list ((copyWithin depth id).run t).1))
    (valid : s.Valid) {items : List Value} (has : ∀ v ∈ items, s.Has v)
    (nests : ∀ b, .list b ∈ items → s.Nests depth b) (later : Extends s t) (validₜ : t.Valid) :
    List.Forall₂ (Copy s ((items.mapM (copyItem depth)).run t).2) items
      ((items.mapM (copyItem depth)).run t).1 := by
  induction items generalizing t with
  | nil => exact .nil
  | cons v items rest =>
    have hasₜ := (has v List.mem_cons_self).mono later.grows
    have first : Copy t ((copyItem depth v).run t).2 v ((copyItem depth v).run t).1 := by
      cases v with
      | list b =>
        exact ih validₜ hasₜ ((nests b List.mem_cons_self).extends later valid
          (has _ List.mem_cons_self))
      | _ => exact .same nofun
    have adds₁ := extends_copyItem (extends_copyWithin depth) t v
    have adds₂ := extends_copyItems (extends_copyWithin depth) ((copyItem depth v).run t).2 items
    rw [mapM_cons_run]
    refine .cons ?_ (rest (fun w mem => has w (List.mem_cons_of_mem _ mem))
      (fun b mem => nests b (List.mem_cons_of_mem _ mem)) (later.trans adds₁)
      (validₜ.copyItem hasₜ))
    exact (first.extends adds₂ validₜ hasₜ).mono later valid (has v List.mem_cons_self)
      (Nat.le_refl _) fun _ _ _ => rfl

/-- Copying a list, within enough steps, makes a copy of it. -/
theorem copy_copyWithin (valid : s.Valid) (has : s.Has (.list id)) (nests : s.Nests depth id) :
    Copy s ((copyWithin depth id).run s).2 (.list id) (.list ((copyWithin depth id).run s).1) := by
  induction depth generalizing s id with
  | zero => exact nests.elim
  | succ depth ih =>
    have items := forall₂_copyItems (fun valid has nests => ih valid has nests) valid
      (valid.items id) nests (.refl s) valid
    have adds := extends_copyItems (extends_copyWithin depth) s (s.list id).items
    rw [copyWithin_succ_run]
    generalize ((s.list id).items.mapM (copyItem depth)).run s = copies at items adds ⊢
    obtain ⟨copied, t⟩ := copies
    refine .list_of_forall₂ adds.size (has_addList _ _) ?_ ?_
    · rw [list_addList]
    · rw [list_addList]
      refine List.Forall₂.imp (fun v w copy => ?_)
        ((List.forall₂_and_left (p := s.Has) _ _).mpr ⟨valid.items id, items⟩)
      exact copy.2.extends (Extends.addList (.refl t) _) valid copy.1

/-- A copy of a list in an acyclic store. -/
theorem copy_deepCopy (acyclic : s.Acyclic) (valid : s.Valid) (has : s.Has (.list id)) :
    Copy s (s.deepCopy id).2 (.list id) (.list (s.deepCopy id).1) :=
  copy_copyWithin valid has (acyclic.nests valid has)

theorem copyable_acyclic : Copyable fun s => s.Valid ∧ s.Acyclic where
  valid _ h := h.1
  addList _ _ _ h has _ _ := ⟨h.1.addList has, h.2.addList h.1 has⟩

/-! ## Putting elements into a list -/

/-- The value is the list at `target` or a list that holds it, at any depth. -/
def Leads (s : Store) (target : ListId) (v : Value) : Prop :=
  ∃ id, v = .list id ∧ ReflTransGen s.Holds id target

/-- What is put into the list at `target` for the value `v`: a copy if `v` leads to that list, and
`v` itself otherwise. -/
def PutIn (s t : Store) (target : ListId) (v w : Value) : Prop :=
  (s.Leads target v ∧ Copy s t v w) ∨ (¬ s.Leads target v ∧ w = v)

/-- More lists lead no value that was there before elsewhere. -/
theorem Extends.leads_iff (h : Extends s t) (valid : s.Valid) (has : s.Has v) :
    t.Leads target v ↔ s.Leads target v := by
  constructor
  · rintro ⟨id, rfl, path⟩
    exact ⟨id, rfl, h.reflTransGen valid has path⟩
  · rintro ⟨id, rfl, path⟩
    refine ⟨id, rfl, Relation.ReflTransGen.mono (fun a b edge => ?_) _ _ path⟩
    rw [Holds, h.old a (lt_size_of_mem edge)]
    exact edge

/-- What is put into a list for a value is so in a later store that keeps the lists made since, and
from an earlier store that has the value. -/
theorem PutIn.mono (put : PutIn s t target v w) (older : Extends s' s) (valid : s'.Valid)
    (has : s'.Has v) (size : t.lists.size ≤ u.lists.size)
    (kept : ∀ b : ListId, s.lists.size ≤ b.index → b.index < t.lists.size → u.list b = t.list b) :
    PutIn s' u target v w := by
  obtain ⟨leads, copy⟩ | ⟨apart, same⟩ := put
  · exact .inl ⟨(older.leads_iff valid has).mp leads, copy.mono older valid has size kept⟩
  · exact .inr ⟨fun leads => apart ((older.leads_iff valid has).mpr leads), same⟩

end Store

namespace Eval

open Store

variable {s : Store} {v : Value}

/-- Putting an element into a list of an acyclic store only adds lists, all of them copies. -/
theorem detach_putIn (acyclic : s.Acyclic) (valid : s.Valid) (id : ListId) (has : s.Has v) :
    ∃ w t, (detach id v : Eval Value) s = .ok w t ∧ PutIn s t id v w ∧ Extends s t ∧
      t.Valid ∧ t.Acyclic ∧ t.Has w := by
  cases v with
  | list a =>
    have ends : s.ends a = true := ends_iff.mpr (acyclic.nests valid has)
    rw [detach_list, if_pos ends]
    by_cases reaches : s.reaches a id = true
    · have leads : s.Leads id (.list a) := ⟨a, rfl, (reaches_iff acyclic valid has).mp reaches⟩
      have spec := copyWithin_spec copyable_acyclic s.lists.size s a ⟨valid, acyclic⟩ has
      rw [if_pos reaches]
      exact ⟨_, _, rfl, .inl ⟨leads, copy_deepCopy acyclic valid has⟩,
        extends_copyWithin _ _ _, spec.keeps.1, spec.keeps.2, spec.has⟩
    · rw [if_neg reaches]
      refine ⟨_, _, rfl, .inr ⟨?_, rfl⟩, .refl s, valid, acyclic, has⟩
      rintro ⟨_, ⟨⟩, path⟩
      exact reaches ((reaches_iff acyclic valid has).mpr path)
  | _ => exact ⟨_, _, rfl, .inr ⟨by rintro ⟨_, ⟨⟩, -⟩, rfl⟩, .refl s, valid, acyclic, has⟩

/-- So does putting elements into it one after the other. -/
theorem mapM_detach_putIn (acyclic : s.Acyclic) (valid : s.Valid) (id : ListId) {vs : List Value}
    (has : ∀ v ∈ vs, s.Has v) :
    ∃ ws t, (vs.mapM (detach id) : Eval (List Value)) s = .ok ws t ∧
      List.Forall₂ (PutIn s t id) vs ws ∧ Extends s t ∧ t.Valid ∧ t.Acyclic := by
  induction vs generalizing s with
  | nil => exact ⟨[], s, rfl, .nil, .refl s, valid, acyclic⟩
  | cons v vs ih =>
    have hasV := has v List.mem_cons_self
    have hasVs : ∀ w ∈ vs, s.Has w := fun w mem => has w (List.mem_cons_of_mem _ mem)
    obtain ⟨w, t, ran, put, more, validₜ, acyclicₜ, -⟩ := detach_putIn acyclic valid id hasV
    obtain ⟨ws, u, ran', puts, more', validᵤ, acyclicᵤ⟩ :=
      ih acyclicₜ validₜ fun w mem => (hasVs w mem).mono more.grows
    refine ⟨w :: ws, u, ?_, .cons ?_ ?_, more.trans more', validᵤ, acyclicᵤ⟩
    · rw [List.mapM_cons, bind_of_ok ran, bind_of_ok ran']
      rfl
    · exact put.mono (.refl s) valid hasV more'.size fun b _ old => more'.old b old
    · refine List.Forall₂.imp (fun v w put => ?_)
        ((List.forall₂_and_left (p := s.Has) _ _).mpr ⟨hasVs, puts⟩)
      exact put.2.mono more valid put.1 (Nat.le_refl _) fun _ _ _ => rfl

end Eval

end ListLang
