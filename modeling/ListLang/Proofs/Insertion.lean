import ListLang.Proofs.Equality
import ListLang.Proofs.Sequences

/-!
# Putting lists into lists

Appending, inserting and joining leave no list inside itself. What they store for a value is equal
to it, as it was before. It is the value itself unless the value leads to the list, and then it is
made of new lists only.

## Main definitions

* `Request.added` — the values that a request puts into its list.
* `Inserts` — what putting values into a list comes to.
* `Store.Stored` — what a list got for a value, seen from the stores before and after.

## Main statements

* `eval_inserts` — evaluating an operation that puts values into a list.
-/

namespace ListLang

open Store
open Relation (ReflTransGen)

/-! ## What is stored -/

namespace Store

variable {s t : Store} {id target : ListId} {v w : Value} {vs ws : List Value}

/-- What the list at `target` has in the store `t` for the value `v` of the store `s`. It is equal
to what the value was, also by every comparison with a value that does not change. It is the
value itself if that does not lead to the list, and made of new lists only if it does. -/
structure Stored (s t : Store) (target : ListId) (v w : Value) : Prop where
  equal : Same s t v w
  compares : ∀ u, s.Has u → ¬ s.Leads target u → t.equal u w = s.equal u v
  shared : ¬ s.Leads target v → w = v
  copied : s.Leads target v → ∀ a, w = .list a → ∀ b, ReflTransGen t.Holds a b →
    s.lists.size ≤ b.index

theorem forall_mem_of_forall₂ {R : Value → Value → Prop} {P : Value → Prop}
    (all : List.Forall₂ R vs ws) (imp : ∀ v ∈ vs, ∀ w, R v w → P w) : ∀ w ∈ ws, P w := by
  intro w mem
  have mem : w ∈ (vs.zip ws).map Prod.snd := by rwa [List.map_snd_zip all.length_eq.ge]
  obtain ⟨p, pair, rfl⟩ := List.mem_map.mp mem
  exact imp p.1 (List.of_mem_zip pair).1 p.2 (List.forall₂_zip all pair)

/-- A copy leads to new lists only. -/
theorem Copy.new (copy : Copy s t v w) :
    ∀ a, w = .list a → ∀ b, ReflTransGen t.Holds a b → s.lists.size ≤ b.index := by
  induction copy with
  | same other =>
    rintro a rfl
    exact absurd rfl other
  | list new _ _ length _ ih =>
    rintro a ⟨⟩ b path
    obtain rfl | ⟨c, edge, path⟩ := path.cases_head
    · exact new
    · have items := List.forall₂_iff_zip.mpr ⟨length, fun {_ _} mem => ih _ mem⟩
      exact forall_mem_of_forall₂ (P := fun w => ∀ a, w = .list a → ∀ b,
        ReflTransGen t.Holds a b → s.lists.size ≤ b.index) items (fun _ _ _ new => new) _ edge c rfl
        b path

theorem Valid.has_of_reflTransGen (valid : s.Valid) {a b : ListId} (has : s.Has (.list a))
    (path : ReflTransGen s.Holds a b) : s.Has (.list b) := by
  obtain rfl | ⟨c, -, edge⟩ := path.cases_tail
  · exact has
  · exact valid.items c _ edge

/-- A value that does not lead to the changed list stays equal to what it was. -/
theorem Changes.same (changes : s.Changes t target ws) (acyclic : s.Acyclic) (valid : s.Valid)
    (has : s.Has v) (apart : ¬ s.Leads target v) : Same s t v v := by
  cases v with
  | list a =>
    refine same_of_kept acyclic valid fun b path => ?_
    refine changes.others b (valid.has_of_reflTransGen has path) ?_
    rintro rfl
    exact apart ⟨a, rfl, path⟩
  | _ => exact .plain nofun

theorem PutIn.same (put : s.PutIn t target v w) (changes : s.Changes t target ws)
    (acyclic : s.Acyclic) (valid : s.Valid) (has : s.Has v) : Same s t v w := by
  obtain ⟨-, copy⟩ | ⟨apart, rfl⟩ := put
  · exact copy.equal
  · exact changes.same acyclic valid has apart

/-- What is put into a list is stored in it. -/
theorem PutIn.stored (put : s.PutIn t target v w) (changes : s.Changes t target ws)
    (acyclic : s.Acyclic) (valid : s.Valid) (acyclicₜ : t.Acyclic) (validₜ : t.Valid)
    (has : s.Has v) : s.Stored t target v w where
  equal := put.same changes acyclic valid has
  compares u hasU apart := by
    have grows : Grows s t := ⟨changes.size, changes.closures ▸ Nat.le_refl _⟩
    have kept := changes.same acyclic valid hasU apart
    have equal := put.same changes acyclic valid has
    rw [Bool.eq_iff_iff, equal_iff_same acyclicₜ validₜ (hasU.mono grows),
      equal_iff_same acyclic valid hasU]
    exact ⟨fun same => (kept.trans same).trans equal.symm,
      fun same => kept.symm.trans (same.trans equal)⟩
  shared apart := (put.resolve_left fun put => apart put.1).2
  copied leads := (put.resolve_right fun put => put.1 leads).2.new

/-- No value that is put into a list leads to it. -/
theorem PutIn.apart (put : s.PutIn t id v w) (more : Extends s t) (valid : s.Valid)
    (has : s.Has (.list id)) (hasV : s.Has v) : ¬ t.Leads id w := by
  obtain ⟨-, copy⟩ | ⟨apart, rfl⟩ := put
  · rintro ⟨a, rfl, path⟩
    exact absurd has (Nat.not_lt.mpr (copy.new a rfl id path))
  · exact fun leads => apart ((more.leads_iff valid hasV).mp leads)

theorem PutIn.has (put : s.PutIn t id v w) (more : Extends s t) (hasV : s.Has v) : t.Has w := by
  obtain ⟨-, copy⟩ | ⟨-, rfl⟩ := put
  · cases copy with
    | same => exact hasV.mono more.grows
    | list _ has => exact has
  · exact hasV.mono more.grows

/-- A list stays outside itself with values put between its items. -/
theorem keeps_setItems {u : Store} (acyclic : s.Acyclic) (valid : s.Valid) (has : s.Has (.list id))
    {before after : List Value} (items : (s.list id).items = before ++ after)
    (hasVs : ∀ v ∈ vs, s.Has v) (puts : List.Forall₂ (s.PutIn u id) vs ws) (more : Extends s u)
    (validᵤ : u.Valid) (acyclicᵤ : u.Acyclic) :
    (u.setItems id (before ++ ws ++ after)).Valid ∧
      (u.setItems id (before ++ ws ++ after)).Acyclic := by
  have old : ∀ v ∈ before ++ after, u.Has v ∧ ¬ u.Leads id v := by
    rw [← items]
    intro v mem
    have hasV := valid.items id v mem
    refine ⟨hasV.mono more.grows, fun leads => ?_⟩
    obtain ⟨b, rfl, path⟩ := (more.leads_iff valid hasV).mp leads
    exact acyclic.not_reflTransGen_of_holds mem path
  have new : ∀ w ∈ ws, u.Has w ∧ ¬ u.Leads id w :=
    forall_mem_of_forall₂ puts fun v mem w put =>
      ⟨put.has more (hasVs v mem), put.apart more valid has (hasVs v mem)⟩
  have all : ∀ w ∈ before ++ ws ++ after, u.Has w ∧ ¬ u.Leads id w := by
    obtain ⟨first, last⟩ := List.forall_mem_append.mp old
    exact List.forall_mem_append.mpr ⟨List.forall_mem_append.mpr ⟨first, new⟩, last⟩
  exact ⟨validᵤ.setItems fun w mem => (all w mem).1,
    acyclicᵤ.setItems (not_transGen_setItems fun b mem path => (all _ mem).2 ⟨b, rfl, path⟩)⟩

end Store

/-- The values that the request puts into its list. -/
def Request.added (s : Store) : Request → List Value
  | join (.list b) => (s.list b).items
  | append element | insertAt element _ => [element]
  | _ => []

/-! ## What becomes of the list -/

/-- What putting the values `added` into the list at `id` comes to: a failure, or the list with
what was made of the values between its items. -/
inductive Inserts (s : Store) (id : ListId) (added : List Value) :
    EStateM.Result Halt Store Value → Prop
  | failed {halt t} : Inserts s id added (.error halt t)
  | stored {before stored after t} : (s.list id).items = before ++ after →
    List.Forall₂ (s.PutIn t id) added stored → Extends s t → t.Valid → t.Acyclic →
    Inserts s id added (.ok (.list id) (t.setItems id (before ++ stored ++ after)))

namespace Inserts

variable {s : Store} {id : ListId} {line : Nat} {added : List Value}

theorem check {α : Type} {r : Except EvalError.Cause α} {f : α → Eval Value}
    (passed : ∀ a, r = .ok a → Inserts s id added (f a s)) :
    Inserts s id added ((Eval.orFail line r >>= f) s) := by
  cases r with
  | error cause => exact .failed
  | ok a => exact passed a rfl

variable (acyclic : s.Acyclic) (valid : s.Valid)

include acyclic valid

theorem append {v : Value} (hasV : s.Has v) :
    Inserts s id [v] ((Eval.append id v line : Eval Value) s) := by
  change Inserts s id [v] ((Eval.checkElement .append (s.list id) v line >>= _ : Eval Value) s)
  rw [Eval.checkElement_eq]
  refine .check fun _ _ => ?_
  obtain ⟨w, t, ran, put, more, validₜ, acyclicₜ, -⟩ := Eval.detach_putIn acyclic valid id hasV
  rw [bind_of_ok ran]
  have stored := Inserts.stored (List.append_nil _).symm (.cons put .nil) more validₜ acyclicₜ
  rwa [List.append_nil] at stored

theorem insertAt {v : Value} (hasV : s.Has v) (n : Int64) :
    Inserts s id [v] ((Eval.insertAt id v n line : Eval Value) s) := by
  change Inserts s id [v] ((Eval.checkElement .insertAt (s.list id) v line >>= _ : Eval Value) s)
  rw [Eval.checkElement_eq]
  refine .check fun _ _ => ?_
  rw [Eval.position_eq]
  refine .check fun i inside => ?_
  obtain ⟨w, t, ran, put, more, validₜ, acyclicₜ, -⟩ := Eval.detach_putIn acyclic valid id hasV
  rw [bind_of_ok ran]
  have bound : i ≤ (s.list id).items.length := by
    unfold Request.checkIndex at inside
    split at inside
    · cases inside
      omega
    · cases inside
  obtain ⟨before, after, items, -, inserted⟩ := List.exists_of_modifyTailIdx (w :: ·) bound
  change Inserts s id [v]
    (.ok (.list id) (t.setItems id ((s.list id).items.modifyTailIdx i (w :: ·))))
  rw [inserted, List.append_cons]
  exact .stored items (.cons put .nil) more validₜ acyclicₜ

theorem join {other : Value} :
    Inserts s id ((Request.join other).added s) ((Eval.join id other line : Eval Value) s) := by
  refine .check fun b list => ?_
  cases other with
  | list =>
    cases list
    change Inserts s id _ ((if _ then _ else _ : Eval Value) s)
    split
    · obtain ⟨ws, t, ran, puts, more, validₜ, acyclicₜ⟩ :=
        Eval.mapM_detach_putIn acyclic valid id (valid.items b)
      rw [bind_of_ok ran]
      have stored := Inserts.stored (List.append_nil _).symm puts more validₜ acyclicₜ
      rwa [List.append_nil] at stored
    · exact .failed
  | _ => cases list

end Inserts

/-! ## Evaluating the operations -/

/-- Evaluating an operation that puts values into a list comes to putting them in. -/
theorem Asks.inserts {s : Store} {id : ListId} (acyclic : s.Acyclic) (valid : s.Valid)
    {request : Request} (inserts : request.op ∈ [.append, .insertAt, .join])
    (operands : ∀ v ∈ request.operands, s.Has v) {depth : Nat} {env : Environment} {e : Expr}
    {s₀ : Store} (asks : Asks depth env id request e s₀ s) :
    Inserts s id (request.added s) (eval (depth + 1) env e s₀) := by
  cases asks with
  | two given list operand =>
    cases request with
    | join other =>
      cases given
      rw [eval_listOp2 rfl list operand]
      exact .join acyclic valid
    | append element =>
      cases given
      rw [eval_listOp2 rfl list operand]
      exact .append acyclic valid (operands _ List.mem_cons_self)
    | insertAt => cases given
    | removeAt | getValue => simp [Request.op] at inserts
  | three given list operand last =>
    cases request with
    | insertAt element index =>
      cases given
      rw [eval_listOp3 rfl list operand last]
      exact .check fun n _ => .insertAt acyclic valid (operands _ List.mem_cons_self) n
    | _ => cases given

theorem Request.has_added {s : Store} (valid : s.Valid) {request : Request}
    (operands : ∀ v ∈ request.operands, s.Has v) : ∀ v ∈ request.added s, s.Has v := by
  cases request with
  | join other =>
    cases other with
    | list b => exact valid.items b
    | _ => exact nofun
  | append | insertAt =>
    rintro v (_ | _)
    · exact operands _ List.mem_cons_self
    · contradiction
  | _ => exact nofun

/-- Where no list is inside itself, none is after appending, inserting or joining. What was put
between the items of the list is equal to the values it comes from, as they were before, shared
where they do not lead to the list and copied to new lists where they do. -/
theorem eval_inserts {s : Store} {id : ListId} (acyclic : s.Acyclic) (valid : s.Valid)
    (has : s.Has (.list id)) {request : Request}
    (inserts : request.op ∈ [.append, .insertAt, .join])
    (operands : ∀ v ∈ request.operands, s.Has v) {depth : Nat} {env : Environment} {e : Expr}
    {s₀ : Store} (asks : Asks depth env id request e s₀ s) {r : Value} {t : Store}
    (ran : eval (depth + 1) env e s₀ = .ok r t) :
    t.Acyclic ∧ r = .list id ∧ ∃ before stored after,
      (s.list id).items = before ++ after ∧ (t.list id).items = before ++ stored ++ after ∧
        List.Forall₂ (s.Stored t id) (request.added s) stored := by
  have inserted := asks.inserts acyclic valid inserts operands
  have hasAdded := request.has_added valid operands
  rw [ran] at inserted
  cases inserted with
  | @stored before stored after u items puts more validᵤ acyclicᵤ =>
    obtain ⟨validₜ, acyclicₜ⟩ :=
      keeps_setItems acyclic valid has items hasAdded puts more validᵤ acyclicᵤ
    have changes : s.Changes (u.setItems id (before ++ stored ++ after)) id _ :=
      changes_setItems has more
    refine ⟨acyclicₜ, rfl, before, stored, after, items, by rw [changes.target], ?_⟩
    refine List.Forall₂.imp (fun v w put => ?_)
      ((List.forall₂_and_left (p := s.Has) _ _).mpr ⟨hasAdded, puts⟩)
    exact (put.2.setItems valid has put.1).stored changes acyclic valid acyclicₜ validₜ put.1

/-- A store with a list of numbers, a list that holds it, and a list that holds both. -/
def Store.overlapping : Store :=
  (Store.nested.addList ⟨.list, [.list ⟨1⟩, .list ⟨0⟩]⟩).2

/-- Of the items that are joined to a list, the one that is the list itself is copied and the one
that it holds is shared. -/
theorem eval_inserts_overlapping :
    Store.overlapping.Acyclic ∧ Store.overlapping.Valid ∧ ∃ copy t,
      eval 2 ⟨[("l", .list ⟨1⟩), ("m", .list ⟨2⟩)]⟩
        (.listOp2 .join (.var "l" 1) (.var "m" 1) 1) Store.overlapping = .ok (.list ⟨1⟩) t ∧
      t.Acyclic ∧ copy ∈ (t.list ⟨1⟩).items ∧
      Store.overlapping.Stored t ⟨1⟩ (.list ⟨1⟩) copy ∧
      Store.overlapping.Stored t ⟨1⟩ (.list ⟨0⟩) (.list ⟨0⟩) := by
  have hasOne : ∀ v ∈ [Value.int 1], Store.empty.Has v := by decide
  have hasList : ∀ v ∈ [Value.list ⟨0⟩], (Store.empty.addList ⟨.int, [.int 1]⟩).2.Has v := by decide
  have hasBoth : ∀ v ∈ [Value.list ⟨1⟩, Value.list ⟨0⟩], Store.nested.Has v := by decide
  have valid₁ : (Store.empty.addList ⟨.int, [.int 1]⟩).2.Valid := Valid.empty.addList hasOne
  have valid₂ : Store.nested.Valid := valid₁.addList hasList
  have valid : Store.overlapping.Valid := valid₂.addList hasBoth
  have acyclic : Store.overlapping.Acyclic :=
    ((Acyclic.empty.addList Valid.empty hasOne).addList valid₁ hasList).addList valid₂ hasBoth
  obtain ⟨t, ran⟩ : ∃ t, eval 2 ⟨[("l", .list ⟨1⟩), ("m", .list ⟨2⟩)]⟩
      (.listOp2 .join (.var "l" 1) (.var "m" 1) 1) Store.overlapping = .ok (.list ⟨1⟩) t := ⟨_, rfl⟩
  have asks : Asks 1 ⟨[("l", .list ⟨1⟩), ("m", .list ⟨2⟩)]⟩ ⟨1⟩ (.join (.list ⟨2⟩))
      (.listOp2 .join (.var "l" 1) (.var "m" 1) 1) Store.overlapping Store.overlapping :=
    .two rfl rfl rfl
  obtain ⟨acyclicₜ, -, before, stored, after, items, itemsₜ, all⟩ :=
    eval_inserts acyclic valid (by decide) (by decide) (by decide) asks ran
  obtain _ | ⟨first, _ | ⟨second, _ | _⟩⟩ := all
  have apart : ¬ Store.overlapping.Leads ⟨1⟩ (.list ⟨0⟩) := by
    rintro ⟨_, ⟨⟩, path⟩
    exact acyclic.not_reflTransGen_of_holds (a := ⟨1⟩) List.mem_cons_self path
  obtain rfl := second.shared apart
  exact ⟨acyclic, valid, _, t, ran, acyclicₜ, by simp [itemsₜ], first, second⟩

end ListLang
