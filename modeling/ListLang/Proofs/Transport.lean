import ListLang.Eval.Simulation
import ListLang.Proofs.Nesting

/-!
# Evaluation carried from one store to another

One store stands for another where it has the same lists at the same places, and the same
functions, perhaps at other places and with other labels. Where the steps on stores keep this,
evaluation does: it gives what corresponds, or fails for the same cause, and the one store still
stands for the other.

## Main definitions

* `Transport` — a relation of stores that all steps keep, under which lists and functions
  correspond.
* `Transport.Outcomes` — outcomes that correspond.

## Main statements

* `Transport.eval` — evaluations in stores that correspond have outcomes that do.
-/

namespace ListLang

open Renumberable

variable {r : Relabelling} {p : ClosureId → ClosureId}

/-- The function with its labels replaced and the closures that it captures renumbered. -/
def Relabelling.carry (r : Relabelling) (p : ClosureId → ClosureId) (c : Closure) : Closure :=
  ⟨renumber p c.env, c.param, r.expr c.body⟩

theorem Relabelling.identity_carry (c : Closure) : identity.carry p c = renumber p c := by
  rw [carry, identity_expr]
  rfl

/-- A relation of stores under which lists have the same places and corresponding items, and the
function at `id` in the one store stands at `p id` in the other. All steps keep it. -/
structure Transport (r : Relabelling) (p : ClosureId → ClosureId) where
  rel : Store → Store → Prop
  size : ∀ {s t}, rel s t → t.lists.size = s.lists.size
  list : ∀ {s t}, rel s t → ∀ id, t.list id = renumber p (s.list id)
  place : ∀ {s t}, rel s t → (⟨t.closures.size⟩ : ClosureId) = p ⟨s.closures.size⟩
  closure : ∀ {s t}, rel s t → ∀ id, t.closure (p id) = r.carry p (s.closure id)
  addList : ∀ {s t}, rel s t → ∀ cell, rel (s.addList cell).2 (t.addList (renumber p cell)).2
  addClosure : ∀ {s t}, rel s t → ∀ c, rel (s.addClosure c).2 (t.addClosure (r.carry p c)).2
  setItems : ∀ {s t}, rel s t → ∀ id items,
    rel (s.setItems id items) (t.setItems id (renumber p items))
  bindName : ∀ {s t}, rel s t → ∀ id name v,
    rel (s.bindName id name v) (t.bindName (p id) name (renumber p v))

namespace Transport

variable {α β : Type} [Renumberable α] [Renumberable β]

/-- The outcomes correspond, and the stores still do. -/
inductive Outcomes (T : Transport r p) :
    EStateM.Result Halt Store α → EStateM.Result Halt Store α → Prop where
  | ok {a s t} : T.rel s t → Outcomes T (.ok a s) (.ok (renumber p a) t)
  | failed {line cause s t} : T.rel s t →
    Outcomes T (.error (.failed ⟨line, cause⟩) s) (.error (.failed ⟨r.line line, cause⟩) t)
  | tooDeep {s t} : T.rel s t → Outcomes T (.error .tooDeep s) (.error .tooDeep t)

variable {T : Transport r p} {s t : Store}

/-! ## Looking into lists -/

theorem endsWithin_eq (h : T.rel s t) (depth : Nat) (id : ListId) :
    t.endsWithin depth id = s.endsWithin depth id := by
  induction depth generalizing id with
  | zero => rfl
  | succ depth ih =>
    rw [Store.endsWithin, Store.endsWithin, T.list h]
    change ((s.list id).items.map (renumber p)).all _ = _
    rw [List.all_map]
    congr 1
    funext v
    cases v with
    | list inner => exact ih inner
    | _ => rfl

theorem reachesWithin_eq (h : T.rel s t) (target : ListId) (depth : Nat) (id : ListId) :
    t.reachesWithin target depth id = s.reachesWithin target depth id := by
  induction depth generalizing id with
  | zero => rfl
  | succ depth ih =>
    rw [Store.reachesWithin, Store.reachesWithin, T.list h]
    change (_ || ((s.list id).items.map (renumber p)).any _) = _
    rw [List.any_map]
    congr 2
    funext v
    cases v with
    | list inner => exact ih inner
    | _ => rfl

theorem ends_eq (h : T.rel s t) (id : ListId) : t.ends id = s.ends id := by
  rw [Store.ends, Store.ends, T.size h, endsWithin_eq h]

theorem reaches_eq (h : T.rel s t) (id target : ListId) :
    t.reaches id target = s.reaches id target := by
  rw [Store.reaches, Store.reaches, T.size h, reachesWithin_eq h]

/-! ## Copies -/

/-- From stores that correspond, the steps give results and stores that do. -/
def Follows (T : Transport r p) (a b : StateM Store α) : Prop :=
  ∀ s t, T.rel s t → (b.run t).1 = renumber p (a.run s).1 ∧ T.rel (a.run s).2 (b.run t).2

theorem Follows.pure (a : α) : T.Follows (Pure.pure a) (Pure.pure (renumber p a)) :=
  fun _ _ h => ⟨rfl, h⟩

theorem Follows.bind {a b : StateM Store α} {f g : α → StateM Store β} (first : T.Follows a b)
    (next : ∀ x, T.Follows (f x) (g (renumber p x))) : T.Follows (a >>= f) (b >>= g) := by
  intro s t h
  obtain ⟨same, h⟩ := first s t h
  have goesOn := next (a.run s).1 _ _ h
  rw [← same] at goesOn
  exact goesOn

theorem Follows.mapM {f g : α → StateM Store β} (each : ∀ x, T.Follows (f x) (g (renumber p x)))
    (xs : List α) : T.Follows (xs.mapM f) ((renumber p xs).mapM g) := by
  induction xs with
  | nil => exact .pure []
  | cons x xs ih =>
    change T.Follows _ ((renumber p x :: renumber p xs).mapM g)
    rw [List.mapM_cons, List.mapM_cons]
    exact (each x).bind fun y => ih.bind fun ys => .pure (y :: ys)

theorem follows_copyWithin (depth : Nat) (id : ListId) :
    T.Follows (Store.copyWithin depth id) (Store.copyWithin depth id) := by
  induction depth generalizing id with
  | zero => exact .pure id
  | succ depth ih =>
    have item : ∀ v, T.Follows (Store.copyItem depth v) (Store.copyItem depth (renumber p v)) := by
      intro v
      cases v with
      | list inner =>
        intro s t h
        obtain ⟨copy, h'⟩ := ih inner s t h
        exact ⟨congrArg Value.list copy, h'⟩
      | _ => exact .pure _
    intro s t h
    obtain ⟨items, h'⟩ := Follows.mapM item (s.list id).items s t h
    rw [Store.copyWithin_succ_run, Store.copyWithin_succ_run, T.list h]
    dsimp only
    rw [show (renumber p (s.list id)).items = renumber p (s.list id).items from rfl, items]
    exact ⟨congrArg ListId.mk (T.size h'), T.addList h' _⟩

theorem deepCopy_follows (h : T.rel s t) (id : ListId) :
    (t.deepCopy id).1 = (s.deepCopy id).1 ∧ T.rel (s.deepCopy id).2 (t.deepCopy id).2 := by
  rw [Store.deepCopy, Store.deepCopy, T.size h]
  exact follows_copyWithin _ id s t h

/-! ## Evaluations -/

/-- Evaluation in the one store and in the other. -/
def correspondence (T : Transport r p) : Eval.Correspondence r p Eval Eval where
  rel a b := ∀ s t, T.rel s t → T.Outcomes (a s) (b t)
  pure _ _ _ h := .ok h
  bind {_ _ _ _ a b f g} first next s t h := by
    change T.Outcomes (EStateM.bind a f s) (EStateM.bind b g t)
    have outcomes := first s t h
    simp only [EStateM.bind]
    generalize a s = x, b t = y at outcomes ⊢
    cases outcomes with
    | ok h => exact next _ _ _ h
    | failed h => exact .failed h
    | tooDeep h => exact .tooDeep h
  fail _ _ _ _ h := .failed h
  list id s t h := by
    change T.Outcomes (.ok (s.list id) s) (.ok (t.list id) t)
    rw [T.list h]
    exact .ok h
  closure id f g next s t h := by
    change T.Outcomes (f (s.closure id) s) (g (t.closure (p id)) t)
    rw [T.closure h]
    exact next _ s t h
  newList kind items s t h := by
    change T.Outcomes (.ok (Value.list ⟨s.lists.size⟩) _) (.ok (Value.list ⟨t.lists.size⟩) _)
    rw [T.size h]
    exact .ok (T.addList h ⟨kind, items⟩)
  newClosure env param body s t h := by
    change T.Outcomes (.ok (Value.closure ⟨s.closures.size⟩) _)
      (.ok (Value.closure ⟨t.closures.size⟩) _)
    rw [T.place h]
    exact .ok (T.addClosure h ⟨env, param, body⟩)
  setItems id items s t h := .ok (T.setItems h id items)
  detach target element s t h := by
    cases element with
    | list id =>
      obtain ⟨copy, h'⟩ := deepCopy_follows h id
      change T.Outcomes _ ((Eval.detach target (.list id) : Eval Value) t)
      rw [Eval.detach_list, Eval.detach_list, ends_eq h, reaches_eq h, copy]
      split
      · split
        · exact .ok h'
        · exact .ok h
      · exact .tooDeep h
    | _ => exact .ok h

/-- Evaluations in stores that correspond have outcomes that do. -/
theorem eval (T : Transport r p) (depth : Nat) (env : Environment) (e : Expr) {s t : Store}
    (h : T.rel s t) :
    T.Outcomes (ListLang.eval depth env e s)
      (ListLang.eval depth (renumber p env) (r.expr e) t) := by
  induction depth generalizing env e s t with
  | zero => exact .tooDeep h
  | succ depth ih =>
    have parts : ∀ env e, T.correspondence.rel (ListLang.eval depth env e)
        (ListLang.eval depth (renumber p env) (r.expr e)) := fun env e _ _ h => ih env e h
    refine T.correspondence.evalWith parts env e ?_ s t h
    rintro name value body line rfl
    refine T.correspondence.letIn parts (fun v => ?_) env value body line
    cases v with
    | closure id => exact fun s t h => .ok (T.bindName h id name (.closure id))
    | _ => exact fun _ _ h => .ok h

end Transport

end ListLang
