import ListLang.Proofs.Nesting
import ListLang.Proofs.Recording

/-!
# Captured environments

The environment that a closure captured changes only where a recursive `let` binds its name
in it to the closure. The `let` does so whatever its bound expression is, so the closure may
be one that was there long before, and it may be bound by more than one `let`. Evaluations
leave the captures of older closures alone exactly where each recursive `let` that changes a
closure changes one that its bound expression made.

## Main definitions

* `Environment.Agrees` — environments that bind the same names to the same values.
* `Store.SameCaptures` — the closures of a store captured the same in another.
* `changes` — how often a closure's captured environment changes along stores.
* `Moment.rebinds` — a recursive `let` that changes a closure.

## Main statements

* `changes_record` — changes of captured environments are recursive `let`s that change them.
* `captures_stable_iff_rebinds` — when captured environments are stable.
-/

namespace ListLang

/-- The environments bind the same names to the same values. -/
def Environment.Agrees (a b : Environment) : Prop := ∀ name, a.lookup name = b.lookup name

namespace Environment.Agrees

variable {a b c : Environment}

theorem refl (a : Environment) : a.Agrees a := fun _ => rfl

theorem trans (h : a.Agrees b) (g : b.Agrees c) : a.Agrees c := fun name => (h name).trans (g name)

/-- Only the names that one of the environments binds matter. -/
theorem iff_bindings :
    a.Agrees b ↔ ∀ p ∈ a.bindings ++ b.bindings, a.lookup p.1 = b.lookup p.1 := by
  refine ⟨fun h p _ => h p.1, fun h name => ?_⟩
  have none : ∀ env : Environment, (∀ p ∈ env.bindings, p.1 ≠ name) → env.lookup name = none := by
    intro env absent
    refine List.lookup_eq_none_iff.mpr fun p mem => ?_
    simpa using (absent p mem).symm
  by_cases bound : ∃ p ∈ a.bindings ++ b.bindings, p.1 = name
  · obtain ⟨p, mem, rfl⟩ := bound
    exact h p mem
  · rw [none a fun p mem eq => bound ⟨p, List.mem_append_left _ mem, eq⟩,
      none b fun p mem eq => bound ⟨p, List.mem_append_right _ mem, eq⟩]

instance : Decidable (a.Agrees b) := decidable_of_iff' _ iff_bindings

theorem extend_iff {name : String} {v : Value} :
    (a.extend name v).Agrees a ↔ a.lookup name = some v := by
  constructor
  · intro h
    simpa [lookup_extend] using (h name).symm
  · intro bound other
    rw [lookup_extend]
    split
    · next same => rw [same, bound]
    · rfl

end Environment.Agrees

namespace Store

variable {s t u : Store}

/-- The closures of `s` have captured the same in `t`. -/
def SameCaptures (s t : Store) : Prop :=
  ∀ id, s.Has (.closure id) → (t.closure id).env.Agrees (s.closure id).env

/-- `t` has the closures of `s`, each with what it captured but for names that are now bound
to the closure itself. -/
structure Follows (s t : Store) : Prop where
  size : s.closures.size ≤ t.closures.size
  captured : ∀ id name, s.Has (.closure id) →
    (t.closure id).env.lookup name = (s.closure id).env.lookup name ∨
      (t.closure id).env.lookup name = some (.closure id)

theorem Follows.refl (s : Store) : Follows s s := ⟨Nat.le_refl _, fun _ _ _ => .inl rfl⟩

theorem Follows.trans (h : Follows s t) (g : Follows t u) : Follows s u where
  size := Nat.le_trans h.size g.size
  captured id name has := by
    obtain same | itself := g.captured id name (Nat.lt_of_lt_of_le has h.size)
    · rw [same]
      exact h.captured id name has
    · exact .inr itself

/-- Steps leave closures as they are. -/
theorem closure_step {α : Type} {f : Store → α × Store} (step : Eval.Step f) (s : Store)
    {id : ClosureId} (has : s.Has (.closure id)) : (f s).2.closure id = s.closure id := by
  cases step with
  | addClosure c => exact closure_addClosure_of_lt s c has
  | deepCopy inner => exact (extends_copyWithin _ s inner).closure id
  | addList | setItems => rfl

theorem follows_step {α : Type} {f : Store → α × Store} (step : Eval.Step f) (s : Store) :
    Follows s (f s).2 where
  size := by
    cases step with
    | addClosure c => exact (grows_addClosure s c).closures
    | deepCopy inner => exact (extends_copyWithin _ s inner).grows.closures
    | addList | setItems => exact Nat.le_refl _
  captured id name has := .inl (by rw [closure_step step s has])

theorem follows_bindName (s : Store) (id : ClosureId) (name : String) :
    Follows s (s.bindName id name (.closure id)) where
  size := (grows_bindName s id name _).closures
  captured other name' has := by
    by_cases same : other = id
    · subst same
      rw [closure_bindName s name _ has, Environment.lookup_extend]
      split
      · exact .inr rfl
      · exact .inl rfl
    · exact .inl (by rw [closure_bindName_of_ne s name _ same])

/-- Between stores that captured the same, nothing changed and changed back. -/
theorem Follows.agrees {id : ClosureId} (h : Follows s t) (g : Follows t u)
    (has : s.Has (.closure id)) (same : (u.closure id).env.Agrees (s.closure id).env) :
    (t.closure id).env.Agrees (s.closure id).env := by
  intro name
  obtain kept | itself := h.captured id name has
  · exact kept
  · obtain kept | itself' := g.captured id name (Nat.lt_of_lt_of_le has h.size)
    · rw [← kept, same name]
    · rw [itself, ← itself', same name]

end Store

/-! ## Changes and their causes -/

/-- How often the environment that the closure at `id` captured changes from one store to the
next. -/
def changes (id : ClosureId) : List Store → Nat
  | s :: t :: rest =>
    (if s.Has (.closure id) ∧ ¬ (t.closure id).env.Agrees (s.closure id).env then 1 else 0) +
      changes id (t :: rest)
  | _ => 0

/-- A recursive `let` starts at the moment whose value is the closure at `id`, and the closure
has not yet captured itself by that name. -/
def Moment.rebinds (id : ClosureId) : Moment → Bool
  | .call (depth + 1) env (.letIn true name value _ _) s =>
    match eval depth env value s with
    | .ok (.closure found) t =>
      found == id && t.Has (.closure id) && (t.closure id).env.lookup name != some (.closure id)
    | _ => false
  | _ => false

section Changes

variable {s t : Store} {id : ClosureId}

theorem changes_pair (same : s.Has (.closure id) → (t.closure id).env.Agrees (s.closure id).env)
    (rest : List Store) : changes id (s :: t :: rest) = changes id (t :: rest) := by
  rw [changes, if_neg fun h => h.2 (same h.1), Nat.zero_add]

theorem changes_append (xs ys : List Store) :
    changes id (s :: (xs ++ ys)) = changes id (s :: xs) + changes id (xs.getLastD s :: ys) := by
  induction xs generalizing s with
  | nil => simp [changes]
  | cons x xs ih =>
    simp only [List.cons_append, changes, ih, List.getLastD_cons]
    omega

/-- Along stores that follow one another, nothing changed exactly where the last one captured
what the first one did. -/
theorem changes_eq_zero_iff {rest : List Store} (ordered : (s :: rest).Pairwise Store.Follows)
    (has : s.Has (.closure id)) :
    changes id (s :: rest) = 0 ↔
      ((rest.getLastD s).closure id).env.Agrees (s.closure id).env := by
  induction rest generalizing s with
  | nil => exact ⟨fun _ => .refl _, fun _ => rfl⟩
  | cons t rest ih =>
    obtain ⟨later, ordered'⟩ := List.pairwise_cons.mp ordered
    have follows := later t (by simp)
    have hasₜ : t.Has (.closure id) := Nat.lt_of_lt_of_le has follows.size
    have ends : Store.Follows t (rest.getLastD t) := by
      obtain same | mem := List.mem_cons.mp (List.getLastD_mem_cons (l := rest) (a := t))
      · rw [same]; exact .refl t
      · exact (List.pairwise_cons.mp ordered').1 _ mem
    rw [List.getLastD_cons]
    constructor
    · intro none
      have same : (t.closure id).env.Agrees (s.closure id).env := by
        by_contra changed
        rw [changes, if_pos ⟨has, changed⟩] at none
        omega
      rw [changes_pair fun _ => same] at none
      exact ((ih ordered' hasₜ).mp none).trans same
    · intro same
      have first := follows.agrees ends has same
      rw [changes_pair fun _ => first]
      exact (ih ordered' hasₜ).mpr (same.trans fun name => (first name).symm)

/-- Binding a closure to a name in itself is a change unless it is bound so. -/
theorem changes_bindName (t : Store) (found id : ClosureId) (name : String) (rest : List Store) :
    changes id (t :: t.bindName found name (.closure found) :: rest) =
      (if found == id && t.Has (.closure id) &&
        (t.closure id).env.lookup name != some (.closure id) then 1 else 0) +
      changes id (t.bindName found name (.closure found) :: rest) := by
  by_cases same : found = id
  · subst same
    rw [changes]
    congr 2
    refine propext ⟨fun ⟨has, changed⟩ => ?_, fun h => ?_⟩
    · rw [Store.closure_bindName t name _ has, Environment.Agrees.extend_iff] at changed
      simp [has, changed]
    · simp only [beq_self_eq_true, Bool.true_and, Bool.and_eq_true, decide_eq_true_eq, bne_iff_ne,
        ne_eq] at h
      rw [Store.closure_bindName t name _ h.1, Environment.Agrees.extend_iff]
      exact h
  · rw [changes_pair fun _ => ?_]
    · simp [same]
    · rw [Store.closure_bindName_of_ne t name _ (Ne.symm same)]
      exact .refl _

/-- A recording that starts in `s` ends in its last store, and the captured environment of the
closure at `id` changes in it as often as a recursive `let` changes it. -/
structure Recording.Balanced (id : ClosureId) (s : Store) {α : Type} (r : Recording α) : Prop where
  ends : r.Ends s
  tally : changes id (s :: r.stores) = r.moments.countP (·.rebinds id)

theorem Recording.Balanced.andThen {α β : Type} {r : Recording α} {f : α → Recorder β}
    (first : r.Balanced id s) (next : ∀ a t, ((f a).run t).Balanced id t) :
    (Recorder.andThen r f).Balanced id s := by
  refine ⟨first.ends.andThen fun a t => (next a t).ends, ?_⟩
  cases h : r.outcome with
  | ok a t =>
    have last : r.stores.getLastD s = t := by rw [← first.ends, h, Eval.endStore]
    rw [Recorder.andThen_ok h, List.countP_append, ← first.tally, ← (next a t).tally, ← last]
    simp only [Recording.stores, List.map_append]
    exact changes_append _ _
  | error e t =>
    rw [Recorder.andThen_error h]
    exact first.tally

end Changes

/-- The recorders in which captured environments change as recursive `let`s change them. -/
def Recorder.balanced (id : ClosureId) : Eval.Simulation Recorder Recorder where
  rel a _ := ∀ s, (a.run s).Balanced id s
  pure _ _ := ⟨rfl, rfl⟩
  bind first next s := (first s).andThen next
  throw _ _ := ⟨rfl, rfl⟩
  get _ := ⟨rfl, rfl⟩
  step h s := by
    refine ⟨rfl, changes_pair (fun has => ?_) []⟩
    simp only [Moment.store, Store.closure_step h s has]
    exact .refl _

section Record

variable {depth : Nat} {id : ClosureId}
  (balanced : ∀ env e, (Recorder.balanced id).rel (record depth env e) (record depth env e))

include balanced

/-- A recursive `let` accounts for the change that it makes. -/
theorem balanced_letRec (env : Environment) (name : String) (value body : Expr) (line : Nat)
    (s : Store) :
    ((record (depth + 1) env (.letIn true name value body line)).run s).Balanced id s := by
  refine ⟨record_ends _ _ _ _, ?_⟩
  let next : Value → Recorder Value := fun v => do
    Eval.bindSelf true name v
    record depth (env.extend name v) body
  change changes id (s :: s :: (Recorder.andThen ((record depth env value).run s) next).stores) =
    (.call (depth + 1) env (.letIn true name value body line) s ::
      (Recorder.andThen ((record depth env value).run s) next).moments).countP (·.rebinds id)
  rw [changes_pair (fun _ => .refl _), List.countP_cons]
  have outcome := record_outcome depth env value s
  have first := balanced env value s
  generalize (record depth env value).run s = r at outcome first ⊢
  cases h : r.outcome with
  | error e t =>
    have quiet : (Moment.call (depth + 1) env (.letIn true name value body line) s).rebinds id =
        false := by simp only [Moment.rebinds, ← outcome, h]
    simpa [Recorder.andThen_error h, quiet, Recording.stores] using first.tally
  | ok v t =>
    have last : r.stores.getLastD s = t := by rw [← first.ends, h, Eval.endStore]
    have rest : changes id (t :: ((next v).run t).stores) =
        ((next v).run t).moments.countP (·.rebinds id) +
          if (Moment.call (depth + 1) env (.letIn true name value body line) s).rebinds id
            then 1 else 0 := by
      have ok : eval depth env value s = .ok v t := outcome.symm.trans h
      cases v with
      | closure found =>
        have inner := (balanced (env.extend name (.closure found)) body
          (t.bindName found name (.closure found))).tally
        have ran : (next (.closure found)).run t =
            let bound := t.bindName found name (.closure found)
            let inner := (record depth (env.extend name (.closure found)) body).run bound
            ⟨.change bound :: inner.moments, inner.outcome⟩ := rfl
        rw [ran, Recording.stores, List.map_cons,
          List.countP_cons_of_neg (by simp [Moment.rebinds]), ← inner, Nat.add_comm]
        simp only [Moment.rebinds, ok]
        exact changes_bindName t found id name _
      | _ =>
        simp only [Moment.rebinds, ok]
        exact (balanced _ body t).tally
    have stores : (Recorder.andThen r next).stores = r.stores ++ ((next v).run t).stores := by
      simp [Recorder.andThen_ok h, Recording.stores]
    rw [stores, changes_append, last, first.tally, rest, Recorder.andThen_ok h, List.countP_append,
      Nat.add_assoc]

/-- What is no recursive `let` accounts for no change of its own. -/
theorem balanced_other (env : Environment) (e : Expr)
    (other : ∀ name value body line, e ≠ .letIn true name value body line) (s : Store) :
    ((record (depth + 1) env e).run s).Balanced id s := by
  have quiet : (Moment.call (depth + 1) env e s).rebinds id = false := by
    unfold Moment.rebinds
    split
    · next eq => cases eq; exact absurd rfl (other _ _ _ _)
    · rfl
  have start : Recording.Balanced id s ((Recorder.note (depth + 1) env e).run s) := by
    refine ⟨rfl, ?_⟩
    rw [Recorder.note, List.countP_singleton, quiet]
    exact changes_pair (fun _ => .refl _) []
  exact start.andThen fun _ => (Recorder.balanced id).evalWith balanced env e
    fun name value body line eq => absurd eq (other name value body line)

end Record

/-- Captured environments change only where recursive `let`s change them. -/
theorem changes_record (depth : Nat) (env : Environment) (e : Expr) (s : Store) (id : ClosureId) :
    changes id (s :: ((record depth env e).run s).stores) =
      ((record depth env e).run s).moments.countP (·.rebinds id) := by
  suffices (Recorder.balanced id).rel (record depth env e) (record depth env e) from (this s).tally
  induction depth generalizing env e with
  | zero => exact (Recorder.balanced id).throw _
  | succ depth ih =>
    intro s
    by_cases letRec : ∃ name value body line, e = .letIn true name value body line
    · obtain ⟨name, value, body, line, rfl⟩ := letRec
      exact balanced_letRec ih env name value body line s
    · exact balanced_other ih env e (fun name value body line eq =>
        letRec ⟨name, value, body, line, eq⟩) s

theorem record_follows (depth : Nat) (env : Environment) (e : Expr) (s : Store) :
    ((record depth env e).run s).Advances Store.Follows s :=
  record_advances .refl (fun _ _ _ => .trans) Store.follows_step Store.follows_bindName
    depth env e s

/-- An evaluation keeps what closures captured exactly where no recursive `let` in it changes
one of them. -/
theorem sameCaptures_iff (depth : Nat) (env : Environment) (e : Expr) (s : Store) :
    s.SameCaptures (Eval.endStore (eval depth env e s)) ↔
      ∀ m ∈ ((record depth env e).run s).moments, ∀ id, s.Has (.closure id) →
        m.rebinds id = false := by
  have ordered := (record_follows depth env e s).ordered
  have count : ∀ id, s.Has (.closure id) →
      (((Eval.endStore (eval depth env e s)).closure id).env.Agrees (s.closure id).env ↔
        ∀ m ∈ ((record depth env e).run s).moments, m.rebinds id = false) := by
    intro id has
    rw [← record_outcome, record_ends, ← changes_eq_zero_iff ordered has, changes_record,
      List.countP_eq_zero]
    simp
  constructor
  · intro same m mem id has
    exact (count id has).mp (same id has) m mem
  · intro quiet id has
    exact (count id has).mpr fun m mem => quiet m mem id has

/-- A recursive `let` that changes an older closure does not keep what it captured. -/
theorem not_sameCaptures_of_rebinds {m : Moment} {id : ClosureId} (rebinds : m.rebinds id = true)
    (old : m.store.Has (.closure id)) : ∃ depth env e, m = .call depth env e m.store ∧
      ¬ m.store.SameCaptures (Eval.endStore (eval depth env e m.store)) := by
  have call : ∃ depth env e, m = .call depth env e m.store ∧
      m ∈ ((record depth env e).run m.store).moments := by
    unfold Moment.rebinds at rebinds
    split at rebinds
    · exact ⟨_, _, _, rfl, List.mem_cons_self⟩
    · cases rebinds
  obtain ⟨depth, env, e, eq, mem⟩ := call
  refine ⟨depth, env, e, eq, fun same => ?_⟩
  rw [(sameCaptures_iff depth env e m.store).mp same m mem id old] at rebinds
  cases rebinds

/-- Evaluations keep what older closures captured exactly where each recursive `let` that
changes a closure changes one that its bound expression made. -/
theorem sameCaptures_calls_iff (depth : Nat) (env : Environment) (e : Expr) (s : Store) :
    (∀ depth' env' e' s', .call depth' env' e' s' ∈ ((record depth env e).run s).moments →
      s'.SameCaptures (Eval.endStore (eval depth' env' e' s'))) ↔
    ∀ m ∈ ((record depth env e).run s).moments, ∀ id, m.rebinds id = true →
      m.store.closures.size ≤ id.index := by
  constructor
  · intro same m mem id rebinds
    refine Nat.not_lt.mp fun old => ?_
    obtain ⟨depth', env', e', eq, changed⟩ := not_sameCaptures_of_rebinds rebinds old
    exact changed (same _ _ _ _ (eq ▸ mem))
  · intro own depth' env' e' s' mem
    refine (sameCaptures_iff depth' env' e' s').mpr fun m inner id has => ?_
    have recorded := record_nested depth env e s depth' env' e' s' mem inner
    have follows := (List.pairwise_cons.mp (record_follows depth' env' e' s').ordered).1 m.store
      (List.mem_map_of_mem inner)
    by_contra rebinds
    have new := own m recorded id (by simpa using rebinds)
    exact absurd (Nat.lt_of_lt_of_le has follows.size) (Nat.not_lt.mpr new)

/-- The environment that a closure captured changes as often as a recursive `let` whose value
it is binds it to a name that it did not capture itself by. So evaluations leave the captured
environments of older closures as they were, and each changes at most once, exactly where
every such `let` binds a closure that its bound expression made and no two bind the same. -/
theorem captures_stable_iff_rebinds (depth : Nat) (env : Environment) (e : Expr) (s : Store) :
    (∀ id, changes id (s :: ((record depth env e).run s).stores) =
      ((record depth env e).run s).moments.countP (·.rebinds id)) ∧
    ((∀ depth' env' e' s', .call depth' env' e' s' ∈ ((record depth env e).run s).moments →
        s'.SameCaptures (Eval.endStore (eval depth' env' e' s'))) ∧
      (∀ id, changes id (s :: ((record depth env e).run s).stores) ≤ 1) ↔
    (∀ m ∈ ((record depth env e).run s).moments, ∀ id, m.rebinds id = true →
        m.store.closures.size ≤ id.index) ∧
      ∀ id, ((record depth env e).run s).moments.countP (·.rebinds id) ≤ 1) := by
  have tally := changes_record depth env e s
  refine ⟨tally, and_congr (sameCaptures_calls_iff depth env e s) ?_⟩
  simp only [tally]

/-- A recursive `let` that binds a variable changes what an older closure captured. -/
theorem letRec_changes_older_closure : ∃ depth env e s,
    .call depth env e s ∈ moments 9
      "let y = 5 in let g = \\a => y in let rec y = g in g 0" ∧
    ¬ s.SameCaptures (Eval.endStore (eval depth env e s)) := by
  obtain ⟨m, mem, rebinds, old⟩ : ∃ m ∈ moments 9
      "let y = 5 in let g = \\a => y in let rec y = g in g 0",
      m.rebinds ⟨0⟩ = true ∧ m.store.Has (.closure ⟨0⟩) := by decide +kernel
  obtain ⟨depth, env, e, eq, changed⟩ := not_sameCaptures_of_rebinds rebinds old
  exact ⟨depth, env, e, m.store, eq ▸ mem, changed⟩

end ListLang
