import ListLang.Proofs.Agreement

/-!
# What an evaluation depends on

An evaluation depends only on what the free variables of the expression reach. Two evaluations
of one expression, in stores and environments that correspond on that, end alike: neither ends,
or both fail with one error, or both give results that correspond. So it does not matter what
else is bound or was evaluated before, and an expression evaluated again in the initial
environment gives the value that it gave first, with the same content kinds and items all the
way down.

## Main definitions

* `Renaming.EndAlike` — evaluations that end alike, whatever depth they need.
* `Snapshot.unnamed` — a value written out, without the names that its closures capture.

## Main statements

* `Renaming.endAlike_eval` — evaluations in corresponding stores and environments end alike.
* `Renaming.Stores.unnamed_eq` — values that correspond are written out alike.
* `eval_depends_only_on_free` — the dependence of an evaluation on its surroundings.
-/

namespace ListLang

namespace Renaming

variable {ρ σ : Renaming} {s t : Store} {env env' : Environment} {e : Expr}

/-! ## Ending alike -/

/-- At every depth that is great enough, the outcome is `r`. -/
def Ends (run : Nat → EStateM.Result Halt Store Value) (r : EStateM.Result Halt Store Value) :
    Prop :=
  ∃ depth, ∀ more, run (depth + more) = r

/-- Neither of the evaluations ends, or both fail with one error, or both give results that
correspond, in stores that do, under an extension of the renaming. -/
inductive EndAlike (ρ : Renaming) (run run' : Nat → EStateM.Result Halt Store Value) : Prop where
  | never : (∀ depth, ∃ s t, run depth = .error .tooDeep s ∧ run' depth = .error .tooDeep t) →
    EndAlike ρ run run'
  | fail {err : EvalError} {s t : Store} : Ends run (.error (.failed err) s) →
    Ends run' (.error (.failed err) t) → EndAlike ρ run run'
  | give {σ : Renaming} {v w : Value} {s t : Store} : ρ ≤ σ → σ.Relates v w →
    σ.Stores .equality s t → Ends run (.ok v s) → Ends run' (.ok w t) → EndAlike ρ run run'

/-- An outcome other than nesting too deeply is the one at every greater depth. -/
theorem ends_eval {depth : Nat} {r : EStateM.Result Halt Store Value}
    (ran : eval depth env e s = r) (deep : ∀ t, r ≠ .error .tooDeep t) :
    Ends (eval · env e s) r := by
  refine ⟨depth, fun more => ?_⟩
  obtain ⟨t, tooDeep⟩ | same := eval_deepens depth more env e s
  · exact absurd (ran.symm.trans tooDeep) (deep t)
  · exact same.trans ran

theorem endAlike_eval (stores : ρ.Stores .equality s t) (envs : ρ.Environments e.free env env') :
    ρ.EndAlike (eval · env e s) (eval · env' e t) := by
  have outcomes : ∀ depth,
      ρ.Outcomes .equality (·.Relates) (eval depth env e s) (eval depth env' e t) :=
    fun depth => evaluates_eval .equality depth ρ env env' e e rfl envs s t stores
  by_cases deep : ∀ depth, ∃ u, eval depth env e s = .error .tooDeep u
  · refine .never fun depth => ?_
    obtain ⟨u, ran⟩ := deep depth
    have outcome := outcomes depth
    rw [ran] at outcome
    generalize ran' : eval depth env' e t = r' at outcome
    cases outcome with
    | @tooDeep _ u' => exact ⟨u, u', ran, rfl⟩
  · obtain ⟨depth, ends⟩ := not_forall.mp deep
    have outcome := outcomes depth
    generalize ran : eval depth env e s = r, ran' : eval depth env' e t = r' at outcome
    cases outcome with
    | ok le stores' related =>
      exact .give le related stores' (ends_eval ran (by simp)) (ends_eval ran' (by simp))
    | failed same =>
      cases same
      exact .fail (ends_eval ran (by simp)) (ends_eval ran' (by simp))
    | @tooDeep u => exact absurd ⟨u, ran⟩ ends

end Renaming

/-! ## Results that correspond -/

namespace Snapshot

mutual

/-- The value without the names that its closures capture. -/
def unnamed : Snapshot → Snapshot
  | int n => int n
  | bool b => bool b
  | string s => string s
  | list contentKind items => list contentKind (allUnnamed items)
  | closure param _ body => closure param [] body
  | builtin b => builtin b

/-- The values without the names that their closures capture. -/
def allUnnamed : List Snapshot → List Snapshot
  | [] => []
  | item :: rest => unnamed item :: allUnnamed rest

end

theorem allUnnamed_eq_map (items : List Snapshot) : allUnnamed items = items.map unnamed := by
  induction items with
  | nil => rfl
  | cons item rest ih => simp [allUnnamed, ih]

end Snapshot

namespace Renaming

variable {ρ : Renaming} {s t : Store}

theorem map_eq_map_of_relates {α : Type} {f g : Value → α} {vs ws : List Value}
    (items : List.Forall₂ ρ.Relates vs ws) (same : ∀ v w, ρ.Relates v w → f v = g w) :
    vs.map f = ws.map g := by
  rw [← List.forall₂_eq_eq_eq, List.forall₂_map_left_iff, List.forall₂_map_right_iff]
  exact items.imp same

/-- Values that correspond are written out alike, however deep they are looked into, but for
the names that closures capture: only those free in the body correspond. -/
theorem Stores.unnamed_eq (stores : ρ.Stores .equality s t) {v w : Value} (h : ρ.Relates v w)
    (depth : Nat) : (s.snapshotWithin depth v).unnamed = (t.snapshotWithin depth w).unnamed := by
  induction depth generalizing v w with
  | zero =>
    cases h with
    | list h => simp only [Store.snapshotWithin, (stores.cells h).contentKind]
    | closure h =>
      have function := stores.functions h
      simp only [Store.snapshotWithin, Snapshot.unnamed, function.param,
        show _ = _ from function.body]
    | _ => rfl
  | succ depth ih =>
    cases h with
    | list h =>
      have cells := stores.cells h
      simp only [Store.snapshotWithin, Snapshot.unnamed, cells.contentKind,
        Snapshot.allUnnamed_eq_map, List.map_map]
      exact congrArg _ (map_eq_map_of_relates cells.items fun v w => ih)
    | closure h =>
      have function := stores.functions h
      simp only [Store.snapshotWithin, Snapshot.unnamed, function.param,
        show _ = _ from function.body]
    | _ => rfl

/-! ## Two renamings -/

/-- The renaming that concerns no place. -/
def nothing : Renaming where
  lists _ _ := False
  closures _ _ := False
  lists_biUnique := ⟨fun _ _ _ h => h.elim, fun _ _ _ h => h.elim⟩
  closures_biUnique := ⟨fun _ _ _ h => h.elim, fun _ _ _ h => h.elim⟩

theorem stores_nothing (L : Likeness) (s t : Store) : nothing.Stores L s t where
  left h := h.elim
  right h := h.elim
  cells h := h.elim
  leftClosure h := h.elim
  rightClosure h := h.elim
  functions h := h.elim

/-- An environment corresponds to itself where what it binds does. -/
theorem environments_self {names : List String} {env env' : Environment}
    (agree : ∀ x ∈ names, env.lookup x = env'.lookup x)
    (related : ∀ x ∈ names, ∀ v, env.lookup x = some v → ρ.Relates v v) :
    ρ.Environments names env env' := by
  intro x mem
  rw [← agree x mem]
  cases found : env.lookup x with
  | some v => exact .some (related x mem v found)
  | none => exact .none

/-- The initial environment binds no place. -/
theorem environments_initial (names : List String) :
    ρ.Environments names .initial .initial := by
  refine environments_self (fun _ _ => rfl) fun x _ v found => ?_
  have builtin : ∀ b ∈ Environment.initial.bindings, b.2.Plain := by
    simp [Environment.initial, Builtin.all, Environment.extend, Environment.empty, Value.Plain]
  exact .refl (builtin _ (Environment.mem_of_lookup found))

/-- The renaming that leaves the places of a store as they are. -/
def same (s : Store) : Renaming where
  lists a b := a = b ∧ s.Has (.list a)
  closures a b := a = b ∧ s.Has (.closure a)
  lists_biUnique := by
    constructor
    · rintro _ _ _ ⟨rfl, -⟩ ⟨rfl, -⟩
      rfl
    · rintro _ _ _ ⟨rfl, -⟩ ⟨rfl, -⟩
      rfl
  closures_biUnique := by
    constructor
    · rintro _ _ _ ⟨rfl, -⟩ ⟨rfl, -⟩
      rfl
    · rintro _ _ _ ⟨rfl, -⟩ ⟨rfl, -⟩
      rfl

theorem relates_same {v : Value} (has : s.Has v) : (same s).Relates v v := by
  cases v with
  | list => exact .list ⟨rfl, has⟩
  | closure => exact .closure ⟨rfl, has⟩
  | _ => constructor

theorem stores_same (valid : s.Valid) : (same s).Stores .equality s s where
  left h := h.2
  right h := h.1 ▸ h.2
  cells := by
    rintro a _ ⟨rfl, -⟩
    exact ⟨rfl, List.forall₂_same.mpr fun v mem => relates_same (valid.items a v mem)⟩
  leftClosure h := h.2
  rightClosure h := h.1 ▸ h.2
  functions := by
    rintro a _ ⟨rfl, -⟩
    refine ⟨rfl, rfl, environments_self (fun _ _ => rfl) fun x _ v found => ?_⟩
    exact relates_same (valid.captured a _ (Environment.mem_of_lookup found))

theorem Ends.unique {run : Nat → EStateM.Result Halt Store Value}
    {r r' : EStateM.Result Halt Store Value} (h : Ends run r) (h' : Ends run r') : r = r' := by
  obtain ⟨depth, ran⟩ := h
  obtain ⟨depth', ran'⟩ := h'
  rw [← ran depth', ← ran' depth, Nat.add_comm]

/-- The results of evaluations that end alike are written out alike. -/
theorem EndAlike.unnamed_eq {run run' : Nat → EStateM.Result Halt Store Value} {v w : Value}
    (alike : ρ.EndAlike run run') (gives : Ends run (.ok v s)) (gives' : Ends run' (.ok w t))
    (depth : Nat) : (s.snapshotWithin depth v).unnamed = (t.snapshotWithin depth w).unnamed := by
  cases alike with
  | never deep =>
    obtain ⟨depth, ran⟩ := gives
    obtain ⟨_, _, tooDeep, -⟩ := deep depth
    cases tooDeep.symm.trans (ran 0)
  | fail fails => cases fails.unique gives
  | give _ related stores gives₁ gives₁' =>
    cases gives₁.unique gives
    cases gives₁'.unique gives'
    exact stores.unnamed_eq related depth

end Renaming

/-- An evaluation depends only on what the free variables reach. In corresponding stores and
environments it ends alike. So in the initial environment it ends alike whatever was evaluated
before, with results that are written out alike, and bindings of other names do not matter. -/
theorem eval_depends_only_on_free :
    (∀ (ρ : Renaming) s t env env' e, ρ.Stores .equality s t → ρ.Environments e.free env env' →
      ρ.EndAlike (eval · env e s) (eval · env' e t)) ∧
    (∀ e s t, Renaming.nothing.EndAlike (eval · .initial e s) (eval · .initial e t) ∧
      ∀ depth depth' v w s' t', eval depth .initial e s = .ok v s' →
        eval depth' .initial e t = .ok w t' →
        ∀ steps, (s'.snapshotWithin steps v).unnamed = (t'.snapshotWithin steps w).unnamed) ∧
    ∀ (s : Store) env env' e, s.Valid → (∀ x ∈ e.free, env.lookup x = env'.lookup x) →
      (∀ x ∈ e.free, ∀ v, env.lookup x = some v → s.Has v) →
      (Renaming.same s).EndAlike (eval · env e s) (eval · env' e s) := by
  refine ⟨fun ρ s t env env' e => Renaming.endAlike_eval, fun e s t => ?_, ?_⟩
  · have alike : Renaming.nothing.EndAlike (eval · .initial e s) (eval · .initial e t) :=
      Renaming.endAlike_eval (Renaming.stores_nothing _ s t) (Renaming.environments_initial _)
    refine ⟨alike, fun depth depth' v w s' t' ran ran' steps => ?_⟩
    exact alike.unnamed_eq (Renaming.ends_eval ran (by simp)) (Renaming.ends_eval ran' (by simp))
      steps
  · intro s env env' e valid agree has
    exact Renaming.endAlike_eval (Renaming.stores_same valid) (Renaming.environments_self agree
      fun x free v found => Renaming.relates_same (has x free v found))

/-- Place 0 is renamed to place 1. -/
def Renaming.shift : Renaming where
  lists a b := a = ⟨0⟩ ∧ b = ⟨1⟩
  closures a b := a = ⟨0⟩ ∧ b = ⟨1⟩
  lists_biUnique := ⟨fun _ _ _ h g => h.1.trans g.1.symm, fun _ _ _ h g => h.2.trans g.2.symm⟩
  closures_biUnique := ⟨fun _ _ _ h g => h.1.trans g.1.symm, fun _ _ _ h g => h.2.trans g.2.symm⟩

/-- A function that appends to the list at `id`, with the bindings `more` around it. -/
def appender (id : ListId) (more : List (String × Value)) : Closure :=
  ⟨⟨more ++ [("xs", .list id)]⟩, "y", .listOp2 .append (.var "xs" 1) (.var "y" 1) 1⟩

/-- A call that changes a captured list ends alike where the list, the function and other
bindings stand elsewhere, and where a name is bound that it does not use. -/
theorem eval_depends_only_on_free_shift :
    Renaming.shift.Stores .equality ⟨#[⟨.int, [.int 1]⟩], #[appender ⟨0⟩ []]⟩
      ⟨#[⟨.bool, []⟩, ⟨.int, [.int 1]⟩], #[default, appender ⟨1⟩ [("y", .bool true)]]⟩ ∧
    Renaming.shift.Environments
      (Expr.app (.var "f" 1) (.literal (.integer 9) 1) 1).free
      ⟨[("f", .closure ⟨0⟩)]⟩ ⟨[("g", .closure ⟨0⟩), ("f", .closure ⟨1⟩)]⟩ ∧
    Renaming.shift.EndAlike
      (eval · ⟨[("f", .closure ⟨0⟩)]⟩ (.app (.var "f" 1) (.literal (.integer 9) 1) 1)
        ⟨#[⟨.int, [.int 1]⟩], #[appender ⟨0⟩ []]⟩)
      (eval · ⟨[("g", .closure ⟨0⟩), ("f", .closure ⟨1⟩)]⟩
        (.app (.var "f" 1) (.literal (.integer 9) 1) 1)
        ⟨#[⟨.bool, []⟩, ⟨.int, [.int 1]⟩], #[default, appender ⟨1⟩ [("y", .bool true)]]⟩) ∧
    (Renaming.same ⟨#[⟨.int, [.int 1]⟩], #[appender ⟨0⟩ []]⟩).EndAlike
      (eval · ⟨[("f", .closure ⟨0⟩)]⟩ (.app (.var "f" 1) (.literal (.integer 9) 1) 1)
        ⟨#[⟨.int, [.int 1]⟩], #[appender ⟨0⟩ []]⟩)
      (eval · ⟨[("g", .bool true), ("f", .closure ⟨0⟩)]⟩
        (.app (.var "f" 1) (.literal (.integer 9) 1) 1)
        ⟨#[⟨.int, [.int 1]⟩], #[appender ⟨0⟩ []]⟩) := by
  have stores : Renaming.shift.Stores .equality ⟨#[⟨.int, [.int 1]⟩], #[appender ⟨0⟩ []]⟩
      ⟨#[⟨.bool, []⟩, ⟨.int, [.int 1]⟩], #[default, appender ⟨1⟩ [("y", .bool true)]]⟩ := by
    refine ⟨⟨?_, ?_, ?_⟩, ?_, ?_, ?_⟩
    all_goals rintro _ _ ⟨rfl, rfl⟩
    · decide
    · decide
    · exact ⟨rfl, .cons (.int 1) .nil⟩
    · exact Nat.zero_lt_one
    · exact Nat.one_lt_two
    · refine ⟨rfl, rfl, fun x mem => ?_⟩
      obtain rfl : x = "xs" := by
        simpa [appender, Store.closure, Expr.free, or_and_right] using mem
      exact .some (.list ⟨rfl, rfl⟩)
  have envs : Renaming.shift.Environments
      (Expr.app (.var "f" 1) (.literal (.integer 9) 1) 1).free
      ⟨[("f", .closure ⟨0⟩)]⟩ ⟨[("g", .closure ⟨0⟩), ("f", .closure ⟨1⟩)]⟩ := by
    intro x mem
    obtain rfl : x = "f" := by simpa [Expr.free] using mem
    exact .some (.closure ⟨rfl, rfl⟩)
  have valid : Store.Valid ⟨#[⟨.int, [.int 1]⟩], #[appender ⟨0⟩ []]⟩ := by
    constructor
    · rintro ⟨id⟩ v mem
      obtain rfl : id = 0 := Nat.lt_one_iff.mp (Store.lt_size_of_mem mem)
      obtain rfl : v = .int 1 := List.mem_singleton.mp mem
      exact trivial
    · rintro ⟨_ | id⟩ b mem
      · obtain rfl : b = ("xs", .list ⟨0⟩) := List.mem_singleton.mp mem
        exact Nat.zero_lt_one
      · rw [Store.closure_of_size_le (by simp)] at mem
        exact absurd mem List.not_mem_nil
  have free : ∀ x ∈ (Expr.app (.var "f" 1) (.literal (.integer 9) 1) 1).free, x = "f" := by
    simp [Expr.free]
  refine ⟨stores, envs, eval_depends_only_on_free.1 _ _ _ _ _ _ stores envs, ?_⟩
  refine eval_depends_only_on_free.2.2 _ _ _ _ valid (fun x mem => ?_) fun x mem v found => ?_
  · obtain rfl := free x mem
    rfl
  · obtain rfl := free x mem
    cases found
    exact Nat.zero_lt_one

end ListLang
