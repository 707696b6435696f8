import ListLang.Proofs.Discipline.Evaluation
import ListLang.Proofs.Nesting
import Mathlib.Tactic.Tauto

/-!
# Static scoping

A variable is found unbound only where it is free in the program and no builtin. Every
closure that a program makes is closed by what it captured, but for such names. That holds
too of the closure of a recursive `let`, once the `let` has bound its name in it.

## Main definitions

* `Expr.free` — the free variables of an expression.
* `Closure.Closed` — closures whose captured environment binds the free variables of the body.

## Main statements

* `scoping_lawful` — evaluation keeps closures closed.
* `free_of_unboundVariable` — static scoping is sound.
-/

namespace ListLang

namespace Expr

mutual

/-- The free variables. The name of a recursive `let` is bound in its value only where that is
a lambda, and in its body always. -/
def free : Expr → List String
  | literal .. => []
  | var name _ => [name]
  | lam param _ body _ => body.free.filter (· ≠ param)
  | app function argument _ => function.free ++ argument.free
  | cond condition consequent alternative _ =>
    condition.free ++ consequent.free ++ alternative.free
  | binary _ left right _ => left.free ++ right.free
  | letIn recursive name value body _ =>
    (if recursive ∧ value.tag = .lam then value.free.filter (· ≠ name) else value.free) ++
      body.free.filter (· ≠ name)
  | list _ elements _ => allFree elements
  | listOp1 _ first _ => first.free
  | listOp2 _ first second _ => first.free ++ second.free
  | listOp3 _ first second third _ => first.free ++ second.free ++ third.free

/-- The free variables of the expressions, in order. -/
def allFree : List Expr → List String
  | [] => []
  | e :: rest => e.free ++ allFree rest

end

theorem mem_allFree {x : String} {es : List Expr} : x ∈ allFree es ↔ ∃ e ∈ es, x ∈ e.free := by
  induction es with
  | nil => simp [allFree]
  | cons e es ih => simp [allFree, ih]

/-- What is free in a part is free in the expression. -/
theorem mem_free_of_mem_parts {e p : Expr} (part : p ∈ e.parts) {x : String}
    (mem : x ∈ p.free) : x ∈ e.free := by
  cases e with
  | literal | var | lam => cases part
  | list tag elements line => exact mem_allFree.mpr ⟨p, part, mem⟩
  | letIn recursive name value body line =>
    simp only [parts] at part
    split at part
    · cases part
    · next plain =>
      obtain rfl := List.mem_singleton.mp part
      simp [free, plain, mem]
  | app | cond | binary | listOp1 | listOp2 | listOp3 =>
    simp only [parts, List.mem_cons, List.not_mem_nil, or_false] at part
    simp only [free, List.mem_append]
    grind

end Expr

theorem Environment.contains_extend (env : Environment) (name other : String) (v : Value) :
    (env.extend name v).contains other = true ↔ other = name ∨ env.contains other = true := by
  simp only [contains, lookup_extend]
  split <;> simp_all

theorem Environment.contains_initial (name : String) :
    initial.contains name = true ↔ name ∈ Builtin.all.map Builtin.name := by
  simp only [initial, Builtin.all, List.foldl_cons, List.foldl_nil, contains_extend, List.map_cons,
    List.map_nil, List.mem_cons, List.not_mem_nil, or_false]
  simp only [contains, lookup_empty, Option.isSome_none, Bool.false_eq_true, or_false]
  tauto

/-- The environment binds the names, but for those in `missing`. -/
def Environment.Covers (missing : List String) (env : Environment) (names : List String) : Prop :=
  ∀ x ∈ names, env.contains x = true ∨ x ∈ missing

/-- The captured environment and the parameter cover the body. -/
def Closure.Closed (missing : List String) (c : Closure) : Prop :=
  ∀ v, (c.env.extend c.param v).Covers missing c.body.free

section Scoping

variable {missing : List String} {env : Environment}

/-- What is free under a binder is covered where the binder is bound. -/
theorem Environment.Covers.extend {names : List String} {name : String}
    (covers : env.Covers missing (names.filter (· ≠ name))) (v : Value) :
    (env.extend name v).Covers missing names := by
  intro x mem
  rw [Environment.contains_extend]
  by_cases same : x = name
  · exact .inl (.inl same)
  · exact (covers x (by simp [mem, same])).imp_left .inr

theorem Environment.Covers.mono {names more : List String} (covers : env.Covers missing more)
    (subset : names ⊆ more) : env.Covers missing names :=
  fun x mem => covers x (subset mem)

/-- The discipline of scopes, by which only names in `missing` are found unbound. -/
def scoping (missing : List String) : Discipline where
  inv s := ∀ id, (s.closure id).Closed missing
  good _ := True
  evolves _ _ := True
  has _ _ := True
  runs _ env e := env.Covers missing e.free
  suits _ _ _ := True
  fits _ _ _ := True
  sound _ _ := True
  halts h := ∀ line name, h = .failed ⟨line, .unboundVariable name⟩ → name ∈ missing

theorem closed_addClosure {s : Store} {c : Closure} (closed : ∀ id, (s.closure id).Closed missing)
    (new : c.Closed missing) (id : ClosureId) : ((s.addClosure c).2.closure id).Closed missing := by
  rw [Store.closure_addClosure_eq]
  split
  · exact new
  · exact closed id

theorem closed_bindName {s : Store} {found : ClosureId} {name : String} {v : Value}
    (others : ∀ id, id ≠ found → (s.closure id).Closed missing)
    (bound : ({ s.closure found with env := (s.closure found).env.extend name v } : Closure).Closed
      missing) (id : ClosureId) : ((s.bindName found name v).closure id).Closed missing := by
  by_cases same : id = found
  · subst same
    by_cases old : id.index < s.closures.size
    · rw [Store.closure_bindName s name v old]
      exact bound
    · rw [Store.closure_of_size_le (by simpa using old)]
      exact fun v x mem => absurd mem List.not_mem_nil
  · rw [Store.closure_bindName_of_ne s name v same]
    exact others id same

/-- A closure stays closed when its captured environment is extended. -/
theorem Closure.Closed.extend {c : Closure} (closed : c.Closed missing) (name : String)
    (v : Value) : ({ c with env := c.env.extend name v } : Closure).Closed missing := by
  intro w x mem
  have covered := closed w x mem
  simp only [Environment.contains_extend] at covered ⊢
  tauto

/-- Evaluation keeps closures closed. -/
theorem scoping_lawful (missing : List String) : (scoping missing).Lawful where
  good _ := trivial
  refl _ := trivial
  trans _ _ := trivial
  has_mono _ _ := trivial
  runs_mono _ runs := runs
  plain _ := trivial
  lookup _ _ := trivial
  part runs part := runs.mono fun _ mem => Expr.mem_free_of_mem_parts part mem
  letBody runs _ := .extend (runs.mono fun x mem => List.mem_append_right _ mem) _
  lam inv runs := ⟨⟨closed_addClosure inv fun v => .extend runs v, trivial⟩, trivial⟩
  letRec {s env name param ty body line rest line'} inv runs := by
    refine ⟨trivial, ⟨closed_bindName (fun id ne => ?_) ?_, trivial⟩, trivial⟩
    · have old : id.index ≠ s.closures.size := by
        rintro same
        cases id
        exact ne (congrArg ClosureId.mk same)
      rw [Store.closure_addClosure_eq, if_neg old]
      exact inv id
    · rw [Store.closure_addClosure]
      refine fun v => .extend (.extend (runs.mono fun x mem => ?_) _) v
      exact List.mem_append_left _ (by simpa [Expr.free, Expr.tag] using mem)
  bindName inv _ := ⟨closed_bindName (fun id _ => inv id) ((inv _).extend _ _), trivial⟩
  body {s id v} inv _ _ := inv id v
  literal inv _ _ := ⟨⟨inv, trivial⟩, trivial⟩
  mapped inv _ := ⟨⟨inv, trivial⟩, trivial⟩
  item _ _ _ := trivial
  checked _ _ _ _ := trivial
  shared _ _ _ _ _ := trivial
  suits_mono _ _ := trivial
  held _ _ _ := trivial
  same _ _ _ := trivial
  copy {s id inner} inv _ _ := by
    have adds := Store.extends_copyWithin s.lists.size s inner
    exact ⟨⟨fun c => adds.closure c ▸ inv c, trivial⟩, trivial, fun _ _ => trivial⟩
  write inv _ _ := ⟨inv, trivial⟩
  filtered _ _ _ inv _ _ := ⟨inv, trivial⟩
  tooDeep := by simp [scoping]
  unbound {s env name line} runs none := by
    rintro _ _ ⟨⟩
    have covered := runs name (by simp [Expr.free])
    simpa [Environment.contains, none] using covered
  fails _ other := by
    rintro _ name ⟨⟩
    exact absurd rfl (other name)

end Scoping

/-- A variable that an evaluation finds unbound is free in the expression and not bound in the
environment. -/
theorem free_of_eval {depth line : Nat} {env : Environment} {e : Expr} {name : String} {t : Store}
    (ran : eval depth env e .empty = .error (.failed ⟨line, .unboundVariable name⟩) t) :
    name ∈ e.free ∧ env.contains name = false := by
  let missing := e.free.filter fun x => !env.contains x
  have covers : env.Covers missing e.free := by
    intro x mem
    cases bound : env.contains x with
    | true => exact .inl rfl
    | false => exact .inr (List.mem_filter.mpr ⟨mem, by simp [bound]⟩)
  have closed : ∀ id, (Store.empty.closure id).Closed missing := by
    intro id
    rw [Store.closure_of_size_le (Nat.zero_le _)]
    exact fun v x mem => absurd mem List.not_mem_nil
  obtain ⟨-, ends⟩ := (scoping_lawful missing).record depth env e .empty closed covers
    fun _ _ _ _ _ => trivial
  rw [record_outcome, ran] at ends
  simpa using List.mem_filter.mp (ends line name rfl)

theorem eval_of_evaluate {depth : Nat} {source : String} {err : EvalError}
    (failed : evaluate depth source = .error (.eval err)) :
    ∃ e t, parse source = .ok e ∧ eval depth .initial e .empty = .error (.failed err) t := by
  unfold evaluate run at failed
  cases parsed : parse source with
  | error e => simp [parsed] at failed
  | ok e =>
    cases ran : eval depth .initial e .empty with
    | ok v t => simp [parsed, ran] at failed
    | error h t =>
      cases h with
      | tooDeep => simp [parsed, ran, Error.ofHalt] at failed
      | failed e' =>
        simp only [parsed, ran, Error.ofHalt, Except.error.injEq, Error.eval.injEq] at failed
        exact ⟨e, t, rfl, failed ▸ ran⟩

instance (r : Except Error Snapshot) (e : Error) : Decidable (r = .error e) :=
  match r with
  | .ok _ => isFalse (by simp)
  | .error found => decidable_of_iff (found = e) (by simp)

/-- A variable that a program's evaluation finds unbound is free in the program and no builtin,
so a program with no free variables but builtins finds none unbound. -/
theorem free_of_unboundVariable (depth : Nat) (source : String) :
    (∀ line name, evaluate depth source = .error (.eval ⟨line, .unboundVariable name⟩) →
      ∃ e, parse source = .ok e ∧ name ∈ e.free ∧ name ∉ Builtin.all.map Builtin.name) ∧
    ∀ e, parse source = .ok e → (∀ x ∈ e.free, x ∈ Builtin.all.map Builtin.name) →
      ∀ line name, evaluate depth source ≠ .error (.eval ⟨line, .unboundVariable name⟩) := by
  have sound : ∀ line name, evaluate depth source = .error (.eval ⟨line, .unboundVariable name⟩) →
      ∃ e, parse source = .ok e ∧ name ∈ e.free ∧ name ∉ Builtin.all.map Builtin.name := by
    intro line name failed
    obtain ⟨e, t, parsed, ran⟩ := eval_of_evaluate failed
    obtain ⟨free, unbound⟩ := free_of_eval ran
    refine ⟨e, parsed, free, fun builtin => ?_⟩
    rw [Environment.contains_initial name |>.mpr builtin] at unbound
    cases unbound
  refine ⟨sound, fun e parsed builtins line name failed => ?_⟩
  obtain ⟨e', parsed', free, other⟩ := sound line name failed
  rw [parsed] at parsed'
  cases parsed'
  exact other (builtins name free)

/-- A recursive function that is mapped over a list finds the free variable of its body. -/
theorem free_of_unboundVariable_mapped :
    evaluate 20 "let rec f = \\n => if n == 0 then y else f (n - 1) in ListMap List[1, 2] f" =
      .error (.eval ⟨1, .unboundVariable "y"⟩) ∧
    ∃ e,
      parse "let rec f = \\n => if n == 0 then y else f (n - 1) in ListMap List[1, 2] f" = .ok e ∧
        "y" ∈ e.free ∧ "y" ∉ Builtin.all.map Builtin.name := by
  have failed : evaluate 20
      "let rec f = \\n => if n == 0 then y else f (n - 1) in ListMap List[1, 2] f" =
      .error (.eval ⟨1, .unboundVariable "y"⟩) := by decide +kernel
  exact ⟨failed, (free_of_unboundVariable 20 _).1 1 "y" failed⟩

end ListLang
