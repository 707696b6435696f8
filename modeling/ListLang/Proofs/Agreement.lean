import ListLang.Eval.Depth
import ListLang.Proofs.Renaming

/-!
# Evaluations that agree up to a renaming

Two evaluations that start in corresponding stores agree where both nest too deeply, both fail
for one cause, or both give results that correspond in corresponding stores, under an extension
of the renaming. Computations agree where their parts do, and so evaluation agrees on
expressions that are alike, in environments that correspond on what is free in them.

## Main definitions

* `Renaming.Outcomes` — outcomes that agree.
* `Renaming.Runs` — computations that agree from all corresponding stores.

## Main statements

* `Renaming.Runs.bind` — computations that go on from others agree.
* `Renaming.evaluates_eval` — evaluations of expressions that are alike agree.
-/

namespace ListLang.Renaming

variable {L : Likeness} {ρ σ : Renaming} {α β γ δ : Type}

/-- The outcomes agree under an extension of the renaming, under which results are related
by `Q`. -/
inductive Outcomes (L : Likeness) (ρ : Renaming) (Q : Renaming → α → β → Prop) :
    EStateM.Result Halt Store α → EStateM.Result Halt Store β → Prop where
  | ok {σ : Renaming} {a : α} {b : β} {s t : Store} : ρ ≤ σ → σ.Stores L s t → Q σ a b →
    Outcomes L ρ Q (.ok a s) (.ok b t)
  | failed {line line' : Nat} {cause : EvalError.Cause} {s t : Store} : L.lines line line' →
    Outcomes L ρ Q (.error (.failed ⟨line, cause⟩) s) (.error (.failed ⟨line', cause⟩) t)
  | tooDeep {s t : Store} : Outcomes L ρ Q (.error .tooDeep s) (.error .tooDeep t)

theorem Outcomes.of_le {Q : Renaming → α → β → Prop} {r : EStateM.Result Halt Store α}
    {r' : EStateM.Result Halt Store β} (h : σ.Outcomes L Q r r') (le : ρ ≤ σ) :
    ρ.Outcomes L Q r r' := by
  cases h with
  | ok le' stores q => exact .ok (le_trans le le') stores q
  | failed lines => exact .failed lines
  | tooDeep => exact .tooDeep

/-- From stores that correspond under the renaming, the outcomes agree. -/
def Runs (L : Likeness) (ρ : Renaming) (Q : Renaming → α → β → Prop) (a : Eval α) (b : Eval β) :
    Prop :=
  ∀ s t, ρ.Stores L s t → ρ.Outcomes L Q (a s) (b t)

/-- Both results are related by `Q`, or both are failures for one cause. -/
inductive Results (Q : α → β → Prop) :
    Except EvalError.Cause α → Except EvalError.Cause β → Prop where
  | ok {a : α} {b : β} : Q a b → Results Q (.ok a) (.ok b)
  | error (cause : EvalError.Cause) : Results Q (.error cause) (.error cause)

/-! ## Values -/

theorem Relates.refl {v : Value} (plain : v.Plain) : ρ.Relates v v := by
  cases v with
  | list | closure => exact plain.elim
  | _ => constructor

theorem Results.refl {r : Except EvalError.Cause Value} (computes : Computes r) :
    Results ρ.Relates r r := by
  cases r with
  | ok v => exact .ok (.refl (computes.2 v rfl))
  | error cause => exact .error cause

section Values

variable {v w v' w' : Value} (h : ρ.Relates v w)

include h

theorem asInt (context : String) : Results Eq (v.asInt context) (w.asInt context) := by
  cases h with
  | int n => exact .ok rfl
  | _ => exact .error _

theorem asBool (context : String) : Results Eq (v.asBool context) (w.asBool context) := by
  cases h with
  | bool b => exact .ok rfl
  | _ => exact .error _

theorem asList (context : String) : Results ρ.lists (v.asList context) (w.asList context) := by
  cases h with
  | list h => exact .ok h
  | _ => exact .error _

theorem asFunction (context : String) :
    Results Eq (v.asFunction context) (w.asFunction context) := by
  cases h with
  | closure | builtin => exact .ok rfl
  | _ => exact .error _

theorem builtinApply (b : Builtin) : Results ρ.Relates (b.apply v) (b.apply w) := by
  cases h with
  | list | closure => cases b <;> exact .error _
  | _ => exact .refl (computes_builtin _ b)

omit h in
theorem apply_of_not_plain (op : Operator) (places : ¬ (v.Plain ∧ v'.Plain)) :
    op.apply v v' = .error (.incompatibleOperands op v.kind v'.kind) := by
  unfold Operator.apply
  split <;> simp_all [Value.Plain]

theorem operatorApply (op : Operator) (h' : ρ.Relates v' w') :
    Results ρ.Relates (op.apply v v') (op.apply w w') := by
  by_cases plain : v.Plain ∧ v'.Plain
  · have same : v = w := by cases h <;> simp_all [Value.Plain]
    have same' : v' = w' := by cases h' <;> simp_all [Value.Plain]
    subst same same'
    exact .refl (computes_operator v v' op)
  · have plain' : ¬ (w.Plain ∧ w'.Plain) := by cases h <;> cases h' <;> simp_all [Value.Plain]
    rw [apply_of_not_plain op plain, apply_of_not_plain op plain', h.kind_eq, h'.kind_eq]
    exact .error _

end Values

/-! ## Rules -/

namespace Runs

variable {Q : Renaming → α → β → Prop} {R : Renaming → γ → δ → Prop} {line line' : Nat}

theorem pure {a : α} {b : β} (h : Q ρ a b) :
    ρ.Runs L Q (Pure.pure a : Eval α) (Pure.pure b : Eval β) :=
  fun _ _ stores => .ok (le_refl ρ) stores h

theorem fail (lines : L.lines line line') (cause : EvalError.Cause) :
    ρ.Runs L Q (Eval.fail line cause : Eval α) (Eval.fail line' cause : Eval β) :=
  fun _ _ _ => .failed lines

theorem throw_tooDeep : ρ.Runs L Q (throw .tooDeep : Eval α) (throw .tooDeep : Eval β) :=
  fun _ _ _ => .tooDeep

/-- Computations that go on from others agree, where they do from every result of those. -/
theorem bind {a : Eval α} {b : Eval β} {f : α → Eval γ} {g : β → Eval δ} (first : ρ.Runs L Q a b)
    (next : ∀ σ x y, ρ ≤ σ → Q σ x y → σ.Runs L R (f x) (g y)) :
    ρ.Runs L R (a >>= f) (b >>= g) := by
  intro s t stores
  change Outcomes L ρ R (EStateM.bind a f s) (EStateM.bind b g t)
  simp only [EStateM.bind]
  have outcomes := first s t stores
  generalize a s = r, b t = r' at outcomes ⊢
  cases outcomes with
  | @ok σ x y s' t' le stores' q => exact (next σ x y le q s' t' stores').of_le le
  | failed lines => exact .failed lines
  | tooDeep => exact .tooDeep

theorem ite {p p' : Prop} [Decidable p] [Decidable p'] {a c : Eval α} {b d : Eval β}
    (same : p ↔ p') (pos : ρ.Runs L Q a b) (neg : ρ.Runs L Q c d) :
    ρ.Runs L Q (if p then a else c) (if p' then b else d) := by
  by_cases h : p
  · rw [if_pos h, if_pos (same.mp h)]
    exact pos
  · rw [if_neg h, if_neg (mt same.mpr h)]
    exact neg

theorem orFail {T : γ → δ → Prop} {r : Except EvalError.Cause γ} {r' : Except EvalError.Cause δ}
    {f : γ → Eval α} {g : δ → Eval β} (lines : L.lines line line') (results : Results T r r')
    (next : ∀ x y, T x y → ρ.Runs L Q (f x) (g y)) :
    ρ.Runs L Q (Eval.orFail line r >>= f) (Eval.orFail line' r' >>= g) := by
  cases results with
  | ok h => exact next _ _ h
  | error cause => exact fun _ _ _ => .failed lines

theorem result {r r' : Except EvalError.Cause Value} (lines : L.lines line line')
    (results : Results ρ.Relates r r') :
    ρ.Runs L (·.Relates) (Eval.orFail line r : Eval Value) (Eval.orFail line' r') := by
  cases results with
  | ok h => exact .pure h
  | error cause => exact .fail lines cause

theorem list {a b : ListId} {f : ListCell → Eval α} {g : ListCell → Eval β} (h : ρ.lists a b)
    (next : ∀ c d, ρ.Cells c d → ρ.Runs L Q (f c) (g d)) :
    ρ.Runs L Q (Eval.list a >>= f) (Eval.list b >>= g) :=
  fun s t stores => next _ _ (stores.cells h) s t stores

theorem closure {a b : ClosureId} {f : Closure → Eval α} {g : Closure → Eval β}
    (h : ρ.closures a b) (next : ∀ c d, ρ.Closures L c d → ρ.Runs L Q (f c) (g d)) :
    ρ.Runs L Q (Eval.closure a >>= f) (Eval.closure b >>= g) :=
  fun s t stores => next _ _ (stores.functions h) s t stores

theorem newList {kind kind' : Kind} {vs ws : List Value} (same : kind = kind')
    (items : List.Forall₂ ρ.Relates vs ws) :
    ρ.Runs L (·.Relates) (Eval.newList kind vs : Eval Value) (Eval.newList kind' ws) := by
  intro s t stores
  obtain ⟨σ, le, stores', new⟩ := stores.addList (c := ⟨kind, vs⟩) (d := ⟨kind', ws⟩) ⟨same, items⟩
  exact .ok le stores' (.list new)

theorem newClosure {env env' : Environment} {param : String} {body body' : Expr}
    (alike : L.alike body body') (envs : ρ.Environments (body.free.filter (· ≠ param)) env env') :
    ρ.Runs L (·.Relates) (Eval.newClosure env param body : Eval Value)
      (Eval.newClosure env' param body') := by
  intro s t stores
  obtain ⟨σ, le, stores', new⟩ := stores.addClosure (c := ⟨env, param, body⟩)
    (d := ⟨env', param, body'⟩) fun σ le _ => ⟨rfl, alike, envs.mono le⟩
  exact .ok le stores' (.closure new)

/-- Giving back a list whose items were replaced. -/
theorem setItems {a b : ListId} {vs ws : List Value} (h : ρ.lists a b)
    (items : List.Forall₂ ρ.Relates vs ws) :
    ρ.Runs L (·.Relates) (do Eval.setItems a vs; Pure.pure (.list a) : Eval Value)
      (do Eval.setItems b ws; Pure.pure (.list b) : Eval Value) :=
  fun _ _ stores => .ok (le_refl ρ) (stores.setItems h items) (.list h)

theorem checkElement {op : ListOperation} {c d : ListCell} {v w : Value} {f : Unit → Eval α}
    {g : Unit → Eval β} (lines : L.lines line line') (cells : ρ.Cells c d) (h : ρ.Relates v w)
    (next : ρ.Runs L Q (f ()) (g ())) :
    ρ.Runs L Q (Eval.checkElement op c v line >>= f) (Eval.checkElement op d w line' >>= g) := by
  unfold Eval.checkElement
  rw [h.kind_eq, cells.contentKind]
  split
  · exact next
  · exact fun _ _ _ => .failed lines

theorem checkArity {op : ListOperation} {given : Nat} {f : Unit → Eval α} {g : Unit → Eval β}
    (lines : L.lines line line') (next : ρ.Runs L Q (f ()) (g ())) :
    ρ.Runs L Q (Eval.checkArity op given line >>= f) (Eval.checkArity op given line' >>= g) := by
  unfold Eval.checkArity
  split
  · exact next
  · exact fun _ _ _ => .failed lines

theorem position {op : ListOperation} {c d : ListCell} {n : Int64} {bound bound' : Nat}
    {f : Nat → Eval α} {g : Nat → Eval β} (lines : L.lines line line') (cells : ρ.Cells c d)
    (same : bound = bound') (next : ∀ i, ρ.Runs L Q (f i) (g i)) :
    ρ.Runs L Q (Eval.position op c n bound line >>= f)
      (Eval.position op d n bound' line' >>= g) := by
  subst same
  unfold Eval.position
  rw [cells.items.length_eq]
  split
  · exact next _
  · exact fun _ _ _ => .failed lines

end Runs

/-! ## List operations -/

theorem forall₂_eraseIdx {vs ws : List Value} (items : List.Forall₂ ρ.Relates vs ws) (i : Nat) :
    List.Forall₂ ρ.Relates (vs.eraseIdx i) (ws.eraseIdx i) := by
  rw [List.eraseIdx_eq_take_drop_succ, List.eraseIdx_eq_take_drop_succ]
  exact List.rel_append (List.forall₂_take i items) (List.forall₂_drop (i + 1) items)

theorem forall₂_insertIdx {vs ws : List Value} {v w : Value}
    (items : List.Forall₂ ρ.Relates vs ws) (related : ρ.Relates v w) (i : Nat) :
    List.Forall₂ ρ.Relates (vs.insertIdx i v) (ws.insertIdx i w) := by
  induction i generalizing vs ws with
  | zero => exact .cons related items
  | succ i ih =>
    cases items with
    | nil => exact .nil
    | cons first rest => exact .cons first (ih rest)

theorem forall₂_getD {vs ws : List Value} (items : List.Forall₂ ρ.Relates vs ws) (i : Nat) :
    ρ.Relates (vs.getD i default) (ws.getD i default) := by
  induction items generalizing i with
  | nil => exact .refl trivial
  | cons first _ ih =>
    cases i with
    | zero => exact first
    | succ i => exact ih i

section Lists

variable {a b : ListId} {v w : Value} {line line' : Nat}

theorem runs_detach (h : ρ.lists a b) (hv : ρ.Relates v w) :
    ρ.Runs L (·.Relates) (Eval.detach a v : Eval Value) (Eval.detach b w) := by
  cases hv with
  | @list x y related =>
    intro s t stores
    -- Whether the element ends and reaches the list is asked of each store and answered alike.
    rw [Eval.detach_list, Eval.detach_list, ← stores.toLists.ends related]
    split
    · next ends =>
      rw [← stores.toLists.reaches related h ends]
      split
      · obtain ⟨σ, le, stores', copied⟩ := stores.deepCopy related ends
        exact .ok le stores' (.list copied)
      · exact .ok (le_refl ρ) stores (.list related)
    · exact .tooDeep
  | closure related => exact .pure (.closure related)
  | _ => exact .pure (by constructor)

theorem runs_detachAll {vs ws : List Value} (items : List.Forall₂ ρ.Relates vs ws) (le : ρ ≤ σ)
    (h : σ.lists a b) :
    σ.Runs L (fun τ => List.Forall₂ τ.Relates) (vs.mapM (Eval.detach a) : Eval (List Value))
      (ws.mapM (Eval.detach b)) := by
  induction items generalizing σ with
  | nil => exact .pure .nil
  | cons first _ ih =>
    rw [List.mapM_cons, List.mapM_cons]
    refine .bind (runs_detach h (first.mono le)) fun τ x y le₁ related => ?_
    refine .bind (ih (le_trans le le₁) (le₁.1 _ _ h)) fun υ xs ys le₂ others => ?_
    exact .pure (.cons (related.mono le₂) others)

section Lines

variable (lines : L.lines line line')

include lines

theorem runs_join (h : ρ.lists a b) (hv : ρ.Relates v w) :
    ρ.Runs L (·.Relates) (Eval.join a v line : Eval Value) (Eval.join b w line') := by
  refine .orFail lines (asList hv _) fun x y related => .list h fun c d cells =>
    .list related fun c' d' cells' => ?_
  rw [cells.contentKind, cells'.contentKind]
  refine .ite Iff.rfl ?_ (.fail lines _)
  refine .bind (runs_detachAll cells'.items (le_refl ρ) h) fun σ xs ys le items => ?_
  exact .setItems (le.1 _ _ h) (List.rel_append (forall₂_mono cells.items le) items)

theorem runs_append (h : ρ.lists a b) (hv : ρ.Relates v w) :
    ρ.Runs L (·.Relates) (Eval.append a v line : Eval Value) (Eval.append b w line') := by
  refine .list h fun c d cells => .checkElement lines cells hv ?_
  refine .bind (runs_detach h hv) fun σ x y le related => ?_
  exact .setItems (le.1 _ _ h)
    (List.rel_append (forall₂_mono cells.items le) (.cons related .nil))

theorem runs_insertAt (n : Int64) (h : ρ.lists a b) (hv : ρ.Relates v w) :
    ρ.Runs L (·.Relates) (Eval.insertAt a v n line : Eval Value) (Eval.insertAt b w n line') := by
  refine .list h fun c d cells => .checkElement lines cells hv ?_
  refine .position lines cells (by rw [cells.items.length_eq]) fun i => ?_
  refine .bind (runs_detach h hv) fun σ x y le related => ?_
  exact .setItems (le.1 _ _ h) (forall₂_insertIdx (forall₂_mono cells.items le) related i)

theorem runs_removeAt (h : ρ.lists a b) (hv : ρ.Relates v w) :
    ρ.Runs L (·.Relates) (Eval.removeAt a v line : Eval Value) (Eval.removeAt b w line') := by
  refine .orFail lines (asInt hv _) ?_
  rintro n _ rfl
  refine .list h fun c d cells => .position lines cells cells.items.length_eq fun i => ?_
  exact .setItems h (forall₂_eraseIdx cells.items i)

theorem runs_getValue (h : ρ.lists a b) (hv : ρ.Relates v w) :
    ρ.Runs L (·.Relates) (Eval.getValue a v line : Eval Value) (Eval.getValue b w line') := by
  refine .orFail lines (asInt hv _) ?_
  rintro n _ rfl
  refine .list h fun c d cells => .position lines cells cells.items.length_eq fun i => ?_
  exact .pure (forall₂_getD cells.items i)

/-! ## Operations that call functions -/

/-- Functions that correspond agree on arguments that correspond. -/
def Applies (L : Likeness) (app app' : Value → Value → Eval Value) : Prop :=
  ∀ (ρ : Renaming) f f' x x', ρ.Relates f f' → ρ.Relates x x' →
    ρ.Runs L (·.Relates) (app f x) (app' f' x')

section Calls

variable {app app' : Value → Value → Eval Value} (applies : Applies L app app')

include applies

theorem runs_mapItems {vs ws : List Value} (items : List.Forall₂ ρ.Relates vs ws) (le : ρ ≤ σ)
    (hv : σ.Relates v w) (kind : Option Kind) :
    σ.Runs L (fun τ => List.Forall₂ τ.Relates) (Eval.mapItems (app v) line kind vs)
      (Eval.mapItems (app' w) line' kind ws) := by
  induction items generalizing σ kind with
  | nil => exact .pure .nil
  | cons first _ ih =>
    refine .bind (applies σ _ _ _ _ hv (first.mono le)) fun τ x y le₁ related => ?_
    dsimp only
    rw [related.kind_eq]
    refine .ite Iff.rfl ?_ (.fail lines _)
    refine .bind (ih (le_trans le le₁) (hv.mono le₁) _) fun υ xs ys le₂ others => ?_
    exact .pure (.cons (related.mono le₂) others)

theorem runs_map (h : ρ.lists a b) (hv : ρ.Relates v w) :
    ρ.Runs L (·.Relates) (Eval.map app a v line) (Eval.map app' b w line') := by
  refine .orFail lines (asFunction hv _) fun _ _ _ => .list h fun c d cells => ?_
  refine .bind (runs_mapItems lines applies cells.items (le_refl ρ) hv none)
    fun σ xs ys le items => .newList ?_ items
  cases items with
  | nil => exact cells.contentKind
  | cons first _ => exact first.kind_eq

theorem runs_filterItems {vs ws : List Value} (items : List.Forall₂ ρ.Relates vs ws) (le : ρ ≤ σ)
    (hv : σ.Relates v w) :
    σ.Runs L (fun τ => List.Forall₂ τ.Relates) (Eval.filterItems (app v) line vs)
      (Eval.filterItems (app' w) line' ws) := by
  induction items generalizing σ with
  | nil => exact .pure .nil
  | cons first _ ih =>
    refine .bind (applies σ _ _ _ _ hv (first.mono le)) fun τ x y le₁ related => ?_
    refine .orFail lines (asBool related _) ?_
    rintro keep _ rfl
    refine .bind (ih (le_trans le le₁) (hv.mono le₁)) fun υ xs ys le₂ others => .pure ?_
    cases keep with
    | true => exact .cons (first.mono (le_trans le (le_trans le₁ le₂))) others
    | false => exact others

theorem runs_filter (h : ρ.lists a b) (hv : ρ.Relates v w) :
    ρ.Runs L (·.Relates) (Eval.filter app a v line) (Eval.filter app' b w line') := by
  refine .orFail lines (asFunction hv _) fun _ _ _ => .list h fun c d cells => ?_
  refine .bind (runs_filterItems lines applies cells.items (le_refl ρ) hv)
    fun σ xs ys le items => ?_
  exact .setItems (le.1 _ _ h) items

omit lines in
theorem runs_foldItems {vs ws : List Value} (items : List.Forall₂ ρ.Relates vs ws) (le : ρ ≤ σ)
    (hv : σ.Relates v w) {acc acc' : Value} (hacc : σ.Relates acc acc') :
    σ.Runs L (·.Relates) (Eval.foldItems app v acc vs) (Eval.foldItems app' w acc' ws) := by
  induction items generalizing σ acc acc' with
  | nil => exact .pure hacc
  | cons first _ ih =>
    refine .bind (applies σ _ _ _ _ hv hacc) fun τ f f' le₁ step => ?_
    refine .bind (applies τ _ _ _ _ step (first.mono (le_trans le le₁))) fun υ x y le₂ related => ?_
    exact ih (le_trans le (le_trans le₁ le₂)) (hv.mono (le_trans le₁ le₂)) related

omit lines applies in
theorem runs_isCurried {α β : Type} {Q : Renaming → α → β → Prop} {f : Bool → Eval α}
    {g : Bool → Eval β} (hv : ρ.Relates v w)
    (next : ∀ curried, ρ.Runs L Q (f curried) (g curried)) :
    ρ.Runs L Q (Eval.isCurried v >>= f) (Eval.isCurried w >>= g) := by
  cases hv with
  | closure h =>
    refine Runs.closure (f := fun c => f (c.body.tag == .lam))
      (g := fun d => g (d.body.tag == .lam)) h fun c d closures => ?_
    rw [Likeness.tag_eq closures.body]
    exact next _
  | _ => exact next false

theorem runs_fold (h : ρ.lists a b) (hv : ρ.Relates v w) :
    ρ.Runs L (·.Relates) (Eval.fold app a v line) (Eval.fold app' b w line') := by
  refine .orFail lines (asFunction hv _) fun _ _ _ => runs_isCurried hv fun curried => ?_
  refine .ite Iff.rfl (.list h fun c d cells => ?_) (.fail lines _)
  obtain ⟨kind, items⟩ := c
  obtain ⟨kind', items'⟩ := d
  cases cells.items with
  | nil => exact .fail lines _
  | cons first rest =>
    cases rest with
    | nil => exact .fail lines _
    | cons second rest =>
      exact runs_foldItems applies (.cons second rest) (le_refl ρ) hv first

omit applies in
theorem runs_listOp1 (op : ListOperation) (h : ρ.lists a b) :
    ρ.Runs L (·.Relates) (Eval.listOp1 op a line : Eval Value) (Eval.listOp1 op b line') := by
  refine .list h fun c d cells => ?_
  cases op with
  | getSize =>
    rw [cells.items.length_eq]
    exact .pure (.int _)
  | isEmpty =>
    obtain ⟨kind, items⟩ := c
    obtain ⟨kind', items'⟩ := d
    cases cells.items <;> exact .pure (.bool _)
  | _ => exact .fail lines _

theorem runs_listOp2 (op : ListOperation) (h : ρ.lists a b) (hv : ρ.Relates v w) :
    ρ.Runs L (·.Relates) (Eval.listOp2 app op a v line) (Eval.listOp2 app' op b w line') := by
  cases op with
  | join => exact runs_join lines h hv
  | append => exact runs_append lines h hv
  | removeAtPosition => exact runs_removeAt lines h hv
  | getValue => exact runs_getValue lines h hv
  | map => exact runs_map lines applies h hv
  | filter => exact runs_filter lines applies h hv
  | fold => exact runs_fold lines applies h hv
  | getSize | isEmpty | insertAt => exact .fail lines _

omit applies in
theorem runs_listOp3 (op : ListOperation) (n : Int64) (h : ρ.lists a b) (hv : ρ.Relates v w) :
    ρ.Runs L (·.Relates) (Eval.listOp3 op a v n line : Eval Value)
      (Eval.listOp3 op b w n line') := by
  cases op with
  | insertAt => exact runs_insertAt lines n h hv
  | _ => exact .fail lines _

end Calls

end Lines

end Lists

/-! ## Expressions -/

/-- Evaluators agree on expressions that are alike, in environments that correspond on what is
free in them. -/
def Evaluates (L : Likeness) (f g : Environment → Expr → Eval Value) : Prop :=
  ∀ (ρ : Renaming) env env' e e', L.alike e e' → ρ.Environments e.free env env' →
    ρ.Runs L (·.Relates) (f env e) (g env' e')

theorem runs_bindSelf (recursive : Bool) (name : String) {v w : Value} (hv : ρ.Relates v w) :
    ρ.Runs L (fun σ _ _ => σ.Relates v w) (Eval.bindSelf recursive name v : Eval Unit)
      (Eval.bindSelf recursive name w) := by
  cases recursive with
  | false => exact .pure hv
  | true =>
    cases hv with
    | closure h =>
      exact fun s t stores => .ok (le_refl ρ) (stores.bindName h name) (.closure h)
    | list h => exact .pure (.list h)
    | _ => exact .pure (by constructor)

section Parts

variable {f g : Environment → Expr → Eval Value} (evaluates : Evaluates L f g)

include evaluates

theorem applies_applyWith {line line' : Nat} (lines : L.lines line line') :
    Applies L (Eval.applyWith f · · line) (Eval.applyWith g · · line') := by
  intro ρ v w x y hv hx
  cases hv with
  | closure h =>
    refine .closure h fun c d closures => ?_
    rw [← closures.param]
    exact evaluates ρ _ _ _ _ closures.body (closures.env.extend hx)
  | builtin b => exact .result lines (builtinApply hx b)
  | _ => exact .fail lines _

theorem runs_elementsWith {env env' : Environment} {es es' : List Expr}
    (alike : List.Forall₂ (fun e e' => L.alike e e' ∧ L.lines e.line e'.line) es es')
    (envs : ρ.Environments (Expr.allFree es) env env') :
    ρ.Runs L (fun σ => List.Forall₂ σ.Relates) (Eval.elementsWith (f env) es)
      (Eval.elementsWith (g env') es') := by
  induction alike generalizing ρ with
  | nil => exact .pure .nil
  | cons first _ ih =>
    obtain ⟨alike, lines⟩ := first
    simp only [Eval.elementsWith, ← Likeness.tag_eq alike]
    refine .ite Iff.rfl ?_ (.fail lines _)
    refine .bind (evaluates ρ _ _ _ _ alike (envs.subset (List.subset_append_left _ _)))
      fun σ x y le related => ?_
    refine .bind (ih ((envs.subset (List.subset_append_right _ _)).mono le))
      fun τ xs ys le₁ others => .pure (.cons (related.mono le₁) others)

/-- Evaluation agrees on expressions that are alike where it does on their parts and on the
bodies of closures, provided it does on a recursive `let` of a lambda. -/
theorem runs_evalWith {env env' : Environment} {e e' : Expr} (alike : L.alike e e')
    (envs : ρ.Environments e.free env env')
    (letRec : ∀ name param ty body line rest line',
      e = .letIn true name (.lam param ty body line) rest line' →
      ρ.Runs L (·.Relates) (Eval.evalWith f env e) (Eval.evalWith g env' e')) :
    ρ.Runs L (·.Relates) (Eval.evalWith f env e) (Eval.evalWith g env' e') := by
  have part : ∀ {σ : Renaming} {p p' : Expr}, ρ ≤ σ → p ∈ e.parts → L.alike p p' →
      σ.Runs L (·.Relates) (f env p) (g env' p') := fun le mem alike =>
    evaluates _ _ _ _ _ alike
      ((envs.subset fun _ free => Expr.mem_free_of_mem_parts mem free).mono le)
  cases L.opens alike with
  | @literal value => exact .pure (.refl (by cases value <;> exact trivial))
  | @var name line line' lines =>
    have bound := envs name (by simp [Expr.free])
    simp only [Eval.evalWith]
    generalize env.lookup name = v, env'.lookup name = w at bound ⊢
    cases bound with
    | some related => exact .pure related
    | none => exact .fail lines _
  | lam body => exact .newClosure body envs
  | app function argument lines =>
    refine .bind (part (le_refl ρ) (by simp [Expr.parts]) function) fun σ v w le hv => ?_
    rw [hv.kind_eq]
    refine .ite Iff.rfl ?_ (.fail lines _)
    refine .bind (part le (by simp [Expr.parts]) argument) fun τ x y le₁ hx => ?_
    exact applies_applyWith evaluates lines τ v w x y (hv.mono le₁) hx
  | cond condition consequent alternative lines =>
    refine .bind (part (le_refl ρ) (by simp [Expr.parts]) condition) fun σ v w le hv => ?_
    refine .orFail lines (asBool hv _) ?_
    rintro holds _ rfl
    exact .ite Iff.rfl (part le (by simp [Expr.parts]) consequent)
      (part le (by simp [Expr.parts]) alternative)
  | @binary op _ _ _ _ _ _ left right lines =>
    refine .bind (part (le_refl ρ) (by simp [Expr.parts]) left) fun σ v w le hv => ?_
    refine .bind (part le (by simp [Expr.parts]) right) fun τ x y le₁ hx => ?_
    exact .result lines (operatorApply (hv.mono le₁) op hx)
  | @letIn recursive name value value' body body' line line' alikeValue alikeBody =>
    by_cases lam : recursive ∧ value.tag = .lam
    · obtain ⟨rfl, isLam⟩ := lam
      cases value with
      | lam param ty inner line'' => exact letRec name param ty inner line'' body line rfl
      | literal value => cases value <;> cases isLam
      | _ => cases isLam
    · refine .bind (part (le_refl ρ) (by simp [Expr.parts, lam]) alikeValue) fun σ v w le hv => ?_
      refine .bind (runs_bindSelf recursive name hv) fun τ _ _ le₁ hv => ?_
      have inBody := envs.subset (List.subset_append_right _ _)
      exact evaluates τ _ _ _ _ alikeBody ((inBody.mono (le_trans le le₁)).extend hv)
  | list elements lines =>
    refine .bind (runs_elementsWith evaluates elements envs) fun σ vs ws le items => ?_
    cases items with
    | nil => exact .fail lines _
    | cons first rest => exact .newList first.kind_eq (.cons first rest)
  | listOp1 first lines =>
    refine .checkArity lines (.bind (part (le_refl ρ) (by simp [Expr.parts]) first)
      fun σ v w le hv => .orFail lines (asList hv _) fun a b h => ?_)
    exact runs_listOp1 lines _ h
  | listOp2 first second lines =>
    refine .checkArity lines (.bind (part (le_refl ρ) (by simp [Expr.parts]) first)
      fun σ v w le hv => .orFail lines (asList hv _) fun a b h => ?_)
    refine .bind (part le (by simp [Expr.parts]) second) fun τ x y le₁ hx => ?_
    exact runs_listOp2 lines (applies_applyWith evaluates lines) _ (le₁.1 _ _ h) hx
  | listOp3 first second third lines =>
    refine .checkArity lines (.bind (part (le_refl ρ) (by simp [Expr.parts]) first)
      fun σ v w le hv => .orFail lines (asList hv _) fun a b h => ?_)
    refine .bind (part le (by simp [Expr.parts]) second) fun τ x y le₁ hx => ?_
    refine .bind (part (le_trans le le₁) (by simp [Expr.parts]) third) fun υ n n' le₂ hn => ?_
    refine .orFail lines (asInt hn _) ?_
    rintro n _ rfl
    exact runs_listOp3 lines _ n (le₂.1 _ _ (le₁.1 _ _ h)) (hx.mono le₂)

/-- A recursive `let` of a lambda makes a closure that captures itself before the rest is
evaluated, so the environments need not correspond on its name. -/
theorem runs_letRec {env env' : Environment} {name param : String} {body body' rest rest' : Expr}
    (alike : L.alike body body') (alikeRest : L.alike rest rest')
    (envs : ρ.Environments ((body.free.filter (· ≠ param)).filter (· ≠ name)) env env')
    (envsRest : ρ.Environments (rest.free.filter (· ≠ name)) env env') :
    ρ.Runs L (·.Relates)
      (do
        let v ← Eval.newClosure env param body
        Eval.bindSelf true name v
        f (env.extend name v) rest)
      (do
        let v ← Eval.newClosure env' param body'
        Eval.bindSelf true name v
        g (env'.extend name v) rest') := by
  intro s t stores
  obtain ⟨σ, le, stores', new⟩ := stores.addClosure
    (c := ⟨env.extend name (.closure ⟨s.closures.size⟩), param, body⟩)
    (d := ⟨env'.extend name (.closure ⟨t.closures.size⟩), param, body'⟩)
    fun σ le new => ⟨rfl, alike, (envs.mono le).extend (.closure new)⟩
  have goesOn := evaluates σ _ _ rest rest' alikeRest ((envsRest.mono le).extend (.closure new))
    _ _ stores'
  rw [← Store.bindName_addClosure s ⟨env, param, body⟩,
    ← Store.bindName_addClosure t ⟨env', param, body'⟩] at goesOn
  exact goesOn.of_le le

end Parts

/-- Evaluations of expressions that are alike agree, in environments that correspond on what is
free in them. -/
theorem evaluates_eval (L : Likeness) (depth : Nat) :
    Evaluates L (eval depth) (eval depth) := by
  induction depth with
  | zero => exact fun _ _ _ _ _ _ _ => .throw_tooDeep
  | succ depth ih =>
    intro ρ env env' e e' alike envs
    refine runs_evalWith ih alike envs ?_
    rintro name param ty body line rest line' rfl
    cases L.opens alike with
    | letIn alikeValue alikeRest =>
      cases L.opens alikeValue with
      | lam alikeBody =>
        cases depth with
        | zero => exact fun _ _ _ => .tooDeep
        | succ depth =>
          refine runs_letRec ih alikeBody alikeRest (envs.subset ?_)
            (envs.subset (List.subset_append_right _ _))
          simp [Expr.free, Expr.tag]

end ListLang.Renaming
