import ListLang.Proofs.Discipline.Basic
import Mathlib.Data.List.InsertIdx

/-!
# Evaluation keeps lawful disciplines

Where a discipline is lawful, a whole recorded evaluation that starts well is good at every
moment, ends well, and halts only as the discipline allows.

## Main statements

* `Discipline.Lawful.evalWith` — evaluation keeps a discipline on an expression where it does
  on the parts.
* `Discipline.Lawful.record` — a recorded evaluation keeps a lawful discipline.
-/

namespace ListLang.Discipline

/-! ## List operations -/

namespace Lawful

variable {D : Discipline} (law : D.Lawful) {s : Store} {line : Nat} (fails : D.Fails line)

include law

theorem detach {id : ListId} {v : Value} (inv : D.inv s) (suits : D.suits s id v) :
    D.Keeps s ((Eval.detach id v : Recorder Value).run s)
      fun w t => D.fits t id w ∧ ∀ x, D.fits s id x → D.fits t id x := by
  have same : (∀ inner, v = .list inner → s.reaches inner id = false) →
      D.Keeps s ((Pure.pure v : Recorder Value).run s)
        fun w t => D.fits t id w ∧ ∀ x, D.fits s id x → D.fits t id x :=
    fun apart => .pure law inv ⟨law.same inv suits apart, fun _ h => h⟩
  cases v with
  | list inner =>
    change D.Keeps s ((if s.ends inner then if s.reaches inner id then _ else _ else _ :
      Recorder Value).run s) _
    split
    · split
      · next reaches =>
        obtain ⟨leads, fits, kept⟩ := law.copy inv suits reaches
        refine .bind (Q := fun copy t => D.fits t id (.list copy) ∧
          ∀ x, D.fits s id x → D.fits t id x) law (.step law leads ⟨fits, kept⟩) ?_
        exact fun copy t _ later h => .pure law later.1 h
      · next apart => exact same (by simpa using apart)
    · exact fun _ => ⟨by rintro m ⟨⟩, law.tooDeep⟩
  | _ => exact same (by simp)

theorem detachAll {id : ListId} {vs acc : List Value} (inv : D.inv s)
    (suits : ∀ v ∈ vs, D.suits s id v) (fits : ∀ v ∈ acc, D.fits s id v) :
    D.Keeps s ((List.mapM.loop (Eval.detach id) vs acc : Recorder (List Value)).run s)
      fun ws t => (∀ w ∈ ws, D.fits t id w) ∧ ∀ x, D.fits s id x → D.fits t id x := by
  induction vs generalizing s acc with
  | nil => exact .pure law inv ⟨fun v mem => fits v (List.mem_reverse.mp mem), fun _ h => h⟩
  | cons v vs ih =>
    refine .bind law (law.detach inv (suits v (by simp))) fun w t _ leads ⟨hw, kept⟩ => ?_
    have fits' : ∀ u ∈ w :: acc, D.fits t id u :=
      List.forall_mem_cons.mpr ⟨hw, fun u mem => kept u (fits u mem)⟩
    have rest := ih leads.1 (fun u mem => law.suits_mono leads.2 (suits u (by simp [mem]))) fits'
    exact rest.mono fun ws u h => ⟨h.1, fun x hx => h.2 x (kept x hx)⟩

/-- Putting one checked element into a list, wherever it goes. -/
theorem insert {id : ListId} {v : Value} (inv : D.inv s) (has : D.has s (.list id))
    (has' : D.has s v) (same : v.kind = (s.list id).contentKind) (put : Value → List Value)
    (mem_put : ∀ w x, x ∈ put w → x = w ∨ x ∈ (s.list id).items) :
    D.Keeps s ((do
      let w ← Eval.detach id v
      Eval.setItems id (put w)
      Pure.pure (.list id) : Recorder Value).run s) fun v t => D.has t v := by
  have suits := law.checked inv has has' same
  refine .bind law (law.detach inv suits) fun w t _ leads ⟨fits, kept⟩ => ?_
  have later := law.has_mono leads.2 has
  refine .setItems law later (law.write leads.1 later fun x mem => ?_)
  obtain rfl | mem := mem_put w x mem
  · exact fits
  · exact kept x (law.held inv has mem)

section Fails

include fails

theorem join {id : ListId} {other : Value} (inv : D.inv s) (has : D.has s (.list id))
    (has' : D.has s other) :
    D.Keeps s ((Eval.join id other line : Recorder Value).run s) fun v t => D.has t v := by
  refine .orFail fails (bound_asList _ _) fun otherId isList => ?_
  obtain rfl : other = .list otherId := by cases other <;> cases isList; rfl
  refine .list (.list ?_)
  split
  · next same =>
    refine .bind law (law.detachAll inv (fun v mem => law.shared inv has has' mem same)
      (by simp)) fun items t _ leads ⟨fits, kept⟩ => ?_
    have later := law.has_mono leads.2 has
    refine .setItems law later (law.write leads.1 later fun v mem => ?_)
    obtain mem | mem := List.mem_append.mp mem
    · exact kept v (law.held inv has mem)
    · exact fits v mem
  · exact .fail (fails _ (by simp))

theorem append {id : ListId} {v : Value} (inv : D.inv s) (has : D.has s (.list id))
    (has' : D.has s v) :
    D.Keeps s ((Eval.append id v line : Recorder Value).run s) fun v t => D.has t v := by
  refine .checkElement fails fun same => ?_
  refine law.insert inv has has' same (fun w => (s.list id).items ++ [w]) ?_
  intro w x mem
  simpa [or_comm] using mem

theorem insertAt {id : ListId} {v : Value} {n : Int64} (inv : D.inv s)
    (has : D.has s (.list id)) (has' : D.has s v) :
    D.Keeps s ((Eval.insertAt id v n line : Recorder Value).run s) fun v t => D.has t v := by
  refine .checkElement fails fun same => .position fails fun i => ?_
  refine law.insert inv has has' same (fun w => (s.list id).items.insertIdx i w) ?_
  exact fun w x mem => List.eq_or_mem_of_mem_insertIdx mem

theorem removeAt {id : ListId} {index : Value} (inv : D.inv s) (has : D.has s (.list id)) :
    D.Keeps s ((Eval.removeAt id index line : Recorder Value).run s) fun v t => D.has t v := by
  refine .orFail fails (bound_asInt _ _) fun n _ => .position fails fun i => ?_
  exact .setItems law has (law.write inv has fun v mem =>
    law.held inv has (List.mem_of_mem_eraseIdx mem))

theorem getValue {id : ListId} {index : Value} (inv : D.inv s) (has : D.has s (.list id)) :
    D.Keeps s ((Eval.getValue id index line : Recorder Value).run s) fun v t => D.has t v := by
  refine .orFail fails (bound_asInt _ _) fun n _ => .position fails fun i => ?_
  refine .pure law inv ?_
  rw [List.getD_eq_getElem?_getD]
  cases found : (s.list id).items[i]? with
  | some v => exact law.item inv has (List.mem_of_getElem? found)
  | none => exact law.plain trivial

end Fails

/-! ## Operations that call functions -/

section Calls

variable {app : Value → Value → Recorder Value} (applies : D.Applies app)

include applies fails

theorem mapItems {function : Value} {kind : Option Kind} {items : List Value} (inv : D.inv s)
    (has : D.has s function) (has' : ∀ v ∈ items, D.has s v) :
    D.Keeps s ((Eval.mapItems (app function) line kind items).run s) fun vs t =>
      (∀ v ∈ vs, D.has t v) ∧
        ∀ k, (kind <|> vs.head?.map Value.kind) = some k → ∀ v ∈ vs, v.kind = k := by
  induction items generalizing s kind with
  | nil => exact .pure law inv ⟨by simp, by simp⟩
  | cons v vs ih =>
    refine .bind law (applies function v s inv has (has' v (by simp))) fun w t _ leads hw => ?_
    dsimp only
    split
    · next expected =>
      have hvs : ∀ u ∈ vs, D.has t u := fun u mem => law.has_mono leads.2 (has' u (by simp [mem]))
      refine .bind law (ih leads.1 (law.has_mono leads.2 has) hvs) fun ws u _ later ⟨hws, kinds⟩ =>
        .pure law later.1 ⟨?_, ?_⟩
      · exact List.forall_mem_cons.mpr ⟨law.has_mono later.2 hw, hws⟩
      · intro k hk
        have known : kind.getD w.kind = k := by cases kind <;> simp_all
        have others := kinds k (by simp [known])
        exact List.forall_mem_cons.mpr ⟨expected.symm.trans known, others⟩
    · exact .fail (fails _ (by simp))

theorem map {id : ListId} {function : Value} (inv : D.inv s) (has : D.has s (.list id))
    (has' : D.has s function) :
    D.Keeps s ((Eval.map app id function line).run s) fun v t => D.has t v := by
  refine .orFail fails (bound_asFunction _ _) fun _ _ => .list ?_
  refine .bind law (law.mapItems fails applies inv has' fun v mem => law.item inv has mem)
    fun vs t _ leads ⟨hvs, kinds⟩ => ?_
  have alike : ∀ v ∈ vs, D.has t v ∧
      v.kind = (vs.head?.map Value.kind).getD (s.list id).contentKind := by
    refine fun v mem => ⟨hvs v mem, ?_⟩
    cases vs with
    | nil => cases mem
    | cons w ws => exact kinds w.kind rfl v mem
  exact (Keeps.newList law (law.mapped leads.1 alike)).mono fun v t h => h.1

theorem filterItems {predicate : Value} {items : List Value} (inv : D.inv s)
    (has : D.has s predicate) (has' : ∀ v ∈ items, D.has s v) :
    D.Keeps s ((Eval.filterItems (app predicate) line items).run s) fun kept _ => kept ⊆ items := by
  induction items generalizing s with
  | nil => exact .pure law inv (by simp)
  | cons v vs ih =>
    refine .bind law (applies predicate v s inv has (has' v (by simp))) fun w t _ leads _ => ?_
    refine .orFail fails (bound_asBool _ _) fun keep _ => ?_
    have rest := ih leads.1 (law.has_mono leads.2 has)
      fun u mem => law.has_mono leads.2 (has' u (by simp [mem]))
    refine .bind law rest fun kept u _ later subset => .pure law later.1 ?_
    cases keep with
    | true => exact List.cons_subset_cons v subset
    | false => exact List.subset_cons_of_subset v subset

theorem filter {id : ListId} {predicate : Value} (inv : D.inv s) (has : D.has s (.list id))
    (has' : D.has s predicate)
    (sound : ∀ t, ((Eval.filter app id predicate line).run s).outcome = .ok (.list id) t →
      D.sound t id) :
    D.Keeps s ((Eval.filter app id predicate line).run s) fun v t => D.has t v := by
  refine .orFail fails (bound_asFunction _ _) fun _ isFunction => .list ?_
  have ran : (Eval.filter app id predicate line).run s = (do
      let kept ← Eval.filterItems (app predicate) line (s.list id).items
      Eval.setItems id kept
      Pure.pure (.list id) : Recorder Value).run s := by
    rw [Eval.filter, isFunction]
    rfl
  rw [ran] at sound
  refine .bind law (law.filterItems fails applies inv has' fun v mem => law.item inv has mem)
    fun kept t ok leads subset => ?_
  have written := sound (t.setItems id kept) (Recorder.outcome_bind ok _)
  exact .setItems law (law.has_mono leads.2 has)
    (law.filtered inv has subset leads.1 leads.2 written)

omit fails in
theorem foldItems {function acc : Value} {items : List Value} (inv : D.inv s)
    (has : D.has s function) (has' : D.has s acc) (has'' : ∀ v ∈ items, D.has s v) :
    D.Keeps s ((Eval.foldItems app function acc items).run s) fun v t => D.has t v := by
  induction items generalizing s acc with
  | nil => exact .pure law inv has'
  | cons v vs ih =>
    refine .bind law (applies function acc s inv has has') fun step t _ leads hstep => ?_
    have hv := law.has_mono leads.2 (has'' v (by simp))
    refine .bind law (applies step v t leads.1 hstep hv) fun w u _ later hw => ?_
    have on := law.trans leads.2 later.2
    exact ih later.1 (law.has_mono on has) hw fun x mem => law.has_mono on (has'' x (by simp [mem]))

theorem fold {id : ListId} {function : Value} (inv : D.inv s) (has : D.has s (.list id))
    (has' : D.has s function) :
    D.Keeps s ((Eval.fold app id function line).run s) fun v t => D.has t v := by
  refine .orFail fails (bound_asFunction _ _) fun _ _ => .isCurried fun curried => ?_
  split
  · have held : ∀ v ∈ (s.list id).items, D.has s v := fun v mem => law.item inv has mem
    refine .list ?_
    split
    · next seed item rest eq =>
      rw [eq] at held
      exact law.foldItems applies inv has' (held seed (by simp)) fun v mem =>
        held v (List.mem_cons_of_mem _ mem)
    · exact .fail (fails _ (by simp))
  · exact .fail (fails _ (by simp))

omit applies in
theorem listOp1 {op : ListOperation} {id : ListId} (inv : D.inv s) :
    D.Keeps s ((Eval.listOp1 op id line : Recorder Value).run s) fun v t => D.has t v := by
  refine .list ?_
  cases op with
  | getSize | isEmpty => exact .pure law inv (law.plain trivial)
  | _ => exact .fail (fails _ (by simp))

theorem listOp2 {op : ListOperation} {id : ListId} {second : Value} (inv : D.inv s)
    (has : D.has s (.list id)) (has' : D.has s second)
    (sound : ∀ t, op = .filter →
      ((Eval.listOp2 app op id second line).run s).outcome = .ok (.list id) t → D.sound t id) :
    D.Keeps s ((Eval.listOp2 app op id second line).run s) fun v t => D.has t v := by
  cases op with
  | join => exact law.join fails inv has has'
  | append => exact law.append fails inv has has'
  | removeAtPosition => exact law.removeAt fails inv has
  | getValue => exact law.getValue fails inv has
  | map => exact law.map fails applies inv has has'
  | filter => exact law.filter fails applies inv has has' fun t => sound t rfl
  | fold => exact law.fold fails applies inv has has'
  | getSize | isEmpty | insertAt => exact .fail (fails _ (by simp))

omit applies in
theorem listOp3 {op : ListOperation} {id : ListId} {second : Value} {third : Int64}
    (inv : D.inv s) (has : D.has s (.list id)) (has' : D.has s second) :
    D.Keeps s ((Eval.listOp3 op id second third line : Recorder Value).run s)
      fun v t => D.has t v := by
  cases op with
  | insertAt => exact law.insertAt fails inv has has'
  | _ => exact .fail (fails _ (by simp))

end Calls

/-! ## Expressions -/

theorem bindSelf {recursive : Bool} {name : String} {v : Value} (inv : D.inv s)
    (has : D.has s v) :
    D.Keeps s ((Eval.bindSelf recursive name v : Recorder Unit).run s) fun _ _ => True := by
  unfold Eval.bindSelf
  split
  · exact .step (f := fun s => (PUnit.unit, s.bindName _ name _)) law (law.bindName inv has) trivial
  · exact .pure law inv trivial

section Parts

variable {f : Environment → Expr → Recorder Value}
  (keeps : ∀ env e s, D.inv s → D.runs s env e → D.Keeps s ((f env e).run s) (D.Gives e))

include keeps

theorem applyWith (fails : D.Fails line) : D.Applies fun v w => Eval.applyWith f v w line := by
  intro function argument s inv has has'
  cases function with
  | closure id => exact (keeps _ _ s inv (law.body inv has has')).mono fun v t h => h.1
  | builtin b =>
    obtain ⟨bound, plain⟩ := computes_builtin argument b
    change D.Keeps s ((Eval.orFail line (b.apply argument) : Recorder Value).run s) _
    cases result : b.apply argument with
    | ok v => exact .pure law inv (law.plain (plain v result))
    | error cause => exact .fail (fails _ fun name h => bound name (h ▸ result))
  | _ => exact .fail (fails _ (by simp))

theorem elementsWith {env : Environment} {es : List Expr} (inv : D.inv s)
    (runs : ∀ e ∈ es, D.runs s env e) :
    D.Keeps s ((Eval.elementsWith (f env) es).run s) fun vs t =>
      List.Forall₂ (fun e v => D.has t v ∧ e.tag.dataKind? = some v.kind) es vs := by
  induction es generalizing s with
  | nil => exact .pure law inv .nil
  | cons e es ih =>
    have first := runs e (by simp)
    rw [Eval.elementsWith]
    split
    · next data =>
      obtain ⟨kind, hkind⟩ := Option.isSome_iff_exists.mp data
      refine .bind law (keeps env e s inv first) fun v t _ leads given => ?_
      have rest := ih leads.1 fun e' mem => law.runs_mono leads.2 (runs e' (by simp [mem]))
      refine .bind law rest fun vs u _ later all => .pure law later.1 (.cons ⟨?_, ?_⟩ all)
      · exact law.has_mono later.2 given.1
      · rw [hkind, given.2 kind hkind]
    · exact .fail (law.fails first (by simp))

/-- The evaluation of the list that an operation works on. -/
theorem operand {env : Environment} {e : Expr} {op : ListOperation} {g : ListId → Recorder Value}
    {Q : Value → Store → Prop} (fails : D.Fails line) (inv : D.inv s) (runs : D.runs s env e)
    (ok : ∀ id t, ((f env e).run s).outcome = .ok (.list id) t → D.Leads s t →
      D.has t (.list id) → D.Keeps t ((g id).run t) Q) :
    D.Keeps s ((do
      let v ← f env e
      let id ← Eval.orFail line (v.asList op.keyword)
      g id).run s) Q := by
  refine .bind law (keeps env e s inv runs) fun v t ran leads given => ?_
  refine .orFail fails (bound_asList _ _) fun id isList => ?_
  obtain rfl : v = .list id := by cases v <;> cases isList; rfl
  exact ok id t ran leads given.1

omit keeps law in
theorem outcome_listOp2 {env : Environment} {op : ListOperation} {first second : Expr}
    {t u : Store} {id : ListId} {v : Value} (arity : op.arity = 2)
    (ok : ((f env first).run s).outcome = .ok (.list id) t)
    (ok' : ((f env second).run t).outcome = .ok v u) :
    ((Eval.evalWith f env (.listOp2 op first second line)).run s).outcome =
      ((Eval.listOp2 (Eval.applyWith f · · line) op id v line).run u).outcome := by
  simp only [Eval.evalWith, Eval.checkArity, arity, if_true]
  change ((f env first >>= _).run s).outcome = _
  rw [Recorder.outcome_bind ok]
  change ((f env second >>= _).run t).outcome = _
  rw [Recorder.outcome_bind ok']

/-- Evaluation keeps the discipline on an expression where it does on the parts and on the
bodies of closures, provided it does on a recursive `let` of a lambda. -/
theorem evalWith {env : Environment} {e : Expr} (inv : D.inv s) (runs : D.runs s env e)
    (sound : ∀ list predicate line, e = .listOp2 .filter list predicate line → ∀ id t,
      ((Eval.evalWith f env e).run s).outcome = .ok (.list id) t → D.sound t id)
    (letRec : ∀ name param ty body line rest line',
      e = .letIn true name (.lam param ty body line) rest line' →
      D.Keeps s ((Eval.evalWith f env e).run s) fun v t => D.has t v) :
    D.Keeps s ((Eval.evalWith f env e).run s) (D.Gives e) := by
  have fails : D.Fails e.line := fun cause => law.fails runs
  have other : e.tag.dataKind? = none →
      D.Keeps s ((Eval.evalWith f env e).run s) (fun v t => D.has t v) →
      D.Keeps s ((Eval.evalWith f env e).run s) (D.Gives e) :=
    fun none h => h.mono fun v t has => ⟨has, by simp [none]⟩
  cases e with
  | literal value line =>
    cases value <;> exact .pure law inv ⟨law.plain trivial, by rintro _ ⟨⟩; rfl⟩
  | var name line =>
    refine other rfl ?_
    simp only [Eval.evalWith]
    cases found : env.lookup name with
    | some v => exact .pure law inv (law.lookup runs found)
    | none => exact .fail (law.unbound runs found)
  | lam param ty body line =>
    refine other rfl ?_
    obtain ⟨leads, has⟩ := law.lam inv runs
    refine .bind law (.step (f := fun s => s.addClosure ⟨env, param, body⟩) law leads
      (Q := fun id t => D.has t (.closure id)) has) fun id t _ later has => ?_
    exact .pure law later.1 has
  | app function argument line =>
    refine other rfl ?_
    have runs' := law.part (p := argument) runs (by simp [Expr.parts])
    refine .bind law (keeps env function s inv (law.part runs (by simp [Expr.parts])))
      fun v t _ leads hv => ?_
    split
    · refine .bind law (keeps env argument t leads.1 (law.runs_mono leads.2 runs'))
        fun w u _ later hw => ?_
      exact law.applyWith keeps fails v w u later.1 (law.has_mono later.2 hv.1) hw.1
    · exact .fail (fails _ (by simp))
  | cond condition consequent alternative line =>
    refine other rfl ?_
    refine .bind law (keeps env condition s inv (law.part runs (by simp [Expr.parts])))
      fun v t _ leads hv => ?_
    refine .orFail fails (bound_asBool _ _) fun b _ => ?_
    have runs' : ∀ e ∈ [consequent, alternative], D.runs t env e := fun e mem =>
      law.runs_mono leads.2 (law.part runs (List.mem_cons_of_mem _ mem))
    split
    · exact (keeps env _ t leads.1 (runs' _ (by simp))).mono fun _ _ h => h.1
    · exact (keeps env _ t leads.1 (runs' _ (by simp))).mono fun _ _ h => h.1
  | binary op left right line =>
    refine other rfl ?_
    have runs' := law.part (p := right) runs (by simp [Expr.parts])
    refine .bind law (keeps env left s inv (law.part runs (by simp [Expr.parts])))
      fun v t _ leads hv => ?_
    refine .bind law (keeps env right t leads.1 (law.runs_mono leads.2 runs'))
      fun w u _ later hw => ?_
    obtain ⟨bound, plain⟩ := computes_operator v w op
    cases result : op.apply v w with
    | ok x => exact .pure law later.1 (law.plain (plain x result))
    | error cause => exact .fail (fails _ fun name h => bound name (h ▸ result))
  | letIn recursive name value body line =>
    refine other rfl ?_
    by_cases lam : recursive ∧ value.tag = .lam
    · obtain ⟨rfl, isLam⟩ := lam
      cases value with
      | lam param ty inner line' => exact letRec name param ty inner line' body line rfl
      | literal value => cases value <;> cases isLam
      | _ => cases isLam
    · refine .bind law (keeps env value s inv (law.part runs (by simp [Expr.parts, lam])))
        fun v t _ leads hv => ?_
      refine .bind law (law.bindSelf leads.1 hv.1) fun _ u _ later _ => ?_
      have runs' := law.letBody (law.runs_mono (law.trans leads.2 later.2) runs)
        (law.has_mono later.2 hv.1)
      exact (keeps _ body u later.1 runs').mono fun _ _ h => h.1
  | list tag elements line =>
    refine .bind law (law.elementsWith keeps inv fun e mem => law.part runs mem)
      fun vs t _ leads all => ?_
    cases vs with
    | nil => exact .fail (fails _ (by simp))
    | cons v vs =>
      have makes := law.literal leads.1 (law.runs_mono leads.2 runs) all
      refine (Keeps.newList law makes).mono fun w u h => ⟨h.1, ?_⟩
      rintro _ ⟨⟩
      exact h.2
  | listOp1 op first line =>
    refine other rfl (.checkArity fails fun _ => ?_)
    exact law.operand keeps fails inv (law.part runs (by simp [Expr.parts]))
      fun id t _ leads has => law.listOp1 fails leads.1
  | listOp2 op first second line =>
    refine other rfl (.checkArity fails fun arity => ?_)
    have runs' := law.part (p := second) runs (by simp [Expr.parts])
    refine law.operand keeps fails inv (law.part runs (by simp [Expr.parts]))
      fun id t ok leads has => ?_
    refine .bind law (keeps env second t leads.1 (law.runs_mono leads.2 runs'))
      fun v u ok' later hv => ?_
    refine law.listOp2 fails (law.applyWith keeps fails) later.1 (law.has_mono later.2 has) hv.1 ?_
    rintro r rfl ran
    exact sound first second line rfl id r ((outcome_listOp2 arity ok ok').trans ran)
  | listOp3 op first second third line =>
    refine other rfl (.checkArity fails fun _ => ?_)
    have runs₂ := law.part (p := second) runs (by simp [Expr.parts])
    have runs₃ := law.part (p := third) runs (by simp [Expr.parts])
    refine law.operand keeps fails inv (law.part runs (by simp [Expr.parts]))
      fun id t _ leads has => ?_
    refine .bind law (keeps env second t leads.1 (law.runs_mono leads.2 runs₂))
      fun v u _ later hv => ?_
    have on := law.trans leads.2 later.2
    refine .bind law (keeps env third u later.1 (law.runs_mono on runs₃))
      fun w r _ last hw => ?_
    refine .orFail fails (bound_asInt _ _) fun n _ => ?_
    exact law.listOp3 fails last.1 (law.has_mono (law.trans later.2 last.2) has)
      (law.has_mono last.2 hv.1)

end Parts

/-- A recursive `let` of a lambda makes the closure and binds it to its name before anything
else is evaluated. -/
theorem letRec_lam {depth : Nat} (keeps : ∀ env e s, D.inv s → D.runs s env e →
      D.Keeps s ((ListLang.record depth env e).run s) (D.Gives e))
    {env : Environment} {name param : String} {ty : Option Ty} {body rest : Expr} {line' : Nat}
    (inv : D.inv s) (runs : D.runs s env (.letIn true name (.lam param ty body line) rest line')) :
    D.Keeps s ((Eval.evalWith (ListLang.record depth) env
      (.letIn true name (.lam param ty body line) rest line')).run s) fun v t => D.has t v := by
  obtain ⟨good, leads, has⟩ := law.letRec inv runs
  cases depth with
  | zero => exact fun _ => ⟨by rintro m ⟨⟩, law.tooDeep⟩
  | succ depth =>
    have runs' := law.letBody (law.runs_mono leads.2 runs) has
    let made := s.addClosure ⟨env, param, body⟩
    have before : ∀ m ∈ [Moment.call (depth + 1) env (.lam param ty body line) s,
        .change made.2, .change (made.2.bindName made.1 name (.closure made.1))],
        D.good m.store := by
      rintro m (_ | ⟨_, _ | ⟨_, _ | ⟨_, ⟨⟩⟩⟩⟩)
      · exact law.good inv
      · exact good
      · exact law.good leads.1
    have goesOn := Keeps.after law before leads.2 (keeps _ rest _ leads.1 runs')
    exact goesOn.mono fun _ _ h => h.1

/-- A recorded evaluation keeps a lawful discipline. -/
theorem record (depth : Nat) (env : Environment) (e : Expr) (s : Store) (inv : D.inv s)
    (runs : D.runs s env e) : D.Keeps s ((ListLang.record depth env e).run s) (D.Gives e) := by
  induction depth generalizing env e s with
  | zero => exact fun _ => ⟨by rintro m ⟨⟩, law.tooDeep⟩
  | succ depth keeps =>
    intro sound
    have start : ∀ m ∈ [Moment.call (depth + 1) env e s], D.good m.store := by
      rintro m (_ | ⟨_, ⟨⟩⟩)
      exact law.good inv
    refine Keeps.after law start (law.refl s) (law.evalWith keeps inv runs ?_ ?_) sound
    · rintro list predicate line rfl id t ran
      refine sound _ List.mem_cons_self id t ⟨_, _, list, predicate, line, s, rfl, ?_⟩
      rw [← record_outcome]
      exact ran
    · rintro name param ty body line rest line' rfl
      exact law.letRec_lam keeps inv runs

end Lawful

end ListLang.Discipline
