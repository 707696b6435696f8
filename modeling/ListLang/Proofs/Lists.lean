import ListLang.Proofs.Discipline.Evaluation
import ListLang.Proofs.Nesting
import ListLang.Proofs.Yields

/-!
# The lists of a program

Every list that a program makes has elements of one kind for good. No list comes to be inside
itself by being made, copied, joined, appended to, inserted into or shortened at a position;
filtering alone may bring that about, because it puts back items that its predicate may have
put the list into. So a program's lists are acyclic exactly where none of its filterings puts
its list inside itself.

## Main definitions

* `Store.Homogeneous` — lists with elements of their content kind.
* `Store.Evolves` — a store with the places of another and the content kinds of its lists.
* `Store.WellMade` — what evaluation keeps of a store, with or without acyclic lists.

## Main statements

* `lists_lawful` — evaluation keeps stores well made.
* `homogeneous_of_mem_reached` — lists have elements of one kind, which is for good.
* `acyclic_reached_iff_filters` — when lists are acyclic, and that looking into them ends then.
-/

namespace ListLang

open Relation (ReflTransGen TransGen)

namespace Store

variable {s t u : Store}

/-- Every list has elements of its content kind only. -/
def Homogeneous (s : Store) : Prop :=
  ∀ id, ∀ v ∈ (s.list id).items, v.kind = (s.list id).contentKind

/-- `t` has the places of `s`, and its lists have their content kinds. -/
structure Evolves (s t : Store) : Prop extends Grows s t where
  kinds : ∀ id, s.Has (.list id) → (t.list id).contentKind = (s.list id).contentKind

theorem Evolves.refl (s : Store) : Evolves s s := ⟨.refl s, fun _ _ => rfl⟩

theorem Evolves.trans (h : Evolves s t) (g : Evolves t u) : Evolves s u where
  toGrows := h.toGrows.trans g.toGrows
  kinds id has := (g.kinds id (has.mono h.toGrows)).trans (h.kinds id has)

theorem Extends.evolves (h : Extends s t) : Evolves s t :=
  ⟨h.grows, fun id has => by rw [h.old id has]⟩

theorem evolves_addList (s : Store) (cell : ListCell) : Evolves s (s.addList cell).2 :=
  ((Extends.refl s).addList cell).evolves

theorem evolves_addClosure (s : Store) (c : Closure) : Evolves s (s.addClosure c).2 :=
  ⟨grows_addClosure s c, fun _ _ => rfl⟩

theorem evolves_setItems (s : Store) (id : ListId) (items : List Value) :
    Evolves s (s.setItems id items) :=
  ⟨grows_setItems s id items, fun other _ => contentKind_setItems s id other items⟩

theorem evolves_bindName (s : Store) (id : ClosureId) (name : String) (v : Value) :
    Evolves s (s.bindName id name v) :=
  ⟨grows_bindName s id name v, fun _ _ => rfl⟩

theorem evolves_step {α : Type} {f : Store → α × Store} (step : Eval.Step f) (s : Store) :
    Evolves s (f s).2 := by
  cases step with
  | addList cell => exact evolves_addList s cell
  | addClosure c => exact evolves_addClosure s c
  | deepCopy id => exact (extends_copyWithin _ s id).evolves
  | setItems id items => exact evolves_setItems s id items

theorem Homogeneous.empty : Homogeneous empty :=
  fun _ _ mem => absurd (lt_size_of_mem mem) (Nat.not_lt_zero _)

theorem Homogeneous.addList (homogeneous : s.Homogeneous) {cell : ListCell}
    (kinds : ∀ v ∈ cell.items, v.kind = cell.contentKind) : (s.addList cell).2.Homogeneous := by
  intro id v mem
  rw [list_addList_eq] at mem ⊢
  split at mem
  · next new =>
    rw [if_pos new]
    exact kinds v mem
  · next old =>
    rw [if_neg old]
    exact homogeneous id v mem

theorem Homogeneous.setItems (homogeneous : s.Homogeneous) {id : ListId} {items : List Value}
    (kinds : ∀ v ∈ items, v.kind = (s.list id).contentKind) :
    (s.setItems id items).Homogeneous := by
  intro other v mem
  rw [contentKind_setItems]
  obtain ⟨rfl, new⟩ | ⟨-, old⟩ := mem_items_setItems mem
  · exact kinds v new
  · exact homogeneous other v old

/-- What evaluation keeps of a store. Its lists are acyclic where that is asked for. -/
structure WellMade (strict : Prop) (s : Store) : Prop where
  valid : s.Valid
  homogeneous : s.Homogeneous
  regular : ∀ id, (s.closure id).body.Regular
  acyclic : strict → s.Acyclic

namespace WellMade

variable {strict : Prop}

theorem empty : WellMade strict empty where
  valid := .empty
  homogeneous := .empty
  regular id := by
    rw [closure_of_size_le (Nat.zero_le _)]
    exact trivial
  acyclic _ := .empty

theorem addList (h : WellMade strict s) {cell : ListCell} (has : ∀ v ∈ cell.items, s.Has v)
    (kinds : ∀ v ∈ cell.items, v.kind = cell.contentKind) : WellMade strict (s.addList cell).2 where
  valid := h.valid.addList has
  homogeneous := h.homogeneous.addList kinds
  regular := h.regular
  acyclic hs := (h.acyclic hs).addList h.valid has

theorem addClosure (h : WellMade strict s) {c : Closure} (has : ∀ b ∈ c.env.bindings, s.Has b.2)
    (regular : c.body.Regular) : WellMade strict (s.addClosure c).2 where
  valid := h.valid.addClosure has
  homogeneous := h.homogeneous
  regular id := by
    rw [closure_addClosure_eq]
    split
    · exact regular
    · exact h.regular id
  acyclic := h.acyclic

theorem bindName (h : WellMade strict s) {id : ClosureId} (name : String) {v : Value}
    (has : s.Has v) : WellMade strict (s.bindName id name v) where
  valid := h.valid.bindName name has
  homogeneous := h.homogeneous
  regular other := by
    by_cases same : other = id
    · subst same
      by_cases old : other.index < s.closures.size
      · rw [closure_bindName s name v old]
        exact h.regular other
      · rw [closure_of_size_le (by simpa using old)]
        exact trivial
    · rw [closure_bindName_of_ne s name v same]
      exact h.regular other
  acyclic := h.acyclic

theorem setItems (h : WellMade strict s) {id : ListId} {items : List Value}
    (has : ∀ v ∈ items, s.Has v) (kinds : ∀ v ∈ items, v.kind = (s.list id).contentKind)
    (outside : strict → ¬ TransGen (s.setItems id items).Holds id id) :
    WellMade strict (s.setItems id items) where
  valid := h.valid.setItems has
  homogeneous := h.homogeneous.setItems kinds
  regular := h.regular
  acyclic hs := (h.acyclic hs).setItems (outside hs)

theorem copyable : Copyable (WellMade strict) where
  valid _ h := h.valid
  addList s cell like h has kind kinds := by
    refine h.addList has fun v mem => ?_
    obtain ⟨w, held, same⟩ : ∃ w ∈ (s.list like).items, w.kind = v.kind :=
      List.mem_map.mp (kinds ▸ List.mem_map_of_mem mem)
    rw [← same, kind]
    exact h.homogeneous like w held

end WellMade

end Store

/-! ## What evaluation keeps -/

theorem Expr.Regular.of_mem_parts {e p : Expr} (regular : e.Regular) (mem : p ∈ e.parts) :
    p.Regular := by
  cases e with
  | literal | var | lam => cases mem
  | app =>
    obtain ⟨h₁, h₂⟩ := regular
    rcases mem with _ | ⟨_, _ | ⟨_, ⟨⟩⟩⟩ <;> assumption
  | cond =>
    obtain ⟨h₁, h₂, h₃⟩ := regular
    rcases mem with _ | ⟨_, _ | ⟨_, _ | ⟨_, ⟨⟩⟩⟩⟩ <;> assumption
  | binary =>
    obtain ⟨h₁, h₂⟩ := regular
    rcases mem with _ | ⟨_, _ | ⟨_, ⟨⟩⟩⟩ <;> assumption
  | letIn recursive name value body line =>
    simp only [Expr.parts] at mem
    split at mem
    · cases mem
    · obtain rfl := List.mem_singleton.mp mem
      exact regular.1
  | list tag elements line => exact Expr.allRegular_iff.mp regular.2.2 p mem
  | listOp1 =>
    obtain rfl := List.mem_singleton.mp mem
    exact regular.2
  | listOp2 =>
    obtain ⟨-, h₁, h₂⟩ := regular
    rcases mem with _ | ⟨_, _ | ⟨_, ⟨⟩⟩⟩ <;> assumption
  | listOp3 =>
    obtain ⟨-, h₁, h₂, h₃⟩ := regular
    rcases mem with _ | ⟨_, _ | ⟨_, _ | ⟨_, ⟨⟩⟩⟩⟩ <;> assumption

/-- The value may stand in the list at `id`: it is of the content kind, and a list that does
not lead to `id` where that is asked for. -/
structure Store.Fits (strict : Prop) (s : Store) (id : ListId) (v : Value) : Prop where
  list : s.Has (.list id)
  has : s.Has v
  kind : v.kind = (s.list id).contentKind
  apart : strict → ∀ inner, v = .list inner → ¬ ReflTransGen s.Holds inner id

/-- The discipline of lists, by which lists stay acyclic where `strict` asks for it. -/
def lists (strict : Prop) : Discipline where
  inv := Store.WellMade strict
  good := Store.WellMade strict
  evolves := Store.Evolves
  has := Store.Has
  runs s env e := (∀ b ∈ env.bindings, s.Has b.2) ∧ e.Regular
  suits := Store.Fits False
  fits := Store.Fits strict
  sound t id := strict → ¬ TransGen t.Holds id id
  halts _ := True

section Lists

variable {strict : Prop} {s t : Store} {id : ListId}

theorem Store.Fits.mono {v : Value} (h : s.Fits False id v) (evolves : Store.Evolves s t) :
    t.Fits False id v where
  list := h.list.mono evolves.toGrows
  has := h.has.mono evolves.toGrows
  kind := by rw [h.kind, evolves.kinds id h.list]
  apart := False.elim

/-- A new list of values of its content kind is well kept. -/
theorem lists_makes (h : s.WellMade strict) {cell : ListCell}
    (items : ∀ v ∈ cell.items, s.Has v ∧ v.kind = cell.contentKind) : (lists strict).Makes s cell :=
  ⟨⟨h.addList (fun v mem => (items v mem).1) fun v mem => (items v mem).2,
    Store.evolves_addList s cell⟩, s.has_addList cell⟩

/-- A copy of a list that leads to the list at `id` may stand in that list, as may all that
might before. -/
theorem lists_copy {inner : ListId} (h : s.WellMade strict)
    (suits : s.Fits False id (.list inner)) :
    (lists strict).Leads s (s.deepCopy inner).2 ∧
      (s.deepCopy inner).2.Fits strict id (.list (s.deepCopy inner).1) ∧
      ∀ v, s.Fits strict id v → (s.deepCopy inner).2.Fits strict id v := by
  have adds := Store.extends_copyWithin s.lists.size s inner
  have spec := Store.copyWithin_spec Store.WellMade.copyable s.lists.size s inner h suits.has
  have same := adds.old id suits.list
  refine ⟨⟨spec.keeps, adds.evolves⟩, ⟨suits.list.mono adds.grows, spec.has, ?_, ?_⟩, fun v fits =>
    ⟨fits.list.mono adds.grows, fits.has.mono adds.grows, ?_, ?_⟩⟩
  · exact suits.kind.trans (congrArg _ same.symm)
  · rintro hs _ ⟨⟩ path
    obtain ⟨fresh, new⟩ := spec.fresh ((h.acyclic hs).nests h.valid suits.has)
    exact absurd suits.list (Nat.not_lt.mpr (fresh.reflTransGen new path))
  · exact fits.kind.trans (congrArg _ same.symm)
  · rintro hs b rfl path
    exact fits.apart hs b rfl (adds.reflTransGen h.valid fits.has path)

/-- The elements of a literal of one form have the values of that form's kind. -/
theorem kinds_of_elements {tag : Tag} {es : List Expr} {vs : List Value}
    (tags : ∀ e ∈ es, e.tag = tag)
    (all : List.Forall₂ (fun e v => s.Has v ∧ e.tag.dataKind? = some v.kind) es vs) :
    ∀ v ∈ vs, s.Has v ∧ tag.dataKind? = some v.kind := by
  induction all with
  | nil => simp
  | @cons e v es vs first _ ih =>
    obtain ⟨same, others⟩ := List.forall_mem_cons.mp tags
    exact List.forall_mem_cons.mpr ⟨same ▸ first, ih others⟩

/-- Evaluation keeps stores well made. -/
theorem lists_lawful (strict : Prop) : (lists strict).Lawful where
  good h := h
  refl := .refl
  trans := .trans
  has_mono evolves has := has.mono evolves.toGrows
  runs_mono evolves runs := ⟨fun b mem => (runs.1 b mem).mono evolves.toGrows, runs.2⟩
  plain {s v} plain := by cases v <;> first | exact trivial | exact plain.elim
  lookup runs found := runs.1 _ (Environment.mem_of_lookup found)
  part runs mem := ⟨runs.1, runs.2.of_mem_parts mem⟩
  letBody runs has := ⟨List.forall_mem_cons.mpr ⟨has, runs.1⟩, runs.2.2⟩
  lam h runs :=
    ⟨⟨h.addClosure runs.1 runs.2, Store.evolves_addClosure _ _⟩, Store.has_addClosure _ _⟩
  letRec {s env name param ty body line rest line'} h runs := by
    have made := h.addClosure (c := ⟨env, param, body⟩) runs.1 runs.2.1
    have has := s.has_addClosure ⟨env, param, body⟩
    exact ⟨made, ⟨made.bindName name has, (Store.evolves_addClosure _ _).trans
      (Store.evolves_bindName _ _ _ _)⟩, has.mono (Store.grows_bindName _ _ _ _)⟩
  bindName h has := ⟨h.bindName _ has, Store.evolves_bindName _ _ _ _⟩
  body {s id v} h has has' :=
    ⟨List.forall_mem_cons.mpr ⟨has', h.valid.captured id⟩, h.regular id⟩
  literal {s env tag es line v vs} h runs all := by
    have kinds := kinds_of_elements runs.2.2.1 all
    obtain ⟨-, first⟩ := kinds v (by simp)
    refine lists_makes h fun w mem => ⟨(kinds w mem).1, ?_⟩
    exact Option.some.inj ((kinds w mem).2.symm.trans first)
  mapped h items := lists_makes h items
  item {s id v} h _ mem := h.valid.items id v mem
  checked h has has' same := ⟨has, has', same, False.elim⟩
  shared {s id other v} h has _ mem same :=
    ⟨has, h.valid.items other v mem, (h.homogeneous other v mem).trans same, False.elim⟩
  suits_mono evolves suits := suits.mono evolves
  held {s id v} h has mem := by
    refine ⟨has, h.valid.items id v mem, h.homogeneous id v mem, ?_⟩
    rintro hs inner rfl
    exact (h.acyclic hs).not_reflTransGen_of_holds mem
  same {s id v} h suits apart := by
    refine ⟨suits.list, suits.has, suits.kind, ?_⟩
    rintro hs inner rfl path
    have reaches := (Store.reaches_iff (h.acyclic hs) h.valid suits.has).mpr path
    simp [apart inner rfl] at reaches
  copy h suits _ := lists_copy h suits
  write {s id items} h has fits := by
    have outside : strict → ¬ TransGen (s.setItems id items).Holds id id := fun hs =>
      Store.not_transGen_setItems fun b mem => (fits _ mem).apart hs b rfl
    exact ⟨h.setItems (fun v mem => (fits v mem).has) (fun v mem => (fits v mem).kind) outside,
      Store.evolves_setItems _ _ _⟩
  filtered {s t id kept} h has subset ht evolves sound := by
    refine ⟨ht.setItems (fun v mem => ?_) (fun v mem => ?_) sound, Store.evolves_setItems _ _ _⟩
    · exact (h.valid.items id v (subset mem)).mono evolves.toGrows
    · rw [h.homogeneous id v (subset mem), evolves.kinds id has]
  tooDeep := trivial
  unbound _ _ := trivial
  fails _ _ := trivial

end Lists

/-! ## What programs reach -/

/-- What a program reaches is well made, with acyclic lists if every filtering leaves its
list outside itself. -/
theorem wellMade_of_mem_reached (strict : Prop) {depth : Nat} {source : String}
    (sound : strict → ∀ m ∈ moments depth source, ∀ id t, m.Filters id t →
      ¬ TransGen t.Holds id id) {t : Store} (mem : t ∈ reached depth source) :
    t.WellMade strict := by
  unfold reached at mem
  cases parsed : parse source with
  | ok e =>
    have runs : (lists strict).runs .empty .initial e := by
      refine ⟨?_, regular_of_parse parsed⟩
      simp [Environment.initial, Builtin.all, Environment.extend, Environment.empty, Store.Has]
    have keeps := (lists_lawful strict).record depth .initial e .empty .empty runs
    simp only [parsed, moments] at sound mem
    obtain ⟨good, -⟩ := keeps fun m mem id t filters hs => sound hs m mem id t filters
    obtain rfl | mem := List.mem_cons.mp mem
    · exact .empty
    · obtain ⟨m, recorded, rfl⟩ := List.mem_map.mp mem
      exact good m recorded
  | error e => simp [parsed] at mem

/-- The stores that a program reaches come one after another as lists allow. -/
theorem pairwise_reached (depth : Nat) (source : String) :
    (reached depth source).Pairwise Store.Evolves := by
  unfold reached
  split
  · exact (record_advances .refl (fun _ _ _ => .trans) Store.evolves_step
      (fun s id name => Store.evolves_bindName s id name _) depth _ _ _).ordered
  · exact .nil

/-- In every store that a program reaches, each list has elements of its content kind only,
and it has that content kind in every later store. -/
theorem homogeneous_of_mem_reached (depth : Nat) (source : String) :
    (∀ t ∈ reached depth source, t.Homogeneous) ∧
      (reached depth source).Pairwise fun s t =>
        ∀ id, s.Has (.list id) → (t.list id).contentKind = (s.list id).contentKind := by
  constructor
  · intro t mem
    exact (wellMade_of_mem_reached False False.elim mem).homogeneous
  · exact (pairwise_reached depth source).imp fun evolves => evolves.kinds

/-- An append that fails leaves the list as the append before it made it. -/
theorem homogeneous_of_mem_reached_failing : ∃ t ∈ reached 9
    "let xs = List[1] in let ys = ListAppend xs 2 in ListAppend xs true",
    (t.list ⟨0⟩).items = [.int 1, .int 2] ∧ t.Homogeneous := by
  obtain ⟨t, mem, items⟩ : ∃ t ∈ reached 9
      "let xs = List[1] in let ys = ListAppend xs 2 in ListAppend xs true",
      (t.list ⟨0⟩).items = [.int 1, .int 2] := by decide +kernel
  exact ⟨t, mem, items, (homogeneous_of_mem_reached 9 _).1 t mem⟩

theorem mem_reached_of_filters {depth : Nat} {source : String} {m : Moment}
    (mem : m ∈ moments depth source) {id : ListId} {t : Store} (filters : m.Filters id t) :
    t ∈ reached depth source := by
  obtain ⟨depth', env, list, predicate, line, s, rfl, ran⟩ := filters
  have ends := endStore_mem_reached mem
  rwa [ran] at ends

/-- The lists of a program are acyclic in every store it reaches exactly where each of its
filterings leaves its list outside itself. Where they are acyclic, looking into them ends. -/
theorem acyclic_reached_iff_filters (depth : Nat) (source : String) :
    ((∀ t ∈ reached depth source, t.Acyclic) ↔
      ∀ m ∈ moments depth source, ∀ id t, m.Filters id t → ¬ TransGen t.Holds id id) ∧
      ∀ t ∈ reached depth source, t.Acyclic → t.Settled := by
  refine ⟨⟨fun acyclic m mem id t filters => ?_, fun sound t mem => ?_⟩, fun t mem acyclic => ?_⟩
  · exact acyclic t (mem_reached_of_filters mem filters) id
  · exact (wellMade_of_mem_reached True (fun _ => sound) mem).acyclic trivial
  · exact acyclic.settled (wellMade_of_mem_reached False False.elim mem).valid

/-- A predicate that takes the one item out of the list and puts the list into the item makes
filtering put the item back into the list that it holds. -/
theorem filter_closes_cycle : ∃ t ∈ reached 12
    ("let l = List[List[List[1]]] in let x = ListGetValue l 0 in let f = ListFilter l " ++
      "(\\y => let a = ListRemoveAtPosition l 0 in let b = ListAppend x l in true) in " ++
      "let c = ListAppend (ListGetValue (ListGetValue l 0) 1) List[List[2]] in ListGetSize l"),
    ¬ t.Acyclic := by
  obtain ⟨t, mem, first, second⟩ : ∃ t ∈ reached 12
      ("let l = List[List[List[1]]] in let x = ListGetValue l 0 in let f = ListFilter l " ++
        "(\\y => let a = ListRemoveAtPosition l 0 in let b = ListAppend x l in true) in " ++
        "let c = ListAppend (ListGetValue (ListGetValue l 0) 1) List[List[2]] in ListGetSize l"),
      t.Holds ⟨1⟩ ⟨2⟩ ∧ t.Holds ⟨2⟩ ⟨1⟩ := by decide +kernel
  exact ⟨t, mem, fun acyclic => acyclic ⟨1⟩ (.tail (.single first) second)⟩

end ListLang
