import ListLang.Proofs.Nesting
import ListLang.Proofs.Scoping
import Mathlib.Logic.Relator
import Mathlib.Order.Defs.PartialOrder

/-!
# Stores up to a renaming of places

Two stores are alike under a one-to-one renaming of places where lists that correspond have
one content kind and corresponding items, and closures that correspond have one parameter,
bodies that are alike, and captured environments that correspond on what is free in the bodies.
A renaming need not concern all places: what it leaves out may be anything.

Every step of evaluation on one store can be followed on the other. A step that adds a place
extends the renaming by the two new places.

## Main definitions

* `Likeness` — a relation of expressions that have the same forms.
* `Renaming` — a one-to-one renaming of places, ordered by extension.
* `Renaming.Relates`, `Renaming.Environments`, `Renaming.Stores` — values, environments and
  stores that correspond.

## Main statements

* `Renaming.Stores.addList`, `Renaming.Stores.addClosure`, `Renaming.Stores.setItems`,
  `Renaming.Stores.bindName`, `Renaming.Stores.deepCopy` — the steps.
* `Renaming.Lists.ends`, `Renaming.Lists.reaches` — looking into lists.
-/

namespace ListLang

open Relation (ReflTransGen TransGen)

/-! ## Expressions that are alike -/

/-- The expressions have one form, with the same names, constants and operations and with parts
that are alike. Where evaluation may fail on them, their lines correspond. -/
inductive Expr.Matches (alike : Expr → Expr → Prop) (lines : Nat → Nat → Prop) :
    Expr → Expr → Prop where
  | literal {value line line'} : Matches alike lines (.literal value line) (.literal value line')
  | var {name line line'} : lines line line' →
    Matches alike lines (.var name line) (.var name line')
  | lam {param ty ty' body body' line line'} : alike body body' →
    Matches alike lines (.lam param ty body line) (.lam param ty' body' line')
  | app {function function' argument argument' line line'} : alike function function' →
    alike argument argument' → lines line line' →
    Matches alike lines (.app function argument line) (.app function' argument' line')
  | cond {e₁ e₁' e₂ e₂' e₃ e₃' line line'} : alike e₁ e₁' → alike e₂ e₂' → alike e₃ e₃' →
    lines line line' → Matches alike lines (.cond e₁ e₂ e₃ line) (.cond e₁' e₂' e₃' line')
  | binary {op left left' right right' line line'} : alike left left' → alike right right' →
    lines line line' →
    Matches alike lines (.binary op left right line) (.binary op left' right' line')
  | letIn {recursive name value value' body body' line line'} : alike value value' →
    alike body body' → Matches alike lines (.letIn recursive name value body line)
      (.letIn recursive name value' body' line')
  | list {tag tag' es es' line line'} :
    List.Forall₂ (fun e e' => alike e e' ∧ lines e.line e'.line) es es' → lines line line' →
    Matches alike lines (.list tag es line) (.list tag' es' line')
  | listOp1 {op e₁ e₁' line line'} : alike e₁ e₁' → lines line line' →
    Matches alike lines (.listOp1 op e₁ line) (.listOp1 op e₁' line')
  | listOp2 {op e₁ e₁' e₂ e₂' line line'} : alike e₁ e₁' → alike e₂ e₂' → lines line line' →
    Matches alike lines (.listOp2 op e₁ e₂ line) (.listOp2 op e₁' e₂' line')
  | listOp3 {op e₁ e₁' e₂ e₂' e₃ e₃' line line'} : alike e₁ e₁' → alike e₂ e₂' → alike e₃ e₃' →
    lines line line' →
    Matches alike lines (.listOp3 op e₁ e₂ e₃ line) (.listOp3 op e₁' e₂' e₃' line')

/-- A relation of expressions that have the same forms throughout, with a relation of the lines
on which evaluation may fail on them. -/
structure Likeness where
  alike : Expr → Expr → Prop
  lines : Nat → Nat → Prop
  opens : ∀ {e e'}, alike e e' → e.Matches alike lines e'

namespace Likeness

variable {L : Likeness} {e e' : Expr}

/-- Only an expression itself is like it. -/
def equality : Likeness where
  alike := Eq
  lines := Eq
  opens {e e'} same := by
    subst same
    cases e with
    | list => exact .list (List.forall₂_same.mpr fun _ _ => ⟨rfl, rfl⟩) rfl
    | _ => constructor <;> rfl

theorem tag_eq (alike : L.alike e e') : e.tag = e'.tag := by
  cases L.opens alike <;> rfl

end Likeness

/-! ## Renamings -/

/-- A one-to-one renaming of places. -/
structure Renaming where
  lists : ListId → ListId → Prop
  closures : ClosureId → ClosureId → Prop
  lists_biUnique : Relator.BiUnique lists
  closures_biUnique : Relator.BiUnique closures

namespace Renaming

variable {ρ σ : Renaming} {s s' t t' : Store}

/-- A renaming is below the renamings that extend it. -/
instance : Preorder Renaming where
  le ρ σ := (∀ a b, ρ.lists a b → σ.lists a b) ∧ ∀ a b, ρ.closures a b → σ.closures a b
  le_refl _ := ⟨fun _ _ h => h, fun _ _ h => h⟩
  le_trans _ _ _ h g := ⟨fun a b r => g.1 a b (h.1 a b r), fun a b r => g.2 a b (h.2 a b r)⟩

/-- The values correspond: they are the same, or places of which one is renamed to the other. -/
inductive Relates (ρ : Renaming) : Value → Value → Prop where
  | int (n : Int64) : Relates ρ (.int n) (.int n)
  | bool (b : Bool) : Relates ρ (.bool b) (.bool b)
  | string (s : String) : Relates ρ (.string s) (.string s)
  | list {a b : ListId} : ρ.lists a b → Relates ρ (.list a) (.list b)
  | closure {a b : ClosureId} : ρ.closures a b → Relates ρ (.closure a) (.closure b)
  | builtin (b : Builtin) : Relates ρ (.builtin b) (.builtin b)

/-- On the names, the environments bind values that correspond or nothing. -/
def Environments (ρ : Renaming) (names : List String) (env env' : Environment) : Prop :=
  ∀ x ∈ names, Option.Rel ρ.Relates (env.lookup x) (env'.lookup x)

/-- The lists have one content kind and items that correspond. -/
structure Cells (ρ : Renaming) (c d : ListCell) : Prop where
  contentKind : c.contentKind = d.contentKind
  items : List.Forall₂ ρ.Relates c.items d.items

/-- The closures have one parameter, bodies that are alike, and captured environments that
correspond on what is free in the bodies. -/
structure Closures (L : Likeness) (ρ : Renaming) (c d : Closure) : Prop where
  param : c.param = d.param
  body : L.alike c.body d.body
  env : ρ.Environments (c.body.free.filter (· ≠ c.param)) c.env d.env

/-- Lists of the two stores that are renamed to each other correspond. -/
structure Lists (ρ : Renaming) (s t : Store) : Prop where
  left : ∀ {a b}, ρ.lists a b → s.Has (.list a)
  right : ∀ {a b}, ρ.lists a b → t.Has (.list b)
  cells : ∀ {a b}, ρ.lists a b → ρ.Cells (s.list a) (t.list b)

/-- Lists and closures of the two stores that are renamed to each other correspond. -/
structure Stores (L : Likeness) (ρ : Renaming) (s t : Store) : Prop extends ρ.Lists s t where
  leftClosure : ∀ {a b}, ρ.closures a b → s.Has (.closure a)
  rightClosure : ∀ {a b}, ρ.closures a b → t.Has (.closure b)
  functions : ∀ {a b}, ρ.closures a b → ρ.Closures L (s.closure a) (t.closure b)

theorem Relates.mono {v w : Value} (h : ρ.Relates v w) (le : ρ ≤ σ) : σ.Relates v w := by
  cases h with
  | list h => exact .list (le.1 _ _ h)
  | closure h => exact .closure (le.2 _ _ h)
  | _ => constructor

theorem Relates.kind_eq {v w : Value} (h : ρ.Relates v w) : v.kind = w.kind := by
  cases h <;> rfl

theorem Environments.mono {names : List String} {env env' : Environment}
    (h : ρ.Environments names env env') (le : ρ ≤ σ) : σ.Environments names env env' := by
  intro x mem
  have related := h x mem
  generalize env.lookup x = v, env'.lookup x = w at related ⊢
  cases related with
  | some related => exact .some (related.mono le)
  | none => exact .none

theorem Environments.subset {names more : List String} {env env' : Environment}
    (h : ρ.Environments more env env') (subset : names ⊆ more) :
    ρ.Environments names env env' :=
  fun x mem => h x (subset mem)

/-- What is free under a binder corresponds where the binder is bound. -/
theorem Environments.extend {names : List String} {env env' : Environment} {name : String}
    {v w : Value} (h : ρ.Environments (names.filter (· ≠ name)) env env') (hv : ρ.Relates v w) :
    ρ.Environments names (env.extend name v) (env'.extend name w) := by
  intro x mem
  rw [Environment.lookup_extend, Environment.lookup_extend]
  split
  · exact .some hv
  · next ne => exact h x (by simp [mem, ne])

theorem forall₂_mono {vs ws : List Value} (h : List.Forall₂ ρ.Relates vs ws) (le : ρ ≤ σ) :
    List.Forall₂ σ.Relates vs ws :=
  h.imp fun _ _ r => r.mono le

theorem Cells.mono {c d : ListCell} (h : ρ.Cells c d) (le : ρ ≤ σ) : σ.Cells c d :=
  ⟨h.contentKind, forall₂_mono h.items le⟩

theorem Closures.mono {L : Likeness} {c d : Closure} (h : ρ.Closures L c d) (le : ρ ≤ σ) :
    σ.Closures L c d :=
  ⟨h.param, h.body, h.env.mono le⟩

/-! ## New places -/

theorem biUnique_or {α β : Type} {r : α → β → Prop} {a : α} {b : β} (unique : Relator.BiUnique r)
    (left : ∀ y, ¬ r a y) (right : ∀ x, ¬ r x b) :
    Relator.BiUnique fun x y => r x y ∨ x = a ∧ y = b := by
  constructor
  · rintro x y z (h | ⟨rfl, rfl⟩) (g | ⟨rfl, same⟩)
    · exact unique.1 h g
    · exact absurd (same ▸ h) (right x)
    · exact absurd g (right y)
    · rfl
  · rintro x y z (h | ⟨rfl, rfl⟩) (g | ⟨same, rfl⟩)
    · exact unique.2 h g
    · exact absurd (same ▸ h) (left y)
    · exact absurd g (left z)
    · rfl

section New

variable {L : Likeness} (stores : ρ.Stores L s t)

include stores

/-- Two new lists that correspond extend the renaming. -/
theorem Stores.addList {c d : ListCell} (cells : ρ.Cells c d) :
    ∃ σ, ρ ≤ σ ∧ σ.Stores L (s.addList c).2 (t.addList d).2 ∧
      σ.lists (s.addList c).1 (t.addList d).1 := by
  let σ : Renaming :=
    { ρ with
      lists a b := ρ.lists a b ∨ a = (s.addList c).1 ∧ b = (t.addList d).1
      lists_biUnique := biUnique_or ρ.lists_biUnique
        (fun b h => absurd (stores.left h) (Nat.lt_irrefl _))
        (fun a h => absurd (stores.right h) (Nat.lt_irrefl _)) }
  have le : ρ ≤ σ := ⟨fun _ _ h => .inl h, fun _ _ h => h⟩
  refine ⟨σ, le, ⟨⟨?_, ?_, ?_⟩, stores.leftClosure, stores.rightClosure, ?_⟩, .inr ⟨rfl, rfl⟩⟩
  · rintro a b (h | ⟨rfl, rfl⟩)
    · exact (stores.left h).mono (Store.grows_addList s c)
    · exact Store.has_addList s c
  · rintro a b (h | ⟨rfl, rfl⟩)
    · exact (stores.right h).mono (Store.grows_addList t d)
    · exact Store.has_addList t d
  · rintro a b (h | ⟨rfl, rfl⟩)
    · rw [Store.list_addList_of_lt s c (stores.left h),
        Store.list_addList_of_lt t d (stores.right h)]
      exact (stores.cells h).mono le
    · rw [Store.list_addList, Store.list_addList]
      exact cells.mono le
  · exact fun h => (stores.functions h).mono le

/-- Two new closures extend the renaming where they correspond in the extension, in which they
may be mentioned. -/
theorem Stores.addClosure {c d : Closure}
    (functions : ∀ σ, ρ ≤ σ → σ.closures (s.addClosure c).1 (t.addClosure d).1 →
      σ.Closures L c d) :
    ∃ σ, ρ ≤ σ ∧ σ.Stores L (s.addClosure c).2 (t.addClosure d).2 ∧
      σ.closures (s.addClosure c).1 (t.addClosure d).1 := by
  let σ : Renaming :=
    { ρ with
      closures a b := ρ.closures a b ∨ a = (s.addClosure c).1 ∧ b = (t.addClosure d).1
      closures_biUnique := biUnique_or ρ.closures_biUnique
        (fun b h => absurd (stores.leftClosure h) (Nat.lt_irrefl _))
        (fun a h => absurd (stores.rightClosure h) (Nat.lt_irrefl _)) }
  have le : ρ ≤ σ := ⟨fun _ _ h => h, fun _ _ h => .inl h⟩
  refine ⟨σ, le, ⟨⟨stores.left, stores.right, ?_⟩, ?_, ?_, ?_⟩, .inr ⟨rfl, rfl⟩⟩
  · exact fun h => (stores.cells h).mono le
  · rintro a b (h | ⟨rfl, rfl⟩)
    · exact (stores.leftClosure h).mono (Store.grows_addClosure s c)
    · exact Store.has_addClosure s c
  · rintro a b (h | ⟨rfl, rfl⟩)
    · exact (stores.rightClosure h).mono (Store.grows_addClosure t d)
    · exact Store.has_addClosure t d
  · rintro a b (h | ⟨rfl, rfl⟩)
    · rw [Store.closure_addClosure_of_lt s c (stores.leftClosure h),
        Store.closure_addClosure_of_lt t d (stores.rightClosure h)]
      exact (stores.functions h).mono le
    · rw [Store.closure_addClosure, Store.closure_addClosure]
      exact functions σ le (.inr ⟨rfl, rfl⟩)

/-! ## Changes -/

theorem Stores.setItems {a b : ListId} {vs ws : List Value} (h : ρ.lists a b)
    (items : List.Forall₂ ρ.Relates vs ws) : ρ.Stores L (s.setItems a vs) (t.setItems b ws) := by
  refine ⟨⟨fun g => ?_, fun g => ?_, ?_⟩, stores.leftClosure, stores.rightClosure,
    stores.functions⟩
  · exact (stores.left g).mono (Store.grows_setItems s a vs)
  · exact (stores.right g).mono (Store.grows_setItems t b ws)
  · intro x y g
    -- One side is the changed list exactly where the other is.
    by_cases same : x = a
    · subst same
      obtain rfl := ρ.lists_biUnique.2 g h
      rw [Store.list_setItems s vs (stores.left g), Store.list_setItems t ws (stores.right g)]
      exact ⟨(stores.cells g).contentKind, items⟩
    · have other : y ≠ b := fun eq => same (ρ.lists_biUnique.1 (eq ▸ g) h)
      rw [Store.list_setItems_of_ne s vs same, Store.list_setItems_of_ne t ws other]
      exact stores.cells g

theorem Stores.bindName {a b : ClosureId} (h : ρ.closures a b) (name : String) :
    ρ.Stores L (s.bindName a name (.closure a)) (t.bindName b name (.closure b)) := by
  refine ⟨⟨stores.left, stores.right, stores.cells⟩, fun g => ?_, fun g => ?_, ?_⟩
  · exact (stores.leftClosure g).mono (Store.grows_bindName s a name _)
  · exact (stores.rightClosure g).mono (Store.grows_bindName t b name _)
  · intro x y g
    by_cases same : x = a
    · subst same
      obtain rfl := ρ.closures_biUnique.2 g h
      rw [Store.closure_bindName s name _ (stores.leftClosure g),
        Store.closure_bindName t name _ (stores.rightClosure g)]
      have function := stores.functions g
      refine ⟨function.param, function.body, .extend ?_ (.closure h)⟩
      exact function.env.subset (List.filter_subset_self _)
    · have other : y ≠ b := fun eq => same (ρ.closures_biUnique.1 (eq ▸ g) h)
      rw [Store.closure_bindName_of_ne s name _ same, Store.closure_bindName_of_ne t name _ other]
      exact stores.functions g

end New

/-! ## Looking into lists -/

theorem exists_of_forall₂ {vs ws : List Value} (items : List.Forall₂ ρ.Relates vs ws)
    {a : ListId} (mem : .list a ∈ vs) : ∃ b, .list b ∈ ws ∧ ρ.lists a b := by
  induction items with
  | nil => cases mem
  | cons first _ ih =>
    obtain rfl | mem := List.mem_cons.mp mem
    · cases first with
      | list h => exact ⟨_, List.mem_cons_self, h⟩
    · obtain ⟨b, mem, h⟩ := ih mem
      exact ⟨b, List.mem_cons_of_mem _ mem, h⟩

/-- The renaming the other way round. -/
def symm (ρ : Renaming) : Renaming where
  lists a b := ρ.lists b a
  closures a b := ρ.closures b a
  lists_biUnique := ⟨fun _ _ _ h g => ρ.lists_biUnique.2 h g, fun _ _ _ h g =>
    ρ.lists_biUnique.1 h g⟩
  closures_biUnique := ⟨fun _ _ _ h g => ρ.closures_biUnique.2 h g, fun _ _ _ h g =>
    ρ.closures_biUnique.1 h g⟩

theorem Relates.symm {v w : Value} (h : ρ.Relates v w) : ρ.symm.Relates w v := by
  cases h with
  | list h => exact .list h
  | closure h => exact .closure h
  | _ => constructor

namespace Lists

variable {a b : ListId}

theorem symm (lists : ρ.Lists s t) : ρ.symm.Lists t s where
  left h := lists.right h
  right h := lists.left h
  cells h := ⟨(lists.cells h).contentKind.symm, (lists.cells h).items.flip.imp
    fun _ _ r => r.symm⟩

section

variable (lists : ρ.Lists s t) (h : ρ.lists a b)

include lists h

/-- A list in a list that is renamed is renamed to a list in the other. -/
theorem holds {c : ListId} (edge : s.Holds a c) : ∃ d, t.Holds b d ∧ ρ.lists c d :=
  exists_of_forall₂ (lists.cells h).items edge

theorem reflTransGen {c : ListId} (path : ReflTransGen s.Holds a c) :
    ∃ d, ReflTransGen t.Holds b d ∧ ρ.lists c d := by
  induction path with
  | refl => exact ⟨b, .refl, h⟩
  | tail _ edge ih =>
    obtain ⟨d, path, related⟩ := ih
    obtain ⟨d', edge', related'⟩ := lists.holds related edge
    exact ⟨d', path.tail edge', related'⟩

theorem nests {depth : Nat} (nests : s.Nests depth a) : t.Nests depth b := by
  induction depth generalizing a b with
  | zero => exact nests.elim
  | succ depth ih =>
    intro d edge
    obtain ⟨c, edge', related⟩ := lists.symm.holds h edge
    exact ih related (nests c edge')

theorem ends_of_ends (ends : s.ends a = true) : t.ends b = true := by
  refine Store.ends_iff.mpr (.bounded (lists.nests h (Store.ends_iff.mp ends)) fun d path => ?_)
  obtain ⟨c, -, related⟩ := lists.symm.reflTransGen h path
  exact lists.right related

/-- Lists that correspond both end or both go on for ever. -/
theorem ends : s.ends a = t.ends b :=
  Bool.eq_iff_iff.mpr ⟨lists.ends_of_ends h, lists.symm.ends_of_ends h⟩

theorem reaches_of_reaches {x y : ListId} (h' : ρ.lists x y) (ends : t.ends b = true)
    (reaches : s.reaches a x = true) : t.reaches b y = true := by
  refine Store.reachesWithin_of_reflTransGen (Store.ends_iff.mp ends) ?_
  obtain ⟨z, path, related⟩ :=
    lists.reflTransGen h (Store.reflTransGen_of_reachesWithin reaches)
  exact ρ.lists_biUnique.2 related h' ▸ path

/-- Lists that correspond reach lists that correspond. -/
theorem reaches {x y : ListId} (h' : ρ.lists x y) (ends : s.ends a = true) :
    s.reaches a x = t.reaches b y :=
  Bool.eq_iff_iff.mpr ⟨lists.reaches_of_reaches h h' (lists.ends_of_ends h ends),
    lists.symm.reaches_of_reaches h h' ends⟩

end

end Lists

/-! ## Copies -/

section Copies

variable {L : Likeness}

/-- Two copies from stores that have what `s` and `t` have, renamed by an extension of `ρ`, give
results related by `Q` and stores of the same sort. -/
def CopiesAlike (L : Likeness) (ρ : Renaming) (s t : Store) {α β : Type}
    (Q : Renaming → α → β → Prop) (copy : StateM Store α) (copy' : StateM Store β) : Prop :=
  ∀ σ s' t', ρ ≤ σ → σ.Stores L s' t' → Store.Extends s s' → Store.Extends t t' →
    ∃ τ, σ ≤ τ ∧ τ.Stores L (copy.run s').2 (copy'.run t').2 ∧
      Store.Extends s (copy.run s').2 ∧ Store.Extends t (copy'.run t').2 ∧
      Q τ (copy.run s').1 (copy'.run t').1

theorem copiesAlike_items {n m : Nat} {vs ws : List Value}
    (ih : ∀ a b, .list a ∈ vs → ρ.lists a b →
      CopiesAlike L ρ s t (·.lists) (Store.copyWithin n a) (Store.copyWithin m b))
    (items : List.Forall₂ ρ.Relates vs ws) :
    CopiesAlike L ρ s t (fun τ => List.Forall₂ τ.Relates) (vs.mapM (Store.copyItem n))
      (ws.mapM (Store.copyItem m)) := by
  induction items with
  | nil => exact fun σ s' t' _ stores adds adds' => ⟨σ, le_refl σ, stores, adds, adds', .nil⟩
  | @cons v w vs ws first _ rest =>
    intro σ s' t' le stores adds adds'
    have copied : ∃ τ, σ ≤ τ ∧
        τ.Stores L ((Store.copyItem n v).run s').2 ((Store.copyItem m w).run t').2 ∧
        Store.Extends s ((Store.copyItem n v).run s').2 ∧
        Store.Extends t ((Store.copyItem m w).run t').2 ∧
        τ.Relates ((Store.copyItem n v).run s').1 ((Store.copyItem m w).run t').1 := by
      cases first with
      | @list a b h =>
        obtain ⟨τ, le', stores, adds, adds', related⟩ :=
          ih a b List.mem_cons_self h σ s' t' le stores adds adds'
        exact ⟨τ, le', stores, adds, adds', .list related⟩
      | closure h => exact ⟨σ, le_refl σ, stores, adds, adds', .closure (le.2 _ _ h)⟩
      | _ => exact ⟨σ, le_refl σ, stores, adds, adds', by constructor⟩
    obtain ⟨τ, le₁, stores₁, adds₁, adds₁', related⟩ := copied
    obtain ⟨υ, le₂, stores₂, adds₂, adds₂', others⟩ :=
      rest (fun a b mem h => ih a b (List.mem_cons_of_mem _ mem) h) τ _ _ (le_trans le le₁)
        stores₁ adds₁ adds₁'
    rw [Store.mapM_cons_run, Store.mapM_cons_run]
    exact ⟨υ, le_trans le₁ le₂, stores₂, adds₂, adds₂', .cons (related.mono le₂) others⟩

/-- Copies of lists that correspond correspond, each within steps enough for it. -/
theorem copiesAlike_list (lists : ρ.Lists s t) {n m : Nat} {a b : ListId} (h : ρ.lists a b)
    (nests : s.Nests n a) (nests' : t.Nests m b) :
    CopiesAlike L ρ s t (·.lists) (Store.copyWithin n a) (Store.copyWithin m b) := by
  induction n generalizing m a b with
  | zero => exact nests.elim
  | succ n ih =>
    obtain _ | m := m
    · exact nests'.elim
    have inner : ∀ x y, .list x ∈ (s.list a).items → ρ.lists x y →
        CopiesAlike L ρ s t (·.lists) (Store.copyWithin n x) (Store.copyWithin m y) := by
      intro x y mem related
      obtain ⟨z, edge, related'⟩ := lists.holds h mem
      obtain rfl := ρ.lists_biUnique.2 related related'
      exact ih related (nests x mem) (nests' y edge)
    intro σ s' t' le stores adds adds'
    have items := copiesAlike_items inner (lists.cells h).items σ s' t' le stores adds adds'
    rw [← adds.old a (lists.left h), ← adds'.old b (lists.right h)] at items
    obtain ⟨τ, le₁, stores₁, adds₁, adds₁', related⟩ := items
    have cells : τ.Cells { s'.list a with items := _ } { t'.list b with items := _ } :=
      ⟨by rw [adds.old a (lists.left h), adds'.old b (lists.right h), (lists.cells h).contentKind],
        related⟩
    obtain ⟨υ, le₂, stores₂, new⟩ := stores₁.addList cells
    rw [Store.copyWithin_succ_run, Store.copyWithin_succ_run]
    exact ⟨υ, le_trans le₁ le₂, stores₂, adds₁.addList _, adds₁'.addList _, new⟩

/-- Copies of lists that correspond and end extend the renaming. -/
theorem Stores.deepCopy (stores : ρ.Stores L s t) {a b : ListId} (h : ρ.lists a b)
    (ends : s.ends a = true) :
    ∃ σ, ρ ≤ σ ∧ σ.Stores L (s.deepCopy a).2 (t.deepCopy b).2 ∧
      σ.lists (s.deepCopy a).1 (t.deepCopy b).1 := by
  have nests := Store.ends_iff.mp ends
  have nests' := Store.ends_iff.mp (stores.toLists.ends_of_ends h ends)
  obtain ⟨σ, le, stores', -, -, copied⟩ := copiesAlike_list stores.toLists h nests nests' ρ s t
    (le_refl ρ) stores (.refl s) (.refl t)
  exact ⟨σ, le, stores', copied⟩

end Copies

end Renaming

end ListLang
