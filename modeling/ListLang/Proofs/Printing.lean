import ListLang.Eval.Depth
import ListLang.Proofs.Grammar.Text
import ListLang.Proofs.Nesting

/-!
# Printed data

Data is made of integers that are not negative, booleans, strings without quotes, and lists
of such values that are not empty and of one kind. Printed data is a program, and the program
gives the data back: a copy whose lists have the same content kinds and equal items all the
way down. So data is known from its text.

## Main definitions

* `Store.Data` — the values that are data.
* `Restores` — an expression that gives a copy of a value wherever it is evaluated.

## Main statements

* `Store.Data.exists_literal` — the text of data writes an expression that restores it.
* `evaluate_text` — printed data evaluates back to itself.
-/

namespace ListLang

open Relation (ReflTransGen TransGen)

namespace Store

variable {s t : Store} {v w : Value} {id : ListId}

/-- The value is data: its integers are not negative, its strings are without quotes, and its
lists are not empty and hold data of their content kind. -/
inductive Data (s : Store) : Value → Prop where
  | int {n : Int64} : 0 ≤ n.toInt → Data s (.int n)
  | bool {b : Bool} : Data s (.bool b)
  | string {x : String} : '"' ∉ x.toList → Data s (.string x)
  | list {id : ListId} : (s.list id).items ≠ [] →
    (∀ v ∈ (s.list id).items, v.kind = (s.list id).contentKind) →
    (∀ v ∈ (s.list id).items, Data s v) → Data s (.list id)

@[simp] theorem snapshot_int (s : Store) (n : Int64) : s.snapshot (.int n) = .int n := by
  unfold snapshot
  cases s.lists.size <;> rfl

@[simp] theorem snapshot_bool (s : Store) (b : Bool) : s.snapshot (.bool b) = .bool b := by
  unfold snapshot
  cases s.lists.size <;> rfl

@[simp] theorem snapshot_string (s : Store) (x : String) :
    s.snapshot (.string x) = .string x := by
  unfold snapshot
  cases s.lists.size <;> rfl

@[simp] theorem kind_snapshot (s : Store) (v : Value) : (s.snapshot v).kind = v.kind := by
  unfold snapshot
  cases s.lists.size <;> cases v <;> rfl

theorem equal_self (s : Store) (v : Value) : s.equal v v = true := by
  unfold equal
  cases s.lists.size * s.lists.size <;> cases v <;> simp [equalWithin]

theorem isEqv_of_map_eq {α β : Type} {f : α → β} {g : α → α → Bool} {xs ys : List α}
    (same : xs.map f = ys.map f) (alike : ∀ x ∈ xs, ∀ y ∈ ys, f x = f y → g x y = true) :
    xs.isEqv ys g = true := by
  induction xs generalizing ys with
  | nil =>
    obtain rfl := List.map_eq_nil_iff.mp same.symm
    rfl
  | cons x xs ih =>
    obtain _ | ⟨y, ys⟩ := ys
    · cases same
    obtain ⟨first, rest⟩ := List.cons.inj same
    rw [List.isEqv, alike x (by simp) y (by simp) first, Bool.true_and]
    exact ih rest fun x mem y mem' => alike x (by simp [mem]) y (by simp [mem'])

namespace Data

theorem lt_size (data : s.Data (.list id)) : id.index < s.lists.size := by
  cases data with
  | list nonempty =>
    obtain ⟨v, mem⟩ := List.exists_mem_of_ne_nil _ nonempty
    exact lt_size_of_mem mem

theorem reflTransGen {b : ListId} (data : s.Data (.list id)) (path : ReflTransGen s.Holds id b) :
    s.Data (.list b) := by
  induction path with
  | refl => exact data
  | tail _ edge ih =>
    cases ih with
    | list _ _ items => exact items _ edge

theorem not_transGen (data : s.Data v) (id : ListId) (eq : v = .list id) :
    ¬ TransGen s.Holds id id := by
  induction data generalizing id with
  | list _ _ _ ih =>
    -- A cycle through the list is also a cycle through the item it starts with.
    cases eq
    intro cycle
    obtain ⟨inner, edge, path⟩ := Relation.TransGen.head'_iff.mp cycle
    exact ih _ edge inner rfl (.tail' path edge)
  | _ => cases eq

theorem nonempty (data : s.Data (.list id)) : (s.list id).items ≠ [] := by
  cases data with
  | list nonempty => exact nonempty

theorem kinds (data : s.Data (.list id)) :
    ∀ v ∈ (s.list id).items, v.kind = (s.list id).contentKind := by
  cases data with
  | list _ kinds => exact kinds

/-- Going down from data ends. -/
theorem nests (data : s.Data (.list id)) : s.Nests s.lists.size id := by
  refine nests_of_path List.nodup_nil (by simp) (fun b path => ?_) (by simp)
  have inside := data.reflTransGen path
  exact ⟨inside.lt_size, inside.not_transGen b rfl⟩

theorem mono (data : s.Data v) (h : Extends s t) : t.Data v := by
  induction data with
  | int nonneg => exact .int nonneg
  | bool => exact .bool
  | string plain => exact .string plain
  | @list id nonempty kinds items ih =>
    have same := h.old id (lt_size (.list nonempty kinds items))
    exact .list (same ▸ nonempty) (same ▸ kinds) (same ▸ ih)

theorem snapshot_mono (data : s.Data v) (h : Extends s t) : t.snapshot v = s.snapshot v := by
  induction data with
  | int | bool | string => simp
  | @list id nonempty kinds items ih =>
    have data : s.Data (.list id) := .list nonempty kinds items
    rw [(data.mono h).nests.snapshot_list, data.nests.snapshot_list, h.old id data.lt_size,
      List.map_congr_left ih]

theorem addList {kind : Kind} {ws : List Value} (nonempty : ws ≠ [])
    (kinds : ∀ w ∈ ws, w.kind = kind) (items : ∀ w ∈ ws, s.Data w) :
    (s.addList ⟨kind, ws⟩).2.Data (.list (s.addList ⟨kind, ws⟩).1) := by
  have same := list_addList s ⟨kind, ws⟩
  refine .list (by rwa [same]) (by rwa [same]) ?_
  rw [same]
  exact fun w mem => (items w mem).mono (.addList (.refl s) _)

/-- Data that is written out alike is equal. -/
theorem equal (data : s.Data v) (data' : s.Data w) (same : s.snapshot v = s.snapshot w) :
    s.equal v w = true := by
  induction data generalizing w with
  | int | bool | string =>
    cases data' with
    | list nonempty kinds items =>
      rw [(Data.list nonempty kinds items).nests.snapshot_list] at same
      simp at same
    | _ => simp_all [equal_self]
  | @list id nonempty kinds items ih =>
    have data : s.Data (.list id) := .list nonempty kinds items
    rw [data.nests.snapshot_list] at same
    cases data' with
    | @list other nonempty' kinds' items' =>
      have data' : s.Data (.list other) := .list nonempty' kinds' items'
      rw [data'.nests.snapshot_list] at same
      simp only [Snapshot.list.injEq] at same
      rw [data.nests.equal_list, same.1]
      have alike := isEqv_of_map_eq same.2 fun v mem w mem' eq =>
        ih v mem (items' w mem') eq
      simp [alike]
    | _ => simp at same

end Data

end Store

/-! ## Restoring data -/

/-- Wherever the expression is evaluated, and whatever its lines are, it gives data that is
written out as the value is, and only adds lists to the store. -/
def Restores (s : Store) (e : Expr) (v : Value) : Prop :=
  ∀ e' : Expr, e'.unlined = e.unlined → ∀ (env : Environment) (t : Store),
    ∃ w u least, t.Extends u ∧ u.Data w ∧ u.snapshot w = s.snapshot v ∧
      ∀ depth ≥ least, eval depth env e' t = .ok w u

section Restoring

variable {s : Store} {v : Value}

theorem text_snapshot_value (s : Store) (value : Literal) :
    (s.snapshot value.value).text = value.token.spelling := by
  cases value <;> simp [Literal.value, Literal.token, Token.spelling, Snapshot.text]

theorem restores_literal {value : Literal} (writable : value.token.Writable) (s : Store)
    (line : Nat) : Restores s (.literal value line) value.value := by
  intro e' alike env t
  cases e' with
  | literal value' line' =>
    simp only [Expr.unlined, Expr.literal.injEq, and_true] at alike
    subst alike
    refine ⟨value'.value, t, 1, .refl t, ?_, ?_, fun depth enough => ?_⟩
    · cases value' with
      | integer => exact .int writable
      | bool => exact .bool
      | string => exact .string writable
    · cases value' <;> simp [Literal.value]
    · obtain ⟨depth, rfl⟩ : ∃ k, depth = k + 1 := ⟨depth - 1, by omega⟩
      rfl
  | _ => simp [Expr.unlined] at alike

theorem kinds_of_snapshots {u : Store} {vs ws : List Value} {kind : Kind}
    (shown : ws.map u.snapshot = vs.map s.snapshot) (kinds : ∀ v ∈ vs, v.kind = kind) :
    ∀ w ∈ ws, w.kind = kind := by
  have same : ws.map Value.kind = vs.map Value.kind := by
    simpa [Function.comp_def] using congrArg (List.map Snapshot.kind) shown
  intro w mem
  have := List.mem_map_of_mem (f := Value.kind) mem
  rw [same] at this
  obtain ⟨v, mem, eq⟩ := List.mem_map.mp this
  rw [← eq, kinds v mem]

/-- Elements that write data and restore values are evaluated to copies of the values. -/
theorem elementsWith_of_restores {es es' : List Expr} {vs : List Value} {kind : Kind}
    (tags : ∀ e ∈ es, e.tag.dataKind? = some kind) (restores : List.Forall₂ (Restores s) es vs)
    (alike : es'.map Expr.unlined = es.map Expr.unlined) (env : Environment) (t : Store) :
    ∃ ws u least, t.Extends u ∧ (∀ w ∈ ws, u.Data w) ∧ ws.map u.snapshot = vs.map s.snapshot ∧
      ∀ depth ≥ least, Eval.elementsWith (eval depth env) es' t = .ok ws u := by
  induction restores generalizing es' t with
  | nil =>
    obtain rfl := List.map_eq_nil_iff.mp alike
    exact ⟨[], t, 0, .refl t, by simp, rfl, fun _ _ => rfl⟩
  | @cons e v es vs first _ ih =>
    obtain _ | ⟨e', es'⟩ := es'
    · cases alike
    obtain ⟨same, rest⟩ := List.cons.inj alike
    obtain ⟨tag, tags⟩ := List.forall_mem_cons.mp tags
    obtain ⟨w, u, least₁, adds₁, data₁, shown₁, ran₁⟩ := first e' same env t
    obtain ⟨ws, u', least₂, adds₂, data₂, shown₂, ran₂⟩ := ih tags rest u
    refine ⟨w :: ws, u', max least₁ least₂, adds₁.trans adds₂, ?_, ?_, fun depth enough => ?_⟩
    · exact List.forall_mem_cons.mpr ⟨data₁.mono adds₂, data₂⟩
    · rw [List.map_cons, List.map_cons, data₁.snapshot_mono adds₂, shown₁, shown₂]
    · have tag : e'.tag.dataKind?.isSome := by
        rw [Expr.tag_eq_of_unlined_eq same, tag]
        rfl
      rw [Eval.elementsWith, if_pos tag, bind_of_ok (ran₁ depth (by omega)),
        bind_of_ok (ran₂ depth (by omega))]
      rfl

theorem restores_list {id : ListId} {es : List Expr} {kind : Kind} (data : s.Data (.list id))
    (tags : ∀ e ∈ es, e.tag.dataKind? = some kind)
    (restores : List.Forall₂ (Restores s) es (s.list id).items) (tag : Tag) (line : Nat) :
    Restores s (.list tag es line) (.list id) := by
  intro e' alike env t
  cases e' with
  | list tag' es' line' =>
    simp only [Expr.unlined, Expr.list.injEq, Expr.allUnlined_eq_map, and_true] at alike
    obtain ⟨ws, u, least, adds, all, shown, ran⟩ :=
      elementsWith_of_restores tags restores alike.2 env t
    have kinds := kinds_of_snapshots shown data.kinds
    have nonempty : ws ≠ [] := by
      rintro rfl
      exact data.nonempty (List.map_eq_nil_iff.mp shown.symm)
    have copy := Store.Data.addList nonempty kinds all
    refine ⟨_, _, least + 1, adds.addList _, copy, ?_, fun depth enough => ?_⟩
    · have old : ∀ w ∈ ws,
          (u.addList ⟨(s.list id).contentKind, ws⟩).2.snapshot w = u.snapshot w :=
        fun w mem => (all w mem).snapshot_mono (.addList (.refl u) _)
      rw [copy.nests.snapshot_list, data.nests.snapshot_list, Store.list_addList,
        List.map_congr_left old, shown]
    · obtain ⟨depth, rfl⟩ : ∃ k, depth = k + 1 := ⟨depth - 1, by omega⟩
      rw [eval, Eval.evalWith, bind_of_ok (ran depth (by omega))]
      obtain ⟨w, ws, rfl⟩ := List.exists_cons_of_ne_nil nonempty
      rw [← kinds w (by simp)]
      rfl
  | _ => simp [Expr.unlined] at alike

theorem dataKind?_injective {a b : Tag} {kind : Kind} (ha : a.dataKind? = some kind)
    (hb : b.dataKind? = some kind) : a = b := by
  cases a <;> cases ha <;> cases b <;> first | rfl | cases hb

theorem itemsText_eq_intercalate (items : List Snapshot) :
    Snapshot.itemsText items = ", ".intercalate (items.map Snapshot.text) := by
  induction items with
  | nil => simp [Snapshot.itemsText]
  | cons item rest ih =>
    cases rest with
    | nil => simp [Snapshot.itemsText]
    | cons next rest => simp [Snapshot.itemsText, ih, String.intercalate_cons_cons]

theorem exists_forall₂ {α β : Type} {P : β → α → Prop} {as : List α}
    (each : ∀ a ∈ as, ∃ b, P b a) : ∃ bs, List.Forall₂ P bs as := by
  induction as with
  | nil => exact ⟨[], .nil⟩
  | cons a as ih =>
    obtain ⟨⟨b, first⟩, each⟩ := List.forall_mem_cons.mp each
    obtain ⟨bs, rest⟩ := ih each
    exact ⟨b :: bs, .cons first rest⟩

theorem exists_literal_of_value (s : Store) {value : Literal} (writable : value.token.Writable) :
    ∃ e, e.tag.dataKind? = some value.value.kind ∧
      WritesAtom (s.snapshot value.value).text e ∧ Restores s e value.value := by
  refine ⟨.literal value 0, by cases value <;> rfl, ?_, restores_literal writable s 0⟩
  rw [text_snapshot_value]
  exact .literal writable

/-- The text of data writes an expression that restores it. -/
theorem Store.Data.exists_literal (data : s.Data v) :
    ∃ e, e.tag.dataKind? = some v.kind ∧ WritesAtom (s.snapshot v).text e ∧ Restores s e v := by
  induction data with
  | @int n nonneg =>
    have writable : (Literal.integer n).token.Writable := nonneg
    exact exists_literal_of_value s writable
  | @bool b =>
    have writable : (Literal.bool b).token.Writable := trivial
    exact exists_literal_of_value s writable
  | @string x plain =>
    have writable : (Literal.string x).token.Writable := plain
    exact exists_literal_of_value s writable
  | @list id nonempty kinds items ih =>
    have data : s.Data (.list id) := .list nonempty kinds items
    obtain ⟨es, all⟩ := exists_forall₂ fun v mem => kinds v mem ▸ ih v mem
    rw [List.forall₂_and_left] at all
    obtain ⟨tags, all⟩ := all
    have some : es ≠ [] := by
      rintro rfl
      exact nonempty (List.length_eq_zero_iff.mp all.length_eq.symm)
    -- The items are of one kind, and among the forms that write data each kind has one.
    obtain ⟨first, mem⟩ := List.exists_mem_of_ne_nil es some
    refine ⟨.list first.tag es 0, rfl, ?_, restores_list data tags (all.imp fun _ _ h => h.2) _ _⟩
    rw [data.nests.snapshot_list, Snapshot.text, itemsText_eq_intercalate, List.map_map]
    refine .list ?_ some fun e mem' => dataKind?_injective (tags e mem') (tags first mem)
    rw [List.forall₂_map_left_iff]
    exact (all.imp fun _ _ h => h.1).flip

/-- Run in any environment and store, the text of data gives a copy of the data. -/
theorem Store.Data.run_text (data : s.Data v) (env : Environment) (t : Store) :
    ∃ w u least, t.Extends u ∧ u.Data w ∧ u.snapshot w = s.snapshot v ∧
      ∀ depth ≥ least, run depth env (s.snapshot v).text t = .ok w u := by
  obtain ⟨e, -, written, restores⟩ := data.exists_literal
  obtain ⟨e', same, parsed⟩ := written.writes.exists_parse
  obtain ⟨w, u, least, adds, copy, shown, ran⟩ := restores e' same env t
  refine ⟨w, u, least, adds, copy, shown, fun depth enough => ?_⟩
  simp [run, parsed, ran depth enough]

theorem Store.Data.evaluate_eq (data : s.Data v) :
    ∃ least, ∀ depth ≥ least, evaluate depth (s.snapshot v).text = .ok (s.snapshot v) := by
  obtain ⟨w, u, least, -, -, shown, ran⟩ := data.run_text .initial .empty
  refine ⟨least, fun depth enough => ?_⟩
  simp [evaluate, ran depth enough, shown]

/-- Data is known from its text. -/
theorem Store.Data.snapshot_eq_of_text_eq {t : Store} {w : Value} (data : s.Data v)
    (data' : t.Data w) (same : (t.snapshot w).text = (s.snapshot v).text) :
    t.snapshot w = s.snapshot v := by
  obtain ⟨least, gives⟩ := data.evaluate_eq
  obtain ⟨least', gives'⟩ := data'.evaluate_eq
  have first := gives (max least least') (by omega)
  have second := gives' (max least least') (by omega)
  rw [same, first] at second
  exact (Except.ok.inj second).symm

end Restoring

/-- Printed data evaluates back to itself. Its text, evaluated by itself, gives a value that is
written out as the data is, with all content kinds; evaluated where the data is, a value equal
to the data. So data with one text is written out alike, and equal if it is in one store. -/
theorem evaluate_text {s : Store} {v : Value} (data : s.Data v) :
    (∃ least w t, s.Extends t ∧ t.equal v w = true ∧ t.snapshot w = s.snapshot v ∧
      ∀ depth ≥ least, evaluate depth (s.snapshot v).text = .ok (s.snapshot v) ∧
        run depth .initial (s.snapshot v).text s = .ok w t) ∧
    (∀ (t : Store) (w : Value), t.Data w → (t.snapshot w).text = (s.snapshot v).text →
      t.snapshot w = s.snapshot v) ∧
    ∀ w, s.Data w → (s.snapshot w).text = (s.snapshot v).text → s.equal v w = true := by
  refine ⟨?_, fun t w => data.snapshot_eq_of_text_eq, fun w data' same => ?_⟩
  · obtain ⟨least, gives⟩ := data.evaluate_eq
    obtain ⟨w, t, least', adds, copy, shown, ran⟩ := data.run_text .initial s
    have equal : t.equal v w = true :=
      (data.mono adds).equal copy (by rw [data.snapshot_mono adds, shown])
    exact ⟨max least least', w, t, adds, equal, shown, fun depth enough =>
      ⟨gives depth (by omega), ran depth (by omega)⟩⟩
  · exact data.equal data' (data.snapshot_eq_of_text_eq data' same).symm

/-- A list that holds one list of strings twice, one of which looks like code. -/
def Store.sharing : Store :=
  ⟨#[⟨.list, [.list ⟨1⟩, .list ⟨1⟩]⟩, ⟨.string, [.string "in, ]\n", .string ""]⟩], #[]⟩

theorem evaluate_text_sharing :
    Store.sharing.Data (.list ⟨0⟩) ∧ ∃ least w t, t.equal (.list ⟨0⟩) w = true ∧
      ∀ depth ≥ least,
        run depth .initial "List[List[\"in, ]\n\", \"\"], List[\"in, ]\n\", \"\"]]" .sharing =
          .ok w t := by
  have data : Store.sharing.Data (.list ⟨0⟩) := by
    have inner : Store.sharing.Data (.list ⟨1⟩) := by
      refine .list (by decide) (by decide) ?_
      change ∀ v ∈ [Value.string "in, ]\n", .string ""], _
      exact List.forall_mem_cons.mpr
        ⟨.string (by decide), List.forall_mem_singleton.mpr (.string (by decide))⟩
    refine .list (by decide) (by decide) ?_
    change ∀ v ∈ [Value.list ⟨1⟩, .list ⟨1⟩], _
    exact List.forall_mem_cons.mpr ⟨inner, List.forall_mem_singleton.mpr inner⟩
  have text : (Store.sharing.snapshot (.list ⟨0⟩)).text =
      "List[List[\"in, ]\n\", \"\"], List[\"in, ]\n\", \"\"]]" := by decide +kernel
  obtain ⟨⟨least, w, t, -, equal, -, ran⟩, -⟩ := evaluate_text data
  rw [text] at ran
  exact ⟨data, least, w, t, equal, fun depth enough => (ran depth enough).2⟩

end ListLang
