import ListLang.Proofs.Grammar.Basic
import ListLang.Proofs.Reading.Bounds
import ListLang.Proofs.Reading.Routines

/-!
# Parsing ends

No routine of the parser goes on for ever, whatever is read. A routine calls another one only
after it has taken a token, or calls one further down in the grammar, and a loop goes round only
behind a token that it has taken. The run comes to what the parser of the same name gives, so the
bounds on which the parsers recurse cut nothing off.

## Main definitions

* `Routine.parser` — the parser of the same name.
* `Routine.rank` — how far up in the grammar a routine stands.
* `Performs` — a parser that does what a script does, and comes to an end with it.
* `Routine.Performed` — a routine that its parser performs.

## Main statements

* `Parser.arrows_eq` — behind a type no arrow is left.
* `Routine.Performed.step` — what a routine does ends if what it calls does.
* `Routine.performed`, `Routine.ends` — every routine ends in what its parser gives.
-/

namespace ListLang

open TokenSource (size)
open ListLang.Parser (Agree counts atomCounts atomWithin tyWithin)

variable {σ α β : Type} [TokenSource σ]

/-- The parser of the same name, and for a loop what is left of it to do. -/
def Routine.parser : (r : Routine) → ParserOn σ r.Result
  | program => Parser.program
  | expression => Parser.expression
  | binary power => Parser.binary power
  | operators power left => do
    let bound ← Parser.remaining
    Parser.climbWith (Parser.applicationWith (atomWithin bound) bound) bound power left
  | application => Parser.application
  | arguments function => do
    let bound ← Parser.remaining
    Parser.argumentsWith (atomWithin bound) bound function
  | atom => Parser.atom
  | grouping => Parser.groupingWith Parser.expression
  | listLiteral => Parser.listLiteral
  | elements tag => do
    let bound ← Parser.remaining
    Parser.elementsWith (atomWithin bound) tag bound
  | listOperation => Parser.listOperation
  | lambda => Parser.lambda
  | letIn => Parser.letIn
  | cond => Parser.cond
  | ty => Parser.ty
  | arrows left => do
    if ← Parser.accept (.mark .arrow) then
      let result ← Parser.ty
      pure (.function left result)
    else pure left
  | tyAtom => Parser.tyAtom

/-- The least number of tokens that a routine takes for a result. -/
def Routine.takes : (r : Routine) → r.Result → Nat
  | atom => atomCounts
  | operators _ _ | arguments _ | elements _ | arrows _ => fun _ => 0
  | program | expression | binary _ | application | grouping | listLiteral | listOperation
  | lambda | letIn | cond | ty | tyAtom => fun _ => 1

/-- How far up in the grammar a routine stands. Before it takes a token, a routine calls only
routines that stand below it. -/
def Routine.rank : Routine → Nat
  | program => 5
  | expression | operators _ _ => 4
  | binary _ => 3
  | application | arguments _ => 2
  | atom | ty => 1
  | grouping | listLiteral | elements _ | listOperation | lambda | letIn | cond | arrows _
  | tyAtom => 0

/-! ## Parsers that do what scripts do -/

variable {bound n : Nat} {takes : α → Nat}

/-- On sources of size at most `bound` the script comes to an end, and that is what the parser comes
to. With a result `a` they take at least `takes a` tokens. -/
def Performs (bound : Nat) (takes : α → Nat) (p : ParserOn σ α) (c : Script α) : Prop :=
  ∀ s, size s ≤ bound →
    (∃ xs, c.Ends s xs (p s)) ∧ ∀ a t, p s = .ok a t → size t + takes a ≤ size s

namespace Performs

variable {p q : ParserOn σ α} {c d : Script α}

theorem mono {less : Nat} (h : Performs bound takes p c) (le : less ≤ bound) :
    Performs less takes p c :=
  fun s small => h s (Nat.le_trans small le)

theorem weaken (h : Performs bound takes p c) : Performs bound (fun _ => 0) p c := by
  intro s small
  obtain ⟨ends, shrinks⟩ := h s small
  exact ⟨ends, fun a t ok => Nat.le_trans (Nat.le_add_right _ _) (shrinks a t ok)⟩

theorem sharpen (h : Performs bound (fun _ => 0) p c) (agree : Agree bound takes p q) :
    Performs bound takes p c :=
  fun s small => ⟨(h s small).1, (agree s small).2⟩

theorem pure (a : α) :
    Performs bound (fun _ => 0) (Pure.pure a : ParserOn σ α) (Pure.pure a) := by
  refine fun s _ => ⟨⟨[], .done⟩, ?_⟩
  rintro _ _ ⟨⟩
  exact Nat.le_refl _

theorem fail (line : Nat) (cause : ParseError.Cause) :
    Performs bound takes (Parser.fail line cause : ParserOn σ α) (.fail line cause) := by
  refine fun s _ => ⟨⟨[], .fail⟩, ?_⟩
  rintro _ _ ⟨⟩

theorem ite {condition : Prop} [Decidable condition] (pos : condition → Performs bound takes p c)
    (neg : ¬ condition → Performs bound takes q d) :
    Performs bound takes (if condition then p else q) (if condition then c else d) := by
  split
  · exact pos ‹_›
  · exact neg ‹_›

/-- What the first parser takes makes the source smaller for the second. -/
theorem bind {f : α → ParserOn σ β} {g : α → Script β} (first : Performs bound takes p c)
    (rest : ∀ a, Performs (bound - takes a) (fun _ => 0) (f a) (g a)) :
    Performs bound (fun _ => 0) (p >>= f) (c >>= g) := by
  intro s small
  obtain ⟨⟨xs, ends⟩, shrinks⟩ := first s small
  change (∃ xs, (c >>= g).Ends s xs (EStateM.bind p f s)) ∧
    ∀ b u, EStateM.bind p f s = .ok b u → size u ≤ size s
  unfold EStateM.bind
  cases ran : p s with
  | ok a t =>
    have shorter := shrinks a t ran
    obtain ⟨⟨ys, ends'⟩, shrinks'⟩ := rest a t (by omega)
    rw [ran] at ends
    refine ⟨⟨xs ++ ys, Script.ends_bind ends ends'⟩, fun b u ok => ?_⟩
    have : size u ≤ size t := shrinks' b u ok
    omega
  | error e t =>
    rw [ran] at ends
    exact ⟨⟨xs, Script.ends_bind_error ends⟩, nofun⟩

/-- A parser within bounds that are great enough is run as the routine that it agrees with. -/
theorem run {r : Routine} {p : ParserOn σ r.Result}
    (h : Performs bound (fun _ => 0) (r.parser : ParserOn σ _) r.code)
    (agree : Agree bound r.takes p r.parser) : Performs bound r.takes p (.run r) := by
  intro s small
  obtain ⟨same, shrinks⟩ := agree s small
  obtain ⟨⟨xs, ends⟩, -⟩ := h s small
  refine ⟨⟨xs, ?_⟩, shrinks⟩
  rw [same]
  exact Script.ends_run_iff.mpr ends

theorem formAtom {takes : Expr → Nat} {p : ParserOn σ Expr} {c : Script Expr}
    (h : Performs bound takes p c) :
    Performs bound (fun _ => 0) (some <$> p) (.formAtom c) := by
  rw [map_eq_pure_bind]
  exact .bind h fun _ => .pure _

end Performs

/-! ## Parsers within bounds that are great enough -/

namespace Parser

variable {m : Nat}

theorem Agree.remaining_left {f : Nat → ParserOn σ α} {q : ParserOn σ α}
    (h : ∀ n, Agree n takes (f n) q) : Agree bound takes (remaining >>= f) q :=
  fun s _ => h (size s) s (Nat.le_refl _)

variable [LawfulTokenSource σ]

theorem Agree.remaining_right {f : Nat → ParserOn σ α} {p : ParserOn σ α}
    (h : ∀ n, n + 1 ≤ bound → Agree (n + 1) takes p (f (n + 1))) :
    Agree bound takes p (remaining >>= f) := by
  intro s small
  obtain ⟨n, eq⟩ := Nat.exists_eq_add_one.mpr (LawfulTokenSource.size_pos s)
  have same := h n (eq ▸ small) s (Nat.le_of_eq eq)
  rw [← eq] at same
  exact same

section Bounded

variable (hn : bound ≤ n) (hm : bound ≤ m)

include hn

theorem agree_atom : Agree bound atomCounts (atomWithin n : ParserOn σ _) atom :=
  .remaining_right fun _ le => agree_atomWithin (Nat.le_trans le hn) (Nat.le_refl _)

theorem agree_application : Agree bound (fun _ => 1)
    (applicationWith (atomWithin n) n : ParserOn σ _) application :=
  .remaining_right fun _ le => agree_applicationWith
    (agree_atomWithin (Nat.le_trans le hn) (Nat.le_refl _)) (Nat.le_trans le hn) (Nat.le_refl _)

/-- Behind an operand the bound can be smaller by one. -/
theorem agree_operand (hm : bound ≤ m + 1) (power : Nat) : Agree bound (fun _ => 1) (do
    let first ← applicationWith (atomWithin n) n
    climbWith (applicationWith (atomWithin n) n) m power first : ParserOn σ _) (binary power) := by
  refine .remaining_right fun k le => ?_
  have operands := agree_applicationWith (σ := σ)
    (agree_atomWithin (Nat.le_trans le hn) (Nat.le_refl _)) (Nat.le_trans le hn) (Nat.le_refl _)
  refine .bind operands fun first => ?_
  exact agree_climbWith (operands.mono (Nat.le_succ k))
    (Nat.le_of_succ_le_succ (Nat.le_trans le hm)) (Nat.le_succ k) power first

theorem agree_binary (power : Nat) : Agree bound (fun _ => 1)
    (binaryWith (atomWithin n) n power : ParserOn σ _) (binary power) :=
  agree_operand hn (Nat.le_succ_of_le hn) power

theorem agree_ty : Agree bound (fun _ => 1) (tyWithin n : ParserOn σ _) ty :=
  .remaining_right fun _ le => agree_tyWithin (Nat.le_trans le hn) (Nat.le_refl _)

include hm

theorem agree_operators (power : Nat) (left : Expr) : Agree bound (fun _ => 0)
    (climbWith (applicationWith (atomWithin n) n) m power left : ParserOn σ _)
    (Routine.operators power left).parser :=
  .remaining_right fun _ le => agree_climbWith (agree_applicationWith
    (agree_atomWithin (Nat.le_trans le hn) (Nat.le_refl _)) (Nat.le_trans le hn) (Nat.le_refl _))
    (Nat.le_trans le hm) (Nat.le_refl _) power left

theorem agree_arguments (function : Expr) : Agree bound (fun _ => 0)
    (argumentsWith (atomWithin n) m function : ParserOn σ _)
    (Routine.arguments function).parser :=
  .remaining_right fun _ le => agree_argumentsWith
    (agree_atomWithin (Nat.le_trans le hn) (Nat.le_refl _)) (Nat.le_trans le hm) (Nat.le_refl _)
    function

theorem agree_elements (tag : Tag) : Agree bound (fun _ => 0)
    (elementsWith (atomWithin n) tag m : ParserOn σ _) (Routine.elements tag).parser :=
  .remaining_right fun _ le => agree_elementsWith
    (agree_atomWithin (Nat.le_trans le hn) (Nat.le_refl _)) (Nat.le_trans le hm) (Nat.le_refl _)
    tag

end Bounded

theorem agree_arrows {p : ParserOn σ Ty} (h : Agree bound (fun _ => 1) p ty) (left : Ty) :
    Agree bound (fun _ => 0) (do
      if ← accept (.mark .arrow) then
        let result ← p
        pure (.function left result)
      else pure left) (Routine.arrows left).parser := by
  refine .bind (agree_accept _) fun _ => .ite (fun _ => ?_) fun _ => .pure left
  exact .bind (h.weaken fun _ => Nat.zero_le _) fun _ => .pure _

theorem agree_tyAtom (hn : bound ≤ n + 1) :
    Agree bound (fun _ => 1) (tyAtomWith (tyWithin n) : ParserOn σ _) tyAtom :=
  .remaining_right fun _ le => agree_tyAtomWith
    (agree_tyWithin (Nat.le_of_succ_le_succ (Nat.le_trans le hn)) (Nat.le_succ _))

theorem agree_listLiteral (hn : bound ≤ n + 1) :
    Agree bound (fun _ => 1) (listLiteralWith (atomWithin n) n : ParserOn σ _) listLiteral := by
  refine .remaining_right fun k le => ?_
  have small : k ≤ n := Nat.le_of_succ_le_succ (Nat.le_trans le hn)
  exact agree_listLiteralWith (agree_atomWithin small (Nat.le_succ k)) small (Nat.le_succ k)

theorem agree_listOperation (hn : bound ≤ n + 1) :
    Agree bound (fun _ => 1) (listOperationWith (atomWithin n) : ParserOn σ _) listOperation :=
  .remaining_right fun _ le => agree_listOperationWith
    (agree_atomWithin (Nat.le_of_succ_le_succ (Nat.le_trans le hn)) (Nat.le_succ _))

/-- What was not accepted is not there for another time either. -/
theorem accept_of_accept {token : Token} {s t : σ} (ok : accept token s = .ok false t) :
    accept token t = .ok false t := by
  obtain ⟨x, u, seen, rest⟩ := bind_ok_iff.mp ok
  by_cases same : x.item = token
  · rw [if_pos same] at rest
    obtain ⟨_, _, -, taken⟩ := bind_ok_iff.mp rest
    cases taken
  · rw [if_neg same] at rest
    cases rest
    rw [accept, bind_of_ok (LawfulTokenSource.lookahead_lookahead seen), if_neg same]
    rfl

/-- Behind a type no arrow is left. -/
theorem accept_of_tyWithin {s t : σ} {a : Ty} (ok : tyWithin n s = .ok a t) :
    accept (.mark .arrow) t = .ok false t := by
  induction n generalizing s a with
  | zero =>
    obtain ⟨_, _, -, failed⟩ := bind_ok_iff.mp ok
    cases failed
  | succ n ih =>
    obtain ⟨argument, u, -, rest⟩ := bind_ok_iff.mp ok
    obtain ⟨arrow, v, accepted, rest⟩ := bind_ok_iff.mp rest
    cases arrow with
    | true =>
      obtain ⟨result, w, inner, rest⟩ := bind_ok_iff.mp rest
      cases rest
      exact ih inner
    | false =>
      cases rest
      exact accept_of_accept accepted

/-- Going round for every arrow that is ahead comes to the same as going on behind one. -/
theorem arrows_eq (left : Ty) : ((Routine.arrows left).parser : ParserOn σ Ty) = (do
    let found ← lookahead
    if found.item = .mark .arrow then
      let _ ← expect (.mark .arrow)
      let right ← ty
      (Routine.arrows (.function left right)).parser
    else pure left) := by
  funext s
  cases seen : (lookahead s : EStateM.Result _ σ _) with
  | error e t =>
    have refused : accept (.mark .arrow) s = .error e t := bind_of_error seen
    exact (bind_of_error refused).trans (bind_of_error seen).symm
  | ok x t =>
    rw [bind_of_ok seen]
    by_cases arrow : x.item = .mark .arrow
    · obtain ⟨u, taken⟩ := LawfulTokenSource.next_lookahead seen
      have accepted : accept (.mark .arrow) s = .ok true u := by
        rw [accept, bind_of_ok seen, if_pos arrow, bind_of_ok taken]
        rfl
      have expected : expect (.mark .arrow) t = .ok x.line u := by
        rw [expect, bind_of_ok taken, if_pos arrow]
        rfl
      rw [if_pos arrow, bind_of_ok expected]
      refine (bind_of_ok accepted).trans ?_
      cases ran : (ty u : EStateM.Result _ σ _) with
      | error e v => exact (bind_of_error ran).trans (bind_of_error ran).symm
      | ok right v =>
        -- The next round finds no arrow.
        have last : (Routine.arrows (.function left right)).parser v =
            .ok (.function left right) v := bind_of_ok (accept_of_tyWithin ran)
        exact (bind_of_ok ran).trans ((bind_of_ok ran).trans last).symm
    · have refused : accept (.mark .arrow) s = .ok false t := by
        rw [accept, bind_of_ok seen, if_neg arrow]
        rfl
      rw [if_neg arrow]
      exact bind_of_ok refused

theorem agree_expression : Agree bound (fun _ => 1) (expression : ParserOn σ _) expression :=
  .remaining_left fun _ => agree_binary (Nat.le_refl _) 0

theorem agree_program : Agree bound (fun _ => 1) (program : ParserOn σ _) program := by
  refine .bind agree_expression fun _ => .bind agree_lookahead fun _ => .ite (fun _ => ?_)
    fun _ => .fail _ _
  exact (Agree.pure _).weaken fun _ => by simp

end Parser

variable [LawfulTokenSource σ]

open ListLang.Parser in
/-- With a result the parser of a routine has taken tokens. -/
theorem Routine.agree_self :
    (r : Routine) → Agree bound r.takes (r.parser : ParserOn σ _) r.parser
  | program => agree_program
  | expression => agree_expression
  | binary power => .remaining_left fun _ => agree_binary (Nat.le_refl _) power
  | operators power left =>
    .remaining_left fun _ => agree_operators (Nat.le_refl _) (Nat.le_refl _) power left
  | application => .remaining_left fun _ => agree_application (Nat.le_refl _)
  | arguments function =>
    .remaining_left fun _ => agree_arguments (Nat.le_refl _) (Nat.le_refl _) function
  | atom => .remaining_left fun _ => agree_atom (Nat.le_refl _)
  | grouping => (agree_groupingWith agree_expression).mono (Nat.le_succ _)
  | listLiteral => .remaining_left fun _ => agree_listLiteral (Nat.le_succ _)
  | elements tag => .remaining_left fun _ => agree_elements (Nat.le_refl _) (Nat.le_refl _) tag
  | listOperation => .remaining_left fun _ => agree_listOperation (Nat.le_succ _)
  | lambda => (agree_lambdaWith agree_expression).mono (Nat.le_succ _)
  | letIn => (agree_letInWith agree_expression).mono (Nat.le_succ _)
  | cond => (agree_condWith agree_expression).mono (Nat.le_succ _)
  | ty => .remaining_left fun _ => agree_ty (Nat.le_refl _)
  | arrows left => agree_arrows (.remaining_left fun _ => agree_ty (Nat.le_refl _)) left
  | tyAtom => .remaining_left fun _ => agree_tyAtom (Nat.le_succ _)

/-! ## Parsers of tokens and operands -/

namespace Performs

theorem take : Performs bound counts (TokenSource.next : ParserOn σ _) .take := by
  refine fun s small => ⟨?_, (Parser.agree_next s small).2⟩
  cases ran : (TokenSource.next s : EStateM.Result _ σ _) with
  | ok x t => exact ⟨_, Script.ends_take ran⟩
  | error e t => exact ⟨_, Script.ends_take_error ran⟩

theorem look : Performs bound (fun _ => 0) (TokenSource.lookahead : ParserOn σ _) .look := by
  refine fun s small => ⟨?_, (Parser.agree_lookahead s small).2⟩
  cases ran : (TokenSource.lookahead s : EStateM.Result _ σ _) with
  | ok x t => exact ⟨_, Script.ends_look ran⟩
  | error e t => exact ⟨_, Script.ends_look_error ran⟩

/-- A parser that bounds the tokens it takes by the size of the source, which is none of 0. -/
theorem remaining {f : Nat → ParserOn σ α}
    (h : ∀ n ≤ bound, Performs (n + 1) takes (f (n + 1)) c) :
    Performs (bound + 1) takes (Parser.remaining >>= f) c := by
  intro s small
  obtain ⟨n, eq⟩ := Nat.exists_eq_add_one.mpr (LawfulTokenSource.size_pos s)
  have within := h n (by omega) s (Nat.le_of_eq eq)
  rw [← eq] at within
  exact within

theorem expect {t : Token} (ne : t ≠ .endOfInput) :
    Performs bound (fun _ => 1) (Parser.expect t : ParserOn σ _) (.expect t) :=
  sharpen (.bind take fun _ => .ite (fun _ => .pure _) fun _ => .fail _ _) (Parser.agree_expect ne)

theorem accept (t : Token) :
    Performs bound (fun _ => 0) (Parser.accept t : ParserOn σ _) (.accept t) :=
  .bind look fun _ => .ite (fun _ => .bind take fun _ => .pure _) fun _ => .pure _

theorem binder : Performs bound (fun _ => 1) (Parser.binder : ParserOn σ _) .binder := by
  refine sharpen (.bind take fun found => ?_) Parser.agree_binder
  obtain ⟨item, line⟩ := found
  cases item with
  | identifier name => exact .pure name
  | _ => exact .fail _ _

section Atoms

variable (atom : Performs bound (fun _ => 0) (Routine.atom.parser : ParserOn σ _) Routine.atom.code)
  (enough : bound ≤ n)

include atom enough

theorem required :
    Performs bound (fun _ => 1) (Parser.requiredWith (atomWithin n) : ParserOn σ _) .required := by
  have atoms := Parser.agree_atomWithin (σ := σ) enough enough
  refine sharpen (.bind (.run atom (Parser.agree_atom enough)) fun o => ?_)
    (Parser.agree_requiredWith atoms)
  cases o with
  | some e => exact .pure e
  | none => exact .bind look fun _ => .fail _ _

theorem operand (op : ListOperation) (line : Nat) :
    Performs bound (fun _ => 1) (Parser.operandWith (atomWithin n) op line : ParserOn σ _)
      (.operand op line) := by
  have atoms := Parser.agree_atomWithin (σ := σ) enough enough
  refine sharpen (.bind (.run atom (Parser.agree_atom enough)) fun o => ?_)
    (Parser.agree_operandWith atoms op line)
  cases o with
  | some e => exact .pure e
  | none => exact .fail _ _

end Atoms

theorem annotatedTy
    (ty : Performs bound (fun _ => 0) (Routine.ty.parser : ParserOn σ _) Routine.ty.code) :
    Performs bound (fun _ => 0) (Parser.annotatedTy : ParserOn σ _) .annotatedTy := by
  refine .bind (accept _) fun _ => .ite (fun _ => ?_) fun _ => .pure _
  exact .bind (.run ty Routine.ty.agree_self) fun _ => .pure _

theorem tokenAtom (f : Nat → Expr) :
    Performs bound (fun _ => 0) (some <$> Parser.tokenAtom f : ParserOn σ _) (.tokenAtom f) := by
  rw [Parser.tokenAtom, map_bind]
  exact .bind take fun _ => .pure _

end Performs

/-! ## What the parsers do -/

/-- The parser of the same name does what the routine does, on sources of size at most `bound`. -/
def Routine.Performed (σ : Type) [TokenSource σ] (bound : Nat) (r : Routine) : Prop :=
  Performs bound (fun _ => 0) (r.parser : ParserOn σ _) r.code

namespace Routine.Performed

open Performs

theorem program (expression : Routine.expression.Performed σ bound) :
    Routine.program.Performed σ bound :=
  .bind (.run expression (agree_self _)) fun _ => .bind look fun _ =>
    .ite (fun _ => .pure _) fun _ => .fail _ _

theorem expression (binary : (Routine.binary 0).Performed σ bound) :
    Routine.expression.Performed σ bound :=
  .weaken (.run (r := .binary 0) binary (agree_self _))

theorem atom (form : ∀ r : Routine, r.rank = 0 → r.Performed σ (bound + 1)) :
    Routine.atom.Performed σ (bound + 1) := by
  refine .remaining fun n le => .bind look fun found => ?_
  have inner := Parser.agree_binary (σ := σ) (Nat.le_refl n) 0
  have formed : ∀ r : Routine, r.rank = 0 → r.Performed σ (n + 1) :=
    fun r low => (form r low).mono (by omega)
  obtain ⟨item, line⟩ := found
  cases item with
  | integer | bool | string | identifier => exact tokenAtom _
  | mark m =>
    cases m with
    | leftParen => exact formAtom (.run (formed .grouping rfl) (Parser.agree_groupingWith inner))
    | backslash => exact formAtom (.run (formed .lambda rfl) (Parser.agree_lambdaWith inner))
    | _ => exact .pure none
  | keyword k =>
    cases k with
    | listWord =>
      exact formAtom (.run (formed .listLiteral rfl) (Parser.agree_listLiteral (Nat.le_refl _)))
    | letWord => exact formAtom (.run (formed .letIn rfl) (Parser.agree_letInWith inner))
    | ifWord => exact formAtom (.run (formed .cond rfl) (Parser.agree_condWith inner))
    | _ => exact .pure none
  | listOperation op =>
    exact formAtom (.run (formed .listOperation rfl) (Parser.agree_listOperation (Nat.le_refl _)))
  | _ => exact .pure none

variable (below : ∀ r : Routine, r.Performed σ bound)

include below

omit [LawfulTokenSource σ] in
theorem of_le (le : n ≤ bound) (r : Routine) : r.Performed σ n := Performs.mono (below r) le

theorem binary (application : Routine.application.Performed σ (bound + 1)) (power : Nat) :
    (Routine.binary power).Performed σ (bound + 1) := by
  refine .remaining fun n le => ?_
  refine .bind (.run (application.mono (by omega)) (Parser.agree_application (Nat.le_refl _)))
    fun first => ?_
  exact .run ((below _).mono le)
    (Parser.agree_operators (Nat.le_succ n) (Nat.le_succ n) power first)

theorem operators (binary : ∀ power, (Routine.binary power).Performed σ (bound + 1)) (power : Nat)
    (left : Expr) : (Routine.operators power left).Performed σ (bound + 1) := by
  refine .remaining fun n le => .bind look fun found => ?_
  obtain ⟨item, line⟩ := found
  cases item with
  | operator op =>
    refine .ite (fun _ => .bind take fun x => ?_) fun _ => .pure left
    -- The operand behind the operator and what is joined to it are read in one go.
    rw [← bind_assoc]
    refine .bind (.run ((binary op.rightPower).mono (by omega))
      (Parser.agree_operand (by omega) (by omega) op.rightPower)) fun right => ?_
    have one : (Routine.binary op.rightPower).takes right = 1 := rfl
    exact .run (of_le below (by omega) _) (Parser.agree_operators (by omega) (by omega) power _)
  | _ => exact .pure left

theorem application (atom : Routine.atom.Performed σ (bound + 1)) :
    Routine.application.Performed σ (bound + 1) := by
  refine .remaining fun n le => ?_
  refine .bind (required (atom.mono (by omega)) (Nat.le_refl _)) fun function => ?_
  exact .run ((below _).mono le) (Parser.agree_arguments (Nat.le_succ n) (Nat.le_succ n) function)

theorem arguments (atom : Routine.atom.Performed σ (bound + 1)) (function : Expr) :
    (Routine.arguments function).Performed σ (bound + 1) := by
  refine .remaining fun n le => ?_
  refine .bind (.run (atom.mono (by omega)) (Parser.agree_atom (Nat.le_refl _))) fun o => ?_
  cases o with
  | some argument =>
    exact .run ((below _).mono le) (Parser.agree_arguments (Nat.le_succ n) (Nat.le_refl n) _)
  | none => exact .pure function

theorem grouping : Routine.grouping.Performed σ (bound + 1) :=
  .bind (.expect (by simp)) fun _ => .bind (.run (below .expression) (agree_self _)) fun _ =>
    .bind (.expect (by simp)) fun _ => .pure _

theorem listLiteral : Routine.listLiteral.Performed σ (bound + 1) := by
  refine .remaining fun n le => .bind (.expect (by simp)) fun line => ?_
  refine .bind (.expect (by simp)) fun _ => .bind look fun found => ?_
  have rest : Performs (n + 1 - 1 - 1 - 0) (fun _ => 0) (do
      let element ← Parser.requiredWith (atomWithin (n + 1))
      let rest ← Parser.elementsWith (atomWithin (n + 1)) element.tag (n + 1)
      let _ ← Parser.expect (.mark .rightBracket)
      pure (Expr.list element.tag (element :: rest) line) : ParserOn σ _) (do
      let element ← Script.required
      let rest ← Script.run (.elements element.tag)
      let _ ← Script.expect (.mark .rightBracket)
      pure (Expr.list element.tag (element :: rest) line)) := by
    refine .bind (required (of_le below (by omega) _) (by omega)) fun element => ?_
    refine .bind (.run (of_le below (by omega) _) (Parser.agree_elements (by omega) (by omega) _))
      fun _ => .bind (.expect (by simp)) fun _ => .pure _
  obtain ⟨item, place⟩ := found
  cases item with
  | mark m =>
    cases m with
    | rightBracket | comma => exact .fail _ _
    | _ => exact rest
  | _ => exact rest

theorem elements (tag : Tag) : (Routine.elements tag).Performed σ (bound + 1) := by
  refine .remaining fun n le => .bind look fun _ => .ite (fun _ => .pure _) fun _ => ?_
  refine .bind (.expect (by simp)) fun _ => .bind look fun _ => ?_
  refine .ite (fun _ => .fail _ _) fun _ => ?_
  refine .bind (required (of_le below (by omega) _) (by omega)) fun element =>
    .ite (fun _ => ?_) fun _ => .fail _ _
  exact .bind (.run (of_le below (by omega) _) (Parser.agree_elements (by omega) (by omega) tag))
    fun _ => .pure _

theorem listOperation : Routine.listOperation.Performed σ (bound + 1) := by
  refine .remaining fun n le => .bind take fun found => ?_
  obtain ⟨item, line⟩ := found
  cases item with
  | listOperation op =>
    have operand : ∀ less ≤ n, Performs less (fun _ => 1)
        (Parser.operandWith (atomWithin (n + 1)) op line : ParserOn σ _) (.operand op line) :=
      fun less small => operand (of_le below (by omega) _) (by omega) op line
    refine .bind (operand _ (Nat.le_refl n)) fun first => ?_
    generalize op.arity = arity
    match arity with
    | 1 => exact .pure _
    | 2 => exact .bind (operand _ (by omega)) fun _ => .pure _
    | 0 | _ + 3 =>
      exact .bind (operand _ (by omega)) fun _ => .bind (operand _ (by omega)) fun _ => .pure _
  | _ => exact .fail _ _

theorem lambda : Routine.lambda.Performed σ (bound + 1) :=
  .bind (.expect (by simp)) fun _ => .bind .binder fun _ =>
    .bind (.annotatedTy (of_le below (by omega) _)) fun _ => .bind (.expect (by simp)) fun _ =>
      .bind (.run (of_le below (by omega) _) (agree_self _)) fun _ => .pure _

theorem letIn : Routine.letIn.Performed σ (bound + 1) :=
  .bind (.expect (by simp)) fun _ => .bind (.accept _) fun _ => .bind .binder fun _ =>
    .bind (.expect (by simp)) fun _ =>
      .bind (.run (of_le below (by omega) _) (agree_self _)) fun _ =>
        .bind (.expect (by simp)) fun _ =>
          .bind (.run (of_le below (by omega) _) (agree_self _)) fun _ => .pure _

theorem cond : Routine.cond.Performed σ (bound + 1) :=
  .bind (.expect (by simp)) fun _ =>
    .bind (.run (of_le below (by omega) _) (agree_self _)) fun _ =>
      .bind (.expect (by simp)) fun _ =>
        .bind (.run (of_le below (by omega) _) (agree_self _)) fun _ =>
          .bind (.expect (by simp)) fun _ =>
            .bind (.run (of_le below (by omega) _) (agree_self _)) fun _ => .pure _

theorem ty (tyAtom : Routine.tyAtom.Performed σ (bound + 1)) :
    Routine.ty.Performed σ (bound + 1) := by
  refine .remaining fun n le => ?_
  refine .bind (.run (tyAtom.mono (by omega)) (Parser.agree_tyAtom (Nat.le_refl _))) fun left => ?_
  exact .run (of_le below le _) (Parser.agree_arrows (Parser.agree_ty (Nat.le_refl n)) left)

theorem arrows (left : Ty) : (Routine.arrows left).Performed σ (bound + 1) := by
  rw [Routine.Performed, Parser.arrows_eq]
  refine .bind look fun _ => .ite (fun _ => ?_) fun _ => .pure left
  refine .bind (.expect (by simp)) fun _ => ?_
  refine .bind (.run (of_le below (by omega) _) (agree_self .ty)) fun right => ?_
  exact .run (of_le below (by omega) _) (agree_self (.arrows _))

theorem tyAtom : Routine.tyAtom.Performed σ (bound + 1) := by
  refine .remaining fun n le => .bind take fun found => ?_
  obtain ⟨item, line⟩ := found
  cases item with
  | typeName b => exact .pure _
  | mark m =>
    cases m with
    | leftParen =>
      exact .bind (.run (of_le below le _) (Parser.agree_ty (Nat.le_succ n))) fun _ =>
        .bind (.expect (by simp)) fun _ => .pure _
    | _ => exact .fail _ _
  | _ => exact .fail _ _

/-- Every routine does what its parser does, if those that it calls do. -/
theorem step : (r : Routine) →
    (∀ lower : Routine, lower.rank < r.rank → lower.Performed σ (bound + 1)) →
    r.Performed σ (bound + 1)
  | .program, lower => program (lower .expression (by decide))
  | .expression, lower => expression (lower (.binary 0) (by decide))
  | .binary power, lower => binary below (lower .application (by simp [rank])) power
  | .operators power left, lower =>
    operators below (fun power => lower (.binary power) (by simp [rank])) power left
  | .application, lower => application below (lower .atom (by decide))
  | .arguments function, lower => arguments below (lower .atom (by simp [rank])) function
  | .atom, lower => atom fun r low => lower r (by rw [low]; decide)
  | .grouping, _ => grouping below
  | .listLiteral, _ => listLiteral below
  | .elements tag, _ => elements below tag
  | .listOperation, _ => listOperation below
  | .lambda, _ => lambda below
  | .letIn, _ => letIn below
  | .cond, _ => cond below
  | .ty, lower => ty below (lower .tyAtom (by decide))
  | .arrows left, _ => arrows below left
  | .tyAtom, _ => tyAtom below

end Routine.Performed

/-- The parsers do what the routines do, and come to an end. The size of the source goes down with
the tokens that are taken, and between them the rank of the routines that are called. -/
theorem Routine.performed (bound : Nat) (r : Routine) : r.Performed σ bound := by
  induction bound generalizing r with
  | zero => exact fun s small => absurd (LawfulTokenSource.size_pos s) (Nat.not_lt.mpr small)
  | succ bound below =>
    induction r using (measure rank).wf.induction with
    | _ r lower => exact Performed.step below r lower

theorem Routine.ends (r : Routine) (s : σ) : ∃ xs, r.code.Ends s xs (r.parser s) :=
  (r.performed (size s) s (Nat.le_refl _)).1

end ListLang
