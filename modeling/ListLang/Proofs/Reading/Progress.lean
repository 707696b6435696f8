import ListLang.Proofs.Reading.Lexer
import ListLang.Proofs.Reading.Termination

/-!
# Parsing makes progress

With a result a routine of the parser has taken a token that is not the end of input. Where no atom
starts, none is taken. What is left of a loop may be nothing, and then nothing is taken either. The
first token that a routine takes, or the first routine that it calls, is all that has to be looked
at for that.

## Main definitions

* `Advances` — tokens among which one is not the end of input.
* `Routine.Progress` — the tokens that a routine takes for its result.
* `Script.Progresses` — a script that has taken a token where it has a result.

## Main statements

* `Routine.progress` — routines make progress.
* `parsing_ends` — every parser ends, and makes progress.
-/

namespace ListLang

open TokenStream (ofSource)

/-- Not all of the tokens are the end of input. -/
def Advances (taken : List (Located Token)) : Prop := ∃ x ∈ taken, x.item ≠ .endOfInput

/-- The tokens that a routine takes for its result: none where no atom starts, any that there are
for what is left of a loop, and else one at least that is not the end of input. -/
def Routine.Progress : (r : Routine) → r.Result → List (Located Token) → Prop
  | atom, none, taken => taken = []
  | atom, some _, taken => Advances taken
  | operators _ _, _, _ | arguments _, _, _ | elements _, _, _ | arrows _, _, _ => True
  | program, _, taken | expression, _, taken | binary _, _, taken | application, _, taken
  | grouping, _, taken | listLiteral, _, taken | listOperation, _, taken | lambda, _, taken
  | letIn, _, taken | cond, _, taken | ty, _, taken | tyAtom, _, taken => Advances taken

theorem Advances.append_left {xs : List (Located Token)} (h : Advances xs)
    (ys : List (Located Token)) : Advances (xs ++ ys) := by
  obtain ⟨x, mem, ne⟩ := h
  exact ⟨x, List.mem_append_left ys mem, ne⟩

/-! ## Scripts that advance -/

variable {σ α β : Type} [TokenSource σ] {s t : σ} {xs : List (Located Token)}

namespace Script

variable {c : Script α} {f : α → Script β}

/-- With a result the script has taken a token that is not the end of input. -/
def Progresses (σ : Type) [TokenSource σ] (c : Script α) : Prop :=
  ∀ (s t : σ) xs a, c.Ends s xs (.ok a t) → Advances xs

theorem Progresses.bind (first : c.Progresses σ) (f : α → Script β) :
    (c >>= f).Progresses σ := by
  intro s u xs b ends
  obtain ⟨a, t, ys, zs, here, -, rfl⟩ := exists_of_ends_bind ends
  exact (first s t ys a here).append_left zs

theorem Progresses.run {r : Routine} (h : r.code.Progresses σ) : (run r).Progresses σ :=
  fun s t xs a ends => h s t xs a (ends_run_iff.mp ends)

theorem not_ends_fail {line : Nat} {cause : ParseError.Cause} {a : α} :
    ¬ (Script.fail line cause).Ends s xs (.ok a t) := nofun

theorem eq_of_ends_take {x : Located Token} (ends : take.Ends s xs (.ok x t)) :
    xs = [x] ∧ TokenSource.next s = .ok x t := by
  cases ends with
  | next ok rest =>
    cases rest
    exact ⟨rfl, ok⟩

theorem eq_of_ends_look {x : Located Token} (ends : look.Ends s xs (.ok x t)) :
    xs = [] ∧ TokenSource.lookahead s = .ok x t := by
  cases ends with
  | lookahead ok rest =>
    cases rest
    exact ⟨rfl, ok⟩

/-- A script that refuses the end of input takes another token for its result. -/
theorem progresses_take {f : Located Token → Script β}
    (refuses : ∀ (line : Nat) (s t : σ) xs b, ¬ (f ⟨.endOfInput, line⟩).Ends s xs (.ok b t)) :
    (take >>= f).Progresses σ := by
  intro s u xs b ends
  obtain ⟨⟨item, line⟩, t, ys, zs, took, rest, rfl⟩ := exists_of_ends_bind ends
  obtain ⟨rfl, -⟩ := eq_of_ends_take took
  refine Advances.append_left ⟨_, List.mem_singleton_self _, ?_⟩ zs
  rintro rfl
  exact refuses line t u zs b rest

theorem progresses_expect {token : Token} (ne : token ≠ .endOfInput) :
    (expect token).Progresses σ := by
  refine progresses_take fun line s t xs b => ?_
  rw [if_neg ne.symm]
  exact not_ends_fail

/-- A routine that begins with a token of its own. -/
theorem progresses_of_word {r : Routine} {word : Token} {f : Nat → Script r.Result}
    (code : r.code = expect word >>= f) (ne : word ≠ .endOfInput) : r.code.Progresses σ := by
  rw [code]
  exact (progresses_expect ne).bind f

theorem progresses_listOperation : Routine.listOperation.code.Progresses σ :=
  progresses_take fun _ _ _ _ _ => not_ends_fail

theorem progresses_tyAtom : Routine.tyAtom.code.Progresses σ :=
  progresses_take fun _ _ _ _ _ => not_ends_fail

/-- A form is an atom that is there. -/
theorem progress_formAtom {c : Script Expr} (h : c.Progresses σ) {o : Option Expr}
    (ends : (formAtom c).Ends s xs (.ok o t)) : Routine.atom.Progress o xs := by
  obtain ⟨e, u, ys, zs, here, rest, rfl⟩ := exists_of_ends_bind ends
  cases rest
  exact (h s t ys e here).append_left []

/-- A token that was looked at and is an atom is the one that is taken. -/
theorem progress_tokenAtom {f : Nat → Expr} {x : Located Token} {u : σ}
    (ahead : TokenSource.next s = .ok x u) (ne : x.item ≠ .endOfInput) {o : Option Expr}
    (ends : (tokenAtom f).Ends s xs (.ok o t)) : Routine.atom.Progress o xs := by
  obtain ⟨y, v, ys, zs, took, rest, rfl⟩ := exists_of_ends_bind ends
  obtain ⟨rfl, ok⟩ := eq_of_ends_take took
  cases ahead.symm.trans ok
  cases rest
  exact ⟨x, List.mem_singleton_self x, ne⟩

end Script

open Script

variable [LawfulTokenSource σ]

/-- An atom takes a token, and where none starts no token is taken. -/
theorem progress_atom {o : Option Expr} (ends : Routine.atom.code.Ends s xs (.ok o t)) :
    Routine.atom.Progress o xs := by
  obtain ⟨⟨item, line⟩, u, ys, zs, looked, rest, rfl⟩ := exists_of_ends_bind ends
  obtain ⟨rfl, seen⟩ := eq_of_ends_look looked
  obtain ⟨v, ahead⟩ := LawfulTokenSource.next_lookahead seen
  cases item with
  | integer | bool | string | identifier =>
    exact progress_tokenAtom ahead (by simp) rest
  | mark m =>
    cases m with
    | leftParen => exact progress_formAtom (progresses_of_word rfl (by simp)).run rest
    | backslash => exact progress_formAtom (progresses_of_word rfl (by simp)).run rest
    | _ =>
      cases rest
      rfl
  | keyword k =>
    cases k with
    | listWord | letWord | ifWord =>
      exact progress_formAtom (progresses_of_word rfl (by simp)).run rest
    | _ =>
      cases rest
      rfl
  | listOperation op => exact progress_formAtom progresses_listOperation.run rest
  | _ =>
    cases rest
    rfl

theorem progresses_required : required.Progresses σ := by
  intro s t xs e ends
  obtain ⟨o, u, ys, zs, here, rest, rfl⟩ := exists_of_ends_bind ends
  have atom := progress_atom (ends_run_iff.mp here)
  cases o with
  | some => exact atom.append_left zs
  | none =>
    obtain ⟨_, _, _, _, _, failed, -⟩ := exists_of_ends_bind rest
    exact absurd failed not_ends_fail

namespace Routine

theorem progresses_application : application.code.Progresses σ := progresses_required.bind _

theorem progresses_binary (power : Nat) : (binary power).code.Progresses σ :=
  progresses_application.run.bind _

theorem progresses_expression : expression.code.Progresses σ := (progresses_binary 0).run

/-- Routines make progress. -/
theorem progress {r : Routine} {a : r.Result} (ends : r.code.Ends s xs (.ok a t)) :
    r.Progress a xs := by
  cases r with
  | program => exact progresses_expression.run.bind _ s t xs a ends
  | expression => exact progresses_expression s t xs a ends
  | binary power => exact progresses_binary power s t xs a ends
  | operators | arguments | elements | arrows => trivial
  | application => exact progresses_application s t xs a ends
  | atom => exact progress_atom ends
  | grouping | listLiteral | lambda | letIn | cond =>
    exact progresses_of_word rfl (by simp) s t xs a ends
  | listOperation => exact progresses_listOperation s t xs a ends
  | ty => exact progresses_tyAtom.run.bind _ s t xs a ends
  | tyAtom => exact progresses_tyAtom s t xs a ends

end Routine

/-- Every parser ends, whatever the lexer stands before, in a text or behind it and also behind
faults. What it does to the lexer, calling itself and the others as often as it comes to that, is
one run that comes to an end, with the tree or the error that the parser gives. With a tree it has
taken a token that is not the end of input, and where no atom starts it has taken none. -/
theorem parsing_ends (r : Routine) (s : Lexer) :
    ∃ taken, r.code.Ends s taken (r.parser s) ∧
      (∀ other out, r.code.Ends s other out → other = taken ∧ out = r.parser s) ∧
      ∀ a t, r.parser s = .ok a t → r.Progress a taken := by
  obtain ⟨taken, ends⟩ := r.ends s
  refine ⟨taken, ends, fun other out run => ends.unique run, fun a t ok => ?_⟩
  rw [ok] at ends
  exact Routine.progress ends

/-- A list literal that is not closed ends in an error, an expression that something else stands
behind ends there, and where no atom starts nothing is taken. -/
theorem parsing_ends_malformed :
    (∃ taken e t, Routine.listLiteral.code.Ends (Lexer.ofStream (ofSource "List[1, 2")) taken
      (.error e t)) ∧
    (∃ taken e t, (Routine.binary 4).code.Ends (Lexer.ofStream (ofSource "f 1 + @")) taken
      (.ok e t) ∧ Advances taken) ∧
    ∃ t, Routine.atom.code.Ends (Lexer.ofStream (ofSource ") x")) [] (.ok none t) := by
  refine ⟨?_, ?_, ?_⟩
  · have refused : (EStateM.run' Routine.listLiteral.parser
        (Lexer.ofStream (ofSource "List[1, 2"))).isNone := by decide +kernel
    obtain ⟨taken, ends, -⟩ :=
      parsing_ends .listLiteral (Lexer.ofStream (ofSource "List[1, 2"))
    unfold EStateM.run' at refused
    split at refused
    · cases refused
    · next e t ran => exact ⟨taken, e, t, ran ▸ ends⟩
  · have read : (EStateM.run' (Routine.binary 4).parser
        (Lexer.ofStream (ofSource "f 1 + @"))).isSome := by decide +kernel
    obtain ⟨taken, ends, -, progress⟩ :=
      parsing_ends (.binary 4) (Lexer.ofStream (ofSource "f 1 + @"))
    unfold EStateM.run' at read
    split at read
    · next e t ran => exact ⟨taken, e, t, ran ▸ ends, progress e t ran⟩
    · cases read
  · have nothing : (EStateM.run' Routine.atom.parser
        (Lexer.ofStream (ofSource ") x"))).any Option.isNone := by decide +kernel
    obtain ⟨taken, ends, -, progress⟩ := parsing_ends .atom (Lexer.ofStream (ofSource ") x"))
    unfold EStateM.run' at nothing
    split at nothing
    · next o t ran =>
      obtain rfl : o = none := Option.isNone_iff_eq_none.mp nothing
      obtain rfl : taken = [] := progress none t ran
      exact ⟨t, ran ▸ ends⟩
    · cases nothing

end ListLang
