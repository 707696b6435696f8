import ListLang.Parser.Expr

/-!
# Routines of the parser

The parsers call each other: an expression is read by its atoms, an atom by the expressions in it,
and each loop by going round once more. Here they are written as routines that do so, with no bound
of the tokens that they take. A routine runs step by step on a source, and a call runs the routine
that is called; nothing says beforehand that a run comes to an end.

## Main definitions

* `Routine` — the parsers and their loops.
* `Script` — steps on a source of tokens, and calls of routines.
* `Routine.code` — what a routine does.
* `Script.Ends` — a run of a script that ends, with the tokens that it takes.

## Main statements

* `Script.Ends.unique` — a script has no two runs from the same place.
* `Script.ends_bind`, `Script.exists_of_ends_bind` — one script after the other.
-/

namespace ListLang

/-- The parsers, and what their loops do from one round on: `operators` extends an expression to
the right, `arguments` applies a function, `elements` goes on behind an element of a list, and
`arrows` behind the argument of a function type. -/
inductive Routine where
  | program
  | expression
  | binary (power : Nat)
  | operators (power : Nat) (left : Expr)
  | application
  | arguments (function : Expr)
  | atom
  | grouping
  | listLiteral
  | elements (tag : Tag)
  | listOperation
  | lambda
  | letIn
  | cond
  | ty
  | arrows (left : Ty)
  | tyAtom

/-- What a routine results in. -/
@[reducible] def Routine.Result : Routine → Type
  | atom => Option Expr
  | elements _ => List Expr
  | ty | arrows _ | tyAtom => Ty
  | _ => Expr

/-- Steps on a source of tokens that go on by what they find, and calls of routines. -/
inductive Script (α : Type) : Type where
  | done (a : α)
  | fail (line : Nat) (cause : ParseError.Cause)
  | next (k : Located Token → Script α)
  | lookahead (k : Located Token → Script α)
  | call (r : Routine) (k : r.Result → Script α)

namespace Script

variable {α β : Type}

/-- The first script, and then the one that its result gives. -/
def bind : Script α → (α → Script β) → Script β
  | .done a, f => f a
  | .fail line cause, _ => .fail line cause
  | .next k, f => .next fun x => (k x).bind f
  | .lookahead k, f => .lookahead fun x => (k x).bind f
  | .call r k, f => .call r fun a => (k a).bind f

instance : Monad Script where
  pure := .done
  bind := bind

/-- Takes the first token ahead. -/
def take : Script (Located Token) := .next .done

/-- Looks at the first token ahead. -/
def look : Script (Located Token) := .lookahead .done

/-- Runs a routine. -/
def run (r : Routine) : Script r.Result := .call r .done

/-- Takes the token `t` and gives its line. -/
def expect (t : Token) : Script Nat := do
  let found ← take
  if found.item = t then pure found.line
  else fail found.line (.unexpectedToken (.token t) found.item)

/-- Takes the token `t` if it is ahead, and tells whether it was. -/
def accept (t : Token) : Script Bool := do
  let found ← look
  if found.item = t then
    let _ ← take
    pure true
  else pure false

/-- Takes the name that a lambda or a `let` binds. -/
def binder : Script String := do
  let found ← take
  match found.item with
  | .identifier name => pure name
  | t => fail found.line (.unexpectedToken .binder t)

/-- An atom, which has to be there. -/
def required : Script Expr := do
  match ← run .atom with
  | some e => pure e
  | none =>
    let found ← look
    fail found.line (.expectedExpression found.item)

/-- An operand of the list operation `op`, whose keyword stands on line `line`. -/
def operand (op : ListOperation) (line : Nat) : Script Expr := do
  match ← run .atom with
  | some e => pure e
  | none => fail line (.missingArgument op)

/-- The type of a parameter, if one is given. -/
def annotatedTy : Script (Option Ty) := do
  if ← accept (.mark .colon) then
    let t ← run .ty
    pure (some t)
  else pure none

/-- Takes the first token ahead, which makes the atom `atom` of its line. -/
def tokenAtom (atom : Nat → Expr) : Script (Option Expr) := do
  let found ← take
  pure (some (atom found.line))

/-- Runs a routine for an atom that is there. -/
def formAtom (form : Script Expr) : Script (Option Expr) := do
  let e ← form
  pure (some e)

end Script

namespace Routine

open Script

/-- What a routine does. -/
def code : (r : Routine) → Script r.Result
  | program => do
    let e ← run expression
    let found ← look
    if found.item = .endOfInput then pure e
    else fail found.line (.trailingTokens found.item)
  | expression => run (binary 0)
  | binary power => do
    let first ← run application
    run (operators power first)
  | operators power left => do
    let found ← look
    match found.item with
    | .operator op =>
      if power ≤ op.leftPower then
        let _ ← take
        let right ← run (binary op.rightPower)
        run (operators power (.binary op left right found.line))
      else pure left
    | _ => pure left
  | application => do
    let function ← required
    run (arguments function)
  | arguments function => do
    match ← run atom with
    | some argument => run (arguments (.app function argument function.line))
    | none => pure function
  | atom => do
    let found ← look
    match found.item with
    | .integer n => tokenAtom (.literal (.integer n))
    | .bool b => tokenAtom (.literal (.bool b))
    | .string s => tokenAtom (.literal (.string s))
    | .identifier name => tokenAtom (.var name)
    | .mark .leftParen => formAtom (run grouping)
    | .mark .backslash => formAtom (run lambda)
    | .keyword .listWord => formAtom (run listLiteral)
    | .keyword .letWord => formAtom (run letIn)
    | .keyword .ifWord => formAtom (run cond)
    | .listOperation _ => formAtom (run listOperation)
    | _ => pure none
  | grouping => do
    let _ ← expect (.mark .leftParen)
    let inner ← run expression
    let _ ← expect (.mark .rightParen)
    pure inner
  | listLiteral => do
    let line ← expect (.keyword .listWord)
    let _ ← expect (.mark .leftBracket)
    let found ← look
    match found.item with
    | .mark .rightBracket => fail found.line .emptyList
    | .mark .comma => fail found.line .malformedList
    | _ =>
      let element ← required
      let rest ← run (elements element.tag)
      let _ ← expect (.mark .rightBracket)
      pure (.list element.tag (element :: rest) line)
  | elements tag => do
    let found ← look
    if found.item = .mark .rightBracket then pure []
    else
      let _ ← expect (.mark .comma)
      let found ← look
      if found.item = .mark .comma ∨ found.item = .mark .rightBracket then
        fail found.line .malformedList
      else
        let element ← required
        if element.tag = tag then
          let rest ← run (elements tag)
          pure (element :: rest)
        else fail element.line (.mixedList tag element.tag)
  | listOperation => do
    let found ← take
    match found.item with
    | .listOperation op =>
      let first ← operand op found.line
      match op.arity with
      | 1 => pure (.listOp1 op first found.line)
      | 2 =>
        let second ← operand op found.line
        pure (.listOp2 op first second found.line)
      | _ =>
        let second ← operand op found.line
        let third ← operand op found.line
        pure (.listOp3 op first second third found.line)
    | t => fail found.line (.unexpectedToken .listOperation t)
  | lambda => do
    let line ← expect (.mark .backslash)
    let param ← binder
    let paramTy ← annotatedTy
    let _ ← expect (.mark .fatArrow)
    let body ← run expression
    pure (.lam param paramTy body line)
  | letIn => do
    let line ← expect (.keyword .letWord)
    let recursive ← accept (.keyword .recWord)
    let name ← binder
    let _ ← expect (.mark .equals)
    let value ← run expression
    let _ ← expect (.keyword .inWord)
    let body ← run expression
    pure (.letIn recursive name value body line)
  | cond => do
    let line ← expect (.keyword .ifWord)
    let condition ← run expression
    let _ ← expect (.keyword .thenWord)
    let consequent ← run expression
    let _ ← expect (.keyword .elseWord)
    let alternative ← run expression
    pure (.cond condition consequent alternative line)
  | ty => do
    let argument ← run tyAtom
    run (arrows argument)
  | arrows left => do
    let found ← look
    if found.item = .mark .arrow then
      let _ ← expect (.mark .arrow)
      let right ← run ty
      run (arrows (.function left right))
    else pure left
  | tyAtom => do
    let found ← take
    match found.item with
    | .typeName b => pure (.base b)
    | .mark .leftParen =>
      let inner ← run ty
      let _ ← expect (.mark .rightParen)
      pure inner
    | t => fail found.line (.expectedType t)

end Routine

/-! ## Runs -/

namespace Script

variable {σ : Type} [TokenSource σ]

/-- From the source `s` the script comes to an end, with a result or an error and the source behind
it, after it has taken these tokens. -/
inductive Ends : {α : Type} → Script α → σ → List (Located Token) →
    EStateM.Result ParseError σ α → Prop
  | done {α : Type} {a : α} {s : σ} : Ends (.done a) s [] (.ok a s)
  | fail {α : Type} {line : Nat} {cause : ParseError.Cause} {s : σ} :
    Ends (.fail line cause : Script α) s [] (.error ⟨line, cause⟩ s)
  | next {α : Type} {k : Located Token → Script α} {s t : σ} {x xs out} :
    TokenSource.next s = .ok x t → Ends (k x) t xs out → Ends (.next k) s (x :: xs) out
  | next_error {α : Type} {k : Located Token → Script α} {s t : σ} {e} :
    TokenSource.next s = .error e t → Ends (.next k) s [] (.error e t)
  | lookahead {α : Type} {k : Located Token → Script α} {s t : σ} {x xs out} :
    TokenSource.lookahead s = .ok x t → Ends (k x) t xs out → Ends (.lookahead k) s xs out
  | lookahead_error {α : Type} {k : Located Token → Script α} {s t : σ} {e} :
    TokenSource.lookahead s = .error e t → Ends (.lookahead k) s [] (.error e t)
  | call {α : Type} {r : Routine} {k : r.Result → Script α} {s t : σ} {a xs ys out} :
    Ends r.code s xs (.ok a t) → Ends (k a) t ys out → Ends (.call r k) s (xs ++ ys) out
  | call_error {α : Type} {r : Routine} {k : r.Result → Script α} {s t : σ} {e xs} :
    Ends r.code s xs (.error e t) → Ends (.call r k) s xs (.error e t)

variable {α β : Type} {s t u : σ} {xs ys : List (Located Token)}

/-- A script has no two runs from the same place. -/
theorem Ends.unique {c : Script α} {out out' : EStateM.Result ParseError σ α}
    (h : c.Ends s xs out) (h' : c.Ends s ys out') : ys = xs ∧ out' = out := by
  induction h generalizing ys with
  | done | fail =>
    cases h'
    exact ⟨rfl, rfl⟩
  | next ok _ ih =>
    cases h' with
    | next ok' rest =>
      cases ok.symm.trans ok'
      obtain ⟨rfl, rfl⟩ := ih rest
      exact ⟨rfl, rfl⟩
    | next_error failed => cases ok.symm.trans failed
  | next_error failed =>
    cases h' with
    | next ok => cases failed.symm.trans ok
    | next_error failed' =>
      cases failed.symm.trans failed'
      exact ⟨rfl, rfl⟩
  | lookahead ok _ ih =>
    cases h' with
    | lookahead ok' rest =>
      cases ok.symm.trans ok'
      exact ih rest
    | lookahead_error failed => cases ok.symm.trans failed
  | lookahead_error failed =>
    cases h' with
    | lookahead ok => cases failed.symm.trans ok
    | lookahead_error failed' =>
      cases failed.symm.trans failed'
      exact ⟨rfl, rfl⟩
  | call _ _ first rest =>
    cases h' with
    | call first' rest' =>
      obtain ⟨rfl, ⟨⟩⟩ := first first'
      obtain ⟨rfl, rfl⟩ := rest rest'
      exact ⟨rfl, rfl⟩
    | call_error failed => cases (first failed).2
  | call_error _ first =>
    cases h' with
    | call first' => cases (first first').2
    | call_error failed =>
      obtain ⟨rfl, ⟨⟩⟩ := first failed
      exact ⟨rfl, rfl⟩

section Bind

variable {c : Script α} {f : α → Script β} {a : α}

theorem ends_bind {out : EStateM.Result ParseError σ β} (first : c.Ends s xs (.ok a t))
    (rest : (f a).Ends t ys out) : (c >>= f).Ends s (xs ++ ys) out := by
  induction c generalizing s xs with
  | done b =>
    cases first
    exact rest
  | fail => cases first
  | next k ih =>
    cases first with
    | next ok inner => exact .next ok (ih _ inner)
  | lookahead k ih =>
    cases first with
    | lookahead ok inner => exact .lookahead ok (ih _ inner)
  | call r k ih =>
    cases first with
    | call called inner =>
      rw [List.append_assoc]
      exact .call called (ih _ inner)

theorem ends_bind_error {e : ParseError} (first : c.Ends s xs (.error e t)) :
    (c >>= f).Ends s xs (.error e t) := by
  induction c generalizing s xs with
  | done => cases first
  | fail =>
    cases first
    exact .fail
  | next k ih =>
    cases first with
    | next ok inner => exact .next ok (ih _ inner)
    | next_error failed => exact .next_error failed
  | lookahead k ih =>
    cases first with
    | lookahead ok inner => exact .lookahead ok (ih _ inner)
    | lookahead_error failed => exact .lookahead_error failed
  | call r k ih =>
    cases first with
    | call called inner => exact .call called (ih _ inner)
    | call_error failed => exact .call_error failed

/-- Two scripts that come to a result one after the other come to one each. -/
theorem exists_of_ends_bind {b : β} (h : (c >>= f).Ends s xs (.ok b u)) :
    ∃ a t ys zs, c.Ends s ys (.ok a t) ∧ (f a).Ends t zs (.ok b u) ∧ xs = ys ++ zs := by
  induction c generalizing s xs with
  | done a => exact ⟨a, s, [], xs, .done, h, rfl⟩
  | fail => cases h
  | next k ih =>
    cases h with
    | next ok inner =>
      obtain ⟨a, t, ys, zs, first, rest, rfl⟩ := ih _ inner
      exact ⟨a, t, _, zs, .next ok first, rest, rfl⟩
  | lookahead k ih =>
    cases h with
    | lookahead ok inner =>
      obtain ⟨a, t, ys, zs, first, rest, rfl⟩ := ih _ inner
      exact ⟨a, t, ys, zs, .lookahead ok first, rest, rfl⟩
  | call r k ih =>
    cases h with
    | call called inner =>
      obtain ⟨a, t, ys, zs, first, rest, rfl⟩ := ih _ inner
      exact ⟨a, t, _, zs, .call called first, rest, (List.append_assoc _ _ _).symm⟩

end Bind

/-! ## Runs of single steps -/

theorem ends_take {x : Located Token} (ok : TokenSource.next s = .ok x t) :
    take.Ends s [x] (.ok x t) :=
  .next ok .done

theorem ends_take_error {e : ParseError} (failed : TokenSource.next s = .error e t) :
    take.Ends s [] (.error e t) :=
  .next_error failed

theorem ends_look {x : Located Token} (ok : TokenSource.lookahead s = .ok x t) :
    look.Ends s [] (.ok x t) :=
  .lookahead ok .done

theorem ends_look_error {e : ParseError} (failed : TokenSource.lookahead s = .error e t) :
    look.Ends s [] (.error e t) :=
  .lookahead_error failed

/-- Running a routine is doing what it does. -/
theorem ends_run_iff {r : Routine} {out : EStateM.Result ParseError σ r.Result} :
    (run r).Ends s xs out ↔ r.code.Ends s xs out := by
  constructor
  · rintro (_ | _ | _ | _ | _ | _ | ⟨called, ⟨⟩⟩ | failed)
    · rwa [List.append_nil]
    · exact failed
  · intro h
    cases out with
    | ok a t =>
      rw [← List.append_nil xs]
      exact .call h .done
    | error e t => exact .call_error h

end Script

end ListLang
