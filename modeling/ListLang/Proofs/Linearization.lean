import ListLang.Proofs.Grammar.Decision
import ListLang.Proofs.Trees
import Mathlib.Data.List.Forall2

/-!
# Linearizations

A tree written out in order is the program it was read from, but for parentheses. Parsing
neither loses nor adds nor moves a token, and each node has the line of the token that makes
it: a constant or name itself, the backslash of a lambda, the word that starts a form, the
operator between its operands. An application, which has no token of its own, has the line
of its function.

## Main definitions

* `Slot` — a token of a program with the line that its tree records of it.
* `Expr.linearization` — the tokens of a tree, in order.

## Main statements

* `linearization_of_parse` — the tokens of a program are the linearization of its tree.
-/

namespace ListLang

/-- A token of a program, with its line if a node of the tree has it. -/
structure Slot where
  token : Token
  line : Option Nat
  deriving DecidableEq

/-- The token stands in the slot: it is the one that the slot names, on the line it names. -/
def Slot.Fits (slot : Slot) (t : Located Token) : Prop :=
  t.item = slot.token ∧ ∀ line ∈ slot.line, t.line = line

/-- Whether the token is a parenthesis. -/
def Token.isParen (t : Token) : Bool := t == .mark .leftParen || t == .mark .rightParen

/-- The tokens of a type, in order. -/
def Ty.linearization : Ty → List Slot
  | base b => [⟨.typeName b, none⟩]
  | function argument result =>
    argument.linearization ++ ⟨.mark .arrow, none⟩ :: result.linearization

/-- The tokens of the annotation of a parameter, in order. -/
def Ty.annotation : Option Ty → List Slot
  | none => []
  | some t => ⟨.mark .colon, none⟩ :: t.linearization

namespace Expr

mutual

/-- The tokens of a tree, in order. -/
def linearization : Expr → List Slot
  | literal value line => [⟨value.token, line⟩]
  | var name line => [⟨.identifier name, line⟩]
  | lam param paramTy body line =>
    ⟨.mark .backslash, line⟩ :: ⟨.identifier param, none⟩ ::
      (Ty.annotation paramTy ++ ⟨.mark .fatArrow, none⟩ :: body.linearization)
  | app function argument _ => function.linearization ++ argument.linearization
  | cond condition consequent alternative line =>
    ⟨.keyword .ifWord, line⟩ :: (condition.linearization ++
      ⟨.keyword .thenWord, none⟩ :: (consequent.linearization ++
        ⟨.keyword .elseWord, none⟩ :: alternative.linearization))
  | binary op left right line =>
    left.linearization ++ ⟨.operator op, line⟩ :: right.linearization
  | letIn recursive name value body line =>
    ⟨.keyword .letWord, line⟩ :: ((if recursive then [⟨.keyword .recWord, none⟩] else []) ++
      ⟨.identifier name, none⟩ :: ⟨.mark .equals, none⟩ :: (value.linearization ++
        ⟨.keyword .inWord, none⟩ :: body.linearization))
  | list _ elements line =>
    ⟨.keyword .listWord, line⟩ :: ⟨.mark .leftBracket, none⟩ ::
      (allLinearization elements ++ [⟨.mark .rightBracket, none⟩])
  | listOp1 op first line => ⟨.listOperation op, line⟩ :: first.linearization
  | listOp2 op first second line =>
    ⟨.listOperation op, line⟩ :: (first.linearization ++ second.linearization)
  | listOp3 op first second third line =>
    ⟨.listOperation op, line⟩ ::
      (first.linearization ++ (second.linearization ++ third.linearization))

/-- The tokens of trees with commas between them, in order. -/
def allLinearization : List Expr → List Slot
  | [] => []
  | [e] => e.linearization
  | e :: rest => e.linearization ++ ⟨.mark .comma, none⟩ :: allLinearization rest

end

/-- The tokens of the elements behind the first one, with the commas before them and the
closing bracket, in order. -/
def restLinearization (rest : List Expr) : List Slot :=
  rest.flatMap (fun e => ⟨.mark .comma, none⟩ :: e.linearization) ++ [⟨.mark .rightBracket, none⟩]

theorem restLinearization_cons (e : Expr) (rest : List Expr) :
    restLinearization (e :: rest) =
      ⟨.mark .comma, none⟩ :: (e.linearization ++ restLinearization rest) := by
  simp [restLinearization]

theorem allLinearization_cons (e : Expr) (rest : List Expr) :
    allLinearization (e :: rest) ++ [⟨.mark .rightBracket, none⟩] =
      e.linearization ++ restLinearization rest := by
  induction rest generalizing e with
  | nil => simp [allLinearization, restLinearization]
  | cons next rest ih => simp [allLinearization, restLinearization_cons, ih next]

end Expr

/-! ## From tokens to slots -/

/-- From the first stream to the second stand the tokens of the slots, and parentheses. -/
def Covers (slots : List Slot) (s t : TokenStream) : Prop :=
  ∃ ts, s = t.after ts ∧ List.Forall₂ Slot.Fits slots (ts.filter fun x => !x.item.isParen)

namespace Covers

variable {slots more : List Slot} {s t u : TokenStream} {x : Token} {line : Nat}

theorem refl : Covers [] s s := ⟨[], rfl, .nil⟩

theorem append (first : Covers slots s t) (second : Covers more t u) :
    Covers (slots ++ more) s u := by
  obtain ⟨ts, rfl, fits⟩ := first
  obtain ⟨us, rfl, fits'⟩ := second
  refine ⟨ts ++ us, (TokenStream.after_append ..).symm, ?_⟩
  rw [List.filter_append]
  exact List.rel_append fits fits'

theorem cons {slot : Slot} (fits : slot.Fits ⟨x, line⟩) (other : x.isParen = false)
    (h : Covers slots s t) : Covers (slot :: slots) (s.cons ⟨x, line⟩) t := by
  obtain ⟨ts, rfl, all⟩ := h
  refine ⟨⟨x, line⟩ :: ts, rfl, ?_⟩
  rw [List.filter_cons_of_pos (by simp [other])]
  exact .cons fits all

/-- A token whose line is the line of a node. -/
theorem own (h : Covers slots s t) (other : x.isParen = false) :
    Covers (⟨x, some line⟩ :: slots) (s.cons ⟨x, line⟩) t :=
  cons ⟨rfl, by simp⟩ other h

/-- A token whose line the tree does not keep. -/
theorem bare (h : Covers slots s t) (other : x.isParen = false) :
    Covers (⟨x, none⟩ :: slots) (s.cons ⟨x, line⟩) t :=
  cons ⟨rfl, by simp⟩ other h

theorem paren (h : Covers slots s t) (paren : x.isParen = true) :
    Covers slots (s.cons ⟨x, line⟩) t := by
  obtain ⟨ts, rfl, all⟩ := h
  refine ⟨⟨x, line⟩ :: ts, rfl, ?_⟩
  rwa [List.filter_cons_of_neg (by simp [paren])]

end Covers

theorem Ty.Spans.covers {form : Ty.Form} {ty : Ty} {s t : TokenStream}
    (h : Ty.Spans form ty s t) : Covers ty.linearization s t := by
  induction h with
  | base => exact .bare .refl rfl
  | group _ ih =>
    have closed := ih.append (.paren .refl rfl)
    exact .paren (by simpa using closed) rfl
  | single _ _ _ ih => exact ih
  | function _ _ ih₁ ih₂ => exact ih₁.append (.bare ih₂ rfl)

theorem Ty.Annotates.covers {o : Option Ty} {s t : TokenStream} (h : Ty.Annotates o s t) :
    Covers (Ty.annotation o) s t := by
  cases h with
  | none => exact .refl
  | some written => exact .bare written.covers rfl

/-- The slots are those of the phrase. Where a phrase goes on from a tree that is already
read, they are the slots that the finished tree has more. -/
def Phrase.Writes : Phrase → List Slot → Prop
  | atom e, slots | application e, slots | expression e, slots => slots = e.linearization
  | arguments left e, slots | operators _ left e, slots =>
    e.linearization = left.linearization ++ slots
  | elements _ rest, slots => slots = Expr.restLinearization rest

/-- The tokens of a phrase are its slots. -/
theorem Phrase.Spans.covers {p : Phrase} {s t : TokenStream} (h : p.Spans s t) :
    ∃ slots, p.Writes slots ∧ Covers slots s t := by
  induction h with
  | @literal value => exact ⟨_, rfl, .own .refl (by cases value <;> rfl)⟩
  | var => exact ⟨_, rfl, .own .refl rfl⟩
  | group _ ih =>
    obtain ⟨_, rfl, inner⟩ := ih
    have closed := inner.append (.paren .refl rfl)
    exact ⟨_, rfl, .paren (by simpa using closed) rfl⟩
  | lam annotated _ ih =>
    obtain ⟨_, rfl, body⟩ := ih
    exact ⟨_, rfl, .own (.bare (annotated.covers.append (.bare body rfl)) rfl) rfl⟩
  | letIn _ _ ih₁ ih₂ =>
    obtain ⟨_, rfl, value⟩ := ih₁
    obtain ⟨_, rfl, body⟩ := ih₂
    exact ⟨_, rfl, .own (.bare (.bare (value.append (.bare body rfl)) rfl) rfl) rfl⟩
  | letRec _ _ ih₁ ih₂ =>
    obtain ⟨_, rfl, value⟩ := ih₁
    obtain ⟨_, rfl, body⟩ := ih₂
    exact ⟨_, rfl, .own (.bare (.bare (.bare (value.append (.bare body rfl)) rfl) rfl) rfl) rfl⟩
  | cond _ _ _ ih₁ ih₂ ih₃ =>
    obtain ⟨_, rfl, condition⟩ := ih₁
    obtain ⟨_, rfl, consequent⟩ := ih₂
    obtain ⟨_, rfl, alternative⟩ := ih₃
    exact ⟨_, rfl, .own (condition.append (.bare (consequent.append (.bare alternative rfl)) rfl))
      rfl⟩
  | list _ _ ih₁ ih₂ =>
    obtain ⟨_, rfl, element⟩ := ih₁
    obtain ⟨_, rfl, rest⟩ := ih₂
    refine ⟨_, rfl, .own (.bare ?_ rfl) rfl⟩
    rw [Expr.allLinearization_cons]
    exact element.append rest
  | listOp1 _ _ ih =>
    obtain ⟨_, rfl, first⟩ := ih
    exact ⟨_, rfl, .own first rfl⟩
  | listOp2 _ _ _ ih₁ ih₂ =>
    obtain ⟨_, rfl, first⟩ := ih₁
    obtain ⟨_, rfl, second⟩ := ih₂
    exact ⟨_, rfl, .own (first.append second) rfl⟩
  | listOp3 _ _ _ _ ih₁ ih₂ ih₃ =>
    obtain ⟨_, rfl, first⟩ := ih₁
    obtain ⟨_, rfl, second⟩ := ih₂
    obtain ⟨_, rfl, third⟩ := ih₃
    exact ⟨_, rfl, .own (first.append (second.append third)) rfl⟩
  | close => exact ⟨_, rfl, .bare .refl rfl⟩
  | element _ _ _ ih₁ ih₂ =>
    obtain ⟨_, rfl, element⟩ := ih₁
    obtain ⟨_, rfl, rest⟩ := ih₂
    refine ⟨_, rfl, ?_⟩
    rw [Expr.restLinearization_cons]
    exact .bare (element.append rest) rfl
  | applied | joined => exact ⟨[], by simp [Phrase.Writes], .refl⟩
  | argument _ _ ih₁ ih₂ =>
    obtain ⟨_, rfl, argument⟩ := ih₁
    obtain ⟨slots, writes, rest⟩ := ih₂
    refine ⟨_, ?_, argument.append rest⟩
    simpa [Phrase.Writes, Expr.linearization] using writes
  | application _ _ ih₁ ih₂ | expression _ _ ih₁ ih₂ =>
    obtain ⟨_, rfl, first⟩ := ih₁
    obtain ⟨slots, writes, rest⟩ := ih₂
    exact ⟨_, rfl, writes ▸ first.append rest⟩
  | operator _ _ _ _ ih₁ ih₂ ih₃ =>
    obtain ⟨_, rfl, operand⟩ := ih₁
    -- `inner` is what the right operand goes on with, and `outer` what the whole does.
    obtain ⟨slots₂, writes₂, inner⟩ := ih₂
    obtain ⟨slots₃, writes₃, outer⟩ := ih₃
    refine ⟨_, ?_, .own (operand.append (inner.append outer)) rfl⟩
    simp only [Phrase.Writes, Expr.linearization] at writes₂ writes₃ ⊢
    simp [writes₂, writes₃]

/-! ## The lines of applications -/

/-- The node is no application, or has the line of its function. -/
def Expr.AppliesInLine : Expr → Prop
  | app function _ line => line = function.line
  | _ => True

theorem builds_appliesInLine : Parser.Builds (fun _ => True) Expr.AppliesInLine := by
  constructor <;> intros <;> trivial

/-! ## Programs -/

theorem TokenStream.tokens_after (ts : List (Located Token)) (s : TokenStream) :
    (s.after ts).tokens = s.tokens.map (ts ++ ·) := by
  induction ts with
  | nil => cases h : s.tokens <;> simp [h, Except.map]
  | cons t ts ih =>
    have step : ((s.after ts).cons t).tokens = (s.after ts).tokens.map (t :: ·) := rfl
    rw [after_cons, step, ih]
    cases s.tokens <;> rfl

/-- The tokens of a program, the end of input and all parentheses left out, are the
linearization of its tree, and each application in the tree has the line of its function. -/
theorem linearization_of_parse {source : String} {e : Expr} (parsed : parse source = .ok e) :
    ∃ ts eof, tokenize source = .ok (ts ++ [eof]) ∧ eof.item = .endOfInput ∧
      List.Forall₂ Slot.Fits e.linearization (ts.filter fun t => !t.item.isParen) ∧
      ∀ n ∈ e.nodes, n.AppliesInLine := by
  obtain ⟨u, empty, read⟩ := parse_ok_iff.mp parsed
  obtain ⟨_, rfl, ts, stream, fits⟩ := read.covers
  refine ⟨ts, u.ending, ?_, rfl, fits, ?_⟩
  · have last : u.tokens = .ok [u.ending] := by simp [TokenStream.tokens, empty, TokenStream.drain]
    simp [tokenize, stream, TokenStream.tokens_after, last, Except.map, Except.mapError]
  · exact builds_appliesInLine.nodes.of_parse (fun _ _ _ => trivial) parsed

/-- A program on three lines. The application in it starts on the first line and ends on the
second. -/
theorem linearization_of_parse_lines :
    ∃ e, parse "(f\n(1)) +\n\\x : (Int) => x" = .ok e ∧
      e.linearization = [⟨.identifier "f", some 1⟩, ⟨.integer 1, some 2⟩,
        ⟨.operator .add, some 2⟩, ⟨.mark .backslash, some 3⟩, ⟨.identifier "x", none⟩,
        ⟨.mark .colon, none⟩, ⟨.typeName .int, none⟩, ⟨.mark .fatArrow, none⟩,
        ⟨.identifier "x", some 3⟩] ∧
      ∃ ts eof, tokenize "(f\n(1)) +\n\\x : (Int) => x" = .ok (ts ++ [eof]) ∧
        eof.item = .endOfInput ∧
        List.Forall₂ Slot.Fits e.linearization (ts.filter fun t => !t.item.isParen) ∧
        ∀ n ∈ e.nodes, n.AppliesInLine := by
  have slots : (parse "(f\n(1)) +\n\\x : (Int) => x").toOption.map Expr.linearization =
      some [⟨.identifier "f", some 1⟩, ⟨.integer 1, some 2⟩, ⟨.operator .add, some 2⟩,
        ⟨.mark .backslash, some 3⟩, ⟨.identifier "x", none⟩, ⟨.mark .colon, none⟩,
        ⟨.typeName .int, none⟩, ⟨.mark .fatArrow, none⟩, ⟨.identifier "x", some 3⟩] := by
    decide +kernel
  obtain ⟨e, found, slots⟩ := Option.map_eq_some_iff.mp slots
  have parsed : parse "(f\n(1)) +\n\\x : (Int) => x" = .ok e := by
    cases outcome : parse "(f\n(1)) +\n\\x : (Int) => x" with
    | ok => simpa [outcome, Except.toOption] using found
    | error => simp [outcome, Except.toOption] at found
  exact ⟨e, parsed, slots, linearization_of_parse parsed⟩

end ListLang
