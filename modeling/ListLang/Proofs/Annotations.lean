import ListLang.Proofs.Reading.Greed

/-!
# Type annotations, written and read

A type that is written is read back, and nothing is left behind it. A type that is read is
written with the tokens it was read from, without the parentheses that it does not need: what is
written is what was read with some of the parentheses taken out and all else left in place.

## Main definitions

* `Unparens` — tokens are other ones without some of the parentheses.
* `Ty.atomTokens` — the tokens of a type on the left of an arrow.

## Main statements

* `Ty.Spans.unparens` — the tokens of a type as it is written, and those it is read from.
* `ty_round_trip` — writing and reading types.
-/

namespace ListLang

open TokenStream (ofSource)

/-- The tokens `ts` are the tokens `ws` without some of the parentheses. -/
structure Unparens (ts ws : List Token) : Prop where
  sublist : ts.Sublist ws
  others : ts.filter (!·.isParen) = ws.filter (!·.isParen)

namespace Unparens

variable {ts us ws xs : List Token}

theorem refl (ts : List Token) : Unparens ts ts := ⟨.refl ts, rfl⟩

theorem trans (h : Unparens ts us) (g : Unparens us ws) : Unparens ts ws :=
  ⟨h.sublist.trans g.sublist, h.others.trans g.others⟩

theorem append (h : Unparens ts ws) (g : Unparens us xs) : Unparens (ts ++ us) (ws ++ xs) :=
  ⟨h.sublist.append g.sublist, by rw [List.filter_append, List.filter_append, h.others, g.others]⟩

theorem cons (t : Token) (h : Unparens ts ws) : Unparens (t :: ts) (t :: ws) :=
  append (refl [t]) h

/-- Parentheses around all of the tokens. -/
theorem group (h : Unparens ts ws) :
    Unparens ts (.mark .leftParen :: (ws ++ [.mark .rightParen])) where
  sublist := (h.sublist.trans (List.sublist_append_left ..)).cons _
  others := by
    rw [List.filter_cons_of_neg (by decide), List.filter_append, h.others]
    simp [Token.isParen]

theorem countP_le (h : Unparens ts ws) : ts.countP Token.isParen ≤ ws.countP Token.isParen :=
  h.sublist.countP_le

end Unparens

namespace Ty

/-- The tokens of a type where it stands on the left of an arrow. -/
def atomTokens : Ty → List Token
  | base b => [.typeName b]
  | function argument result =>
    .mark .leftParen :: ((function argument result).tokens ++ [.mark .rightParen])

theorem tokens_function (argument result : Ty) : (function argument result).tokens =
    argument.atomTokens ++ .mark .arrow :: result.tokens := by
  cases argument <;> simp [tokens, atomTokens]

/-- The tokens of a type, by itself or on the left of an arrow. -/
def tokensAs : Form → Ty → List Token
  | .whole, t => t.tokens
  | .atom, t => t.atomTokens

theorem unparens_atomTokens (t : Ty) : Unparens t.tokens t.atomTokens := by
  cases t with
  | base => exact .refl _
  | function => exact (Unparens.refl _).group

/-- A type that is read is written with the tokens it was read from, less some parentheses. -/
theorem Spans.unparens {form : Form} {t : Ty} {s u : TokenStream} (h : Spans form t s u) :
    ∃ ws, s.Offers ws u ∧ Unparens (t.tokensAs form) ws := by
  induction h with
  | base => exact ⟨_, .cons .nil, .refl _⟩
  | @group t _ _ _ _ _ ih =>
    obtain ⟨ws, inner, less⟩ := ih
    refine ⟨_, .cons (inner.append (.cons .nil)), ?_⟩
    cases t with
    | base => exact less.group
    | function => exact .cons _ (less.append (.refl _))
  | single _ _ _ ih =>
    obtain ⟨ws, inner, less⟩ := ih
    exact ⟨ws, inner, (unparens_atomTokens _).trans less⟩
  | function _ _ ih₁ ih₂ =>
    obtain ⟨ws₁, first, less₁⟩ := ih₁
    obtain ⟨ws₂, second, less₂⟩ := ih₂
    refine ⟨_, first.append second.cons, ?_⟩
    rw [tokensAs, tokens_function]
    exact less₁.append (.cons _ less₂)

/-- The text of a type is read as its tokens, and ends behind them. -/
theorem exists_after_text (t : Ty) : ∃ (v : List (Located Token)) (line : Nat),
    v.map Located.item = t.tokens ∧ ofSource t.text = TokenStream.after v ⟨[], line⟩ := by
  obtain ⟨line, v, items, stream⟩ := t.cutInto_text 1 [] nofun
  rw [List.append_nil] at stream
  exact ⟨v, line, items, stream⟩

/-- The text of a type is read as the type, from the stream of its tokens. -/
theorem ty_text (t : Ty) : ∃ rest : TokenStream,
    Parser.ty (ofSource t.text) = .ok t rest ∧ rest.ahead = [] := by
  obtain ⟨v, line, items, stream⟩ := t.exists_after_text
  refine ⟨⟨[], line⟩, Parser.ty_ok_iff.mpr ?_, rfl⟩
  exact spans_of_offers ⟨v, items, stream⟩ (TokenStream.peek?_of_ahead_eq_nil rfl) nofun

end Ty

/-! ## Reading types with a lexer -/

namespace Lexer

variable {whole : TokenStream} {t : Ty} {s : Lexer}

theorem ty_of_stream {rest : TokenStream} (ran : Parser.ty whole = .ok t rest) :
    ∃ s, Parser.ty (ofStream whole) = .ok t s ∧ s.Reads whole ∧ whole.drop s.taken = rest :=
  exists_of_follows ran (fun alike => (follows (fun _ => rfl) alike).ty) id

theorem spans_of_ty (ran : Parser.ty (ofStream whole) = .ok t s) :
    s.Reads whole ∧ ∀ other : TokenStream, (∀ i, other.outcome i = whole.outcome i) →
      Ty.Spans .whole t other (other.drop s.taken) := by
  obtain ⟨reads, again⟩ := result_of_follows ran (fun alike => (follows (fun _ => rfl) alike).ty) id
  exact ⟨reads, fun other same => Parser.ty_ok_iff.mp (again other same)⟩

/-- Reading a type does not take the end of input. -/
theorem taken_le_of_ty (ran : Parser.ty (ofStream whole) = .ok t s) :
    s.taken ≤ whole.ahead.length :=
  TokenStream.le_length_of_after fun other same =>
    ((spans_of_ty ran).2 other same).covers.exists_after t.token_ne_endOfInput

end Lexer

/-- Types are written and read back. The text of a type is read as the type, and the end of input
is left. A type that is read from the tokens `w` is written with these tokens without some of the
parentheses, and so with no more parentheses. -/
theorem ty_round_trip :
    (∀ t : Ty, ∃ s : Lexer, Parser.ty (Lexer.ofStream (ofSource t.text)) = .ok t s ∧
      ∀ n, s.nth n = .ok (ofSource t.text).ending) ∧
    ∀ (source : String) (t : Ty) (s : Lexer),
      Parser.ty (Lexer.ofStream (ofSource source)) = .ok t s →
      ∃ w v : List (Located Token),
        w.length = s.taken ∧
        (∀ i, ∀ x ∈ w[i]?, (Lexer.ofStream (ofSource source)).nth i = .ok x) ∧
        tokenize t.text = .ok (v ++ [(ofSource t.text).ending]) ∧
        (v.map Located.item).filter (!·.isParen) = (w.map Located.item).filter (!·.isParen) ∧
        (v.map Located.item).countP Token.isParen ≤ (w.map Located.item).countP Token.isParen ∧
        (v.map Located.item).Sublist (w.map Located.item) := by
  constructor
  · intro t
    obtain ⟨rest, ran, ended⟩ := t.ty_text
    obtain ⟨s, ran', reads, rfl⟩ := Lexer.ty_of_stream ran
    refine ⟨s, ran', fun n => ?_⟩
    have short : (ofSource t.text).ahead.length ≤ s.taken := List.drop_eq_nil_iff.mp ended
    rw [reads.standsAt.nth, TokenStream.outcome, List.getElem?_eq_none (by omega)]
    rfl
  · intro source t s ran
    obtain ⟨reads, spans⟩ := Lexer.spans_of_ty ran
    obtain ⟨_, ⟨w, rfl, stream⟩, less⟩ := (spans _ fun _ => rfl).unparens
    obtain ⟨v, line, items, text⟩ := t.exists_after_text
    have length : w.length = s.taken :=
      TokenStream.length_eq_of_after stream (Lexer.taken_le_of_ty ran)
    have less : Unparens (v.map Located.item) (w.map Located.item) := items ▸ less
    refine ⟨w, v, length, fun i x here => ?_, ?_, less.others, less.countP_le, less.sublist⟩
    · rw [Lexer.nth_ofStream, stream, TokenStream.outcome_after here]
      rfl
    · rw [TokenStream.ending, text, TokenStream.lastLine_after, tokenize, text,
        TokenStream.tokens_after]
      rfl

/-- The group that a type needs is written, and the others are not. -/
theorem ty_round_trip_groups :
    (∃ (s : Lexer) (w v : List (Located Token)),
      Parser.ty (Lexer.ofStream (ofSource "((Int) -> Bool)\n-> (String) = 1")) =
          .ok (.function (.function (.base .int) (.base .bool)) (.base .string)) s ∧
        s.taken = 11 ∧ w.length = 11 ∧
        tokenize "(Int -> Bool) -> String" = .ok (v ++ [⟨.endOfInput, 1⟩]) ∧
        (v.map Located.item).filter (!·.isParen) = (w.map Located.item).filter (!·.isParen) ∧
        (v.map Located.item).Sublist (w.map Located.item)) ∧
    ∃ s : Lexer, Parser.ty (Lexer.ofStream (ofSource "(Int -> Bool) -> String")) =
        .ok (.function (.function (.base .int) (.base .bool)) (.base .string)) s ∧
      ∀ n, s.nth n = .ok ⟨.endOfInput, 1⟩ := by
  have text : (Ty.function (.function (.base .int) (.base .bool)) (.base .string)).text =
      "(Int -> Bool) -> String" := by
    decide +kernel
  have ending : (ofSource "(Int -> Bool) -> String").ending = ⟨.endOfInput, 1⟩ := by
    decide +kernel
  have tokens : (ofSource "((Int) -> Bool)\n-> (String) = 1").tokens = .ok
      [⟨.mark .leftParen, 1⟩, ⟨.mark .leftParen, 1⟩, ⟨.typeName .int, 1⟩, ⟨.mark .rightParen, 1⟩,
        ⟨.mark .arrow, 1⟩, ⟨.typeName .bool, 1⟩, ⟨.mark .rightParen, 1⟩, ⟨.mark .arrow, 2⟩,
        ⟨.mark .leftParen, 2⟩, ⟨.typeName .string, 2⟩, ⟨.mark .rightParen, 2⟩,
        ⟨.mark .equals, 2⟩, ⟨.integer 1, 2⟩, ⟨.endOfInput, 2⟩] := by
    decide +kernel
  obtain ⟨xs, all, stream⟩ := TokenStream.exists_after_of_tokens tokens
  obtain rfl := (congrArg List.dropLast all).trans List.dropLast_concat
  obtain ⟨rest, two, spans⟩ : ∃ rest : TokenStream, rest.ahead.length = 2 ∧ Ty.Spans .whole
      (.function (.function (.base .int) (.base .bool)) (.base .string))
      (ofSource "((Int) -> Bool)\n-> (String) = 1") rest := by
    rw [stream]
    exact ⟨_, rfl, .function (.group (.function (.group (.single .base rfl (by decide)))
      (.single .base rfl (by decide)))) (.single (.group (.single .base rfl (by decide))) rfl
        (by decide))⟩
  obtain ⟨s, ran, -, rfl⟩ := Lexer.ty_of_stream (Parser.ty_ok_iff.mpr spans)
  have taken : s.taken = 11 := by
    have all : (ofSource "((Int) -> Bool)\n-> (String) = 1").ahead.length = 13 := by
      decide +kernel
    rw [TokenStream.drop, List.length_drop, all] at two
    omega
  obtain ⟨back, unparens⟩ := ty_round_trip
  obtain ⟨w, v, length, -, text', others, -, sublist⟩ := unparens _ _ _ ran
  obtain ⟨s', ran', ended⟩ :=
    back (.function (.function (.base .int) (.base .bool)) (.base .string))
  rw [text, ending] at text' ended
  rw [text] at ran'
  exact ⟨⟨s, w, v, ran, taken, length.trans taken, text', others, sublist⟩, s', ran', ended⟩

end ListLang
