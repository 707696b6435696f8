import ListLang.Proofs.Linearization

/-!
# Tokens between separators

Tokens written one after the other, with blanks and line ends between them, are read as just
these tokens. Each stands on the line that the line ends before it give, those inside strings
counted like all others.

## Main definitions

* `SpacedToken` — a token that can be written, with the layout behind it.
* `spelledOut` — the text of spaced tokens.
* `linesOf` — the tokens with their lines.

## Main statements

* `tokenize_spelledOut` — reading undoes writing.
-/

namespace ListLang

/-- A token that can be written and the layout behind it. -/
structure SpacedToken where
  token : Token
  gap : List Char
  writable : token.Writable
  layout : ∀ c ∈ gap, Lexeme.isLayout c

/-- The spelling of the token and the layout behind it. -/
def SpacedToken.text (t : SpacedToken) : List Char := t.token.spelling.toList ++ t.gap

/-- The text of the tokens, with the layout `lead` before the first one. -/
def spelledOut (lead : List Char) (ts : List SpacedToken) : List Char :=
  lead ++ ts.flatMap SpacedToken.text

/-- The tokens, each on one line more than there are line ends in the text before it. -/
def linesOf (lead : List Char) (ts : List SpacedToken) : List (Located Token) :=
  ts.mapIdx fun i t => ⟨t.token, 1 + (spelledOut lead (ts.take i)).count '\n'⟩

namespace Lexeme

theorem loose_of_isLayout {c : Char} (layout : isLayout c) (cs : List Char) : Loose (c :: cs) := by
  refine .cons ?_ cs
  simp only [isLayout, isBlank, Bool.or_eq_true, beq_iff_eq] at layout
  rcases layout with (((rfl | rfl) | rfl) | rfl) | rfl <;> decide

end Lexeme

namespace TokenStream

/-- Layout only moves the line forward. -/
theorem ofText_layout {gap : List Char} (layout : ∀ c ∈ gap, Lexeme.isLayout c) (line : Nat)
    (cs : List Char) : ofText line (gap ++ cs) = ofText (line + gap.count '\n') cs := by
  induction gap generalizing line with
  | nil => rfl
  | cons c gap ih =>
    obtain ⟨first, rest⟩ := List.forall_mem_cons.mp layout
    rw [List.cons_append]
    rcases Bool.or_eq_true_iff.mp first with blank | lineEnd
    · have other : c ≠ '\n' := by
        rintro rfl
        revert blank
        decide
      rw [ofText_blank blank, ih rest, List.count_cons_of_ne other]
    · obtain rfl := beq_iff_eq.mp lineEnd
      rw [ofText_lineEnd, ih rest, List.count_cons_self, Nat.add_right_comm, Nat.add_assoc]

/-- Spaced tokens are read as the tokens, the first one on line `line`. -/
theorem ofText_spaced {ts : List SpacedToken} (between : ∀ t ∈ ts.dropLast, t.gap ≠ [])
    (line : Nat) :
    ofText line (ts.flatMap SpacedToken.text) =
      .after (ts.mapIdx fun i t =>
          ⟨t.token, line + ((ts.take i).flatMap SpacedToken.text).count '\n'⟩)
        ⟨[], line + (ts.flatMap SpacedToken.text).count '\n'⟩ := by
  induction ts generalizing line with
  | nil => rfl
  | cons t ts ih =>
    have apart : t.token.Apart (t.gap ++ ts.flatMap SpacedToken.text) := by
      cases gap : t.gap with
      | cons c cs =>
        have layout := t.layout c (by simp [gap])
        exact Token.apart_of_loose (Lexeme.loose_of_isLayout layout _) _
      | nil =>
        -- Only the last token may stand without layout behind it, and then the text ends.
        cases ts with
        | nil => simp [Token.Apart]
        | cons u ts => exact absurd gap (between t (by simp))
    have later : ∀ u ∈ ts.dropLast, u.gap ≠ [] := by
      intro u mem
      cases ts with
      | nil => cases mem
      | cons v ts => exact between u (by simp [mem])
    rw [List.flatMap_cons, SpacedToken.text, List.append_assoc, ofText_token t.writable apart,
      ofText_layout t.layout, ih later, List.mapIdx_cons, after_cons]
    simp [List.count_append, SpacedToken.text, Nat.add_assoc]

end TokenStream

/-- Tokens that are written out, with layout between any two of them, are read as these tokens
and the end of input, each on one line more than there are line ends before it. -/
theorem tokenize_spelledOut {lead : List Char} {ts : List SpacedToken}
    (layout : ∀ c ∈ lead, Lexeme.isLayout c) (between : ∀ t ∈ ts.dropLast, t.gap ≠ []) :
    tokenize (String.ofList (spelledOut lead ts)) =
      .ok (linesOf lead ts ++ [⟨.endOfInput, 1 + (spelledOut lead ts).count '\n'⟩]) := by
  have stream : TokenStream.ofSource (String.ofList (spelledOut lead ts)) =
      .after (linesOf lead ts) ⟨[], 1 + (spelledOut lead ts).count '\n'⟩ := by
    change TokenStream.ofText 1 (String.ofList (spelledOut lead ts)).toList = _
    rw [String.toList_ofList, spelledOut, TokenStream.ofText_layout layout,
      TokenStream.ofText_spaced between]
    simp [linesOf, spelledOut, List.count_append, Nat.add_assoc]
  rw [tokenize, stream, TokenStream.tokens_after]
  rfl

/-- A string over two lines, two marks that are another one where they touch, a name that starts
with a keyword, and a number that ends the text. -/
def SpacedToken.neighbours : List SpacedToken :=
  [⟨.string "a\n=", ['\r', '\n'], by decide, by simp [Lexeme.isLayout, Lexeme.isBlank]⟩,
    ⟨.mark .equals, [' '], trivial, by simp [Lexeme.isLayout, Lexeme.isBlank]⟩,
    ⟨.mark .equals, ['\x0c'], trivial, by simp [Lexeme.isLayout, Lexeme.isBlank]⟩,
    ⟨.identifier "ListMapper", ['\n'], by decide, by simp [Lexeme.isLayout]⟩,
    ⟨.integer 70, [], by decide, nofun⟩]

theorem tokenize_spelledOut_neighbours :
    (∀ c ∈ ['\n', '\t'], Lexeme.isLayout c) ∧
      (∀ t ∈ SpacedToken.neighbours.dropLast, t.gap ≠ []) ∧
      tokenize "\n\t\"a\n=\"\r\n= =\x0cListMapper\n70" =
        .ok [⟨.string "a\n=", 2⟩, ⟨.mark .equals, 4⟩, ⟨.mark .equals, 4⟩,
          ⟨.identifier "ListMapper", 4⟩, ⟨.integer 70, 5⟩, ⟨.endOfInput, 5⟩] := by
  have layout : ∀ c ∈ ['\n', '\t'], Lexeme.isLayout c := by
    simp [Lexeme.isLayout, Lexeme.isBlank]
  have between : ∀ t ∈ SpacedToken.neighbours.dropLast, t.gap ≠ [] := by
    simp [SpacedToken.neighbours]
  refine ⟨layout, between, ?_⟩
  have text : String.ofList (spelledOut ['\n', '\t'] SpacedToken.neighbours) =
      "\n\t\"a\n=\"\r\n= =\x0cListMapper\n70" := by decide +kernel
  have lines : linesOf ['\n', '\t'] SpacedToken.neighbours ++
      [⟨.endOfInput, 1 + (spelledOut ['\n', '\t'] SpacedToken.neighbours).count '\n'⟩] =
      [⟨.string "a\n=", 2⟩, ⟨.mark .equals, 4⟩, ⟨.mark .equals, 4⟩,
        ⟨.identifier "ListMapper", 4⟩, ⟨.integer 70, 5⟩, ⟨.endOfInput, 5⟩] := by decide +kernel
  rw [← text, ← lines]
  exact tokenize_spelledOut layout between

end ListLang
