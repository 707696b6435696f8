import ListLang.Proofs.Grammar.Text
import ListLang.Proofs.LongestMatch

/-!
# Texts one after the other

A text that is read as tokens is read as the same tokens wherever it stands, as long as what
comes behind it starts with a character that goes on with no token. So the tokens of texts that
are put one behind the other are those of the texts.

## Main statements

* `cutInto_of_tokens` — what is read of a whole text is read of it everywhere.
-/

namespace ListLang

open Lexeme TokenStream

theorem Token.isLayout_of_writable {t : Token} (writable : t.Writable) : t.isLayout = false := by
  cases t <;> first | rfl | exact writable.elim

namespace Lexeme

variable {c : Char} {cs rest : List Char}

/-- A run of characters ends where a text ends that only goes on with other characters. -/
theorem takeWhile_append_of_stop {p : Char → Bool} (stop : ∀ d ∈ rest.head?, p d = false) :
    (cs ++ rest).takeWhile p = cs.takeWhile p := by
  induction cs with
  | nil =>
    cases rest with
    | nil => rfl
    | cons d rest => simp [stop d rfl]
  | cons c cs ih => simp [List.takeWhile_cons, ih]

/-- What stands behind a string literal does not change it. -/
theorem ofQuote_append_of_mem (quote : '"' ∈ cs) : ofQuote (cs ++ rest) = ofQuote cs := by
  obtain ⟨more, split⟩ := quoted_prefix quote
  have plain : '"' ∉ cs.takeWhile (· != '"') := fun mem => by
    simpa using List.mem_takeWhile_imp mem
  have whole : cs = cs.takeWhile (· != '"') ++ '"' :: more := by simpa using split.symm
  rw [whole, List.append_assoc, List.cons_append, ofQuote_append plain, ofQuote_append plain]

theorem ofSymbol_append (loose : Loose rest) : ofSymbol c (cs ++ rest) = ofSymbol c cs := by
  cases cs with
  | cons d cs => rfl
  | nil =>
    cases rest with
    | nil => rfl
    | cons d rest =>
      have single : symbolPair? c d = none := by
        have := loose d rfl
        unfold symbolPair?
        split <;> first | rfl | simp [isLoose] at this
      simp only [List.nil_append, ofSymbol, single]

/-- A text that does not start with layout starts with a token or a fault. -/
theorem writable_first_of_not_isLayout {t : Token} (plain : isLayout c = false)
    (read : (first c cs).reading = .token t) : t.Writable := by
  obtain writable | layout := writable_first read
  · exact writable
  obtain ⟨blank, lineEnd⟩ := Bool.or_eq_false_iff.mp plain
  simp only [first, blank, beq_eq_false_iff_ne.mp lineEnd, ↓reduceIte, Bool.false_eq_true] at read
  split at read
  · cases read
    exact Token.writable_ofWord (by simp_all [isWord])
  split at read
  · simp only [ofDigits] at read
    split at read <;> cases read
    cases layout
  split at read
  · unfold ofQuote at read
    split at read <;> cases read
    cases layout
  · exact writable_ofSymbol read

/-- The piece at the start of a text, a token, is the same where more text follows that goes on
with no token. -/
theorem first_append {t : Token} (plain : isLayout c = false) (loose : Loose rest)
    (read : (first c cs).reading = .token t) : first c (cs ++ rest) = first c cs := by
  have word : ∀ d ∈ rest.head?, continuesWord d = false := fun d first => by
    have := loose d first
    simp_all [isLoose]
  have digit : ∀ d ∈ rest.head?, d.isDigit = false := fun d first => by
    have := word d first
    simp_all [continuesWord]
  obtain ⟨blank, -⟩ := Bool.or_eq_false_iff.mp plain
  unfold first at read ⊢
  rw [takeWhile_append_of_stop word, takeWhile_append_of_stop digit, ofSymbol_append loose]
  by_cases quote : c = '"'
  · subst quote
    by_cases closed : '"' ∈ cs
    · rw [ofQuote_append_of_mem closed]
      rfl
    · simp [ofQuote, closed, startsWord] at read
  · simp only [quote, blank, ↓reduceIte, Bool.false_eq_true]

end Lexeme

/-! ## Reading a text where it stands -/

/-- A token in front of a text that is cut is cut off, where the text behind it is the same. -/
theorem CutInto.first {c : Char} {cs : List Char} {t : Token} {ts : List Token}
    (plain : isLayout c = false) (read : (first c cs).reading = .token t)
    (h : CutInto (cs.drop ((Lexeme.first c cs).text.length - 1)) ts) :
    CutInto (c :: cs) (t :: ts) := by
  intro line rest loose
  have visible : t.isLayout = false :=
    Token.isLayout_of_writable (writable_first_of_not_isLayout plain read)
  have short : (Lexeme.first c cs).text.length - 1 ≤ cs.length := by
    obtain ⟨piece, front, text⟩ := text_first c cs
    simpa [text] using front.length_le
  obtain ⟨next, offers⟩ := h (line + (Lexeme.first c cs).lineEnds) rest loose
  refine ⟨next, offers_cons_iff.mpr ⟨line, _, ?_, offers⟩⟩
  rw [List.cons_append, ← List.drop_append_of_le_length short]
  simp [ofText, scan_cons, first_append plain loose read, ofLexemes, locate, isVisible, read,
    visible, TokenStream.cons, lineAfter]

/-- A text that is read as tokens from its start to its end is cut into them wherever it
stands. -/
theorem cutInto_of_tokens {line : Nat} {cs : List Char} {ts : List (Located Token)}
    (all : (ofText line cs).tokens = .ok ts) :
    ∃ us, ts.map Located.item = us ++ [.endOfInput] ∧ CutInto cs us := by
  match cs with
  | [] =>
    cases all
    exact ⟨[], rfl, .nil⟩
  | c :: cs =>
    cases layout : isLayout c with
    | true =>
      have rest : ∃ next, (ofText next cs).tokens = .ok ts := by
        obtain blank | lineEnd := Bool.or_eq_true_iff.mp layout
        · exact ⟨line, ofText_blank blank line cs ▸ all⟩
        · rw [beq_iff_eq.mp lineEnd, ofText_lineEnd] at all
          exact ⟨_, all⟩
      obtain ⟨next, all⟩ := rest
      obtain ⟨us, items, cut⟩ := cutInto_of_tokens all
      exact ⟨us, items, cut.layout layout⟩
    | false =>
      cases read : (first c cs).reading with
      | fault f => cases (tokens_ofText_fault line read).symm.trans all
      | token t =>
        have visible : t.isLayout = false :=
          Token.isLayout_of_writable (writable_first_of_not_isLayout layout read)
        obtain ⟨next, tokens⟩ := tokens_ofText_token line read
        rw [visible, if_neg Bool.false_ne_true, all] at tokens
        cases inner : (ofText next (cs.drop ((first c cs).text.length - 1))).tokens with
        | error f => simp [inner, Except.map] at tokens
        | ok rest =>
          obtain ⟨us, items, cut⟩ := cutInto_of_tokens inner
          obtain rfl : ts = ⟨t, line⟩ :: rest := by simpa [inner, Except.map] using tokens
          exact ⟨t :: us, by simp [items], cut.first layout read⟩
termination_by cs.length
decreasing_by
  all_goals
    simp only [List.length_drop, List.length_cons]
    omega

end ListLang
