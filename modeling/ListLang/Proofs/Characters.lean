import ListLang.Value.Builtin
import ListLang.Value.Operator

/-!
# Characters and their codes

The builtins take a string apart into its first character and the rest, and joining these gives the
string back. Codes and characters go over into each other: the integers that are codes are those of
Unicode, which has no characters for surrogates and none beyond its last plane.

## Main definitions

* `Integer.IsScalar` — the integers that are codes of characters.

## Main statements

* `Integer.toChar?_eq_some_iff` — a character is found by its code and by no other integer.
* `Builtin.strings_rebuilt` — what the builtins take apart can be put together again.
-/

namespace ListLang

namespace Integer

/-- The integer is the code of a character: a Unicode code point that is no surrogate. -/
def IsScalar (n : Int64) : Prop :=
  (0 ≤ n.toInt ∧ n.toInt ≤ 0xD7FF) ∨ (0xE000 ≤ n.toInt ∧ n.toInt ≤ 0x10FFFF)

instance (n : Int64) : Decidable (IsScalar n) :=
  inferInstanceAs (Decidable (_ ∨ _))

theorem isScalar_iff {n : Int64} :
    IsScalar n ↔ 0 ≤ n.toInt ∧ n.toInt.toNat.isValidChar := by
  unfold IsScalar Nat.isValidChar
  omega

/-- Codes are far from the greatest integer. -/
theorem toInt_ofChar (c : Char) : (ofChar c).toInt = c.toNat := by
  have valid : c.toNat.isValidChar := c.valid
  have small : c.toNat < 2 ^ 63 := by
    unfold Nat.isValidChar at valid
    omega
  rw [ofChar, Int64.toInt_ofNat_of_lt small]

theorem toNat_ofNat_of_isValidChar {n : Nat} (valid : n.isValidChar) :
    (Char.ofNat n).toNat = n := by
  rw [Char.ofNat, dif_pos valid]
  rfl

theorem toChar?_eq_some_iff {n : Int64} {c : Char} : toChar? n = some c ↔ n = ofChar c := by
  rw [toChar?, Option.ite_none_right_eq_some, Option.some_inj, ← Int64.toInt_inj, toInt_ofChar]
  constructor
  · rintro ⟨⟨nonneg, valid⟩, rfl⟩
    rw [toNat_ofNat_of_isValidChar valid, Int.toNat_of_nonneg nonneg]
  · intro code
    rw [code, Int.toNat_natCast, Char.ofNat_toNat]
    exact ⟨⟨Int.natCast_nonneg _, c.valid⟩, rfl⟩

theorem toChar?_eq_none_iff {n : Int64} : toChar? n = none ↔ ¬ IsScalar n := by
  rw [toChar?, ite_eq_right_iff, isScalar_iff]
  simp

end Integer

namespace Builtin

open Integer (IsScalar ofChar toChar? toChar?_eq_some_iff toChar?_eq_none_iff)

/-! ## One builtin after the other -/

theorem firstChar_apply (s : String) :
    firstChar.apply (.string s) = .ok (.string (String.ofList (s.toList.take 1))) := rfl

theorem remainingChars_apply (s : String) :
    remainingChars.apply (.string s) = .ok (.string (String.ofList (s.toList.drop 1))) := rfl

theorem charCode_apply_empty : charCode.apply (.string "") = .error .noFirstChar := rfl

theorem charCode_apply {s : String} {c : Char} {cs : List Char} (chars : s.toList = c :: cs) :
    charCode.apply (.string s) = .ok (.int (ofChar c)) := by
  simp only [apply, Value.asString, bind, Except.bind, chars]

theorem codeChar_apply_ofChar (c : Char) :
    codeChar.apply (.int (ofChar c)) = .ok (.string (String.singleton c)) := by
  simp only [apply, Value.asInt, bind, Except.bind, toChar?_eq_some_iff.mpr rfl]

theorem codeChar_apply_of_not {n : Int64} (other : ¬ IsScalar n) :
    codeChar.apply (.int n) = .error (.noCharOfCode n) := by
  simp only [apply, Value.asInt, bind, Except.bind, toChar?_eq_none_iff.mpr other]

theorem exists_ofChar {n : Int64} (scalar : IsScalar n) : ∃ c, n = ofChar c := by
  cases found : toChar? n with
  | some c => exact ⟨c, toChar?_eq_some_iff.mp found⟩
  | none => exact absurd scalar (toChar?_eq_none_iff.mp found)

/-- A string that is not empty is its first character and the rest. -/
theorem exists_first {s : String} (nonempty : s ≠ "") :
    ∃ c cs, s.toList = c :: cs := by
  cases chars : s.toList with
  | nil => exact absurd (String.toList_eq_nil_iff.mp chars) nonempty
  | cons c cs => exact ⟨c, cs, rfl⟩

/-- The first character and the rest of a string make it up. The code of the first character is the
code of that character. The integers that are codes are those of Unicode, and each is the code of
the character it gives; the others are refused, and so is the first character of the empty string,
which has no code. -/
theorem strings_rebuilt :
    (∀ s : String, (do
      let first ← firstChar.apply (.string s)
      let rest ← remainingChars.apply (.string s)
      Operator.concat.apply first rest) = .ok (.string s)) ∧
    (∀ s : String, s ≠ "" → ∃ c rest, s = String.singleton c ++ rest ∧
      firstChar.apply (.string s) = .ok (.string (String.singleton c)) ∧
      remainingChars.apply (.string s) = .ok (.string rest) ∧
      (charCode.apply (.string s) >>= codeChar.apply) = firstChar.apply (.string s)) ∧
    (∀ n : Int64, ((∃ v, codeChar.apply (.int n) = .ok v) ↔ IsScalar n) ∧
      (∀ v, codeChar.apply (.int n) = .ok v → charCode.apply v = .ok (.int n)) ∧
      ∀ cause, codeChar.apply (.int n) = .error cause →
        cause = .noCharOfCode n ∧ cause.category = .invalidArgument) ∧
    ∀ s : String, (∃ cause, charCode.apply (.string s) = .error cause) ↔ s = "" := by
  refine ⟨fun s => ?_, fun s nonempty => ?_, fun n => ?_, fun s => ?_⟩
  · simp only [firstChar_apply, remainingChars_apply, bind, Except.bind, Operator.apply,
      ← String.ofList_append, List.take_append_drop, String.ofList_toList]
  · obtain ⟨c, cs, chars⟩ := exists_first nonempty
    have first : firstChar.apply (.string s) = .ok (.string (String.singleton c)) := by
      rw [firstChar_apply, chars]
      rfl
    refine ⟨c, String.ofList cs, ?_, first, by rw [remainingChars_apply, chars]; rfl, ?_⟩
    · rw [← String.toList_inj, chars]
      simp
    · rw [charCode_apply chars, first]
      exact codeChar_apply_ofChar c
  · by_cases scalar : IsScalar n
    · obtain ⟨c, rfl⟩ := exists_ofChar scalar
      rw [codeChar_apply_ofChar]
      refine ⟨⟨fun _ => scalar, fun _ => ⟨_, rfl⟩⟩, ?_, nofun⟩
      rintro _ ⟨⟩
      exact charCode_apply (String.toList_singleton c)
    · rw [codeChar_apply_of_not scalar]
      refine ⟨⟨nofun, fun yes => absurd yes scalar⟩, nofun, ?_⟩
      rintro _ ⟨⟩
      exact ⟨rfl, rfl⟩
  · by_cases empty : s = ""
    · subst empty
      exact ⟨fun _ => rfl, fun _ => ⟨_, charCode_apply_empty⟩⟩
    · obtain ⟨c, cs, chars⟩ := exists_first empty
      rw [charCode_apply chars]
      exact ⟨nofun, fun is => absurd is empty⟩

/-- A character beyond the first plane is one character. The first surrogate is no code. -/
theorem strings_rebuilt_planes :
    (charCode.apply (.string "😀x") >>= codeChar.apply) = .ok (.string "😀") ∧
    (∃ v, codeChar.apply (.int 0xD7FF) = .ok v ∧ charCode.apply v = .ok (.int 0xD7FF)) ∧
    (¬ ∃ v, codeChar.apply (.int 0xD800) = .ok v) ∧
    (¬ ∃ v, codeChar.apply (.int (-1)) = .ok v) ∧
    (¬ ∃ v, codeChar.apply (.int 0x110000) = .ok v) ∧
    ∃ cause, charCode.apply (.string "") = .error cause := by
  obtain ⟨-, decomposed, codes, fails⟩ := strings_rebuilt
  obtain ⟨-, -, -, -, -, back⟩ := decomposed "😀x" (by decide)
  obtain ⟨v, some⟩ := (codes 0xD7FF).1.mpr (by decide)
  refine ⟨back.trans ?_, ⟨v, some, (codes _).2.1 v some⟩, ?_, ?_, ?_, (fails "").mpr rfl⟩
  · rfl
  all_goals exact mt (codes _).1.mp (by decide)

end Builtin

end ListLang
