/-!
# Integers of the language

The language computes with signed 64-bit integers and never wraps: a result is computed
exactly and then has to fit. The other conversions cross between integers, positions in
a list and character codes.

## Main definitions

* `Integer.ofInt?` — the 64-bit integer equal to an exact one, if there is one.
* `Integer.index?` — an integer as a position below a bound.
* `Integer.ofSize` — a size as an integer, the greatest one for sizes beyond it.
* `Integer.ofChar`, `Integer.toChar?` — characters and their codes.
-/

namespace ListLang.Integer

/-- The 64-bit integer equal to `n`, if `n` is in range. -/
def ofInt? (n : Int) : Option Int64 :=
  if Int64.minValue.toInt ≤ n ∧ n ≤ Int64.maxValue.toInt then some (Int64.ofInt n) else none

theorem ofInt?_eq_some_iff {n : Int} {m : Int64} : ofInt? n = some m ↔ m.toInt = n := by
  constructor
  · intro h
    simp only [ofInt?, Option.ite_none_right_eq_some, Option.some.injEq, Int64.toInt_minValue,
      Int64.toInt_maxValue] at h
    rw [← h.2, Int64.toInt_ofInt_of_le h.1.1 (by omega)]
  · rintro rfl
    rw [ofInt?, if_pos ⟨m.minValue_le_toInt, m.toInt_le⟩, Int64.ofInt_toInt]

/-- `n` as a position below `bound`. -/
def index? (n : Int64) (bound : Nat) : Option Nat :=
  if 0 ≤ n.toInt ∧ n.toInt < bound then some n.toInt.toNat else none

/-- The size `n`, or the greatest integer if `n` exceeds it. -/
def ofSize (n : Nat) : Int64 := (ofInt? n).getD Int64.maxValue

/-- The code of a character. -/
def ofChar (c : Char) : Int64 := Int64.ofNat c.toNat

/-- The character with code `n`, if `n` is the code of one. -/
def toChar? (n : Int64) : Option Char :=
  if 0 ≤ n.toInt ∧ n.toInt.toNat.isValidChar then some (Char.ofNat n.toInt.toNat) else none

/-- Decimal digits, with a minus sign in front of a negative integer. -/
def text (n : Int64) : String := toString n.toInt

end ListLang.Integer
