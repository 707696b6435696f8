import ListLang.Value.Operator

/-!
# Exact arithmetic

The operators on integers give the exact result wherever it is in range, and fail for a divisor
of zero or a result out of range. The least integer modulo minus one is the one exception: its
remainder is zero, and it is refused because the quotient that goes with it is out of range.

## Main definitions

* `Operator.Exact` — the exact results of the operators.
* `Operator.LeastByMinusOne` — the operands of the exception.

## Main statements

* `Operator.apply_exact` — which results the operators give, and when they fail.
* `Operator.least_mod_minus_one` — the exception.
-/

namespace ListLang

/-! ## Which integers are in range -/

namespace Integer

theorem ofInt?_eq_none_iff {n : Int} :
    ofInt? n = none ↔ n < Int64.minValue.toInt ∨ Int64.maxValue.toInt < n := by
  rw [ofInt?, ite_eq_right_iff]
  simp only [reduceCtorEq, imp_false]
  omega

/-- A quotient of integers in range is in range, unless the least one is divided by minus one. -/
theorem ofInt?_tdiv_eq_none_iff (a : Int64) {b : Int64} (nonzero : b.toInt ≠ 0) :
    ofInt? (a.toInt.tdiv b.toInt) = none ↔ a.toInt = Int64.minValue.toInt ∧ b.toInt = -1 := by
  have low := a.minValue_le_toInt
  have high := a.toInt_le
  have size : (a.toInt.tdiv b.toInt).natAbs = a.toInt.natAbs / b.toInt.natAbs :=
    Int.natAbs_tdiv _ _
  rw [ofInt?_eq_none_iff]
  simp only [Int64.toInt_minValue, Int64.toInt_maxValue] at *
  -- A divisor of size two or more halves the size; the others keep it.
  obtain one | minusOne | large : b.toInt = 1 ∨ b.toInt = -1 ∨ 2 ≤ b.toInt.natAbs := by omega
  · rw [one, Int.tdiv_one]
    omega
  · rw [minusOne, Int.tdiv_neg, Int.tdiv_one]
    omega
  · have half : a.toInt.natAbs / b.toInt.natAbs ≤ a.toInt.natAbs / 2 :=
      Nat.div_le_div_left large (by decide)
    omega

end Integer

namespace Operator

/-! ## Exact results -/

/-- The integer is the exact result of the operator on `a` and `b`. A quotient is rounded toward
zero: what it leaves is smaller in size than the divisor and not on the other side of zero than
the dividend. A remainder is smaller in size than the divisor and not negative. -/
inductive Exact (a b : Int) : Operator → Int → Prop
  | add : Exact a b .add (a + b)
  | sub : Exact a b .sub (a - b)
  | mul : Exact a b .mul (a * b)
  | div (q rest : Int) (splits : a = b * q + rest) (small : rest.natAbs < b.natAbs)
    (above : 0 ≤ a → 0 ≤ rest) (below : a ≤ 0 → rest ≤ 0) : Exact a b .div q
  | mod (q r : Int) (splits : a = b * q + r) (small : r < b.natAbs) (nonneg : 0 ≤ r) :
    Exact a b .mod r

section Exact

variable {a b : Int}

/-- A multiple that is smaller in size than what it is a multiple of is zero. -/
theorem eq_zero_of_small_multiple {d : Int} (small : (b * d).natAbs < b.natAbs) : d = 0 := by
  rw [Int.natAbs_mul] at small
  by_cases zero : d.natAbs = 0
  · exact Int.natAbs_eq_zero.mp zero
  · have := Nat.le_mul_of_pos_right b.natAbs (Nat.pos_of_ne_zero zero)
    omega

/-- Two ways to split off a multiple of `b` that leave nearly the same split off the same. -/
theorem quotient_unique {q q' r r' : Int} (splits : a = b * q + r) (splits' : a = b * q' + r')
    (near : (r - r').natAbs < b.natAbs) : q = q' := by
  have apart : b * (q' - q) = r - r' := by
    rw [Int.mul_sub]
    omega
  have := eq_zero_of_small_multiple (apart ▸ near)
  omega

theorem exact_div_iff (nonzero : b ≠ 0) {q : Int} : Exact a b .div q ↔ q = a.tdiv b := by
  have splits : a = b * a.tdiv b + a.tmod b := (Int.mul_tdiv_add_tmod a b).symm
  have small : (a.tmod b).natAbs < b.natAbs := by
    rw [Int.natAbs_tmod]
    exact Nat.mod_lt _ (Int.natAbs_pos.mpr nonzero)
  have above : 0 ≤ a → 0 ≤ a.tmod b := Int.tmod_nonneg b
  have below : a ≤ 0 → a.tmod b ≤ 0 := by
    intro nonpos
    have := Int.tmod_nonneg b (Int.neg_nonneg_of_nonpos nonpos)
    rw [Int.neg_tmod] at this
    omega
  constructor
  · rintro (_ | _ | _ | ⟨_, rest, splits', small', above', below'⟩)
    -- Both rests are on the side of `a`, so they differ by less than the divisor.
    exact quotient_unique splits' splits (by omega)
  · rintro rfl
    exact .div _ _ splits small above below

theorem exact_mod_iff (nonzero : b ≠ 0) {r : Int} : Exact a b .mod r ↔ r = a.emod b := by
  have splits : a = b * (a / b) + a % b := (Int.mul_ediv_add_emod a b).symm
  have small : a % b < b.natAbs := Int.emod_lt a nonzero
  have nonneg : 0 ≤ a % b := Int.emod_nonneg a nonzero
  change _ ↔ r = a % b
  constructor
  · rintro (_ | _ | _ | _ | ⟨q, _, splits', small', nonneg'⟩)
    obtain rfl := quotient_unique splits' splits (by omega)
    omega
  · rintro rfl
    exact .mod _ _ splits small nonneg

end Exact

/-! ## The operators on integers in range -/

/-- The remainder of the least integer by minus one. -/
def LeastByMinusOne (op : Operator) (a b : Int64) : Prop :=
  op = .mod ∧ a = Int64.minValue ∧ b = -1

instance (op : Operator) (a b : Int64) : Decidable (op.LeastByMinusOne a b) :=
  inferInstanceAs (Decidable (op = .mod ∧ a = Int64.minValue ∧ b = -1))

theorem toInt_ne_zero {b : Int64} (nonzero : b ≠ 0) : b.toInt ≠ 0 := fun zero =>
  nonzero (Int64.toInt_inj.mp zero)

/-- The operators that compute find the exact result if it is in range, with one exception. -/
theorem exists_exact {op : Operator} (computes : op ∈ [add, sub, mul, div, mod]) {a b : Int64}
    (divisor : ¬ (op.divides ∧ b = 0)) :
    ∃ r, (∀ r', Exact a.toInt b.toInt op r' ↔ r' = r) ∧
      op.result? a b = if op.LeastByMinusOne a b then none else Integer.ofInt? r := by
  cases op with
  | add => exact ⟨_, fun r' => ⟨by rintro ⟨⟩; rfl, by rintro rfl; exact .add⟩, rfl⟩
  | sub => exact ⟨_, fun r' => ⟨by rintro ⟨⟩; rfl, by rintro rfl; exact .sub⟩, rfl⟩
  | mul => exact ⟨_, fun r' => ⟨by rintro ⟨⟩; rfl, by rintro rfl; exact .mul⟩, rfl⟩
  | div =>
    have nonzero : b.toInt ≠ 0 := toInt_ne_zero (by simpa [divides] using divisor)
    exact ⟨_, fun r' => exact_div_iff nonzero, rfl⟩
  | mod =>
    have nonzero : b.toInt ≠ 0 := toInt_ne_zero (by simpa [divides] using divisor)
    refine ⟨_, fun r' => exact_mod_iff nonzero, ?_⟩
    have refused : Integer.ofInt? (a.toInt.tdiv b.toInt) = none ↔ mod.LeastByMinusOne a b := by
      rw [Integer.ofInt?_tdiv_eq_none_iff a nonzero, LeastByMinusOne, ← Int64.toInt_inj,
        ← Int64.toInt_inj]
      exact ⟨fun least => ⟨rfl, least⟩, And.right⟩
    rw [result?]
    cases quotient : Integer.ofInt? (a.toInt.tdiv b.toInt) with
    | none => rw [if_pos (refused.mp quotient)]; rfl
    | some q => rw [if_neg (fun least => by simp [refused.mpr least] at quotient)]; rfl
  | equality | concat => simp at computes

/-- An operator that computes, on two integers, fails for its divisor exactly where that is zero.
Otherwise there is one exact result. It is given where it is in range, and else the operator
fails with an overflow; so it does also for the least integer modulo minus one. -/
theorem apply_exact {op : Operator} (computes : op ∈ [add, sub, mul, div, mod]) (a b : Int64) :
    (op.apply (.int a) (.int b) = .error .divisionByZero ↔ (op = .div ∨ op = .mod) ∧ b = 0) ∧
    (¬ ((op = .div ∨ op = .mod) ∧ b = 0) →
      ∃ r, (∀ r', Exact a.toInt b.toInt op r' ↔ r' = r) ∧
        (∀ v, op.apply (.int a) (.int b) = .ok v ↔
          ∃ n : Int64, v = .int n ∧ n.toInt = r ∧ ¬ op.LeastByMinusOne a b) ∧
        ∀ cause, op.apply (.int a) (.int b) = .error cause ↔ cause = .overflow op ∧
          (r < Int64.minValue.toInt ∨ Int64.maxValue.toInt < r ∨ op.LeastByMinusOne a b)) := by
  have applied : op.apply (.int a) (.int b) = op.arithmetic a b := by
    cases op <;> first | rfl | simp at computes
  have divides : (op = .div ∨ op = .mod) ↔ op.divides := by cases op <;> simp [Operator.divides]
  rw [applied, divides, arithmetic]
  by_cases zero : op.divides ∧ b = 0
  · simp [zero]
  obtain ⟨r, exact, result⟩ := exists_exact computes zero
  rw [if_neg zero, result]
  refine ⟨⟨fun failed => ?_, fun failed => absurd failed zero⟩, fun _ => ⟨r, exact, ?_⟩⟩
  · split at failed <;> cases failed
  by_cases least : op.LeastByMinusOne a b
  · simp [least, eq_comm]
  rw [if_neg least, ← or_assoc, ← Integer.ofInt?_eq_none_iff]
  simp only [← Integer.ofInt?_eq_some_iff, least, not_false_eq_true, and_true, or_false]
  cases Integer.ofInt? r <;> simp [eq_comm]

/-- Minus seven modulo three is two, and the least integer has no quotient by minus one. -/
theorem apply_exact_signs :
    mod ∈ [add, sub, mul, div, mod] ∧ div ∈ [add, sub, mul, div, mod] ∧
      Exact (-7) 3 .mod 2 ∧ mod.apply (.int (-7)) (.int 3) = .ok (.int 2) ∧
      div.apply (.int Int64.minValue) (.int (-1)) = .error (.overflow .div) := by
  have computesMod : mod ∈ [add, sub, mul, div, mod] := by decide
  have computesDiv : div ∈ [add, sub, mul, div, mod] := by decide
  refine ⟨computesMod, computesDiv, .mod (-3) 2 (by decide) (by decide) (by decide), ?_, ?_⟩
  · obtain ⟨r, exact, given, -⟩ := (apply_exact computesMod (-7) 3).2 (by decide)
    have two : 2 = r := (exact 2).mp (.mod (-3) 2 (by decide) (by decide) (by decide))
    exact (given _).mpr ⟨2, rfl, two, by decide⟩
  · obtain ⟨r, exact, -, fails⟩ := (apply_exact computesDiv Int64.minValue (-1)).2 (by decide)
    have large : 9223372036854775808 = r :=
      (exact _).mp (.div _ 0 (by decide) (by decide) (by decide) (by decide))
    exact (fails _).mpr ⟨rfl, .inr (.inl (large ▸ by decide))⟩

/-- The least integer modulo minus one is exactly zero, and is refused as an overflow. -/
theorem least_mod_minus_one :
    Exact Int64.minValue.toInt (-1 : Int64).toInt .mod (0 : Int64).toInt ∧
      mod.apply (.int Int64.minValue) (.int (-1)) = .error (.overflow .mod) :=
  ⟨.mod 9223372036854775808 0 (by decide) (by decide) (by decide), rfl⟩

end Operator

end ListLang
