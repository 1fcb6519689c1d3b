/-
This file is a library for rounding up to a power of two by smearing bits.

A step of smearing takes a value together with itself shifted by one place, so that
after some steps every bit has spread over as many places below it. All places below
the highest bit are filled then, and the successor is a power of two, exactly when no
gap between the bits was longer than the number of steps. Whether it is or not, the
successor lies below twice the successor of the value.
-/

import Mathlib.Data.Nat.Bitwise

namespace BitSmear

/-- A number of steps, each of which spreads the bits by one place. -/
def smear : Nat → Nat → Nat
  | 0, value => value
  | steps + 1, value => smear steps (value ||| value >>> 1)

/-- Up to the highest bit, there is a bit at most so many places above every place. -/
def NoGap (steps value : Nat) : Prop :=
  ∀ place, 2 ^ place ≤ value → ∃ distance ≤ steps, value.testBit (place + distance) = true

variable {steps value bound : Nat}

/-! ### What smearing does to the bits -/

theorem testBit_smear (steps value place : Nat) : (smear steps value).testBit place = true ↔
    ∃ distance ≤ steps, value.testBit (place + distance) = true := by
  induction steps generalizing value with
  | zero =>
    rw [smear]
    constructor
    · exact fun here => ⟨0, le_refl 0, here⟩
    · rintro ⟨distance, none, here⟩
      rw [Nat.le_zero.mp none] at here
      exact here
  | succ steps inductionHypothesis =>
    rw [smear, inductionHypothesis]
    simp only [Nat.testBit_or, Nat.testBit_shiftRight, Bool.or_eq_true]
    constructor
    · rintro ⟨distance, near, here | above⟩
      · exact ⟨distance, by omega, here⟩
      · refine ⟨distance + 1, by omega, ?_⟩
        rwa [Nat.add_comm 1, Nat.add_assoc] at above
    · rintro ⟨distance, near, here⟩
      cases distance with
      | zero => exact ⟨0, Nat.zero_le _, Or.inl here⟩
      | succ distance =>
        refine ⟨distance, by omega, Or.inr ?_⟩
        rwa [Nat.add_comm 1, Nat.add_assoc]

theorem le_smear (steps value : Nat) : value ≤ smear steps value := by
  induction steps generalizing value with
  | zero => exact le_refl value
  | succ steps inductionHypothesis =>
    rw [smear]
    exact le_trans Nat.left_le_or (inductionHypothesis _)

theorem smear_lt_two_pow (steps : Nat) (small : value < 2 ^ bound) :
    smear steps value < 2 ^ bound := by
  induction steps generalizing value with
  | zero => exact small
  | succ steps inductionHypothesis =>
    rw [smear]
    refine inductionHypothesis (Nat.or_lt_two_pow small ?_)
    exact lt_of_le_of_lt (Nat.shiftRight_le value 1) small

/-- Smearing does not get above the highest bit. -/
theorem smear_succ_lt (steps value : Nat) : smear steps value + 1 < 2 * (value + 1) := by
  by_cases zero : value = 0
  · have none := smear_lt_two_pow steps (show value < 2 ^ 0 by rw [zero]; decide)
    omega
  · have below := Nat.log2_self_le zero
    have above := smear_lt_two_pow steps (Nat.lt_log2_self (n := value))
    rw [Nat.pow_succ] at above
    omega

/-! ### The successor -/

/-- The successor is a power of two exactly when there is no gap that is too long. -/
theorem isPowerOfTwo_smear_succ (steps value : Nat) :
    (smear steps value + 1).isPowerOfTwo ↔ NoGap steps value := by
  constructor
  · rintro ⟨exponent, power⟩ place reached
    have full : smear steps value = 2 ^ exponent - 1 := by omega
    have less : 2 ^ place < 2 ^ exponent :=
      lt_of_le_of_lt (le_trans reached (le_smear steps value)) (by omega)
    have inside : place < exponent := (Nat.pow_lt_pow_iff_right (by decide)).mp less
    refine (testBit_smear steps value place).mp ?_
    rw [full, Nat.testBit_two_pow_sub_one]
    exact decide_eq_true inside
  · intro noGap
    by_cases zero : value = 0
    · refine ⟨0, ?_⟩
      have none := smear_lt_two_pow steps (show value < 2 ^ 0 by rw [zero]; decide)
      omega
    · refine ⟨value.log2 + 1, ?_⟩
      have full : smear steps value = 2 ^ (value.log2 + 1) - 1 := by
        refine Nat.eq_of_testBit_eq fun place => ?_
        rw [Nat.testBit_two_pow_sub_one]
        by_cases inside : place < value.log2 + 1
        · have reached : 2 ^ place ≤ value :=
            le_trans (Nat.pow_le_pow_right (Nat.succ_pos 1) (Nat.le_of_lt_succ inside))
              (Nat.log2_self_le zero)
          rw [decide_eq_true inside]
          exact (testBit_smear steps value place).mpr (noGap place reached)
        · rw [decide_eq_false inside]
          refine Nat.testBit_lt_two_pow (lt_of_lt_of_le
            (smear_lt_two_pow steps (Nat.lt_log2_self (n := value))) ?_)
          exact Nat.pow_le_pow_right (Nat.succ_pos 1) (Nat.le_of_not_lt inside)
      have positive := Nat.two_pow_pos (value.log2 + 1)
      omega

/-- Below a power of two all places are filled already. -/
theorem smear_of_isPowerOfTwo_succ (steps : Nat) (power : (value + 1).isPowerOfTwo) :
    smear steps value = value := by
  obtain ⟨exponent, same⟩ := power
  have above := smear_lt_two_pow steps (show value < 2 ^ exponent by omega)
  have below := le_smear steps value
  omega

end BitSmear
