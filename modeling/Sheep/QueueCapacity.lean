/-
This file models `IsPowerOf2` and `RoundUpToNextPowerOf2`, which make the capacity of
a queue out of any number, and finds out when they do. The recursion doubles `BitPos`
but shifts by one place every time, so that it spreads each bit over as many places as
there are instantiations, and not over all of them.
-/

import Sheep.BitSmear
import Sheep.Queue

namespace Sheep

/-! ### Templates -/

/-- The unsigned integral types. -/
inductive Unsigned
  | uint8
  | uint16
  | uint32
  | uint64
deriving DecidableEq, Repr

/-- `sizeof(T)*8`. -/
def Unsigned.bits : Unsigned → Nat
  | .uint8 => 8
  | .uint16 => 16
  | .uint32 => 32
  | .uint64 => 64

section Templates

variable {w : Nat}

/-- `IsPowerOf2<num>::value`. -/
def isPowerOf2 (num : BitVec w) : Bool := (num &&& (num - 1#w)) == 0#w

/-- `RoundUpToNextPowerOf2<T, Cap, BitPos>::value`, if no more than so many templates are
instantiated for it. -/
def roundUpFrom : Nat → BitVec w → Nat → Option (BitVec w)
  | 0, _, _ => none
  | depth + 1, Cap, BitPos =>
      -- the specialisation for `sizeof(T)*8`
      if BitPos = w then some (Cap + 1#w)
      -- the specialisation for 1, in which both branches are instantiated
      else if BitPos = 1 then
        (roundUpFrom depth ((Cap - 1#w) ||| (Cap - 1#w) >>> 1) 2).map fun value =>
          if isPowerOf2 Cap then Cap else value
      else roundUpFrom depth (Cap ||| Cap >>> 1) (BitPos <<< 1)

/-- `RoundUpToNextPowerOf2<T, Cap>::value`. As `BitPos` doubles, it is past `sizeof(T)*8` after so
many instantiations. -/
def roundUpToNextPowerOf2 (Cap : BitVec w) : Option (BitVec w) := roundUpFrom w Cap 1

end Templates

/-- What the constructor of `MPMCQueue` asserts. -/
def MPMCQueue.Asserted (capacity : UInt64) : Prop := capacity &&& (capacity - 1) = 0

/-- The template is a power of two, from the given number on and below its double. -/
def RoundsUp (T : Unsigned) (Cap : BitVec T.bits) : Prop :=
  ∃ value, roundUpToNextPowerOf2 Cap = some value ∧ value.toNat.isPowerOfTwo ∧
    Cap.toNat ≤ value.toNat ∧ value.toNat < 2 * Cap.toNat ∧
    MPMCQueue.Asserted (UInt64.ofNat value.toNat)

/-! ### What the templates compute -/

section Templates

variable {w : Nat}

/-- The shifts of the recursion. -/
def spread : Nat → BitVec w → BitVec w
  | 0, Cap => Cap
  | steps + 1, Cap => spread steps (Cap ||| Cap >>> 1)

theorem toNat_spread (steps : Nat) (Cap : BitVec w) :
    (spread steps Cap).toNat = BitSmear.smear steps Cap.toNat := by
  induction steps generalizing Cap with
  | zero => rfl
  | succ steps inductionHypothesis =>
    rw [spread, inductionHypothesis, BitSmear.smear, BitVec.toNat_or, BitVec.toNat_ushiftRight]

/-- From the second instantiation on, there is one shift for every doubling of `BitPos`. -/
theorem roundUpFrom_eq {exponent steps : Nat} (depth : Nat) (Cap : BitVec w) (later : 1 ≤ exponent)
    (width : w = 2 ^ (exponent + steps)) (deep : steps < depth) :
    roundUpFrom depth Cap (2 ^ exponent) = some (spread steps Cap + 1#w) := by
  induction steps generalizing exponent depth Cap with
  | zero =>
    obtain ⟨depth, rfl⟩ := Nat.exists_eq_add_one_of_ne_zero (Nat.ne_of_gt deep)
    rw [Nat.add_zero] at width
    rw [roundUpFrom, if_pos width.symm, spread]
  | succ steps inductionHypothesis =>
    obtain ⟨depth, rfl⟩ := Nat.exists_eq_add_one_of_ne_zero (Nat.ne_of_gt (Nat.zero_lt_of_lt deep))
    have unfinished : 2 ^ exponent ≠ w := by
      rw [width]
      exact Nat.ne_of_lt (Nat.pow_lt_pow_right (by decide) (by omega))
    have notFirst : 2 ^ exponent ≠ 1 := Nat.ne_of_gt (Nat.one_lt_two_pow (by omega))
    rw [roundUpFrom, if_neg unfinished, if_neg notFirst, Nat.shiftLeft_eq, ← Nat.pow_add]
    refine inductionHypothesis _ _ (by omega) ?_ (by omega)
    rw [width]
    congr 1
    omega

/-- So the whole recursion shifts once for every doubling from 1 to `sizeof(T)*8`. -/
theorem roundUpToNextPowerOf2_eq {doublings : Nat} (Cap : BitVec w) (some : 1 ≤ doublings)
    (width : w = 2 ^ doublings) : roundUpToNextPowerOf2 Cap =
      .some (if isPowerOf2 Cap then Cap else spread doublings (Cap - 1#w) + 1#w) := by
  obtain ⟨doublings, rfl⟩ := Nat.exists_eq_add_one_of_ne_zero (Nat.ne_of_gt some)
  have wide : doublings + 1 < w := by
    rw [width]
    exact Nat.lt_two_pow_self
  obtain ⟨depth, deep⟩ : ∃ depth, w = depth + 1 := ⟨w - 1, by omega⟩
  have onward := roundUpFrom_eq depth ((Cap - 1#w) ||| (Cap - 1#w) >>> 1) (le_refl 1)
    (width.trans (by rw [Nat.add_comm])) (by omega)
  rw [Nat.pow_one] at onward
  have first : roundUpFrom (depth + 1) Cap 1 = .some (if isPowerOf2 Cap then Cap
      else spread (doublings + 1) (Cap - 1#w) + 1#w) := by
    rw [roundUpFrom, if_neg (by omega), if_pos rfl, onward]
    rfl
  rwa [← deep] at first

theorem toNat_one (Cap : BitVec w) (positive : 1 ≤ Cap.toNat) : (1#w).toNat = 1 := by
  have bounded := Cap.isLt
  rw [BitVec.toNat_ofNat]
  exact Nat.mod_eq_of_lt (by omega)

theorem toNat_sub_one (Cap : BitVec w) (positive : 1 ≤ Cap.toNat) :
    (Cap - 1#w).toNat = Cap.toNat - 1 := by
  have one := toNat_one Cap positive
  rw [BitVec.toNat_sub_of_le (BitVec.le_def.mpr (by omega)), one]

theorem isPowerOf2_iff (Cap : BitVec w) (positive : 1 ≤ Cap.toNat) :
    isPowerOf2 Cap = true ↔ Cap.toNat.isPowerOfTwo := by
  rw [← Nat.and_sub_one_eq_zero_iff_isPowerOfTwo (by omega), isPowerOf2, beq_iff_eq,
    ← BitVec.toNat_inj, BitVec.toNat_and, toNat_sub_one Cap positive, BitVec.toNat_zero]

/-- The template is the successor of the predecessor smeared. -/
theorem toNat_roundUpToNextPowerOf2 {doublings : Nat} (Cap : BitVec w) (some : 1 ≤ doublings)
    (width : w = 2 ^ doublings) (low : 1 ≤ Cap.toNat) (high : Cap.toNat ≤ 2 ^ (w - 1)) :
    ∃ value, roundUpToNextPowerOf2 Cap = .some value ∧
      value.toNat = BitSmear.smear doublings (Cap.toNat - 1) + 1 := by
  refine ⟨_, roundUpToNextPowerOf2_eq Cap some width, ?_⟩
  by_cases power : isPowerOf2 Cap = true
  · rw [if_pos power]
    have isPower : (Cap.toNat - 1 + 1).isPowerOfTwo := by
      rw [Nat.sub_add_cancel low]
      exact (isPowerOf2_iff Cap low).mp power
    rw [BitSmear.smear_of_isPowerOfTwo_succ doublings isPower, Nat.sub_add_cancel low]
  · rw [if_neg power, BitVec.toNat_add, toNat_spread, toNat_sub_one Cap low, toNat_one Cap low]
    have small := BitSmear.smear_lt_two_pow doublings (show Cap.toNat - 1 < 2 ^ (w - 1) by omega)
    have double : 2 ^ w = 2 ^ (w - 1) * 2 := by
      have positive : 1 ≤ w := by
        rw [width]
        exact Nat.two_pow_pos _
      rw [← Nat.pow_succ, Nat.succ_eq_add_one, Nat.sub_add_cancel positive]
    exact Nat.mod_eq_of_lt (by omega)

end Templates

/-! ### When the value is a power of two -/

theorem bits_eq (T : Unsigned) : T.bits = 2 ^ T.bits.log2 := by
  cases T <;> decide

theorem asserted_iff {capacity : UInt64} (positive : 1 ≤ capacity.toNat) :
    MPMCQueue.Asserted capacity ↔ capacity.toNat.isPowerOfTwo := by
  have one : (1 : UInt64) ≤ capacity := UInt64.le_iff_toNat_le.mpr positive
  rw [← Nat.and_sub_one_eq_zero_iff_isPowerOfTwo (by omega), MPMCQueue.Asserted,
    ← UInt64.toNat_inj, UInt64.toNat_and, UInt64.toNat_sub_of_le _ _ one]
  rfl

/-- The template rounds up exactly when the predecessor of the number has no more zeros in a row
below its highest bit than `BitPos` is doubled. -/
theorem roundsUp_iff (T : Unsigned) (Cap : BitVec T.bits) (low : 1 ≤ Cap.toNat)
    (high : Cap.toNat ≤ 2 ^ (T.bits - 1)) :
    RoundsUp T Cap ↔ BitSmear.NoGap T.bits.log2 (Cap.toNat - 1) := by
  obtain ⟨value, computed, same⟩ := toNat_roundUpToNextPowerOf2 Cap
    (show 1 ≤ T.bits.log2 by cases T <;> decide) (bits_eq T) low high
  have bounded : value.toNat < 2 ^ 64 :=
    lt_of_lt_of_le value.isLt (Nat.pow_le_pow_right (by decide) (by cases T <;> decide))
  have atLeast := BitSmear.le_smear T.bits.log2 (Cap.toNat - 1)
  have below := BitSmear.smear_succ_lt T.bits.log2 (Cap.toNat - 1)
  rw [← BitSmear.isPowerOfTwo_smear_succ, ← same]
  constructor
  · rintro ⟨other, computed', power, _⟩
    rw [computed] at computed'
    cases computed'
    exact power
  · intro power
    refine ⟨value, computed, power, by omega, by omega, ?_⟩
    have whole : (UInt64.ofNat value.toNat).toNat = value.toNat :=
      UInt64.toNat_ofNat_of_lt' bounded
    refine (asserted_iff ?_).mpr ?_
    · omega
    · rwa [whole]

/-- From 5 it rounds up to 8. -/
theorem roundsUp_five : RoundsUp .uint8 5 := by
  refine (roundsUp_iff .uint8 5 (by decide) (by decide)).mpr ?_
  intro place reached
  have less : 2 ^ place < 2 ^ 3 := lt_of_le_of_lt reached (by decide)
  have inside : place < 3 := (Nat.pow_lt_pow_iff_right (by decide)).mp less
  refine ⟨2 - place, Nat.le_trans (Nat.sub_le _ _) (by decide), ?_⟩
  rw [Nat.add_sub_cancel' (by omega)]
  decide

/-- From 17 it does not round up to 32: the bit of 16 is spread over three places only. -/
theorem not_roundsUp_seventeen : ¬ ∀ (T : Unsigned) (Cap : BitVec T.bits), 1 ≤ Cap.toNat →
    Cap.toNat ≤ 2 ^ (T.bits - 1) → RoundsUp T Cap := by
  intro always
  obtain ⟨value, computed, power, _⟩ := always .uint8 17 (by decide) (by decide)
  have same : roundUpToNextPowerOf2 (17 : BitVec (Unsigned.bits .uint8)) = some 31 := by decide
  rw [same] at computed
  cases computed
  revert power
  decide

end Sheep
