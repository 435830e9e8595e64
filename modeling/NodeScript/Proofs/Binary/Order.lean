import Mathlib.Algebra.Order.Ring.Nat
import Mathlib.Data.Nat.Log
import Mathlib.Tactic.GCongr
import Mathlib.Tactic.Ring
import NodeScript.Binary.Basic

/-!
The order of floating-point numbers. Magnitudes name values in ascending order, and rounding keeps
that order and every value that a magnitude names; so of rounded sums and products the larger one
comes from larger numbers, and no sum is less than what is added.
-/
namespace NodeScript

theorem mod_le_mod_of_div_eq {x y n : Nat} (le : x ≤ y) (same : x / n = y / n) :
    x % n ≤ y % n := by
  have first := Nat.div_add_mod x n
  have second := Nat.div_add_mod y n
  rw [same] at first
  omega

theorem roundHalfEven_mono {x y : Nat} (le : x ≤ y) (den : Nat) :
    roundHalfEven x den ≤ roundHalfEven y den := by
  have quotients : x / den ≤ y / den := Nat.div_le_div_right le
  have above : roundHalfEven x den ≤ x / den + 1 := by
    unfold roundHalfEven
    grind
  have below : y / den ≤ roundHalfEven y den := by
    unfold roundHalfEven
    grind
  rcases Nat.lt_or_eq_of_le quotients with less | same
  · omega
  · have rests : x % den ≤ y % den := mod_le_mod_of_div_eq le same
    unfold roundHalfEven
    grind

theorem roundHalfEven_mul (n : Nat) {den : Nat} (positive : 0 < den) :
    roundHalfEven (n * den) den = n := by
  simp [roundHalfEven, positive]

namespace Format

variable {F G : Format}

theorem stride_eq : F.stride = 2 ^ (F.precision - 1) := rfl

theorem stride_pos : 0 < F.stride := Nat.pow_pos (by decide)

theorem unitsPerOne_pos : 0 < F.unitsPerOne := Nat.pow_pos (by decide)

theorem two_mul_stride (precise : 0 < F.precision) : 2 * F.stride = 2 ^ F.precision := by
  obtain ⟨p, precision⟩ := Nat.exists_eq_succ_of_ne_zero (Nat.ne_of_gt precise)
  rw [stride, precision, Nat.succ_sub_one]
  exact (Nat.pow_succ' ..).symm

theorem units_lt (a : Nat) : F.units a < F.stride * 2 ^ (a / F.stride) := by
  have fraction := Nat.mod_lt a (F.stride_pos)
  unfold units
  dsimp only
  split
  · next subnormal => simpa [subnormal] using fraction
  · next normal =>
    obtain ⟨field, some_field⟩ := Nat.exists_eq_succ_of_ne_zero normal
    rw [some_field, Nat.succ_sub_one, Nat.pow_succ', ← Nat.mul_assoc]
    exact Nat.mul_lt_mul_of_pos_right (by omega) (Nat.pow_pos (by decide))

theorem le_units {a : Nat} (normal : a / F.stride ≠ 0) :
    F.stride * 2 ^ (a / F.stride - 1) ≤ F.units a := by
  unfold units
  dsimp only
  rw [if_neg normal]
  exact Nat.mul_le_mul_right _ (Nat.le_add_right ..)

/-- Magnitudes are in the order of their values. -/
theorem units_mono {a b : Nat} (le : a ≤ b) : F.units a ≤ F.units b := by
  rcases Nat.lt_or_eq_of_le (Nat.div_le_div_right le : a / F.stride ≤ b / F.stride) with
    less | same
  · calc F.units a
      _ ≤ F.stride * 2 ^ (a / F.stride) := (units_lt a).le
      _ ≤ F.stride * 2 ^ (b / F.stride - 1) :=
        Nat.mul_le_mul_left _ (Nat.pow_le_pow_right (by decide) (Nat.le_sub_one_of_lt less))
      _ ≤ F.units b := le_units (Nat.ne_zero_of_lt less)
  · have fractions : a % F.stride ≤ b % F.stride := mod_le_mod_of_div_eq le same
    unfold units
    dsimp only
    rw [same]
    split
    · exact fractions
    · exact Nat.mul_le_mul_right _ (by omega)

/-- How far a number has to be moved down to have no more than the significant bits. -/
def shift (F : Format) (n : Nat) : Nat := n.log2 + 1 - F.precision

theorem round_eq (num den : Nat) :
    F.round num den =
      min F.infinity (F.shift (num * F.unitsPerOne / den) * F.stride +
        roundHalfEven (num * F.unitsPerOne)
          (den * 2 ^ F.shift (num * F.unitsPerOne / den))) := rfl

theorem round_le_infinity (num den : Nat) : F.round num den ≤ F.infinity := Nat.min_le_left ..

theorem shift_mono {a b : Nat} (le : a ≤ b) : F.shift a ≤ F.shift b := by
  have logs : a.log2 ≤ b.log2 := by
    rw [Nat.log2_eq_log_two, Nat.log2_eq_log_two]
    exact Nat.log_mono_right le
  exact Nat.sub_le_sub_right (Nat.succ_le_succ logs) _

theorem shift_mul_pow (precise : 0 < F.precision) {n : Nat} (below : n < 2 * F.stride)
    (above : F.stride ≤ n) (k : Nat) : F.shift (n * 2 ^ k) = k := by
  have nonzero : n ≠ 0 := by have := F.stride_pos; omega
  have log : (n * 2 ^ k).log2 = F.precision - 1 + k := by
    rw [Nat.log2_eq_iff (Nat.mul_ne_zero nonzero (Nat.two_pow_pos k).ne'), Nat.pow_add,
      Nat.add_right_comm, Nat.sub_add_cancel precise, Nat.pow_add, ← two_mul_stride precise]
    exact ⟨Nat.mul_le_mul_right _ above, Nat.mul_lt_mul_of_pos_right below (Nat.two_pow_pos k)⟩
  rw [shift, log]
  omega

theorem shift_eq_zero (precise : 0 < F.precision) {n : Nat} (small : n < 2 * F.stride) :
    F.shift n = 0 := by
  refine Nat.sub_eq_zero_of_le (Nat.succ_le_of_lt ?_)
  rw [two_mul_stride precise] at small
  cases n with
  | zero => exact precise
  | succ n => exact (Nat.log2_lt n.succ_ne_zero).mpr small

/-- A number is below the power of two that its shift leaves room for. -/
theorem lt_of_shift (precise : 0 < F.precision) (n : Nat) :
    n < 2 * F.stride * 2 ^ F.shift n := by
  rw [two_mul_stride precise, ← Nat.pow_add]
  exact Nat.lt_log2_self.trans_le (Nat.pow_le_pow_right (by decide) (by unfold shift; omega))

/-- A number that has to be moved down has all significant bits. -/
theorem le_of_shift (precise : 0 < F.precision) {n : Nat} (moved : F.shift n ≠ 0) :
    F.stride * 2 ^ F.shift n ≤ n := by
  have nonzero : n ≠ 0 := by
    rintro rfl
    exact moved (Nat.sub_eq_zero_of_le precise)
  rw [stride_eq, ← Nat.pow_add]
  exact (Nat.le_log2 nonzero).mp (by unfold shift at *; omega)

/-- Rounding keeps the order. -/
theorem round_mono (precise : 0 < F.precision) {num num' den : Nat} (positive : 0 < den)
    (le : num ≤ num') : F.round num den ≤ F.round num' den := by
  have scaled : num * F.unitsPerOne ≤ num' * F.unitsPerOne := Nat.mul_le_mul_right _ le
  rw [round_eq, round_eq]
  generalize num * F.unitsPerOne = x at *
  generalize num' * F.unitsPerOne = y at *
  refine min_le_min le_rfl ?_
  have shifts : F.shift (x / den) ≤ F.shift (y / den) :=
    F.shift_mono (Nat.div_le_div_right scaled)
  rcases Nat.lt_or_eq_of_le shifts with less | same
  · -- The smaller number rounds to no more than the first magnitude of the next exponent.
    have low : roundHalfEven x (den * 2 ^ F.shift (x / den)) ≤ 2 * F.stride := by
      rw [← roundHalfEven_mul (2 * F.stride) (Nat.mul_pos positive (Nat.two_pow_pos _))]
      refine roundHalfEven_mono ?_ _
      rw [Nat.mul_comm den, ← Nat.mul_assoc]
      exact ((Nat.div_lt_iff_lt_mul positive).mp (F.lt_of_shift precise _)).le
    have high : F.stride ≤ roundHalfEven y (den * 2 ^ F.shift (y / den)) := by
      rw [← roundHalfEven_mul F.stride (Nat.mul_pos positive (Nat.two_pow_pos _))]
      refine roundHalfEven_mono ?_ _
      rw [Nat.mul_comm den, ← Nat.mul_assoc]
      exact (Nat.le_div_iff_mul_le positive).mp (le_of_shift precise (Nat.ne_zero_of_lt less))
    calc F.shift (x / den) * F.stride + roundHalfEven x (den * 2 ^ F.shift (x / den))
      _ ≤ F.shift (x / den) * F.stride + 2 * F.stride := Nat.add_le_add_left low _
      _ = (F.shift (x / den) + 1) * F.stride + F.stride := by ring
      _ ≤ F.shift (y / den) * F.stride + F.stride := by gcongr; omega
      _ ≤ F.shift (y / den) * F.stride + roundHalfEven y (den * 2 ^ F.shift (y / den)) :=
        Nat.add_le_add_left high _
  · rw [same]
    exact Nat.add_le_add_left (roundHalfEven_mono scaled _) _

/-- Rounding keeps every value that a magnitude names. -/
theorem round_units (precise : 0 < F.precision) {a : Nat} (le : a ≤ F.infinity) :
    F.round (F.units a) F.unitsPerOne = a := by
  have parts := Nat.div_add_mod' a F.stride
  have fraction := Nat.mod_lt a F.stride_pos
  have magnitude : F.shift (F.units a) * F.stride +
      roundHalfEven (F.units a * F.unitsPerOne)
        (F.unitsPerOne * 2 ^ F.shift (F.units a)) = a := by
    by_cases subnormal : a / F.stride = 0
    · have value : F.units a = a := by
        rw [subnormal, Nat.zero_mul, Nat.zero_add] at parts
        simp only [units, subnormal, if_true, parts]
      have small : a < 2 * F.stride := by
        rw [subnormal, Nat.zero_mul, Nat.zero_add] at parts
        omega
      rw [value, shift_eq_zero precise small, Nat.pow_zero, Nat.mul_one,
        roundHalfEven_mul _ unitsPerOne_pos, Nat.zero_mul, Nat.zero_add]
    · have value : F.units a = (F.stride + a % F.stride) * 2 ^ (a / F.stride - 1) := by
        simp only [units, subnormal, if_false, Nat.pow_eq]
      have moved : F.shift (F.units a) = a / F.stride - 1 := by
        rw [value]
        exact shift_mul_pow precise (by omega) (Nat.le_add_right ..) _
      rw [moved, value, Nat.mul_assoc, Nat.mul_comm (2 ^ _) F.unitsPerOne,
        roundHalfEven_mul _ (Nat.mul_pos unitsPerOne_pos (Nat.two_pow_pos _)),
        ← Nat.add_assoc, ← Nat.succ_mul, Nat.succ_eq_add_one,
        Nat.sub_add_cancel (Nat.pos_of_ne_zero subnormal), parts]
  rw [round_eq, Nat.mul_div_cancel _ F.unitsPerOne_pos, magnitude]
  exact Nat.min_eq_right le

theorem add_comm (a b : Nat) : F.add a b = F.add b a := by
  simp only [add, Nat.add_comm (F.units a), or_comm]

theorem add_min (a b : Nat) : F.add (min a F.infinity) (min b F.infinity) = F.add a b := by
  by_cases endless : F.infinity ≤ a ∨ F.infinity ≤ b
  · rw [add, if_pos (by omega), add, if_pos endless]
  · rw [Nat.min_eq_left (by omega), Nat.min_eq_left (by omega)]

/-- A larger sum comes from larger numbers. -/
theorem add_mono (precise : 0 < F.precision) {a a' b b' : Nat} (left : a ≤ a') (right : b ≤ b') :
    F.add a b ≤ F.add a' b' := by
  unfold add
  split
  · rw [if_pos (by omega)]
  · split
    · exact round_le_infinity ..
    · exact round_mono precise unitsPerOne_pos
        (Nat.add_le_add (units_mono left) (units_mono right))

/-- No sum is less than what is added. -/
theorem le_add (precise : 0 < F.precision) (a b : Nat) : min a F.infinity ≤ F.add a b := by
  unfold add
  split
  · exact Nat.min_le_right ..
  · calc min a F.infinity
      _ = a := Nat.min_eq_left (by omega)
      _ = F.round (F.units a) F.unitsPerOne := (round_units precise (by omega)).symm
      _ ≤ F.round (F.units a + F.units b) F.unitsPerOne :=
        round_mono precise unitsPerOne_pos (Nat.le_add_right ..)

theorem mul_mono (precise : 0 < F.precision) {a a' b b' : Nat} (left : a ≤ a') (right : b ≤ b') :
    F.mul a b ≤ F.mul a' b' := by
  unfold mul
  split
  · rw [if_pos (by omega)]
  · split
    · exact round_le_infinity ..
    · exact round_mono precise (Nat.mul_pos unitsPerOne_pos unitsPerOne_pos)
        (Nat.mul_le_mul (units_mono left) (units_mono right))

theorem convert_mono (precise : 0 < G.precision) {a b : Nat} (le : a ≤ b) :
    F.convert G a ≤ F.convert G b := by
  unfold convert
  split
  · rw [if_pos (by omega)]
    omega
  · split
    · exact (round_le_infinity ..).trans (Nat.le_add_right ..)
    · exact round_mono precise unitsPerOne_pos (units_mono le)

end Format

namespace Binary

variable {F : Format}

/-- Where a number stands among the numbers of its format, with zero in the middle. -/
def position (x : Binary F) : Int := if x.negative then -x.magnitude else x.magnitude

/-- The numeric order, where zeros agree and a value that is no number is in order with none. -/
instance : LE (Binary F) where
  le x y := x.isNaN = false ∧ y.isNaN = false ∧ x.position ≤ y.position

instance (x y : Binary F) : Decidable (x ≤ y) := inferInstanceAs (Decidable (_ ∧ _))

theorem le_iff {x y : Binary F} :
    x ≤ y ↔ x.isNaN = false ∧ y.isNaN = false ∧ x.position ≤ y.position := Iff.rfl

theorem clampedMagnitude_mono {x y : Binary F} (le : x ≤ y) :
    x.clampedMagnitude ≤ y.clampedMagnitude := by
  obtain ⟨number, number', le⟩ := le_iff.mp le
  simp only [position] at le
  simp only [clampedMagnitude, number, number', Bool.or_false]
  grind

end Binary

end NodeScript
