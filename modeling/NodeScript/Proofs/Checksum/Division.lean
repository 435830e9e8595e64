import Mathlib
import NodeScript.Checksum

/-!
The checksum as a remainder. A step through the table does to the register what its eight bits do
one after the other, since division is linear in the register; and a register is a polynomial over
the field of two elements, its lowest bit the highest coefficient, which a bit multiplies by `X`
modulo the generator. So the checksum is the remainder of one polynomial division of the whole text.
-/
namespace NodeScript.Checksum

open Polynomial Finset

/-- The bits of a byte in the order in which they are divided, the lowest first. -/
def bits (byte : UInt8) : List Bool := (List.range 8).map byte.toNat.testBit

/-- Folds one bit into the register. -/
def absorbBit (register : UInt32) (bit : Bool) : UInt32 := shiftBit (register ^^^ bit.toUInt32)

/-- The checksum of bits, taken one at a time. -/
def bitwise (message : List Bool) : UInt32 := ~~~(message.foldl absorbBit 0xFFFFFFFF)

/-- What the bit that leaves the register adds to it. -/
def feedback (low : Bool) : UInt32 := if low then 0xEDB88320 else 0

theorem feedback_xor : ∀ a b, feedback (a ^^ b) = feedback a ^^^ feedback b := by decide

theorem and_one_eq_zero (r : UInt32) : r &&& 1 = 0 ↔ r.toNat.testBit 0 = false := by
  rw [← UInt32.toNat_inj, UInt32.toNat_and, UInt32.toNat_one, UInt32.toNat_zero,
    Nat.and_one_is_mod, Nat.testBit_zero, decide_eq_false_iff_not]
  omega

theorem testBit_shiftRight (r : UInt32) (i : Nat) :
    (r >>> 1).toNat.testBit i = r.toNat.testBit (i + 1) := by
  rw [UInt32.toNat_shiftRight, Nat.testBit_shiftRight, Nat.add_comm]
  rfl

theorem shiftBit_eq (r : UInt32) : shiftBit r = (r >>> 1) ^^^ feedback (r.toNat.testBit 0) := by
  unfold shiftBit
  cases low : r.toNat.testBit 0 with
  | false => rw [if_pos ((and_one_eq_zero r).mpr low), feedback, if_neg nofun, UInt32.xor_zero]
  | true => rw [if_neg (by simp [and_one_eq_zero, low]), feedback, if_pos rfl]

/-- Division is linear in the register. -/
theorem shiftBit_xor (r s : UInt32) : shiftBit (r ^^^ s) = shiftBit r ^^^ shiftBit s := by
  rw [shiftBit_eq, shiftBit_eq, shiftBit_eq, UInt32.toNat_xor, Nat.testBit_xor, feedback_xor,
    UInt32.shiftRight_xor]
  ac_rfl

theorem shiftBits_xor (count : Nat) (r s : UInt32) :
    shiftBits count (r ^^^ s) = shiftBits count r ^^^ shiftBits count s := by
  induction count generalizing r s with
  | zero => rfl
  | succ count ih => rw [shiftBits, shiftBit_xor, ih, shiftBits, shiftBits]

/-- Where no bit leaves the register, it only moves. -/
theorem toNat_shiftBits {count : Nat} {r : UInt32}
    (clear : ∀ i < count, r.toNat.testBit i = false) :
    (shiftBits count r).toNat = r.toNat >>> count := by
  induction count generalizing r with
  | zero => rfl
  | succ count ih =>
    have moved : shiftBit r = r >>> 1 := by
      rw [shiftBit_eq, clear 0 (Nat.succ_pos count), feedback, if_neg nofun, UInt32.xor_zero]
    have clear' (i : Nat) (less : i < count) : (r >>> 1).toNat.testBit i = false := by
      rw [testBit_shiftRight]
      exact clear (i + 1) (Nat.succ_lt_succ less)
    rw [shiftBits, moved, ih clear', Nat.add_comm, Nat.shiftRight_add, UInt32.toNat_shiftRight]
    rfl

theorem foldl_absorbBit_xor (message : List Bool) (r s : UInt32) :
    message.foldl absorbBit (r ^^^ s) =
      message.foldl absorbBit r ^^^ shiftBits message.length s := by
  induction message generalizing r s with
  | nil => rfl
  | cons bit rest ih =>
    have first : absorbBit (r ^^^ s) bit = absorbBit r bit ^^^ shiftBit s := by
      rw [absorbBit, absorbBit, ← shiftBit_xor]
      congr 1
      ac_rfl
    rw [List.foldl_cons, first, ih, List.foldl_cons, List.length_cons, shiftBits]

theorem foldl_bits_zero (byte : UInt8) :
    (bits byte).foldl absorbBit 0 = shiftBits 8 byte.toUInt32 := by
  have every : ∀ value : Fin 256, (bits ⟨⟨value⟩⟩).foldl absorbBit 0 =
      shiftBits 8 (UInt8.toUInt32 ⟨⟨value⟩⟩) := by
    decide +kernel
  exact every byte.toFin

theorem table_get (byte : UInt8) : table.get byte.toFin = shiftBits 8 byte.toUInt32 := by
  have entry : table.get byte.toFin = shiftBits 8 byte.toNat.toUInt32 :=
    Vector.getElem_ofFn byte.toFin.isLt
  exact entry.trans (congrArg _ (UInt32.ofNat_uInt8ToNat byte))

/-- Eight bits of division come to those of the low byte, with the rest moved down. -/
theorem shiftBits_eight (r : UInt32) :
    shiftBits 8 r = shiftBits 8 r.toUInt8.toUInt32 ^^^ (r >>> 8) := by
  let low := r.toUInt8.toUInt32
  have low_bits (i : Nat) : low.toNat.testBit i = (decide (i < 8) && r.toNat.testBit i) := by
    rw [UInt8.toNat_toUInt32, UInt32.toNat_toUInt8, Nat.testBit_mod_two_pow]
  have high_bits (i : Nat) :
      (low ^^^ r).toNat.testBit i = (decide (8 ≤ i) && r.toNat.testBit i) := by
    rw [UInt32.toNat_xor, Nat.testBit_xor, low_bits]
    rcases Nat.lt_or_ge i 8 with less | more
    · simp [less, Nat.not_le.mpr less]
    · simp [more, Nat.not_lt.mpr more]
  have high : shiftBits 8 (low ^^^ r) = r >>> 8 := by
    have clear (i : Nat) (less : i < 8) : (low ^^^ r).toNat.testBit i = false := by
      rw [high_bits, decide_eq_false (Nat.not_le.mpr less), Bool.false_and]
    rw [← UInt32.toNat_inj, toNat_shiftBits clear, UInt32.toNat_shiftRight]
    refine Nat.eq_of_testBit_eq fun i => ?_
    rw [Nat.testBit_shiftRight, high_bits, decide_eq_true (Nat.le_add_right 8 i), Bool.true_and]
    exact (Nat.testBit_shiftRight _).symm
  rw [← high, ← shiftBits_xor, ← UInt32.xor_assoc, UInt32.xor_self, UInt32.zero_xor]

/-- A step through the table does what the bits of the byte do. -/
theorem absorb_eq (r : UInt32) (byte : UInt8) : absorb r byte = (bits byte).foldl absorbBit r := by
  have moved : (r ^^^ byte.toUInt32) >>> 8 = r >>> 8 := by
    rw [UInt32.shiftRight_xor, ← UInt32.toNat_inj, UInt32.toNat_xor]
    have gone : (byte.toUInt32 >>> 8).toNat = 0 := by
      rw [UInt32.toNat_shiftRight, UInt8.toNat_toUInt32]
      exact Nat.shiftRight_eq_zero _ _ byte.toNat_lt
    rw [gone, Nat.xor_zero]
  have folded := foldl_absorbBit_xor (bits byte) 0 r
  rw [UInt32.zero_xor, foldl_bits_zero] at folded
  rw [absorb, table_get, ← moved, ← shiftBits_eight, UInt32.xor_comm, shiftBits_xor, folded]
  rfl

theorem foldl_absorb (bytes : List UInt8) (r : UInt32) :
    bytes.foldl absorb r = (bytes.flatMap bits).foldl absorbBit r := by
  induction bytes generalizing r with
  | nil => rfl
  | cons byte rest ih =>
    rw [List.foldl_cons, ih, absorb_eq, List.flatMap_cons, List.foldl_append]

theorem ofBytes_eq_bitwise (bytes : List UInt8) : ofBytes bytes = bitwise (bytes.flatMap bits) := by
  rw [ofBytes, bitwise, foldl_absorb]

/-- The polynomial by which the checksum divides. -/
noncomputable def generator : (ZMod 2)[X] :=
  X ^ 32 + (X ^ 26 + X ^ 23 + X ^ 22 + X ^ 16 + X ^ 12 + X ^ 11 + X ^ 10 + X ^ 8 + X ^ 7 + X ^ 5
    + X ^ 4 + X ^ 2 + X + 1)

/-- The polynomial that a register holds, with its lowest bit as the highest coefficient. -/
noncomputable def residue (register : UInt32) : (ZMod 2)[X] :=
  ∑ i ∈ range 32, if register.toNat.testBit i then X ^ (31 - i) else 0

/-- The polynomial of bits, with the first one as the highest coefficient. -/
noncomputable def polynomial : List Bool → (ZMod 2)[X]
  | [] => 0
  | bit :: rest => (if bit then X ^ rest.length else 0) + polynomial rest

theorem monic_generator : generator.Monic := by
  unfold generator
  monicity!

theorem degree_generator : generator.degree = 32 := by
  unfold generator
  compute_degree!

theorem residue_xor (r s : UInt32) : residue (r ^^^ s) = residue r + residue s := by
  rw [residue, residue, residue, ← sum_add_distrib]
  refine sum_congr rfl fun i _ => ?_
  rw [UInt32.toNat_xor, Nat.testBit_xor]
  cases r.toNat.testBit i <;> cases s.toNat.testBit i <;> simp [CharTwo.add_self_eq_zero]

theorem residue_feedback : ∀ low, residue (feedback low) = if low then X ^ 32 + generator else 0
  | false => by simp [residue, feedback]
  | true => by
    rw [generator, if_pos rfl, CharTwo.add_cancel_left]
    simp [residue, feedback, sum_range_succ, Nat.testBit]

theorem residue_bit (bit : Bool) : residue bit.toUInt32 = if bit then X ^ 31 else 0 := by
  cases bit with
  | false =>
    change residue 0 = 0
    simp [residue]
  | true =>
    change residue 1 = X ^ 31
    simp [residue, sum_range_succ, Nat.testBit]

theorem mul_residue (r : UInt32) :
    X * residue r = residue (r >>> 1) + if r.toNat.testBit 0 then X ^ 32 else 0 := by
  have top : (r >>> 1).toNat.testBit 31 = false := by
    rw [testBit_shiftRight]
    exact Nat.testBit_lt_two_pow r.toNat_lt
  rw [residue, residue, mul_sum, sum_range_succ', sum_range_succ _ 31, top]
  simp only [testBit_shiftRight, Bool.false_eq_true, if_false, add_zero, mul_ite, mul_zero]
  refine congrArg₂ _ (sum_congr rfl fun i inside => ?_) ?_
  · have degree : 31 - i = 31 - (i + 1) + 1 := by
      have := mem_range.mp inside
      omega
    rw [degree, pow_succ']
  · rw [Nat.sub_zero, ← pow_succ']

/-- One bit of division multiplies by `X` and reduces. -/
theorem residue_shiftBit (r : UInt32) :
    residue (shiftBit r) = X * residue r + if r.toNat.testBit 0 then generator else 0 := by
  rw [shiftBit_eq, residue_xor, mul_residue, residue_feedback]
  cases r.toNat.testBit 0 <;> simp [add_assoc]

/-- One bit of a message, behind what the register holds. -/
theorem residue_absorbBit (r : UInt32) (bit : Bool) :
    ∃ q, residue (absorbBit r bit) + generator * q =
      X * residue r + if bit then X ^ 32 else 0 := by
  refine ⟨if (r ^^^ bit.toUInt32).toNat.testBit 0 then 1 else 0, ?_⟩
  rw [absorbBit, residue_shiftBit, residue_xor, residue_bit, mul_add, add_assoc]
  cases (r ^^^ bit.toUInt32).toNat.testBit 0 <;> cases bit <;>
    simp [CharTwo.add_self_eq_zero, ← pow_succ']

/-- What a message makes of the register differs by a multiple of the generator from the message
behind what the register held. -/
theorem residue_foldl (message : List Bool) (r : UInt32) :
    ∃ q, residue (message.foldl absorbBit r) + generator * q =
      residue r * X ^ message.length + polynomial message * X ^ 32 := by
  induction message generalizing r with
  | nil => exact ⟨0, by simp [polynomial]⟩
  | cons bit rest ih =>
    obtain ⟨q, divided⟩ := ih (absorbBit r bit)
    obtain ⟨p, first⟩ := residue_absorbBit r bit
    refine ⟨q + p * X ^ rest.length, ?_⟩
    have shown : (if bit then X ^ rest.length else 0 : (ZMod 2)[X]) * X ^ 32 =
        (if bit then X ^ 32 else 0) * X ^ rest.length := by
      cases bit <;> simp [mul_comm]
    rw [List.foldl_cons, polynomial, List.length_cons]
    linear_combination divided + X ^ rest.length * first - shown

theorem degree_residue_lt (r : UInt32) : (residue r).degree < 32 := by
  refine (degree_lt_iff_coeff_zero (residue r) 32).mpr fun k beyond => ?_
  rw [residue, finsetSum_coeff]
  refine sum_eq_zero fun i _ => ?_
  have other : k ≠ 31 - i := by omega
  split <;> simp [coeff_X_pow, other]

theorem coeff_residue (r : UInt32) {k : Nat} (inside : k < 32) :
    (residue r).coeff k = if r.toNat.testBit (31 - k) then 1 else 0 := by
  have own : 31 - (31 - k) = k := by omega
  rw [residue, finsetSum_coeff, sum_eq_single_of_mem (31 - k) (mem_range.mpr (by omega))]
  · split <;> simp [own]
  · intro i _ away
    have other : k ≠ 31 - i := by
      have := mem_range.mp ‹_›
      omega
    split <;> simp [coeff_X_pow, other]

/-- A register is determined by the polynomial that it holds. -/
theorem residue_injective {r s : UInt32} (same : residue r = residue s) : r = s := by
  refine UInt32.toNat_inj.mp (Nat.eq_of_testBit_eq fun i => ?_)
  rcases Nat.lt_or_ge i 32 with inside | beyond
  · have coefficient := congrArg (·.coeff (31 - i)) same
    have own : 31 - (31 - i) = i := by omega
    simp only [coeff_residue _ (show 31 - i < 32 by omega), own] at coefficient
    cases one : r.toNat.testBit i <;> cases other : s.toNat.testBit i <;>
      simp [one, other] at coefficient ⊢
  · have large : 2 ^ 32 ≤ 2 ^ i := Nat.pow_le_pow_right (by decide) beyond
    rw [Nat.testBit_lt_two_pow (Nat.lt_of_lt_of_le r.toNat_lt large),
      Nat.testBit_lt_two_pow (Nat.lt_of_lt_of_le s.toNat_lt large)]

/-- A register holds the remainder of what has gone into it. -/
theorem residue_eq_modByMonic (message : List Bool) (r : UInt32) :
    residue (message.foldl absorbBit r) =
      (residue r * X ^ message.length + polynomial message * X ^ 32) %ₘ generator := by
  obtain ⟨q, divided⟩ := residue_foldl message r
  have less : (residue (message.foldl absorbBit r)).degree < generator.degree := by
    rw [degree_generator]
    exact degree_residue_lt _
  exact (div_modByMonic_unique q _ monic_generator ⟨divided, less⟩).2.symm

end NodeScript.Checksum

namespace NodeScript

open Polynomial Checksum

/-- The checksum is the cyclic redundancy check of its generator, whether that is computed bit by
bit or is a remainder. To the bits of the text, each byte from its lowest bit on, 32 zeros are
appended, and the first 32 bits of the whole are complemented. What remains when it is divided by
the generator, complemented, is the checksum and no other word. -/
theorem crc32_eq_division (text : String) :
    let message := text.toUTF8.toList.flatMap bits
    crc32 text = bitwise message ∧
      ∀ checksum : UInt32, checksum = crc32 text ↔ residue (~~~checksum) =
        (residue 0xFFFFFFFF * X ^ message.length + polynomial message * X ^ 32) %ₘ generator := by
  intro message
  have equal : crc32 text = bitwise message := ofBytes_eq_bitwise _
  refine ⟨equal, fun checksum => ?_⟩
  rw [← residue_eq_modByMonic, equal, bitwise]
  constructor
  · rintro rfl
    rw [UInt32.not_not]
  · intro same
    rw [← residue_injective same, UInt32.not_not]

/-- The check value of the standard. -/
example : crc32 "123456789" = 0xCBF43926 := by decide +kernel

end NodeScript
