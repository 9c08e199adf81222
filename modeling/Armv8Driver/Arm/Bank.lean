import Mathlib.Algebra.Group.Nat.Defs
import Mathlib.Data.Nat.Init
import Mathlib.Logic.Function.Basic
import Mathlib.Tactic.SplitIfs

/-!
# Banks of registers

A device that has a bit or a field for each of many sources keeps them in a bank of 32-bit registers: 32 bits or 16
fields of two bits to a register. What a read-modify-write of one register does to the bank, source by source.
-/

namespace Arm

abbrev Bank := Nat → BitVec 32

namespace Bank

variable {bank : Bank} {k id : Nat}

/-- The bit of a source. -/
def bit (bank : Bank) (id : Nat) : Bool := (bank (id / 32)).getLsbD (id % 32)

/-- The field of a source. -/
def field (bank : Bank) (id : Nat) : BitVec 2 := (bank (id / 16)).extractLsb' (2 * (id % 16)) 2

theorem getLsbD_bit {i j : Nat} (hj : j < 32) : (1#32 <<< i).getLsbD j = decide (j = i) := by
  rw [BitVec.getLsbD_shiftLeft, BitVec.getLsbD_one, decide_eq_true hj, Bool.true_and]
  by_cases heq : j = i
  · simp [heq]
  · by_cases hlt : j < i
    · simp [hlt, heq]
    · have hpos : ¬ j - i = 0 := by omega
      simp [hlt, heq, hpos]

/-- Setting the bit of one source. -/
theorem bit_set : bit (Function.update bank (k / 32) (bank (k / 32) ||| 1#32 <<< (k % 32))) id =
    (decide (id = k) || bit bank id) := by
  have hlow : id % 32 < 32 := Nat.mod_lt _ (Nat.succ_pos 31)
  unfold bit
  by_cases hword : id / 32 = k / 32
  · rw [hword, Function.update_self, BitVec.getLsbD_or, getLsbD_bit hlow, Bool.or_comm]
    congr 1
    rw [decide_eq_decide]
    omega
  · have hne : id ≠ k := fun heq => hword (heq ▸ rfl)
    rw [Function.update_of_ne hword, decide_eq_false hne, Bool.false_or]

theorem getLsbD_mask {i j : Nat} (hj : j < 32) : (3#32 <<< i).getLsbD j = (decide (j = i) || decide (j = i + 1)) := by
  have hthree : ∀ n, (3#32).getLsbD n = (decide (n = 0) || decide (n = 1)) := by
    intro n
    by_cases hn : n < 2
    · obtain rfl | rfl : n = 0 ∨ n = 1 := by omega
      · rfl
      · rfl
    · have hzero : ¬ n = 0 := by omega
      have hone : ¬ n = 1 := by omega
      rw [decide_eq_false hzero, decide_eq_false hone, BitVec.getLsbD, BitVec.toNat_ofNat]
      apply Nat.testBit_lt_two_pow
      calc 3 % 2 ^ 32 < 2 ^ 2 := by decide
        _ ≤ 2 ^ n := Nat.pow_le_pow_right (Nat.succ_pos 1) (by omega)
  rw [BitVec.getLsbD_shiftLeft, hthree, decide_eq_true hj, Bool.true_and]
  by_cases hlt : j < i
  · have h0 : ¬ j = i := by omega
    have h1 : ¬ j = i + 1 := by omega
    simp [hlt, h0, h1]
  · have h0 : j - i = 0 ↔ j = i := by omega
    have h1 : j - i = 1 ↔ j = i + 1 := by omega
    simp [hlt, h0, h1]

/-- Clearing the field of one source. -/
theorem field_clear : field (Function.update bank (k / 16) (bank (k / 16) &&& ~~~(3#32 <<< (k % 16 * 2)))) id =
    if id = k then 0 else field bank id := by
  have hlow : id % 16 < 16 := Nat.mod_lt _ (Nat.succ_pos 15)
  apply BitVec.eq_of_getLsbD_eq
  intro i hi
  by_cases hword : id / 16 = k / 16
  · have hj : 2 * (id % 16) + i < 32 := by omega
    have hold : (field bank id).getLsbD i = (bank (k / 16)).getLsbD (2 * (id % 16) + i) := by
      rw [field, BitVec.getLsbD_extractLsb', decide_eq_true hi, Bool.true_and, hword]
    rw [field, BitVec.getLsbD_extractLsb', decide_eq_true hi, Bool.true_and, hword, Function.update_self,
      BitVec.getLsbD_and, BitVec.getLsbD_not, decide_eq_true hj, Bool.true_and, getLsbD_mask hj]
    by_cases heq : id = k
    · have hin : 2 * (id % 16) + i = k % 16 * 2 ∨ 2 * (id % 16) + i = k % 16 * 2 + 1 := by omega
      rw [if_pos heq]
      rcases hin with hin | hin <;> simp [hin]
    · have h0 : ¬ 2 * (id % 16) + i = k % 16 * 2 := by omega
      have h1 : ¬ 2 * (id % 16) + i = k % 16 * 2 + 1 := by omega
      rw [if_neg heq, hold]
      simp [h0, h1]
  · have hne : id ≠ k := fun heq => hword (heq ▸ rfl)
    rw [if_neg hne, field, Function.update_of_ne hword, field]

end Bank

end Arm
