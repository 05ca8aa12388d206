import Mathlib.Algebra.BigOperators.Ring.Finset
import Mathlib.Algebra.Order.BigOperators.Group.Finset
import Mathlib.Tactic.Common
import Mathlib.Tactic.Ring

/-! Words as rows of equal fields: the bits of every field are added up in all fields at a time, by one mask at
each shift. -/

namespace Clocked

/-- The lowest bit of each of the first `n` fields of `w` bits. -/
def fieldMask (w : ℕ) : ℕ → ℕ
  | 0 => 0
  | n + 1 => 2 ^ w * fieldMask w n + 1

/-- The number of ones among the `w` bits of `a` from `lo` on. -/
def ones (w a lo : ℕ) : ℕ := ∑ t ∈ Finset.range w, (a.testBit (lo + t)).toNat

def fieldSums (w n a : ℕ) : ℕ := ∑ t ∈ Finset.range w, ((a >>> t) &&& fieldMask w n)

variable {w n : ℕ}

theorem and_fieldMask (hw : 0 < w) (a : ℕ) :
    a &&& fieldMask w (n + 1) = 2 ^ w * ((a >>> w) &&& fieldMask w n) + (a.testBit 0).toNat := by
  have hone : (1 : ℕ) < 2 ^ w := Nat.one_lt_two_pow (by omega)
  apply Nat.eq_of_testBit_eq
  intro j
  rw [Nat.testBit_and, fieldMask, Nat.testBit_two_pow_mul_add _ hone,
    Nat.testBit_two_pow_mul_add _ (lt_of_le_of_lt (Bool.toNat_le _) hone)]
  by_cases hj : j < w
  · rw [if_pos hj, if_pos hj]
    cases j with
    | zero => cases a.testBit 0 <;> rfl
    | succ j =>
      have hlow : ∀ b : Bool, b.toNat.testBit (j + 1) = false := by
        intro b
        cases b <;> simp [Nat.testBit_succ]
      have hone' : Nat.testBit 1 (j + 1) = false := hlow true
      rw [hlow, hone', Bool.and_false]
  · rw [if_neg hj, if_neg hj, Nat.testBit_and, Nat.testBit_shiftRight, Nat.add_sub_cancel' (by omega)]

theorem ones_lt (w a lo : ℕ) : ones w a lo < 2 ^ w := by
  refine lt_of_le_of_lt ?_ (Nat.lt_two_pow_self (n := w))
  have hle := Finset.sum_le_card_nsmul (Finset.range w) (fun t => (a.testBit (lo + t)).toNat) 1
    fun t _ => Bool.toNat_le _
  simpa [ones] using hle

theorem fieldSums_succ (hw : 0 < w) (a : ℕ) :
    fieldSums w (n + 1) a = 2 ^ w * fieldSums w n (a >>> w) + ones w a 0 := by
  simp only [fieldSums, ones, and_fieldMask hw, Nat.testBit_shiftRight, Nat.zero_add, Nat.add_zero]
  rw [Finset.sum_add_distrib, ← Finset.mul_sum]
  congr 2
  apply Finset.sum_congr rfl
  intro t _
  rw [← Nat.shiftRight_add, ← Nat.shiftRight_add, Nat.add_comm]

/-- No field runs over into the next one. -/
theorem fieldSums_field (hw : 0 < w) (a : ℕ) {k : ℕ} (hk : k < n) :
    fieldSums w n a >>> (w * k) % 2 ^ w = ones w a (w * k) := by
  induction k generalizing n a with
  | zero =>
    obtain ⟨n, rfl⟩ := Nat.exists_eq_succ_of_ne_zero (by omega : n ≠ 0)
    rw [fieldSums_succ hw, Nat.mul_zero, Nat.shiftRight_zero, Nat.mul_add_mod, Nat.mod_eq_of_lt (ones_lt w a 0)]
  | succ k ih =>
    obtain ⟨n, rfl⟩ := Nat.exists_eq_succ_of_ne_zero (by omega : n ≠ 0)
    have hhigh : fieldSums w (n + 1) a >>> w = fieldSums w n (a >>> w) := by
      rw [fieldSums_succ hw, Nat.shiftRight_eq_div_pow, Nat.mul_add_div (Nat.two_pow_pos w),
        Nat.div_eq_of_lt (ones_lt w a 0), Nat.add_zero]
    rw [Nat.mul_succ, Nat.add_comm, Nat.shiftRight_add, hhigh, ih _ (by omega)]
    simp only [ones, Nat.testBit_shiftRight, Nat.add_assoc]

end Clocked
