import Mathlib.Data.ZMod.Basic
import Mathlib.Tactic.IntervalCases
import Mathlib.Tactic.LinearCombination
import Mathlib.Tactic.NormNum
import ZedSecure.Proofs.AddsubRuns
import ZedSecure.Spec.PolyLoops

/-! The reductions on whole numbers: no step leaves its width, a Montgomery product is the product over `2 ^ 16`, and
a Barrett reduction comes within half a modulus of zero. -/

namespace ZedSecure

namespace PolyLoops

open PolyAccelerator CoeffAddsub

/-- A word within `B` of zero. -/
def Within (B : ℤ) (x : BitVec 16) : Prop := -B ≤ x.toInt ∧ x.toInt ≤ B

theorem Within.mono {B B' : ℤ} (h : B ≤ B') {x : BitVec 16} (hx : Within B x) : Within B' x :=
  ⟨by have := hx.1; omega, by have := hx.2; omega⟩

theorem within_word (x : BitVec 16) : Within 32768 x := ⟨(word_range x).1, by have := (word_range x).2; omega⟩

theorem mul_within {B B' a b : ℤ} (ha : -B ≤ a ∧ a ≤ B) (hb : -B' ≤ b ∧ b ≤ B') :
    -(B * B') ≤ a * b ∧ a * b ≤ B * B' := by
  rw [← abs_le] at ha hb ⊢
  rw [abs_mul]
  exact mul_le_mul ha hb (abs_nonneg b) ((abs_nonneg a).trans ha)

section Montgomery

variable {x y : BitVec 16}

theorem toInt_product : (product x y).toInt = x.toInt * y.toInt := by
  have h := mul_within (within_word x) (within_word y)
  rw [product, BitVec.toInt_mul, BitVec.toInt_signExtend_of_le (by decide), BitVec.toInt_signExtend_of_le (by decide)]
  exact Int.bmod_eq_of_le (by norm_num; omega) (by norm_num; omega)

/-- The multiplier clears the lower half of the product. -/
theorem montMultiplier_dvd (p : BitVec 32) : (65536 : ℤ) ∣ p.toInt - (montMultiplier p).toInt * 3329 := by
  have hlow : (65536 : ℤ) ∣ (p.setWidth 16).toInt - p.toInt := by
    rw [toInt_trunc _ (by decide)]
    exact Int.dvd_bmod_sub_self
  have hmul : (65536 : ℤ) ∣ (montMultiplier p).toInt - (p.setWidth 16).toInt * -3327 := by
    rw [montMultiplier, BitVec.toInt_mul, show (62209#16).toInt = -3327 from rfl]
    exact Int.dvd_bmod_sub_self
  obtain ⟨c, hc⟩ := hlow
  obtain ⟨d, hd⟩ := hmul
  refine ⟨169 * p.toInt + 3327 * 3329 * c - 3329 * d, ?_⟩
  linear_combination (3327 * 3329) * hc - 3329 * hd

/-- A Montgomery product in whole numbers. -/
theorem toInt_fqmul : ∃ m : ℤ, -32768 ≤ m ∧ m ≤ 32767 ∧ (fqmul x y).toInt * 65536 = x.toInt * y.toInt - m * 3329 := by
  have hm := word_range (montMultiplier (product x y))
  refine ⟨(montMultiplier (product x y)).toInt, hm.1, hm.2, ?_⟩
  obtain ⟨k, hk⟩ := montMultiplier_dvd (product x y)
  have hprod := mul_within (within_word x) (within_word y)
  rw [toInt_product] at hk
  have hmul : ((montMultiplier (product x y)).signExtend 32 * 3329#32).toInt =
      (montMultiplier (product x y)).toInt * 3329 := by
    rw [BitVec.toInt_mul, BitVec.toInt_signExtend_of_le (by decide), show (3329#32).toInt = 3329 from rfl]
    exact Int.bmod_eq_of_le (by norm_num; omega) (by norm_num; omega)
  have hsub : (product x y - (montMultiplier (product x y)).signExtend 32 * 3329#32).toInt = 65536 * k := by
    rw [BitVec.toInt_sub, hmul, toInt_product, hk]
    exact Int.bmod_eq_of_le (by norm_num; omega) (by norm_num; omega)
  have hres : (fqmul x y).toInt = k := by
    rw [fqmul, fqResult, toInt_trunc _ (by decide), BitVec.toInt_sshiftRight, hsub, Int.shiftRight_eq_div_pow]
    rw [show (65536 * k) / ((2 ^ 16 : ℕ) : ℤ) = k by norm_num]
    exact Int.bmod_eq_of_le (by norm_num; omega) (by norm_num; omega)
  rw [hres]
  omega

theorem fqmul_within {B B' C : ℤ} (hx : Within B x) (hy : Within B' y)
    (hC : B * B' + 32768 * 3329 ≤ 65536 * C) : Within C (fqmul x y) := by
  obtain ⟨m, hlo, hhi, heq⟩ := toInt_fqmul (x := x) (y := y)
  have hprod := mul_within hx hy
  exact ⟨by omega, by omega⟩

end Montgomery

/-- A Barrett reduction in whole numbers. -/
theorem toInt_barrett (s : BitVec 16) : ∃ k : ℤ, (barrett s).toInt = s.toInt - k * 3329 ∧ Within 1665 (barrett s) := by
  have hs := word_range s
  have hmul : (20159#32 * s.signExtend 32).toInt = 20159 * s.toInt := by
    rw [BitVec.toInt_mul, BitVec.toInt_signExtend_of_le (by decide), show (20159#32).toInt = 20159 from rfl]
    exact Int.bmod_eq_of_le (by norm_num; omega) (by norm_num; omega)
  have haccum : (barrettAccum s).toInt = 20159 * s.toInt + 33554432 := by
    rw [barrettAccum, BitVec.toInt_add, hmul, show (33554432#32).toInt = 33554432 from rfl]
    exact Int.bmod_eq_of_le (by norm_num; omega) (by norm_num; omega)
  have htemp : (barrettTemp (barrettAccum s)).toInt = (20159 * s.toInt + 33554432) / 67108864 := by
    rw [barrettTemp, BitVec.toInt_sshiftRight, haccum, Int.shiftRight_eq_div_pow]
    norm_num
  have hback : (barrettTemp (barrettAccum s) * 3329#32).toInt = (20159 * s.toInt + 33554432) / 67108864 * 3329 := by
    rw [BitVec.toInt_mul, htemp, show (3329#32).toInt = 3329 from rfl]
    exact Int.bmod_eq_of_le (by norm_num; omega) (by norm_num; omega)
  have hdiff : (s.signExtend 32 - barrettTemp (barrettAccum s) * 3329#32).toInt =
      s.toInt - (20159 * s.toInt + 33554432) / 67108864 * 3329 := by
    rw [BitVec.toInt_sub, hback, BitVec.toInt_signExtend_of_le (by decide)]
    exact Int.bmod_eq_of_le (by norm_num; omega) (by norm_num; omega)
  have hres : (barrett s).toInt = s.toInt - (20159 * s.toInt + 33554432) / 67108864 * 3329 := by
    rw [barrett, barrettResult, toInt_trunc _ (by decide), hdiff]
    exact Int.bmod_eq_of_le (by norm_num; omega) (by norm_num; omega)
  exact ⟨_, hres, by rw [hres]; omega, by rw [hres]; omega⟩

section Sums

variable {B B' : ℤ} {x y : BitVec 16}

theorem toInt_add_within (hx : Within B x) (hy : Within B' y) (h : B + B' ≤ 32767) :
    (x + y).toInt = x.toInt + y.toInt ∧ Within (B + B') (x + y) := by
  obtain ⟨hx0, hx1⟩ := hx
  obtain ⟨hy0, hy1⟩ := hy
  have hsum : (x + y).toInt = x.toInt + y.toInt := by
    rw [BitVec.toInt_add]
    exact Int.bmod_eq_of_le (by norm_num; omega) (by norm_num; omega)
  exact ⟨hsum, by rw [hsum]; omega, by rw [hsum]; omega⟩

theorem toInt_sub_within (hx : Within B x) (hy : Within B' y) (h : B + B' ≤ 32767) :
    (x - y).toInt = x.toInt - y.toInt ∧ Within (B + B') (x - y) := by
  obtain ⟨hx0, hx1⟩ := hx
  obtain ⟨hy0, hy1⟩ := hy
  have hdiff : (x - y).toInt = x.toInt - y.toInt := by
    rw [BitVec.toInt_sub]
    exact Int.bmod_eq_of_le (by norm_num; omega) (by norm_num; omega)
  exact ⟨hdiff, by rw [hdiff]; omega, by rw [hdiff]; omega⟩

end Sums

section Residue

/-- A word modulo the prime. -/
def residue (x : BitVec 16) : ZMod 3329 := (x.toInt : ZMod 3329)

variable {B B' : ℤ} {x y : BitVec 16}

theorem residue_fqmul : residue (fqmul x y) = 169 * (residue x * residue y) := by
  obtain ⟨m, -, -, heq⟩ := toInt_fqmul (x := x) (y := y)
  have hcast := congrArg (Int.cast : ℤ → ZMod 3329) heq
  push_cast at hcast
  have hq : (3329 : ZMod 3329) = 0 := rfl
  have hr : (169 * 65536 : ZMod 3329) = 1 := rfl
  rw [residue, residue, residue]
  linear_combination 169 * hcast - ((fqmul x y).toInt : ZMod 3329) * hr - 169 * (m : ZMod 3329) * hq

theorem residue_barrett (s : BitVec 16) : residue (barrett s) = residue s := by
  obtain ⟨k, heq, -⟩ := toInt_barrett s
  have hq : (3329 : ZMod 3329) = 0 := rfl
  rw [residue, residue, heq]
  push_cast
  linear_combination -(k : ZMod 3329) * hq

theorem residue_add (hx : Within B x) (hy : Within B' y) (h : B + B' ≤ 32767) :
    residue (x + y) = residue x + residue y := by
  rw [residue, (toInt_add_within hx hy h).1, Int.cast_add, residue, residue]

theorem residue_sub (hx : Within B x) (hy : Within B' y) (h : B + B' ≤ 32767) :
    residue (x - y) = residue x - residue y := by
  rw [residue, (toInt_sub_within hx hy h).1, Int.cast_sub, residue, residue]

end Residue

end PolyLoops

end ZedSecure
