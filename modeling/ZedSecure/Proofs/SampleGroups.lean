import ZedSecure.Clocked.FieldSums
import ZedSecure.Crypto.Fips203
import ZedSecure.Rtl.SharedHashEngine

/-! One group of bytes: the pair that is tested, and the eight or four coefficients of the noise. -/

namespace ZedSecure

open Clocked Fips203

variable {b : ℕ → BitVec 8} {base g : ℕ} {m n : ℕ} {x : BitVec m}

/-- The first `n` bytes of `x` are those of the stream from `base` on. -/
def Bytewise (b : ℕ → BitVec 8) (base n : ℕ) (x : BitVec m) : Prop := ∀ j < n, slice x (8 * j) 8 = b (base + j)

section Reject

/-- The candidates are the two values. -/
theorem rejectionPair_values {y : BitVec 24} (h : Bytewise b (3 * g) 3 y) :
    [(rejectionPair y).1.1.toNat, (rejectionPair y).2.1.toNat] = candidates b g := by
  have hbyte : ∀ j < 3, (b (3 * g + j)).toNat = y.toNat / 2 ^ (8 * j) % 2 ^ 8 := by
    intro j hj
    rw [← h j hj, toNat_slice]
  have h0 := hbyte 0 (by decide)
  have h1 := hbyte 1 (by decide)
  have h2 := hbyte 2 (by decide)
  have hy := y.isLt
  simp only [candidates, rejectionPair, toNat_slice]
  simp only [Nat.add_zero] at h0
  rw [h0, h1, h2]
  congr 1
  · omega
  · congr 1
    omega

theorem rejectionPair_valid (y : BitVec 24) :
    (rejectionPair y).1.2 = decide ((rejectionPair y).1.1.toNat < q) ∧
      (rejectionPair y).2.2 = decide ((rejectionPair y).2.1.toNat < q) := by
  simp only [rejectionPair, BitVec.lt_def, q]
  exact ⟨rfl, rfl⟩

/-- What is accepted of the group. -/
theorem rejectionPair_accepted {y : BitVec 24} (h : Bytewise b (3 * g) 3 y) : (candidates b g).filter (· < q) =
    (if (rejectionPair y).1.2 then [(rejectionPair y).1.1.toNat] else []) ++
      (if (rejectionPair y).2.2 then [(rejectionPair y).2.1.toNat] else []) := by
  rw [← rejectionPair_values h, (rejectionPair_valid y).1, (rejectionPair_valid y).2]
  simp only [List.filter_cons, List.filter_nil]
  split_ifs <;> rfl

end Reject

section Noise

theorem testBit_bytewise (h : Bytewise b base n x) {j : ℕ} (hj : j < 8 * n) :
    x.toNat.testBit j = bitAt b (8 * base + j) := by
  have hbyte := congrArg (fun v => v.getLsbD (j % 8)) (h (j / 8) (by omega))
  simp only [getLsbD_slice, Nat.mod_lt j (by decide : 0 < 8), decide_true, Bool.true_and, Nat.div_add_mod] at hbyte
  have hdiv : (8 * base + j) / 8 = base + j / 8 := by omega
  have hmod : (8 * base + j) % 8 = j % 8 := by omega
  rw [bitAt, hdiv, hmod, ← hbyte, BitVec.testBit_toNat]

theorem ones_bytewise (h : Bytewise b base n x) {w lo : ℕ} (hlo : lo + w ≤ 8 * n) :
    ones w x.toNat lo = ∑ t ∈ Finset.range w, (bitAt b (8 * base + lo + t)).toNat := by
  apply Finset.sum_congr rfl
  intro t ht
  rw [Finset.mem_range] at ht
  rw [testBit_bytewise h (by omega), Nat.add_assoc]

/-- The fields of `mlkem_cbd_eta2_group`. -/
def eta2Fields (x : BitVec 32) : BitVec 32 := (x &&& 0x55555555#32) + ((x >>> 1) &&& 0x55555555#32)

/-- The fields of `mlkem_cbd_eta3_group`. -/
def eta3Fields (x : BitVec 24) : BitVec 24 :=
  (x &&& 0x249249#24) + ((x >>> 1) &&& 0x249249#24) + ((x >>> 2) &&& 0x249249#24)

theorem toNat_eta2Fields (x : BitVec 32) : (eta2Fields x).toNat = fieldSums 2 16 x.toNat := by
  have hmask : fieldMask 2 16 = 0x55555555 := rfl
  have hword : (0x55555555#32).toNat = 0x55555555 := rfl
  have h0 := Nat.and_le_right (n := x.toNat) (m := 0x55555555)
  have h1 := Nat.and_le_right (n := x.toNat >>> 1) (m := 0x55555555)
  simp only [fieldSums, Finset.sum_range_succ, Finset.sum_range_zero, hmask, Nat.shiftRight_zero, Nat.zero_add]
  rw [eta2Fields, BitVec.toNat_add, BitVec.toNat_and, BitVec.toNat_and, BitVec.toNat_ushiftRight, hword]
  exact Nat.mod_eq_of_lt (by omega)

theorem toNat_eta3Fields (x : BitVec 24) : (eta3Fields x).toNat = fieldSums 3 8 x.toNat := by
  have hmask : fieldMask 3 8 = 0x249249 := rfl
  have hword : (0x249249#24).toNat = 0x249249 := rfl
  have h0 := Nat.and_le_right (n := x.toNat) (m := 0x249249)
  have h1 := Nat.and_le_right (n := x.toNat >>> 1) (m := 0x249249)
  have h2 := Nat.and_le_right (n := x.toNat >>> 2) (m := 0x249249)
  simp only [fieldSums, Finset.sum_range_succ, Finset.sum_range_zero, hmask, Nat.shiftRight_zero, Nat.zero_add]
  rw [eta3Fields, BitVec.toNat_add, BitVec.toNat_add, BitVec.toNat_and, BitVec.toNat_and, BitVec.toNat_and,
    BitVec.toNat_ushiftRight, BitVec.toNat_ushiftRight, hword, Nat.mod_add_mod]
  exact Nat.mod_eq_of_lt (by omega)

/-- The difference of two counts as a word. -/
theorem sub_ofInt {w : ℕ} {u v : BitVec w} :
    u.setWidth 16 - v.setWidth 16 = BitVec.ofInt 16 ((u.toNat : ℤ) - v.toNat) := by
  rw [sub_eq_add_neg (u.toNat : ℤ), BitVec.ofInt_add, BitVec.ofInt_neg, BitVec.ofInt_natCast, BitVec.ofInt_natCast,
    BitVec.ofNat_toNat, BitVec.ofNat_toNat, BitVec.sub_eq_add_neg]

/-- Eight coefficients from four bytes. -/
theorem cbdEta2_eq {y : BitVec 32} (h : Bytewise b (4 * g) 4 y) {i : ℕ} (hi : i < 8) :
    cbdEta2 y i = BitVec.ofInt 16 (samplePolyCbd b 2 (8 * g + i)) := by
  have hfield : ∀ k < 16, (slice (eta2Fields y) (2 * k) 2).toNat =
      ∑ t ∈ Finset.range 2, (bitAt b (8 * (4 * g) + 2 * k + t)).toNat := by
    intro k hk
    rw [toNat_slice, toNat_eta2Fields, ← Nat.shiftRight_eq_div_pow, fieldSums_field (by decide) _ hk,
      ones_bytewise h (by omega)]
  have hlow := hfield (2 * i) (by omega)
  have hhigh := hfield (2 * i + 1) (by omega)
  rw [show 2 * (2 * i) = 4 * i by omega, show 8 * (4 * g) + 4 * i = 2 * (8 * g + i) * 2 by ring] at hlow
  rw [show 2 * (2 * i + 1) = 4 * i + 2 by omega,
    show 8 * (4 * g) + (4 * i + 2) = 2 * (8 * g + i) * 2 + 2 by ring] at hhigh
  change (slice (eta2Fields y) (4 * i) 2).setWidth 16 - (slice (eta2Fields y) (4 * i + 2) 2).setWidth 16 = _
  rw [sub_ofInt, hlow, hhigh, samplePolyCbd, Nat.cast_sum, Nat.cast_sum]

/-- Four coefficients from three bytes. -/
theorem cbdEta3_eq {y : BitVec 24} (h : Bytewise b (3 * g) 3 y) {i : ℕ} (hi : i < 4) :
    cbdEta3 y i = BitVec.ofInt 16 (samplePolyCbd b 3 (4 * g + i)) := by
  have hfield : ∀ k < 8, (slice (eta3Fields y) (3 * k) 3).toNat =
      ∑ t ∈ Finset.range 3, (bitAt b (8 * (3 * g) + 3 * k + t)).toNat := by
    intro k hk
    rw [toNat_slice, toNat_eta3Fields, ← Nat.shiftRight_eq_div_pow, fieldSums_field (by decide) _ hk,
      ones_bytewise h (by omega)]
  have hlow := hfield (2 * i) (by omega)
  have hhigh := hfield (2 * i + 1) (by omega)
  rw [show 3 * (2 * i) = 6 * i by omega, show 8 * (3 * g) + 6 * i = 2 * (4 * g + i) * 3 by ring] at hlow
  rw [show 3 * (2 * i + 1) = 6 * i + 3 by omega,
    show 8 * (3 * g) + (6 * i + 3) = 2 * (4 * g + i) * 3 + 3 by ring] at hhigh
  change (slice (eta3Fields y) (6 * i) 3).setWidth 16 - (slice (eta3Fields y) (6 * i + 3) 3).setWidth 16 = _
  rw [sub_ofInt, hlow, hhigh, samplePolyCbd, Nat.cast_sum, Nat.cast_sum]

end Noise

end ZedSecure
