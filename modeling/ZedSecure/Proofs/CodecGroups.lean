import ZedSecure.Crypto.Fips203
import ZedSecure.Rtl.CiphertextCodec

/-! The codec primitives are the standard's compression and byte encoding, group by group. -/

namespace ZedSecure

open Clocked Fips203

section Coefficients

variable {x : BitVec 16}

theorem compressD10_eq (hx : x.toNat < q) : compressD10 x = compress 10 x.toNat := by
  simp only [q] at hx
  apply BitVec.eq_of_toNat_eq
  have hp : (x.setWidth 34 * 2580335#34 + 0x400000#34).toNat = 2580335 * x.toNat + 4194304 := by
    rw [BitVec.toNat_add, BitVec.toNat_mul, BitVec.toNat_setWidth]
    simp only [BitVec.toNat_ofNat]
    omega
  have hround : (2580335 * x.toNat + 4194304) / 2 ^ 23 = (2 ^ (10 + 1) * x.toNat + q) / (2 * q) := by
    simp only [q]
    omega
  have hmask : ∀ y : BitVec 34, ((y &&& 0x3ff#34).setWidth 10 : BitVec 10) = y.setWidth 10 := by
    intro y
    apply BitVec.eq_of_toNat_eq
    rw [BitVec.toNat_setWidth, BitVec.toNat_and, BitVec.toNat_setWidth, show (0x3ff#34).toNat = 2 ^ 10 - 1 from rfl,
      Nat.and_two_pow_sub_one_eq_mod, Nat.mod_mod]
  rw [compressD10, hmask, BitVec.toNat_setWidth, BitVec.toNat_ushiftRight, hp, Nat.shiftRight_eq_div_pow,
    hround, compress, BitVec.toNat_ofNat]

/-- The two quotients come close to a boundary at some coefficients, so each is looked at. -/
theorem round_four {n : ℕ} (hn : n < 3329) : (315 * n + 32768) / 2 ^ 16 = (2 ^ (4 + 1) * n + q) / (2 * q) := by
  have hall : ∀ a < 53, ∀ b < 64,
      (315 * (64 * a + b) + 32768) / 2 ^ 16 = (2 ^ (4 + 1) * (64 * a + b) + q) / (2 * q) := by
    decide +kernel
  have h := hall (n / 64) (by omega) (n % 64) (Nat.mod_lt _ (by decide))
  rwa [Nat.div_add_mod] at h

theorem compressD4_eq (hx : x.toNat < q) : compressD4 x = compress 4 x.toNat := by
  simp only [q] at hx
  apply BitVec.eq_of_toNat_eq
  have hp : (x.setWidth 21 * 315#21 + 0x8000#21).toNat = 315 * x.toNat + 32768 := by
    simp only [BitVec.toNat_add, BitVec.toNat_mul, BitVec.toNat_setWidth, BitVec.toNat_ofNat]
    omega
  rw [compressD4, BitVec.toNat_setWidth, BitVec.toNat_ushiftRight, hp, Nat.shiftRight_eq_div_pow, round_four hx,
    compress, BitVec.toNat_ofNat]

theorem toNat_decompressD10 (y : BitVec 10) : (decompressD10 y).toNat = decompress y := by
  have hy := y.isLt
  have hp : ((y.setWidth 22 <<< 11) + (y.setWidth 22 <<< 10) + (y.setWidth 22 <<< 8) + y.setWidth 22 +
      512#22).toNat = 3329 * y.toNat + 512 := by
    simp only [BitVec.toNat_add, BitVec.toNat_shiftLeft, BitVec.toNat_setWidth, BitVec.toNat_ofNat,
      Nat.shiftLeft_eq]
    omega
  have hhalf : (2 * 3329 * y.toNat + 2 ^ 10) / 2 ^ (10 + 1) = (3329 * y.toNat + 512) / 2 ^ 10 := by omega
  simp only [decompressD10, BitVec.toNat_setWidth, toNat_slice, hp, decompress, q, hhalf]
  have hlt : (3329 * y.toNat + 512) / 2 ^ 10 < 2 ^ 12 := by omega
  rw [Nat.mod_eq_of_lt hlt, Nat.mod_eq_of_lt (by omega)]

theorem toNat_decompressD4 (y : BitVec 4) : (decompressD4 y).toNat = decompress y := by
  have hy := y.isLt
  have hp : (y.setWidth 16 * 3329#16 + 8#16).toNat = 3329 * y.toNat + 8 := by
    simp only [BitVec.toNat_add, BitVec.toNat_mul, BitVec.toNat_setWidth, BitVec.toNat_ofNat]
    omega
  have hhalf : (2 * 3329 * y.toNat + 2 ^ 4) / 2 ^ (4 + 1) = (3329 * y.toNat + 8) / 2 ^ 4 := by omega
  rw [decompressD4, BitVec.toNat_ushiftRight, hp, Nat.shiftRight_eq_div_pow, decompress]
  exact hhalf.symm

theorem decompress_lt {d : ℕ} (hd : 2 ^ d < q) (y : BitVec d) : decompress y < q := by
  have hy := y.isLt
  rw [decompress, Nat.div_lt_iff_lt_mul (Nat.two_pow_pos _), pow_succ]
  simp only [q] at hd ⊢
  omega

end Coefficients

section Groups

theorem slice_mask (x : BitVec 40) : (slice x 0 16 &&& 0x3ff#16).setWidth 10 = slice x 0 10 := by
  apply BitVec.eq_of_toNat_eq
  rw [BitVec.toNat_setWidth, BitVec.toNat_and, toNat_slice, toNat_slice]
  have hand := Nat.and_two_pow_sub_one_eq_mod (x.toNat / 2 ^ 0 % 2 ^ 16) 10
  rw [show (0x3ff#16).toNat = 2 ^ 10 - 1 from rfl, hand]
  omega

theorem slice_shift (x : BitVec 40) {lo k : ℕ} (hk : k ≤ 6) :
    (slice x lo 16 >>> k).setWidth 10 = slice x (lo + k) 10 := by
  apply BitVec.eq_of_getLsbD_eq
  intro i hi
  rw [BitVec.getLsbD_setWidth, BitVec.getLsbD_ushiftRight, getLsbD_slice, getLsbD_slice, Nat.add_assoc]
  simp [hi, show k + i < 16 by omega]

theorem decompressD10Group_eq (bytes : BitVec 40) {i : ℕ} (hi : i < 4) :
    decompressD10Group bytes i = decompressD10 (slice bytes (10 * i) 10) := by
  rw [decompressD10Group, slice_mask, slice_shift _ (by decide), slice_shift _ (by decide), slice_shift _ (by decide)]
  have hcase : i = 0 ∨ i = 1 ∨ i = 2 ∨ i = 3 := by omega
  rcases hcase with rfl | rfl | rfl | rfl <;> simp

theorem compressD10Group_eq (coeffs : BitVec 64) : compressD10Group coeffs =
    compressD10 (slice coeffs 48 16) ++ compressD10 (slice coeffs 32 16) ++ compressD10 (slice coeffs 16 16) ++
      compressD10 (slice coeffs 0 16) := by
  apply BitVec.eq_of_toNat_eq
  have h0 := (compressD10 (slice coeffs 0 16)).isLt
  have h1 := (compressD10 (slice coeffs 16 16)).isLt
  have h2 := (compressD10 (slice coeffs 32 16)).isLt
  have h3 := (compressD10 (slice coeffs 48 16)).isLt
  simp only [compressD10Group, toNat_append, toNat_slice]
  omega

/-- Bit `n` of the group is bit `n % 10` of coefficient `n / 10`. -/
theorem getLsbD_compressD10Group (coeffs : BitVec 64) {n : ℕ} (hn : n < 40) :
    (compressD10Group coeffs).getLsbD n = (compressD10 (slice coeffs (16 * (n / 10)) 16)).getLsbD (n % 10) := by
  rw [compressD10Group_eq]
  simp only [BitVec.getLsbD_append]
  have hcase : n / 10 = 0 ∨ n / 10 = 1 ∨ n / 10 = 2 ∨ n / 10 = 3 := by omega
  rcases hcase with h | h | h | h
  · rw [if_pos (by omega), h, show n % 10 = n by omega]
  · rw [if_neg (by omega), if_pos (by omega), h, show n % 10 = n - 10 by omega]
  · rw [if_neg (by omega), if_neg (by omega), if_pos (by omega), h, show n % 10 = n - 10 - 10 by omega]
  · rw [if_neg (by omega), if_neg (by omega), if_neg (by omega), h, show n % 10 = n - 10 - 10 - 10 by omega]

/-- A group of four coefficients is five bytes of the encoding. -/
theorem compressD10Group_byte {coeffs : BitVec 64} {f : ℕ → BitVec 10} {g : ℕ}
    (h : ∀ k < 4, f (4 * g + k) = compressD10 (slice coeffs (16 * k) 16)) {b : ℕ} (hb : b < 5) :
    slice (compressD10Group coeffs) (8 * b) 8 = byteEncode f (5 * g + b) := by
  apply BitVec.eq_of_getLsbD_eq
  intro j hj
  have hdiv : (8 * (5 * g + b) + j) / 10 = 4 * g + (8 * b + j) / 10 := by omega
  have hmod : (8 * (5 * g + b) + j) % 10 = (8 * b + j) % 10 := by omega
  rw [getLsbD_slice, getLsbD_compressD10Group _ (by omega), getLsbD_byteEncode _ _ hj, hdiv, hmod,
    h _ (by omega)]
  simp [hj]

/-- A group of two coefficients is one byte of the encoding. -/
theorem compressD4Group_byte {coeffs : BitVec 32} {f : ℕ → BitVec 4} {g : ℕ}
    (h : ∀ k < 2, f (2 * g + k) = compressD4 (slice coeffs (16 * k) 16)) :
    compressD4Group coeffs = byteEncode f g := by
  apply BitVec.eq_of_getLsbD_eq
  intro j hj
  have hdiv : (8 * g + j) / 4 = 2 * g + j / 4 := by omega
  have hmod : (8 * g + j) % 4 = j % 4 := by omega
  rw [getLsbD_byteEncode _ _ hj, hdiv, hmod, h _ (by omega), compressD4Group, BitVec.getLsbD_append]
  have hcase : j / 4 = 0 ∨ j / 4 = 1 := by omega
  rcases hcase with hj | hj
  · rw [if_pos (by omega), hj, show j % 4 = j by omega]
  · rw [if_neg (by omega), hj, show j % 4 = j - 4 by omega]

/-- The bits of coefficient `i` are found in the bytes of its group. -/
theorem slice_byteDecode {w d : ℕ} {bytes : BitVec w} {b : ℕ → BitVec 8} (size count : ℕ) {g : ℕ}
    (hsize : 8 * size = d * count) (h : ∀ k < size, slice bytes (8 * k) 8 = b (size * g + k)) {i : ℕ}
    (hi : i < count) : slice bytes (d * i) d = byteDecode d b (count * g + i) := by
  apply BitVec.eq_of_getLsbD_eq
  intro j hj
  have hbit : d * i + j < 8 * size := by
    calc d * i + j < d * i + d := by omega
      _ = d * (i + 1) := (Nat.mul_succ d i).symm
      _ ≤ d * count := Nat.mul_le_mul_left d hi
      _ = 8 * size := hsize.symm
  have hplace : d * (count * g + i) + j = 8 * (size * g) + (d * i + j) := by
    rw [Nat.mul_add, ← Nat.mul_assoc, ← Nat.mul_assoc, ← hsize, Nat.add_assoc]
  have hlane := congrArg (fun v => v.getLsbD ((d * i + j) % 8)) (h ((d * i + j) / 8) (by omega))
  simp only [getLsbD_slice, Nat.mod_lt _ (show 0 < 8 by decide), decide_true, Bool.true_and,
    Nat.div_add_mod] at hlane
  rw [getLsbD_slice, getLsbD_byteDecode _ _ hj, hplace, Nat.mul_add_div (by decide), Nat.mul_add_mod, ← hlane]
  simp [hj]

end Groups

end ZedSecure
