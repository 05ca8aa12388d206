import Mathlib.Algebra.BigOperators.Group.Finset.Basic
import Mathlib.Data.BitVec
import Mathlib.Data.Int.Basic
import Mathlib.Tactic.Common
import Mathlib.Tactic.NormNum

/-! Compression, byte encoding and sampling as FIPS 203 states them. A polynomial is its function of coefficients, a
byte string its function of bytes; only the first 256 coefficients count. -/

namespace Fips203

def q : ℕ := 3329

/-- `Compress_d`: the nearest whole number to `2^d x / q`, modulo `2^d`. -/
def compress (d : ℕ) (x : ℕ) : BitVec d := BitVec.ofNat d ((2 ^ (d + 1) * x + q) / (2 * q))

/-- `Decompress_d`: the nearest whole number to `q y / 2^d`. -/
def decompress {d : ℕ} (y : BitVec d) : ℕ := (2 * q * y.toNat + 2 ^ d) / 2 ^ (d + 1)

/-- The vector of the first `w` bits, bit 0 lowest. -/
def ofBits (w : ℕ) (bit : ℕ → Bool) : BitVec w := (BitVec.ofBoolListLE ((List.range w).map bit)).setWidth w

/-- Byte `n` of `ByteEncode_d`. -/
def byteEncode {d : ℕ} (f : ℕ → BitVec d) (n : ℕ) : BitVec 8 :=
  ofBits 8 fun j => (f ((8 * n + j) / d)).getLsbD ((8 * n + j) % d)

/-- Coefficient `i` of `ByteDecode_d`. -/
def byteDecode (d : ℕ) (b : ℕ → BitVec 8) (i : ℕ) : BitVec d :=
  ofBits d fun j => (b ((d * i + j) / 8)).getLsbD ((d * i + j) % 8)

section Codec

variable {d : ℕ}

theorem getLsbD_ofBits {w : ℕ} (bit : ℕ → Bool) {j : ℕ} (hj : j < w) : (ofBits w bit).getLsbD j = bit j := by
  rw [ofBits, BitVec.getLsbD_setWidth, BitVec.getLsbD_ofBoolListLE]
  simp [hj]

theorem getLsbD_byteEncode (f : ℕ → BitVec d) (n : ℕ) {j : ℕ} (hj : j < 8) :
    (byteEncode f n).getLsbD j = (f ((8 * n + j) / d)).getLsbD ((8 * n + j) % d) := by
  exact getLsbD_ofBits _ hj

theorem getLsbD_byteDecode (b : ℕ → BitVec 8) (i : ℕ) {j : ℕ} (hj : j < d) :
    (byteDecode d b i).getLsbD j = (b ((d * i + j) / 8)).getLsbD ((d * i + j) % 8) := by
  exact getLsbD_ofBits _ hj

/-- What has been decoded is encoded to the same bytes, from any group of eight coefficients on. -/
theorem byteEncode_byteDecode (hd : 0 < d) (b : ℕ → BitVec 8) (k n : ℕ) :
    byteEncode (fun i => byteDecode d b (8 * k + i)) n = b (d * k + n) := by
  apply BitVec.eq_of_getLsbD_eq
  intro j hj
  have hplace : d * (8 * k + (8 * n + j) / d) + (8 * n + j) % d = 8 * (d * k + n) + j := by
    rw [Nat.mul_add, Nat.add_assoc, Nat.div_add_mod, Nat.mul_left_comm]
    omega
  have hdiv : (8 * (d * k + n) + j) / 8 = d * k + n := by omega
  have hmod : (8 * (d * k + n) + j) % 8 = j := by omega
  rw [getLsbD_byteEncode _ _ hj, getLsbD_byteDecode _ _ (Nat.mod_lt _ hd), hplace, hdiv, hmod]

/-- The bytes of a group depend on the coefficients of the group. -/
theorem byteEncode_congr {f g : ℕ → BitVec d} {n : ℕ} (h : ∀ j < 8, f ((8 * n + j) / d) = g ((8 * n + j) / d)) :
    byteEncode f n = byteEncode g n := by
  apply BitVec.eq_of_getLsbD_eq
  intro j hj
  rw [getLsbD_byteEncode _ _ hj, getLsbD_byteEncode _ _ hj, h j hj]

end Codec

/-- Compression undoes decompression, for every width below that of a coefficient. -/
theorem compress_decompress {d : ℕ} (hd : 2 ^ d < q) (y : BitVec d) : compress d (decompress y) = y := by
  have hround : (2 ^ (d + 1) * decompress y + q) / (2 * q) = y.toNat := by
    have hlo : 2 ^ (d + 1) * decompress y ≤ 2 * q * y.toNat + 2 ^ d := Nat.mul_div_le _ _
    have hhi : 2 * q * y.toNat + 2 ^ d < 2 ^ (d + 1) * decompress y + 2 ^ (d + 1) :=
      Nat.lt_mul_div_self_add (Nat.two_pow_pos _)
    rw [pow_succ] at hlo hhi ⊢
    simp only [q] at hd hlo hhi ⊢
    apply Nat.div_eq_of_lt_le <;> omega
  apply BitVec.eq_of_toNat_eq
  rw [compress, hround, BitVec.toNat_ofNat, Nat.mod_eq_of_lt y.isLt]

section Sampling

variable (b : ℕ → BitVec 8)

/-- The two candidates of `SampleNTT` in three bytes. -/
def candidates (g : ℕ) : List ℕ :=
  [(b (3 * g)).toNat + 256 * ((b (3 * g + 1)).toNat % 16), (b (3 * g + 1)).toNat / 16 + 16 * (b (3 * g + 2)).toNat]

/-- The candidates below `q` in the first `n` groups of three bytes. -/
def accepted (n : ℕ) : List ℕ := ((List.range n).flatMap (candidates b)).filter (· < q)

/-- What `SampleNTT` takes from `n` groups of three bytes. -/
def sampleNtt (n : ℕ) : List ℕ := (accepted b n).take 256

/-- `BytesToBits` -/
def bitAt (n : ℕ) : Bool := (b (n / 8)).getLsbD (n % 8)

/-- Coefficient `i` of `SamplePolyCBD`, before it is reduced. -/
def samplePolyCbd (η i : ℕ) : ℤ :=
  ∑ j ∈ Finset.range η, ((bitAt b (2 * i * η + j)).toNat : ℤ) -
    ∑ j ∈ Finset.range η, ((bitAt b (2 * i * η + η + j)).toNat : ℤ)

theorem accepted_succ (n : ℕ) : accepted b (n + 1) = accepted b n ++ (candidates b n).filter (· < q) := by
  rw [accepted, List.range_succ, List.flatMap_append, List.filter_append]
  simp [accepted]

theorem accepted_prefix {m n : ℕ} (h : m ≤ n) : accepted b m <+: accepted b n := by
  induction n, h using Nat.le_induction with
  | base => exact List.prefix_rfl
  | succ n _ ih =>
    rw [accepted_succ]
    exact ih.trans (List.prefix_append _ _)

/-- Once 256 values are there, later groups do not count. -/
theorem sampleNtt_eq {m n : ℕ} (h : m ≤ n) {found : List ℕ} (hfound : found <+: accepted b m) (hlen : found.length = 256) :
    sampleNtt b n = found := by
  rw [sampleNtt, ← hlen]
  exact (List.prefix_iff_eq_take.mp (hfound.trans ( accepted_prefix b h))).symm

end Sampling

end Fips203
