import Mathlib.Algebra.BigOperators.Intervals
import Mathlib.Data.Nat.ModEq
import Mathlib.Tactic.IntervalCases
import Mathlib.Tactic.Linarith
import ZedSecure.Crypto.Rfc8439
import ZedSecure.Rtl.Poly1305Fixed96

/-! The limb arithmetic of the Poly1305 unit: five limbs stand for a number below about 2^130,
the 25 products with wrapped factors are the product modulo 2^130 - 5, and the carries keep the
number. From this the unit answers every start with the tag of its operands. -/

namespace ZedSecure

open Clocked LittleEndian

/-- The tag on bit vectors. -/
def poly1305 (x : PolyIn) : BitVec 128 :=
  BitVec.ofNat 128 (num (Rfc8439.mac (lanes (k := 32) x.oneTimeKey) (lanes (k := 96) x.message)))

namespace Poly1305Fixed96

open Rfc8439 (p1305)

section Limbs

/-- The number five limbs stand for. -/
def value (l : ℕ → ℕ) : ℕ := l 0 + l 1 * 2 ^ 26 + l 2 * 2 ^ 52 + l 3 * 2 ^ 78 + l 4 * 2 ^ 104

/-- Product `t` of output limb `j`. -/
def term (a r : ℕ → ℕ) (j t : ℕ) : ℕ := a t * if t ≤ j then r (j - t) else 5 * r (j + 5 - t)

/-- The first `i` products of output limb `j`. -/
def sum (a r : ℕ → ℕ) (j i : ℕ) : ℕ := ∑ t ∈ Finset.range i, term a r j t

theorem sum_succ (a r : ℕ → ℕ) (j i : ℕ) : sum a r j (i + 1) = sum a r j i + term a r j i :=
  Finset.sum_range_succ _ _

/-- The products are the product of the numbers: what passes 2^130 comes back five times. -/
theorem value_sum (a r : ℕ → ℕ) : value (fun j => sum a r j 5) ≡ value a * value r [MOD p1305] := by
  have hwrap : value a * value r = value (fun j => sum a r j 5) + p1305 *
      (a 1 * r 4 + a 2 * r 3 + a 3 * r 2 + a 4 * r 1 + (a 2 * r 4 + a 3 * r 3 + a 4 * r 2) * 2 ^ 26 +
        (a 3 * r 4 + a 4 * r 3) * 2 ^ 52 + a 4 * r 4 * 2 ^ 78) := by
    simp only [value, sum, term, Finset.sum_range_succ, Finset.sum_range_zero, p1305]
    norm_num
    ring
  rw [hwrap, Nat.ModEq, Nat.add_mul_mod_self_left]

/-- Limbs as `S_NORM5` leaves them. -/
def Tight (l : ℕ → ℕ) : Prop :=
  l 0 < 2 ^ 26 ∧ l 1 < 2 ^ 26 + 2 ^ 11 ∧ l 2 < 2 ^ 26 ∧ l 3 < 2 ^ 26 ∧ l 4 < 2 ^ 26

theorem sum_lt {a r : ℕ → ℕ} (ha : ∀ i < 5, a i < 2 ^ 27 + 2 ^ 11) (hr : ∀ i < 5, r i < 2 ^ 26) {j i : ℕ}
    (hj : j < 5) (hi : i ≤ 5) : sum a r j i ≤ i * (5 * (2 ^ 26 * (2 ^ 27 + 2 ^ 11))) := by
  induction i with
  | zero => simp [sum]
  | succ i ih =>
    have hai := ha i (by omega)
    have hcoef : (if i ≤ j then r (j - i) else 5 * r (j + 5 - i)) ≤ 5 * 2 ^ 26 := by
      split_ifs with h
      · have := hr (j - i) (by omega)
        omega
      · have := hr (j + 5 - i) (by omega)
        omega
    have hterm : term a r j i ≤ (2 ^ 27 + 2 ^ 11) * (5 * 2 ^ 26) := Nat.mul_le_mul hai.le hcoef
    have hsum := ih (by omega)
    rw [sum_succ]
    omega

/-- The numbers of the limb registers. -/
def nat {w : ℕ} (l : ℕ → BitVec w) : ℕ → ℕ := fun i => (l i).toNat

theorem value_carry {d : ℕ → ℕ} {i : ℕ} (hi : i < 4) :
    value (Function.update (Function.update d i (d i % 2 ^ 26)) (i + 1) (d (i + 1) + d i / 2 ^ 26)) =
      value d := by
  unfold value
  interval_cases i <;> simp <;> omega

/-- The carry out of the top limb comes back five times. -/
theorem value_wrap (d : ℕ → ℕ) :
    value (Function.update (Function.update d 4 (d 4 % 2 ^ 26)) 0 (d 0 + d 4 / 2 ^ 26 * 5)) ≡
      value d [MOD p1305] := by
  have hsplit : value d = value (Function.update (Function.update d 4 (d 4 % 2 ^ 26)) 0
      (d 0 + d 4 / 2 ^ 26 * 5)) + p1305 * (d 4 / 2 ^ 26) := by
    simp [value, p1305]
    omega
  rw [hsplit, Nat.ModEq, Nat.add_mul_mod_self_left]

end Limbs

section Operands

/-- `r` after clamping. -/
def clampedR (x : PolyIn) : ℕ := (slice x.oneTimeKey 0 128 &&& R_CLAMP_MASK).toNat

/-- Block `b` with its 1 bit. -/
def blockNum (x : PolyIn) (b : ℕ) : ℕ := (slice x.message (128 * b) 128).toNat + 2 ^ 128

/-- The accumulator after `b` blocks. -/
def accum (x : PolyIn) : ℕ → ℕ
  | 0 => 0
  | b + 1 => clampedR x * (accum x b + blockNum x b) % p1305

theorem clampedR_eq (x : PolyIn) :
    Rfc8439.clamp (num ((lanes (k := 32) x.oneTimeKey).take 16)) = clampedR x := by
  rw [lanes, take_bytes (by decide), num_bytes, clampedR, BitVec.toNat_and, toNat_slice, pow_256]
  simp [Rfc8439.clamp, R_CLAMP_MASK]

theorem num_block (x : PolyIn) {b : ℕ} (h : b < 6) :
    num (Rfc8439.chunk 16 (lanes (k := 96) x.message) b ++ [1]) = blockNum x b := by
  have hpow : 256 ^ (16 * b) = 2 ^ (128 * b) := by
    rw [pow_256, show 8 * (16 * b) = 128 * b by ring]
  rw [Rfc8439.chunk, lanes, drop_bytes (by omega), take_bytes (by omega), num_append, num_bytes,
    length_bytes, blockNum, toNat_slice, hpow]
  rfl

theorem accum_eq (x : PolyIn) {b : ℕ} (h : b ≤ 6) :
    ((List.range b).map (Rfc8439.chunk 16 (lanes (k := 96) x.message))).foldl
      (fun a c => clampedR x * (a + num (c ++ [1])) % p1305) 0 = accum x b := by
  induction b with
  | zero => rfl
  | succ b ih =>
    rw [List.range_succ, List.map_append, List.foldl_append, ih (by omega)]
    simp only [List.map_cons, List.map_nil, List.foldl_cons, List.foldl_nil]
    rw [num_block x (by omega), accum]

/-- The tag, from the accumulator after the six blocks. -/
theorem poly1305_eq (x : PolyIn) :
    poly1305 x = BitVec.ofNat 128 (accum x 6) + slice x.oneTimeKey 128 128 := by
  have hs : num (((lanes (k := 32) x.oneTimeKey).drop 16).take 16) = (slice x.oneTimeKey 128 128).toNat := by
    rw [lanes, drop_bytes (by decide), take_bytes (by decide), num_bytes, toNat_slice, pow_256]
  have hchunks : Rfc8439.chunks 16 (lanes (k := 96) x.message) =
      (List.range 6).map (Rfc8439.chunk 16 (lanes (k := 96) x.message)) := by
    rw [Rfc8439.chunks, length_lanes]
  apply BitVec.eq_of_toNat_eq
  rw [poly1305, Rfc8439.mac, clampedR_eq, hchunks, accum_eq x le_rfl, hs, num_bytes, BitVec.toNat_ofNat,
    BitVec.toNat_add, BitVec.toNat_ofNat, pow_256, Nat.mod_mod, Nat.mod_add_mod]

theorem accum_lt (x : PolyIn) (b : ℕ) : accum x b < p1305 := by
  cases b with
  | zero => exact Nat.pos_of_ne_zero (by decide)
  | succ b => exact Nat.mod_lt _ (by decide)

/-- The limbs of a 128-bit value with extra top bits. -/
theorem value_limbs (v top : ℕ) : value (fun i =>
    if i < 4 then v / 2 ^ (26 * i) % 2 ^ 26 else top * 2 ^ 24 + v / 2 ^ 104) = v + top * 2 ^ 128 := by
  simp [value]
  omega

theorem keyLimb_toNat (x : PolyIn) : value (nat (keyLimb x.oneTimeKey)) = clampedR x ∧
    ∀ i, (keyLimb x.oneTimeKey i).toNat < 2 ^ 26 := by
  refine ⟨?_, fun i => (keyLimb x.oneTimeKey i).isLt⟩
  have hlt : clampedR x < 2 ^ 128 := (slice x.oneTimeKey 0 128 &&& R_CLAMP_MASK).isLt
  have hlimbs := value_limbs (clampedR x) 0
  rw [Nat.zero_mul, Nat.zero_mul, Nat.add_zero] at hlimbs
  rw [← hlimbs]
  unfold clampedR value nat keyLimb at *
  generalize slice x.oneTimeKey 0 128 &&& R_CLAMP_MASK = v at *
  simp [toNat_slice]
  omega

theorem messageLimb_toNat {x : PolyIn} {s : State} (hm : s.messageReg = x.message) :
    value (nat (messageLimb s)) = blockNum x s.blockIndex.toNat ∧ ∀ i, (messageLimb s i).toNat < 2 ^ 26 := by
  refine ⟨?_, fun i => (messageLimb s i).isLt⟩
  have hlt := (currentBlock s).isLt
  have hlimbs := value_limbs (currentBlock s).toNat 1
  have hb : blockNum x s.blockIndex.toNat = (currentBlock s).toNat + 2 ^ 128 := by
    rw [blockNum, currentBlock, hm]
  rw [hb]
  rw [Nat.one_mul, Nat.one_mul] at hlimbs
  rw [← hlimbs]
  unfold value nat messageLimb
  generalize currentBlock s = v at *
  have htop : (1#1 ++ slice v 104 24).toNat = 2 ^ 24 + v.toNat / 2 ^ 104 := by
    rw [toNat_append, toNat_slice, BitVec.toNat_ofNat]
    omega
  simp [toNat_slice, htop, -BitVec.toNat_append]
  omega

end Operands

section Stages

/-- The registers a start loads, which stay for the whole message. -/
structure Loaded (x : PolyIn) (s : State) : Prop where
  r : s.rLimb = keyLimb x.oneTimeKey
  r5 : s.r5Limb = fun i => (keyLimb x.oneTimeKey i).setWidth 29 * 5#29
  pad : s.sReg = slice x.oneTimeKey 128 128
  message : s.messageReg = x.message
  block : s.blockIndex.toNat < 6
  done : s.done = false

/-- The products of the block so far. -/
structure Products (x : PolyIn) (s : State) : Prop where
  output : s.outputIndex.toNat < 5
  term : s.termIndex.toNat < 5
  limbs : ∀ i < 5, (s.aLimb i).toNat < 2 ^ 27 + 2 ^ 11
  value : value (nat s.aLimb) ≡ accum x s.blockIndex.toNat + blockNum x s.blockIndex.toNat [MOD p1305]
  acc : s.accReg.toNat = sum (nat s.aLimb) (nat s.rLimb) s.outputIndex.toNat s.termIndex.toNat
  sums : ∀ j < s.outputIndex.toNat, (s.dAcc j).toNat = sum (nat s.aLimb) (nat s.rLimb) j 5

/-- Limbs below `i` have given their carry on, and limb `i` has received one. -/
structure Carried (x : PolyIn) (s : State) (i : ℕ) : Prop where
  low : ∀ k < i, (s.dAcc k).toNat < 2 ^ 26
  mid : (s.dAcc i).toNat < 2 ^ 58 + 2 ^ 33
  high : ∀ k, i < k → k < 5 → (s.dAcc k).toNat < 2 ^ 58
  value : Poly1305Fixed96.value (nat s.dAcc) ≡ accum x (s.blockIndex.toNat + 1) [MOD p1305]

/-- Where the unit is in the operation on `x`. -/
def Stage (x : PolyIn) (s : State) : Prop :=
  match s.state with
  | .idle => False
  | .loadBlock => Tight (nat s.hLimb) ∧ value (nat s.hLimb) ≡ accum x s.blockIndex.toNat [MOD p1305]
  | .select => Products x s
  | .multiply => Products x s ∧ s.mulAReg = multiplyA s ∧ s.mulBReg = multiplyB s
  | .accumulate => Products x s ∧ s.productReg.toNat =
      term (nat s.aLimb) (nat s.rLimb) s.outputIndex.toNat s.termIndex.toNat
  | .norm0 => Carried x s 0
  | .norm1 => Carried x s 1
  | .norm2 => Carried x s 2
  | .norm3 => Carried x s 3
  | .norm4 => Carried x s 4
  | .norm5 => (∀ k < 5, k ≠ 0 → (s.dAcc k).toNat < 2 ^ 26) ∧ (s.dAcc 0).toNat < 2 ^ 37 ∧
      value (nat s.dAcc) ≡ accum x (s.blockIndex.toNat + 1) [MOD p1305]
  | .pack => Tight (nat s.hLimb) ∧ value (nat s.hLimb) ≡ accum x 6 [MOD p1305]
  | .reduce => s.hValueReg.toNat < 2 ^ 130 + 2 ^ 38 ∧ s.hValueReg.toNat ≡ accum x 6 [MOD p1305]
  | .final => s.canonicalReg.toNat = accum x 6

def Working (x : PolyIn) (s : State) : Prop := Loaded x s ∧ Stage x s

end Stages

section Steps

variable {x : PolyIn} {s : State} {start : Option PolyIn}

/-- The chosen factor of a product. -/
theorem multiply_toNat (hL : Loaded x s) (hP : Products x s) :
    ((multiplyA s).setWidth 57 * (multiplyB s).setWidth 57).toNat =
      term (nat s.aLimb) (nat s.rLimb) s.outputIndex.toNat s.termIndex.toNat := by
  have ha := hP.limbs s.termIndex.toNat hP.term
  have hB : (multiplyB s).toNat = if s.termIndex.toNat ≤ s.outputIndex.toNat then
      (s.rLimb (s.outputIndex.toNat - s.termIndex.toNat)).toNat
      else 5 * (s.rLimb (s.outputIndex.toNat + 5 - s.termIndex.toNat)).toNat := by
    unfold multiplyB
    simp only [BitVec.le_def]
    split_ifs with h
    · exact BitVec.toNat_setWidth_of_le (by decide)
    · rw [hL.r5, hL.r, BitVec.toNat_mul, BitVec.toNat_setWidth_of_le (by decide)]
      have hr := (keyLimb x.oneTimeKey (s.outputIndex.toNat + 5 - s.termIndex.toNat)).isLt
      rw [Nat.mod_eq_of_lt (by simp; omega)]
      simp [Nat.mul_comm]
  have hlt : (multiplyB s).toNat ≤ 5 * 2 ^ 26 := by
    rw [hB]
    split_ifs
    · have := (s.rLimb (s.outputIndex.toNat - s.termIndex.toNat)).isLt
      omega
    · have := (s.rLimb (s.outputIndex.toNat + 5 - s.termIndex.toNat)).isLt
      omega
  have hprod : (multiplyA s).toNat * (multiplyB s).toNat ≤ (2 ^ 27 + 2 ^ 11) * (5 * 2 ^ 26) :=
    Nat.mul_le_mul ha.le hlt
  rw [BitVec.toNat_mul, BitVec.toNat_setWidth_of_le (by decide), BitVec.toNat_setWidth_of_le (by decide),
    Nat.mod_eq_of_lt (by omega), hB]
  rfl

theorem nat_update {w : ℕ} (l : ℕ → BitVec w) (i : ℕ) (v : BitVec w) :
    nat (Function.update l i v) = Function.update (nat l) i v.toNat := by
  funext k
  unfold nat
  by_cases hk : k = i
  · rw [hk, Function.update_self, Function.update_self]
  · rw [Function.update_of_ne hk, Function.update_of_ne hk]

theorem mask_toNat (d : BitVec 64) : (d &&& LIMB_MASK).toNat = d.toNat % 2 ^ 26 := by
  rw [BitVec.toNat_and, show LIMB_MASK.toNat = 2 ^ 26 - 1 by decide, Nat.and_two_pow_sub_one_eq_mod]

theorem shift_toNat (d : BitVec 64) : (d >>> 26).toNat = d.toNat / 2 ^ 26 := by
  rw [BitVec.toNat_ushiftRight, Nat.shiftRight_eq_div_pow]

/-- `S_LOAD_BLOCK` adds the block to the accumulator and clears the products. -/
theorem loadBlock_next (hL : Loaded x s) (hstate : s.state = .loadBlock)
    (hT : Tight (nat s.hLimb)) (hv : value (nat s.hLimb) ≡ accum x s.blockIndex.toNat [MOD p1305]) :
    Working x (next s start) := by
  obtain ⟨hmv, hml⟩ := messageLimb_toNat hL.message
  have hlimb : ∀ i < 5, (s.hLimb i).toNat < 2 ^ 26 + 2 ^ 11 := by
    obtain ⟨h0, h1, h2, h3, h4⟩ := hT
    intro i hi
    interval_cases i
    exacts [by unfold nat at h0; omega, h1, by unfold nat at h2; omega, by unfold nat at h3; omega,
      by unfold nat at h4; omega]
  have hadd : ∀ i < 5, ((s.hLimb i).setWidth 28 + (messageLimb s i).setWidth 28).toNat =
      (s.hLimb i).toNat + (messageLimb s i).toNat := by
    intro i hi
    have hh := hlimb i hi
    have hm := hml i
    rw [BitVec.toNat_add, BitVec.toNat_setWidth_of_le (by decide), BitVec.toNat_setWidth_of_le (by decide),
      Nat.mod_eq_of_lt (by omega)]
  have hnext : next s start = { s with
      done := false
      aLimb := fun i => (s.hLimb i).setWidth 28 + (messageLimb s i).setWidth 28
      accReg := 0, outputIndex := 0, termIndex := 0, state := .select } := by
    simp [next, hstate]
  rw [hnext]
  refine ⟨⟨hL.r, hL.r5, hL.pad, hL.message, hL.block, rfl⟩, ?_⟩
  refine ⟨Nat.succ_pos 4, Nat.succ_pos 4, ?_, ?_, ?_, ?_⟩
  · intro i hi
    have hh := hlimb i hi
    have hm := hml i
    rw [hadd i hi]
    omega
  · have hsum : value (nat fun i => (s.hLimb i).setWidth 28 + (messageLimb s i).setWidth 28) =
        value (nat s.hLimb) + value (nat (messageLimb s)) := by
      simp only [value, nat, hadd 0 (by decide), hadd 1 (by decide), hadd 2 (by decide),
        hadd 3 (by decide), hadd 4 (by decide)]
      ring
    change value (nat fun i => (s.hLimb i).setWidth 28 + (messageLimb s i).setWidth 28) ≡ _ [MOD p1305]
    rw [hsum, hmv]
    exact hv.add_right _
  · rfl
  · intro j hj
    exact absurd hj (Nat.not_lt_zero j)

theorem select_next (hL : Loaded x s) (hstate : s.state = .select) (hP : Products x s) :
    Working x (next s start) := by
  have hnext : next s start = { s with
      done := false, mulAReg := multiplyA s, mulBReg := multiplyB s, state := .multiply } := by
    simp [next, hstate, multiplyA, multiplyB]
  rw [hnext]
  refine ⟨⟨hL.r, hL.r5, hL.pad, hL.message, hL.block, rfl⟩, ?_⟩
  exact ⟨⟨hP.output, hP.term, hP.limbs, hP.value, hP.acc, hP.sums⟩, rfl, rfl⟩

theorem multiply_next (hL : Loaded x s) (hstate : s.state = .multiply) (hP : Products x s)
    (ha : s.mulAReg = multiplyA s) (hb : s.mulBReg = multiplyB s) : Working x (next s start) := by
  have hnext : next s start = { s with
      done := false
      productReg := (multiplyA s).setWidth 57 * (multiplyB s).setWidth 57
      state := .accumulate } := by
    simp [next, hstate, ha, hb]
  rw [hnext]
  refine ⟨⟨hL.r, hL.r5, hL.pad, hL.message, hL.block, rfl⟩, ?_⟩
  exact ⟨⟨hP.output, hP.term, hP.limbs, hP.value, hP.acc, hP.sums⟩, multiply_toNat hL hP⟩

/-- The bounds of the limbs keep every partial sum below 2^58. -/
theorem Products.sum_lt (hP : Products x s) {j i : ℕ} (hj : j < 5) (hi : i ≤ 5) :
    sum (nat s.aLimb) (nat s.rLimb) j i < 2 ^ 58 := by
  have hr : ∀ i < 5, nat s.rLimb i < 2 ^ 26 := fun i _ => (s.rLimb i).isLt
  have ha : ∀ i < 5, nat s.aLimb i < 2 ^ 27 + 2 ^ 11 := hP.limbs
  have hsum := Poly1305Fixed96.sum_lt ha hr hj hi
  have hmono : i * (5 * (2 ^ 26 * (2 ^ 27 + 2 ^ 11))) ≤ 5 * (5 * (2 ^ 26 * (2 ^ 27 + 2 ^ 11))) :=
    Nat.mul_le_mul_right _ hi
  omega

theorem sums_carried (hL : Loaded x s) (hP : Products x s) {d : ℕ → BitVec 64}
    (hd : ∀ j < 5, (d j).toNat = sum (nat s.aLimb) (nat s.rLimb) j 5) :
    Carried x { s with done := false, dAcc := d, accReg := 0, termIndex := 0, state := .norm0 } 0 := by
  have hlt : ∀ j < 5, (d j).toNat < 2 ^ 58 := by
    intro j hj
    rw [hd j hj]
    exact hP.sum_lt hj le_rfl
  refine ⟨fun k hk => absurd hk (Nat.not_lt_zero k), ?_, fun k _ hk => hlt k hk, ?_⟩
  · have h0 := hlt 0 (by decide)
    change (d 0).toNat < _
    omega
  · have hvalue : value (nat d) = value (fun j => sum (nat s.aLimb) (nat s.rLimb) j 5) := by
      simp only [value, nat, hd 0 (by decide), hd 1 (by decide), hd 2 (by decide), hd 3 (by decide),
        hd 4 (by decide)]
    have hr : value (nat s.rLimb) = clampedR x := by
      rw [hL.r]
      exact (keyLimb_toNat x).1
    change value (nat d) ≡ accum x (s.blockIndex.toNat + 1) [MOD p1305]
    rw [hvalue, accum, Nat.mul_comm]
    refine (value_sum _ _).trans ?_
    rw [hr]
    exact (hP.value.mul_right _).trans (Nat.mod_modEq _ _).symm

theorem accumulate_next (hL : Loaded x s) (hstate : s.state = .accumulate) (hP : Products x s)
    (hprod : s.productReg.toNat =
      term (nat s.aLimb) (nat s.rLimb) s.outputIndex.toNat s.termIndex.toNat) :
    Working x (next s start) := by
  have ht := hP.term
  have ho := hP.output
  -- the new partial sum does not overflow its 64 bits
  have hsum : (s.accReg + s.productReg.setWidth 64).toNat =
      sum (nat s.aLimb) (nat s.rLimb) s.outputIndex.toNat (s.termIndex.toNat + 1) := by
    have hlt := hP.sum_lt ho (i := s.termIndex.toNat + 1) (by omega)
    rw [sum_succ] at hlt ⊢
    rw [BitVec.toNat_add, BitVec.toNat_setWidth_of_le (by decide), hP.acc, hprod, Nat.mod_eq_of_lt (by omega)]
  by_cases hterm : s.termIndex = 4#3
  · have hsum5 : (s.accReg + s.productReg.setWidth 64).toNat =
        sum (nat s.aLimb) (nat s.rLimb) s.outputIndex.toNat 5 := by
      rw [hsum, hterm]
      rfl
    have hall : ∀ j < s.outputIndex.toNat + 1,
        ((Function.update s.dAcc s.outputIndex.toNat (s.accReg + s.productReg.setWidth 64)) j).toNat =
          sum (nat s.aLimb) (nat s.rLimb) j 5 := by
      intro j hj
      by_cases hjo : j = s.outputIndex.toNat
      · rw [hjo, Function.update_self, hsum5]
      · rw [Function.update_of_ne hjo]
        exact hP.sums j (by omega)
    by_cases hout : s.outputIndex = 4#3
    · have hnext : next s start = { s with
          done := false
          dAcc := Function.update s.dAcc s.outputIndex.toNat (s.accReg + s.productReg.setWidth 64)
          accReg := 0, termIndex := 0, state := .norm0 } := by
        simp [next, hstate, hterm, hout]
      have hfive : s.outputIndex.toNat + 1 = 5 := by rw [hout]; rfl
      rw [hfive] at hall
      rw [hnext]
      exact ⟨⟨hL.r, hL.r5, hL.pad, hL.message, hL.block, rfl⟩, sums_carried hL hP hall⟩
    · have hnext : next s start = { s with
          done := false
          dAcc := Function.update s.dAcc s.outputIndex.toNat (s.accReg + s.productReg.setWidth 64)
          accReg := 0, termIndex := 0, outputIndex := s.outputIndex + 1#3, state := .select } := by
        simp [next, hstate, hterm, hout]
      have hone : (s.outputIndex + 1#3).toNat = s.outputIndex.toNat + 1 := by
        rw [BitVec.toNat_add, BitVec.toNat_ofNat]
        omega
      have hlt : s.outputIndex.toNat + 1 < 5 := by
        have hne : s.outputIndex.toNat ≠ 4 := fun h => hout (BitVec.eq_of_toNat_eq h)
        omega
      rw [hnext]
      refine ⟨⟨hL.r, hL.r5, hL.pad, hL.message, hL.block, rfl⟩, ?_⟩
      refine ⟨?_, Nat.succ_pos 4, hP.limbs, hP.value, rfl, ?_⟩
      · change (s.outputIndex + 1#3).toNat < 5
        omega
      · change ∀ j < (s.outputIndex + 1#3).toNat, _
        rw [hone]
        exact hall
  · have hnext : next s start = { s with
        done := false
        accReg := s.accReg + s.productReg.setWidth 64
        termIndex := s.termIndex + 1#3, state := .select } := by
      simp [next, hstate, hterm]
    have hone : (s.termIndex + 1#3).toNat = s.termIndex.toNat + 1 := by
      rw [BitVec.toNat_add, BitVec.toNat_ofNat]
      omega
    have hlt : s.termIndex.toNat + 1 < 5 := by
      have hne : s.termIndex.toNat ≠ 4 := fun h => hterm (BitVec.eq_of_toNat_eq h)
      omega
    rw [hnext]
    refine ⟨⟨hL.r, hL.r5, hL.pad, hL.message, hL.block, rfl⟩, ?_⟩
    refine ⟨ho, ?_, hP.limbs, hP.value, ?_, hP.sums⟩
    · change (s.termIndex + 1#3).toNat < 5
      omega
    · change _ = sum _ _ _ (s.termIndex + 1#3).toNat
      rw [hone]
      exact hsum

/-- A carry step loses no bits. -/
theorem carry_nat {i : ℕ} (hc : Carried x s i) (hi : i < 4) : nat (carry s i) =
    Function.update (Function.update (nat s.dAcc) i (nat s.dAcc i % 2 ^ 26)) (i + 1)
      (nat s.dAcc (i + 1) + nat s.dAcc i / 2 ^ 26) := by
  have hlow := hc.mid
  have hhigh := hc.high (i + 1) (Nat.lt_succ_self i) (by omega)
  have hadd : (s.dAcc (i + 1) + (s.dAcc i >>> 26)).toNat =
      (s.dAcc (i + 1)).toNat + (s.dAcc i).toNat / 2 ^ 26 := by
    rw [BitVec.toNat_add, shift_toNat, Nat.mod_eq_of_lt (by omega)]
  rw [carry, nat_update, nat_update, mask_toNat, hadd]
  rfl

theorem Carried.next {i : ℕ} {st : St} (hc : Carried x s i) (hi : i < 4) :
    Carried x { s with done := false, dAcc := carry s i, state := st } (i + 1) := by
  have hnat : ∀ k, (carry s i k).toNat = nat (carry s i) k := fun _ => rfl
  have hmid := hc.mid
  have hhigh := hc.high (i + 1) (Nat.lt_succ_self i) (by omega)
  refine ⟨?_, ?_, ?_, ?_⟩
  · intro k hk
    change (carry s i k).toNat < _
    rw [hnat, carry_nat hc hi, Function.update_of_ne (by omega)]
    by_cases hki : k = i
    · rw [hki, Function.update_self]
      exact Nat.mod_lt _ (by decide)
    · rw [Function.update_of_ne hki]
      exact hc.low k (by omega)
  · change (carry s i (i + 1)).toNat < _
    rw [hnat, carry_nat hc hi, Function.update_self]
    unfold nat
    omega
  · intro k hk hk5
    change (carry s i k).toNat < _
    rw [hnat, carry_nat hc hi, Function.update_of_ne (by omega), Function.update_of_ne (by omega)]
    exact hc.high k (by omega) hk5
  · change Poly1305Fixed96.value (nat (carry s i)) ≡ _ [MOD p1305]
    rw [carry_nat hc hi, value_carry hi]
    exact hc.value

theorem norm_next {i : ℕ} {st : St} (hL : Loaded x s) (hc : Carried x s i) (hi : i < 4)
    (hstage : ∀ s', s'.state = st → Carried x s' (i + 1) → Stage x s')
    (hnext : next s start = { s with done := false, dAcc := carry s i, state := st }) :
    Working x (next s start) := by
  rw [hnext]
  exact ⟨⟨hL.r, hL.r5, hL.pad, hL.message, hL.block, rfl⟩, hstage _ rfl (hc.next hi)⟩

/-- `S_NORM4` brings the carry of the top limb back into the bottom one. -/
theorem norm4_next (hL : Loaded x s) (hstate : s.state = .norm4) (hc : Carried x s 4) :
    Working x (next s start) := by
  have hmid := hc.mid
  have hlow := hc.low 0 (by decide)
  have hwrap : nat (Function.update (Function.update s.dAcc 4 (s.dAcc 4 &&& LIMB_MASK)) 0
      (s.dAcc 0 + (s.dAcc 4 >>> 26) * 5#64)) =
      Function.update (Function.update (nat s.dAcc) 4 (nat s.dAcc 4 % 2 ^ 26)) 0
        (nat s.dAcc 0 + nat s.dAcc 4 / 2 ^ 26 * 5) := by
    have hmul : ((s.dAcc 4 >>> 26) * 5#64).toNat = (s.dAcc 4).toNat / 2 ^ 26 * 5 := by
      rw [BitVec.toNat_mul, shift_toNat, BitVec.toNat_ofNat, Nat.mod_eq_of_lt (by omega)]
    have hadd : (s.dAcc 0 + (s.dAcc 4 >>> 26) * 5#64).toNat =
        (s.dAcc 0).toNat + (s.dAcc 4).toNat / 2 ^ 26 * 5 := by
      rw [BitVec.toNat_add, hmul, Nat.mod_eq_of_lt (by omega)]
    rw [nat_update, nat_update, mask_toNat, hadd]
    rfl
  have hnext : next s start = { s with
      done := false
      dAcc := Function.update (Function.update s.dAcc 4 (s.dAcc 4 &&& LIMB_MASK)) 0
        (s.dAcc 0 + (s.dAcc 4 >>> 26) * 5#64)
      state := .norm5 } := by
    simp [next, hstate]
  rw [hnext]
  refine ⟨⟨hL.r, hL.r5, hL.pad, hL.message, hL.block, rfl⟩, ?_, ?_, ?_⟩
  · intro k hk h0
    change nat (Function.update (Function.update s.dAcc 4 (s.dAcc 4 &&& LIMB_MASK)) 0
        (s.dAcc 0 + (s.dAcc 4 >>> 26) * 5#64)) k < _
    rw [hwrap, Function.update_of_ne h0]
    by_cases hk4 : k = 4
    · rw [hk4, Function.update_self]
      exact Nat.mod_lt _ (by decide)
    · rw [Function.update_of_ne hk4]
      exact hc.low k (by omega)
  · change nat (Function.update (Function.update s.dAcc 4 (s.dAcc 4 &&& LIMB_MASK)) 0
        (s.dAcc 0 + (s.dAcc 4 >>> 26) * 5#64)) 0 < _
    rw [hwrap, Function.update_self]
    unfold nat
    omega
  · change value (nat (Function.update (Function.update s.dAcc 4 (s.dAcc 4 &&& LIMB_MASK)) 0
        (s.dAcc 0 + (s.dAcc 4 >>> 26) * 5#64))) ≡ _ [MOD p1305]
    rw [hwrap]
    exact (value_wrap _).trans hc.value

/-- `S_NORM5` stores the limbs for the next block, or for the tag. -/
theorem norm5_next (hL : Loaded x s) (hstate : s.state = .norm5)
    (hd : ∀ k < 5, k ≠ 0 → (s.dAcc k).toNat < 2 ^ 26) (hd0 : (s.dAcc 0).toNat < 2 ^ 37)
    (hv : value (nat s.dAcc) ≡ accum x (s.blockIndex.toNat + 1) [MOD p1305]) :
    Working x (next s start) := by
  have hh0 : (next s start).hLimb 0 = (slice (s.dAcc 0) 0 26).setWidth 27 := by
    simp only [next, hstate]
    split_ifs <;> rfl
  have hh1 : (next s start).hLimb 1 = (s.dAcc 1 + (s.dAcc 0 >>> 26)).setWidth 27 := by
    simp only [next, hstate]
    split_ifs <;> rfl
  have hh : ∀ k, 2 ≤ k → (next s start).hLimb k = slice (s.dAcc k) 0 27 := by
    intro k hk
    have h0 : k ≠ 0 := by omega
    have h1 : k ≠ 1 := by omega
    simp only [next, hstate]
    split_ifs <;> simp [h0, h1]
  have h0 : nat (next s start).hLimb 0 = (s.dAcc 0).toNat % 2 ^ 26 := by
    rw [nat, hh0, BitVec.toNat_setWidth_of_le (by decide), toNat_slice]
    omega
  have h1 : nat (next s start).hLimb 1 = (s.dAcc 1).toNat + (s.dAcc 0).toNat / 2 ^ 26 := by
    have := hd 1 (by decide) (by decide)
    rw [nat, hh1, BitVec.toNat_setWidth, BitVec.toNat_add, shift_toNat]
    omega
  have hk : ∀ k, 2 ≤ k → k < 5 → nat (next s start).hLimb k = (s.dAcc k).toNat := by
    intro k hk hk5
    have := hd k hk5 (by omega)
    rw [nat, hh k hk, toNat_slice]
    omega
  have hvalue : value (nat (next s start).hLimb) = value (nat s.dAcc) := by
    unfold value
    rw [h0, h1, hk 2 (by decide) (by decide), hk 3 (by decide) (by decide), hk 4 (by decide) (by decide)]
    unfold nat
    omega
  have htight : Tight (nat (next s start).hLimb) := by
    have hd1 := hd 1 (by decide) (by decide)
    refine ⟨by omega, by omega, ?_, ?_, ?_⟩
    · rw [hk 2 (by decide) (by decide)]
      exact hd 2 (by decide) (by decide)
    · rw [hk 3 (by decide) (by decide)]
      exact hd 3 (by decide) (by decide)
    · rw [hk 4 (by decide) (by decide)]
      exact hd 4 (by decide) (by decide)
  rw [← hvalue] at hv
  have hblock := hL.block
  by_cases hlast : s.blockIndex = 5#3
  · have hsix : s.blockIndex.toNat + 1 = 6 := by rw [hlast]; rfl
    have hpack : (next s start).state = .pack := by simp [next, hstate, hlast]
    rw [hsix] at hv
    refine ⟨?_, ?_⟩
    · constructor <;> simp [next, hstate, hlast, hL.r, hL.r5, hL.pad, hL.message]
    · rw [Stage, hpack]
      exact ⟨htight, hv⟩
  · have hlt : s.blockIndex.toNat + 1 < 6 := by
      have hne : s.blockIndex.toNat ≠ 5 := fun h => hlast (BitVec.eq_of_toNat_eq h)
      omega
    have hload : (next s start).state = .loadBlock := by simp [next, hstate, hlast]
    have hindex : (next s start).blockIndex.toNat = s.blockIndex.toNat + 1 := by
      have hone : (next s start).blockIndex = s.blockIndex + 1#3 := by simp [next, hstate, hlast]
      rw [hone, BitVec.toNat_add, BitVec.toNat_ofNat]
      omega
    refine ⟨⟨?_, ?_, ?_, ?_, by omega, ?_⟩, ?_⟩
    iterate 5 simp [next, hstate, hlast, hL.r, hL.r5, hL.pad, hL.message]
    · rw [Stage, hload]
      simp only []
      rw [hindex]
      exact ⟨htight, hv⟩

/-- The packed word is the number of the limbs. -/
theorem pack_toNat (hT : Tight (nat s.hLimb)) :
    (packedLimb4 s ++ slice (packedLimb3 s) 0 26 ++ slice (packedLimb2 s) 0 26 ++
      slice (s.hLimb 1) 0 26 ++ slice (s.hLimb 0) 0 26).toNat = value (nat s.hLimb) := by
  obtain ⟨h0, h1, h2, h3, h4⟩ := hT
  unfold nat at h0 h1 h2 h3 h4
  have h2' : (packedLimb2 s).toNat = (s.hLimb 2).toNat + (s.hLimb 1).toNat / 2 ^ 26 := by
    rw [packedLimb2, BitVec.toNat_add, BitVec.toNat_setWidth_of_le (by decide), toNat_slice]
    omega
  have h3' : (packedLimb3 s).toNat = (s.hLimb 3).toNat + (packedLimb2 s).toNat / 2 ^ 26 := by
    rw [packedLimb3, BitVec.toNat_add, BitVec.toNat_setWidth_of_le (by decide), toNat_slice]
    omega
  have h4' : (packedLimb4 s).toNat = (s.hLimb 4).toNat + (packedLimb3 s).toNat / 2 ^ 26 := by
    rw [packedLimb4, BitVec.toNat_add, BitVec.toNat_setWidth_of_le (by decide), toNat_slice]
    omega
  rw [toNat_append, toNat_append, toNat_append, toNat_append, toNat_slice, toNat_slice, toNat_slice,
    toNat_slice, h4', h3', h2']
  unfold value nat
  omega

theorem pack_next (hL : Loaded x s) (hstate : s.state = .pack) (hT : Tight (nat s.hLimb))
    (hv : value (nat s.hLimb) ≡ accum x 6 [MOD p1305]) : Working x (next s start) := by
  have hnext : next s start = { s with
      done := false
      hValueReg := packedLimb4 s ++ slice (packedLimb3 s) 0 26 ++ slice (packedLimb2 s) 0 26 ++
        slice (s.hLimb 1) 0 26 ++ slice (s.hLimb 0) 0 26
      state := .reduce } := by
    simp [next, hstate]
  have hlt : value (nat s.hLimb) < 2 ^ 130 + 2 ^ 38 := by
    obtain ⟨h0, h1, h2, h3, h4⟩ := hT
    unfold value
    omega
  rw [hnext]
  refine ⟨⟨hL.r, hL.r5, hL.pad, hL.message, hL.block, rfl⟩, ?_⟩
  rw [← pack_toNat hT] at hv hlt
  exact ⟨hlt, hv⟩

/-- One subtraction reduces the packed word. -/
theorem reduce_next (hL : Loaded x s) (hstate : s.state = .reduce) (hlt : s.hValueReg.toNat < 2 ^ 130 + 2 ^ 38)
    (hv : s.hValueReg.toNat ≡ accum x 6 [MOD p1305]) : Working x (next s start) := by
  have hp : P130.toNat = p1305 := by decide
  have hacc := accum_lt x 6
  have hmod : s.hValueReg.toNat % p1305 = accum x 6 := hv.trans (Nat.mod_eq_of_lt hacc)
  have hnext : next s start = { s with
      done := false
      canonicalReg := if P130 ≤ s.hValueReg then s.hValueReg - P130 else s.hValueReg
      state := .final } := by
    simp [next, hstate]
  rw [hnext]
  refine ⟨⟨hL.r, hL.r5, hL.pad, hL.message, hL.block, rfl⟩, ?_⟩
  change (if P130 ≤ s.hValueReg then s.hValueReg - P130 else s.hValueReg).toNat = _
  split_ifs with hle
  · have hge : p1305 ≤ s.hValueReg.toNat := by
      rw [← hp]
      exact hle
    rw [BitVec.toNat_sub_of_le hle, hp, ← hmod, Nat.mod_eq_sub_mod hge, Nat.mod_eq_of_lt]
    unfold p1305 at *
    omega
  · have hge : s.hValueReg.toNat < p1305 := by
      rw [← hp]
      exact Nat.lt_of_not_le hle
    rw [← hmod, Nat.mod_eq_of_lt hge]

/-- The answer: the low 128 bits of the reduced sum and the second half of the key. -/
theorem final_next (hL : Loaded x s) (hstate : s.state = .final) (hc : s.canonicalReg.toNat = accum x 6) :
    (next s start).state = .idle ∧ (next s start).done = true ∧ (next s start).tag = poly1305 x := by
  refine ⟨by simp [next, hstate], by simp [next, hstate], ?_⟩
  have hlow : slice s.canonicalReg 0 128 = BitVec.ofNat 128 (accum x 6) := by
    apply BitVec.eq_of_toNat_eq
    rw [toNat_slice, hc, BitVec.toNat_ofNat, pow_zero, Nat.div_one]
  rw [poly1305_eq, ← hlow, ← hL.pad]
  simp [next, hstate]

theorem working_next (h : Working x s) : Working x (next s start) ∨
    ((next s start).state = .idle ∧ (next s start).done = true ∧ (next s start).tag = poly1305 x) := by
  obtain ⟨hL, hS⟩ := h
  unfold Stage at hS
  cases hstate : s.state <;> simp only [hstate] at hS
  case loadBlock => exact Or.inl (loadBlock_next hL hstate hS.1 hS.2)
  case select => exact Or.inl (select_next hL hstate hS)
  case multiply => exact Or.inl (multiply_next hL hstate hS.1 hS.2.1 hS.2.2)
  case accumulate => exact Or.inl (accumulate_next hL hstate hS.1 hS.2)
  case norm0 =>
    have hnext : next s start = { s with done := false, dAcc := carry s 0, state := .norm1 } := by
      simp [next, hstate, carry]
    exact Or.inl (norm_next hL hS (by decide) (fun s' h' hc => by rwa [Stage, h']) hnext)
  case norm1 =>
    have hnext : next s start = { s with done := false, dAcc := carry s 1, state := .norm2 } := by
      simp [next, hstate, carry]
    exact Or.inl (norm_next hL hS (by decide) (fun s' h' hc => by rwa [Stage, h']) hnext)
  case norm2 =>
    have hnext : next s start = { s with done := false, dAcc := carry s 2, state := .norm3 } := by
      simp [next, hstate, carry]
    exact Or.inl (norm_next hL hS (by decide) (fun s' h' hc => by rwa [Stage, h']) hnext)
  case norm3 =>
    have hnext : next s start = { s with done := false, dAcc := carry s 3, state := .norm4 } := by
      simp [next, hstate, carry]
    exact Or.inl (norm_next hL hS (by decide) (fun s' h' hc => by rwa [Stage, h']) hnext)
  case norm4 => exact Or.inl (norm4_next hL hstate hS)
  case norm5 => exact Or.inl (norm5_next hL hstate hS.1 hS.2.1 hS.2.2)
  case pack => exact Or.inl (pack_next hL hstate hS.1 hS.2)
  case reduce => exact Or.inl (reduce_next hL hstate hS.1 hS.2)
  case final => exact Or.inr (final_next hL hstate hS)

theorem start_next (h : s.state = .idle) (a : PolyIn) : Working a (next s (some a)) := by
  have hnext : next s (some a) = { s with
      done := false
      rLimb := keyLimb a.oneTimeKey
      r5Limb := fun i => (keyLimb a.oneTimeKey i).setWidth 29 * 5#29
      hLimb := fun _ => 0, sReg := slice a.oneTimeKey 128 128, messageReg := a.message
      blockIndex := 0, busy := true, state := .loadBlock } := by
    simp [next, h]
  rw [hnext]
  refine ⟨⟨rfl, rfl, rfl, rfl, Nat.succ_pos 5, rfl⟩, ?_, ?_⟩
  · refine ⟨?_, ?_, ?_, ?_, ?_⟩ <;> exact Nat.pos_of_ne_zero (by decide)
  · have hzero : value (nat fun _ => (0 : BitVec 27)) = 0 := by simp [value, nat]
    exact Eq.symm (congrArg (· % p1305) hzero.symm)

/-- The Poly1305 unit. -/
def unit : StartDone poly1305 Unit where
  σ := State
  init := .init
  next s x _ := next s x
  done s := s.done
  result s := s.tag
  idle s := s.state = .idle
  working := Working
  init_idle := rfl
  init_done := rfl
  idle_wait s k h := by simp [next, h]
  idle_start s a k h := ⟨start_next h a, (start_next h a).1.done⟩
  working_done s a h := h.1.done
  working_next s a x k h := working_next h

/-- The products of the block still to be formed. -/
def pending (s : State) : ℕ := 25 - (5 * s.outputIndex.toNat + s.termIndex.toNat)

/-- The edges until the answer, at most. -/
def left (s : State) : ℕ :=
  82 * (5 - s.blockIndex.toNat) + match s.state with
    | .idle => 0
    | .loadBlock => 86
    | .select => 10 + 3 * pending s
    | .multiply => 9 + 3 * pending s
    | .accumulate => 8 + 3 * pending s
    | .norm0 => 10
    | .norm1 => 9
    | .norm2 => 8
    | .norm3 => 7
    | .norm4 => 6
    | .norm5 => 5
    | .pack => 2
    | .reduce => 1
    | .final => 0

theorem left_accumulate (hstate : s.state = .accumulate) (hP : Products x s) :
    left (next s start) < left s := by
  have ht := hP.term
  have ho := hP.output
  by_cases hterm : s.termIndex = 4#3
  · by_cases hout : s.outputIndex = 4#3
    · simp [left, next, hstate, hterm, hout, pending]
    · have hne : s.outputIndex.toNat ≠ 4 := fun h => hout (BitVec.eq_of_toNat_eq h)
      simp [left, next, hstate, hterm, hout, pending]
      omega
  · have hne : s.termIndex.toNat ≠ 4 := fun h => hterm (BitVec.eq_of_toNat_eq h)
    simp [left, next, hstate, hterm, pending]
    omega

/-- Six blocks of 25 products and the final steps. -/
def timed : unit.Timed where
  left := left
  bound := 496
  start_le s a k h := by
    change left (next s (some a)) ≤ 496
    have hidle : s.state = .idle := h
    simp [left, next, hidle]
  next_lt s x start k hw hw' := by
    change left (next s start) < left s
    obtain ⟨hL, hS⟩ := hw
    have hblock := hL.block
    have hdone := hw'.1.done
    unfold Stage at hS
    cases hstate : s.state <;> simp only [hstate] at hS
    case accumulate => exact left_accumulate hstate hS.1
    case norm5 =>
      by_cases hlast : s.blockIndex = 5#3
      · simp [left, next, hstate, hlast]
      · have hne : s.blockIndex.toNat ≠ 5 := fun h => hlast (BitVec.eq_of_toNat_eq h)
        simp [left, next, hstate, hlast]
        omega
    case final => simp [unit, next, hstate] at hdone
    all_goals simp [left, next, hstate, pending]

end Steps

end Poly1305Fixed96

end ZedSecure
