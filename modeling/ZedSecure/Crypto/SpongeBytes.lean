import Mathlib.Tactic.IntervalCases
import ZedSecure.Crypto.Fips202

/-! The SHA-3 functions a byte at a time: a byte goes in at a position of the rate, the
permutation runs when the rate is full, and the output is read off byte by byte. -/

namespace Fips202

open LittleEndian

section Bits

theorem bitsOf_cons (b : UInt8) (bs : Bytes) :
    bitsOf (b :: bs) = (List.range 8).map b.toNat.testBit ++ bitsOf bs := rfl

@[simp] theorem length_bitsOf (bs : Bytes) : (bitsOf bs).length = 8 * bs.length := by
  induction bs with
  | nil => rfl
  | cons b bs ih => rw [bitsOf_cons, List.length_append, ih]; simp; omega

theorem bitsOf_append (as bs : Bytes) : bitsOf (as ++ bs) = bitsOf as ++ bitsOf bs :=
  List.flatMap_append

theorem take_bitsOf {k : ℕ} {bs : Bytes} (h : k ≤ bs.length) :
    (bitsOf bs).take (8 * k) = bitsOf (bs.take k) := by
  conv_lhs => rw [← List.take_append_drop k bs, bitsOf_append]
  exact List.take_left' (by simp [h])

theorem drop_bitsOf {k : ℕ} {bs : Bytes} (h : k ≤ bs.length) :
    (bitsOf bs).drop (8 * k) = bitsOf (bs.drop k) := by
  conv_lhs => rw [← List.take_append_drop k bs, bitsOf_append]
  exact List.drop_left' (by simp [h])

theorem getD_bitsOf (bs : Bytes) (i : ℕ) :
    (bitsOf bs).getD i false = (bs.getD (i / 8) 0).toNat.testBit (i % 8) := by
  induction bs generalizing i with
  | nil => simp [bitsOf]
  | cons b bs ih =>
    rw [bitsOf_cons]
    by_cases hi : i < 8
    · rw [List.getD_append _ _ _ _ (by simp [hi]), Nat.div_eq_of_lt hi, Nat.mod_eq_of_lt hi]
      simp [List.getD_eq_getElem?_getD, hi]
    · rw [List.getD_append_right _ _ _ _ (by simp; omega)]
      have hdiv : i / 8 = (i - 8) / 8 + 1 := by omega
      have hmod : i % 8 = (i - 8) % 8 := by omega
      simp only [List.length_map, List.length_range]
      rw [ih, hdiv, hmod, List.getD_cons_succ]

/-- A byte at position `p` of the state. -/
def byteAt (p : ℕ) (b : UInt8) : BitVec 1600 := b.toBitVec.setWidth 1600 <<< (8 * p)

theorem getLsbD_byteAt {p i : ℕ} (b : UInt8) (hi : i < 1600) : (byteAt p b).getLsbD i =
    if i / 8 = p then b.toBitVec.getLsbD (i % 8) else false := by
  rw [byteAt, BitVec.getLsbD_shiftLeft, BitVec.getLsbD_setWidth]
  by_cases hp : i / 8 = p
  · have hge : ¬ i < 8 * p := by omega
    have hmod : i - 8 * p = i % 8 := by omega
    have hlt : i % 8 < 1600 := by omega
    simp [hp, hi, hge, hmod, hlt]
  · by_cases hlt : i < 8 * p
    · simp [hp, hlt]
    · have hhigh : b.toBitVec.getLsbD (i - 8 * p) = false := BitVec.getLsbD_of_ge _ _ (by omega)
      simp [hp, hhigh]

/-- One more byte at the end of a block. -/
theorem extend_snoc (bs : Bytes) (b : UInt8) :
    extend (bitsOf (bs ++ [b])) = extend (bitsOf bs) ^^^ byteAt bs.length b := by
  apply BitVec.eq_of_getLsbD_eq
  intro i hi
  rw [getLsbD_extend _ hi, BitVec.getLsbD_xor, getLsbD_extend _ hi, getLsbD_byteAt b hi, getD_bitsOf,
    getD_bitsOf]
  rcases Nat.lt_trichotomy (i / 8) bs.length with hlt | heq | hgt
  · rw [if_neg (by omega), List.getD_append _ _ _ _ hlt, Bool.xor_false]
  · have hzero : (0 : UInt8).toNat.testBit (i % 8) = false := Nat.zero_testBit _
    rw [if_pos heq, List.getD_append_right _ _ _ _ (by omega), List.getD_eq_default bs _ (by omega), heq,
      Nat.sub_self, List.getD_cons_zero, hzero, Bool.false_xor, ← UInt8.toNat_toBitVec, BitVec.testBit_toNat]
  · rw [if_neg (by omega), List.getD_eq_default _ _ (by simp; omega), List.getD_eq_default bs _ (by omega)]
    simp

end Bits

section Blocks

/-- The next number fills a block of `r`. -/
theorem succ_full {n r : ℕ} (h : n % r + 1 = r) : (n + 1) / r = n / r + 1 ∧ (n + 1) % r = 0 := by
  have hsum := Nat.div_add_mod n r
  have hblock : n + 1 = r * (n / r + 1) := by
    rw [Nat.mul_add, Nat.mul_one]
    omega
  constructor
  · exact Nat.div_eq_of_eq_mul_right (by omega) hblock
  · exact Nat.mod_eq_zero_of_dvd ⟨_, hblock⟩

theorem succ_inside {n r : ℕ} (hr : 0 < r) (h : ¬ n % r + 1 = r) :
    (n + 1) / r = n / r ∧ (n + 1) % r = n % r + 1 := by
  have hlt := Nat.mod_lt n hr
  have hsum := Nat.div_add_mod n r
  have hrest : n % r + 1 + r * (n / r) = n + 1 := by omega
  exact (Nat.div_mod_unique hr).mpr ⟨hrest, by omega⟩

end Blocks

section Absorb

/-- One byte into the sponge: the state, and the position of the next byte. -/
def push (rate : ℕ) (s : BitVec 1600 × ℕ) (b : UInt8) : BitVec 1600 × ℕ :=
  if s.2 + 1 = rate then (keccakF (s.1 ^^^ byteAt s.2 b), 0) else (s.1 ^^^ byteAt s.2 b, s.2 + 1)

def pushAll (rate : ℕ) (s : BitVec 1600 × ℕ) (bs : Bytes) : BitVec 1600 × ℕ := bs.foldl (push rate) s

theorem pushAll_append (rate : ℕ) (s : BitVec 1600 × ℕ) (as bs : Bytes) :
    pushAll rate s (as ++ bs) = pushAll rate (pushAll rate s as) bs := List.foldl_append

theorem pushAll_snoc (rate : ℕ) (s : BitVec 1600 × ℕ) (bs : Bytes) (b : UInt8) :
    pushAll rate s (bs ++ [b]) = push rate (pushAll rate s bs) b := pushAll_append rate s bs [b]

/-- Less than a block changes bytes of the rate only. -/
theorem pushAll_short {rate : ℕ} (S : BitVec 1600) {bs : Bytes} (h : bs.length < rate) :
    pushAll rate (S, 0) bs = (S ^^^ extend (bitsOf bs), bs.length) := by
  induction bs using List.reverseRecOn with
  | nil =>
    have hzero : extend (bitsOf []) = 0 := by
      apply BitVec.eq_of_getLsbD_eq
      intro i hi
      rw [getLsbD_extend _ hi]
      simp [bitsOf]
    simp [pushAll, hzero]
  | append_singleton bs b ih =>
    rw [List.length_append, List.length_singleton] at h
    have hne : ¬ bs.length + 1 = rate := by omega
    rw [pushAll_snoc, ih (by omega), push, if_neg hne, extend_snoc, ← BitVec.xor_assoc,
      List.length_append, List.length_singleton]

/-- A block of bytes is a block of the sponge. -/
theorem pushAll_block {rate : ℕ} (hpos : 0 < rate) (S : BitVec 1600) {bs : Bytes} (h : bs.length = rate) :
    pushAll rate (S, 0) bs = (keccakF (S ^^^ extend (bitsOf bs)), 0) := by
  obtain ⟨init, b, rfl⟩ : ∃ init b, bs = init ++ [b] := by
    rcases List.eq_nil_or_concat bs with rfl | ⟨init, b, rfl⟩
    · simp at h; omega
    · exact ⟨init, b, by simp⟩
  rw [List.length_append, List.length_singleton] at h
  rw [pushAll_snoc, pushAll_short S (by omega), push, if_pos h, extend_snoc, ← BitVec.xor_assoc]

theorem blocks_cons {r : ℕ} (hr : 0 < r) {P : List Bool} (h : r ≤ P.length) :
    blocks r P = P.take r :: blocks r (P.drop r) := by
  have hdiv : P.length / r = (P.length - r) / r + 1 := by
    rw [← Nat.add_div_right _ hr, Nat.sub_add_cancel h]
  rw [blocks, blocks, hdiv, List.range_succ_eq_map, List.map_cons, List.map_map, List.length_drop]
  simp only [Nat.mul_zero, List.drop_zero, List.cons.injEq, true_and]
  refine List.map_congr_left fun i _ => ?_
  rw [Function.comp_apply, List.drop_drop, Nat.mul_succ, Nat.add_comm]

/-- Whole blocks, byte by byte. -/
theorem pushAll_blocks {rate : ℕ} (hpos : 0 < rate) (n : ℕ) (S : BitVec 1600) {bs : Bytes}
    (h : bs.length = rate * n) : pushAll rate (S, 0) bs =
      ((blocks (8 * rate) (bitsOf bs)).foldl (fun S block => keccakF (S ^^^ extend block)) S, 0) := by
  induction n generalizing S bs with
  | zero =>
    have hnil : bs = [] := List.length_eq_zero_iff.mp h
    subst hnil
    simp [pushAll, blocks]
  | succ n ih =>
    rw [Nat.mul_succ] at h
    have hsplit : pushAll rate (S, 0) bs = pushAll rate (pushAll rate (S, 0) (bs.take rate)) (bs.drop rate) := by
      rw [← pushAll_append, List.take_append_drop]
    have hle : rate ≤ bs.length := by omega
    have htake : (bs.take rate).length = rate := List.length_take_of_le hle
    have hdrop : (bs.drop rate).length = rate * n := by rw [List.length_drop]; omega
    have hbits : 8 * rate ≤ (bitsOf bs).length := by rw [length_bitsOf]; omega
    rw [hsplit, pushAll_block hpos S htake, ih _ hdrop, blocks_cons (by omega) hbits, take_bitsOf hle,
      drop_bitsOf hle, List.foldl_cons]

theorem absorb_bitsOf {rate : ℕ} (hpos : 0 < rate) {n : ℕ} {bs : Bytes} (h : bs.length = rate * n) :
    absorb (8 * rate) (bitsOf bs) = (pushAll rate (0, 0) bs).1 := by
  rw [pushAll_blocks hpos n 0 h, absorb]

end Absorb

section Hash

def Mode.rate (mode : Mode) : ℕ := (1600 - mode.capacity) / 8

/-- The suffix bits and the first bit of the padding. -/
def Mode.suffixByte : Mode → UInt8
  | .sha3_256 | .sha3_512 => 0x06
  | .shake128 | .shake256 => 0x1f

theorem Mode.rate_bounds (mode : Mode) : 2 ≤ mode.rate ∧ mode.rate ≤ 168 := by
  cases mode <;> decide

/-- The bytes after a message that leaves `q` bytes of its last block. -/
def padding (suffix : UInt8) (q : ℕ) : Bytes :=
  if q = 1 then [suffix ^^^ 0x80] else suffix :: List.replicate (q - 2) 0 ++ [0x80]

theorem length_padding (suffix : UInt8) {q : ℕ} (h : 0 < q) : (padding suffix q).length = q := by
  unfold padding
  split_ifs with h1
  · simp [h1]
  · simp
    omega

theorem bitsOf_zeros (k : ℕ) : bitsOf (List.replicate k 0) = List.replicate (8 * k) false := by
  induction k with
  | zero => rfl
  | succ k ih =>
    rw [List.replicate_succ, bitsOf_cons, ih, Nat.mul_succ, Nat.add_comm, List.replicate_add]
    rfl

/-- The padding of FIPS 202 on whole bytes. -/
theorem bitsOf_padding (mode : Mode) {m q : ℕ} (hq : q = mode.rate - m % mode.rate) :
    mode.suffix ++ pad101 (1600 - mode.capacity) (8 * m + mode.suffix.length) =
      bitsOf (padding mode.suffixByte q) := by
  have hlen : ((1600 - mode.capacity) - (8 * m + mode.suffix.length + 2) % (1600 - mode.capacity)) %
      (1600 - mode.capacity) = 8 * q - mode.suffix.length - 2 := by
    cases mode <;> simp [Mode.rate, Mode.capacity, Mode.suffix] at hq ⊢ <;> omega
  have hpos : 0 < q := by cases mode <;> simp [Mode.rate, Mode.capacity] at hq <;> omega
  rw [pad101, hlen, padding]
  split_ifs with h1
  · subst h1
    cases mode <;> rfl
  · have hzeros : 8 * q - mode.suffix.length - 2 =
        (6 - mode.suffix.length) + 1 + 8 * (q - 2) + 7 := by
      cases mode <;> simp [Mode.suffix] <;> omega
    rw [hzeros, List.replicate_add, List.replicate_add, ← bitsOf_zeros, bitsOf_append, bitsOf_cons]
    cases mode <;> simp [Mode.suffix, Mode.suffixByte, bitsOf, List.replicate_succ] <;> rfl

/-- The state the output is read from. -/
def finish (mode : Mode) (s : BitVec 1600 × ℕ) : BitVec 1600 :=
  keccakF (s.1 ^^^ byteAt s.2 mode.suffixByte ^^^ byteAt (mode.rate - 1) 0x80)

theorem byteAt_xor (p : ℕ) (a b : UInt8) : byteAt p (a ^^^ b) = byteAt p a ^^^ byteAt p b := by
  apply BitVec.eq_of_getLsbD_eq
  intro i hi
  rw [BitVec.getLsbD_xor, getLsbD_byteAt _ hi, getLsbD_byteAt _ hi, getLsbD_byteAt _ hi]
  split_ifs <;> simp

theorem byteAt_zero (p : ℕ) : byteAt p 0 = 0#1600 := by
  apply BitVec.eq_of_getLsbD_eq
  intro i hi
  rw [getLsbD_byteAt _ hi]
  simp

theorem pushAll_zeros {rate : ℕ} (S : BitVec 1600) (k : ℕ) {p : ℕ} (h : p + k < rate) :
    pushAll rate (S, p) (List.replicate k 0) = (S, p + k) := by
  induction k generalizing p with
  | zero => rfl
  | succ k ih =>
    have hne : ¬ p + 1 = rate := by omega
    have hpush : push rate (S, p) 0 = (S, p + 1) := by
      rw [push, if_neg hne, byteAt_zero, BitVec.xor_zero]
    rw [List.replicate_succ, pushAll, List.foldl_cons, hpush]
    have hrest := ih (p := p + 1) (by omega)
    rw [show p + 1 + k = p + (k + 1) by omega] at hrest
    exact hrest

/-- The padding fills the block. -/
theorem pushAll_padding (mode : Mode) {S : BitVec 1600} {p : ℕ} (h : p < mode.rate) :
    pushAll mode.rate (S, p) (padding mode.suffixByte (mode.rate - p)) = (finish mode (S, p), 0) := by
  unfold padding
  split_ifs with h1
  · have hp : p + 1 = mode.rate := by omega
    have hlast : mode.rate - 1 = p := by omega
    simp only [pushAll, List.foldl_cons, List.foldl_nil, push, if_pos hp, finish, hlast]
    rw [byteAt_xor, BitVec.xor_assoc]
  · have hp : ¬ p + 1 = mode.rate := by omega
    have hlast : p + 1 + (mode.rate - p - 2) = mode.rate - 1 := by omega
    have hfull : mode.rate - 1 + 1 = mode.rate := by omega
    have hfirst : push mode.rate (S, p) mode.suffixByte = (S ^^^ byteAt p mode.suffixByte, p + 1) := by
      rw [push, if_neg hp]
    rw [List.cons_append, pushAll, List.foldl_cons, hfirst]
    change pushAll mode.rate _ (List.replicate (mode.rate - p - 2) 0 ++ [0x80]) = _
    rw [pushAll_snoc, pushAll_zeros _ _ (by omega), hlast, push, if_pos hfull]
    rfl

theorem push_lt {rate : ℕ} {s : BitVec 1600 × ℕ} (h : s.2 < rate) (b : UInt8) : (push rate s b).2 < rate := by
  unfold push
  split_ifs with hfull
  · exact Nat.zero_lt_of_lt h
  · exact Nat.lt_of_le_of_ne h hfull

/-- The position is the number of bytes after the last full block. -/
theorem pushAll_pos {rate : ℕ} (hpos : 0 < rate) (bs : Bytes) :
    (pushAll rate (0, 0) bs).2 = bs.length % rate := by
  induction bs using List.reverseRecOn with
  | nil => exact (Nat.zero_mod rate).symm
  | append_singleton bs b ih =>
    rw [pushAll_snoc, List.length_append, List.length_singleton, push, ih]
    split_ifs with hfull
    · exact (succ_full hfull).2.symm
    · exact (succ_inside hpos hfull).2.symm

/-- Byte `p` of a state. -/
def byteOf (S : BitVec 1600) (p : ℕ) : UInt8 := ⟨S.extractLsb' (8 * p) 8⟩

/-- Byte `i` of the output. -/
def outByte (mode : Mode) (S : BitVec 1600) (i : ℕ) : UInt8 :=
  byteOf (keccakF^[i / mode.rate] S) (i % mode.rate)

theorem absorb_padded (mode : Mode) (message : Bytes) :
    absorb (1600 - mode.capacity) (bitsOf message ++ mode.suffix ++
      pad101 (1600 - mode.capacity) (bitsOf message ++ mode.suffix).length) =
        finish mode (pushAll mode.rate (0, 0) message) := by
  have hpos : 0 < mode.rate := by have := mode.rate_bounds; omega
  have hlt := Nat.mod_lt message.length hpos
  have hbits : 1600 - mode.capacity = 8 * mode.rate := by cases mode <;> rfl
  have hpad := bitsOf_padding mode (m := message.length) rfl
  have hwhole : (message ++ padding mode.suffixByte (mode.rate - message.length % mode.rate)).length =
      mode.rate * (message.length / mode.rate + 1) := by
    have hsum := Nat.div_add_mod message.length mode.rate
    rw [List.length_append, length_padding _ (by omega), Nat.mul_add, Nat.mul_one]
    omega
  have hend := pushAll_padding mode (S := (pushAll mode.rate (0, 0) message).1) hlt
  rw [← pushAll_pos hpos message] at hend
  rw [List.length_append, length_bitsOf, List.append_assoc, hpad, ← bitsOf_append, hbits,
    absorb_bitsOf hpos hwhole, pushAll_append]
  conv_lhs => rw [← pushAll_pos hpos message]
  rw [hend]

theorem foldr_bits (x : BitVec 8) :
    UInt8.ofNat ((List.range 8).foldr (fun j v => 2 * v + (x.getLsbD j).toNat) 0) = ⟨x⟩ := by
  revert x
  decide

/-- The bit strings of FIPS 202, byte by byte. -/
theorem hash_eq (mode : Mode) (message : Bytes) (n : ℕ) : hash mode message n =
    (List.range n).map (outByte mode (finish mode (pushAll mode.rate (0, 0) message))) := by
  have hbits : 1600 - mode.capacity = 8 * mode.rate := by cases mode <;> rfl
  have hpos : 0 < mode.rate := by have := mode.rate_bounds; omega
  rw [hash, keccak, absorb_padded, bytesOf, hbits]
  generalize finish mode (pushAll mode.rate (0, 0) message) = S
  refine List.map_congr_left fun i hi => ?_
  have hin := List.mem_range.mp hi
  have hsum := Nat.div_add_mod i mode.rate
  have hlt := Nat.mod_lt i hpos
  have hbit : ∀ j ∈ List.range 8, (squeeze (8 * mode.rate) (8 * n) S).getD (8 * i + j) false =
      ((keccakF^[i / mode.rate] S).extractLsb' (8 * (i % mode.rate)) 8).getLsbD j := by
    intro j hj
    have hj8 := List.mem_range.mp hj
    have hplace : 8 * i + j = 8 * mode.rate * (i / mode.rate) + (8 * (i % mode.rate) + j) := by
      conv_lhs => rw [← hsum]
      ring
    have hblock : i / mode.rate < 8 * n / (8 * mode.rate) + 1 := by
      rw [Nat.mul_div_mul_left _ _ (by decide : 0 < 8)]
      exact Nat.lt_succ_of_le (Nat.div_le_div_right (by omega))
    rw [squeeze, List.getD_eq_getElem?_getD, List.getElem?_take_of_lt (by omega),
      ← List.getD_eq_getElem?_getD, hplace, getD_flatMap_range (fun _ => by simp [trunc]) hblock (by omega) _]
    simp [trunc, List.getD_eq_getElem?_getD, hj8, show 8 * (i % mode.rate) + j < 8 * mode.rate by omega]
  rw [outByte, byteOf, ← foldr_bits]
  congr 1
  refine List.foldr_ext _ _ _ fun j hj v => ?_
  rw [hbit j hj]

end Hash

end Fips202
