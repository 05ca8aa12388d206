import Mathlib.Data.BitVec
import Mathlib.Data.List.Basic
import Mathlib.Data.List.GetD
import Mathlib.Tactic.Common
import Mathlib.Tactic.Positivity
import Mathlib.Tactic.Ring
import ZedSecure.Clocked.Words

/-! Byte strings as little-endian numbers. -/

namespace LittleEndian

abbrev Bytes := List UInt8

/-- The number a byte string stands for, lowest byte first. -/
def num : Bytes → ℕ
  | [] => 0
  | b :: bs => b.toNat + 256 * num bs

/-- The lowest `k` bytes of a number. -/
def bytes : ℕ → ℕ → Bytes
  | 0, _ => []
  | k + 1, x => UInt8.ofNat x :: bytes k (x / 256)

@[simp] theorem length_bytes (k x : ℕ) : (bytes k x).length = k := by
  induction k generalizing x with
  | zero => rfl
  | succ k ih => simp [bytes, ih]

theorem num_bytes (k x : ℕ) : num (bytes k x) = x % 256 ^ k := by
  induction k generalizing x with
  | zero => simp [bytes, num, Nat.mod_one]
  | succ k ih =>
    have hb : (UInt8.ofNat x).toNat = x % 256 := by simp
    rw [bytes, num, ih, hb, pow_succ, Nat.mul_comm (256 ^ k), Nat.mod_mul]

theorem num_lt (bs : Bytes) : num bs < 256 ^ bs.length := by
  induction bs with
  | nil => simp [num]
  | cons b bs ih =>
    have hb := b.toNat_lt
    rw [num, List.length_cons, pow_succ]
    omega

theorem bytes_num (bs : Bytes) : bytes bs.length (num bs) = bs := by
  induction bs with
  | nil => rfl
  | cons b bs ih =>
    have hb := b.toNat_lt
    have hdiv : (b.toNat + 256 * num bs) / 256 = num bs := by omega
    have hlow : UInt8.ofNat (b.toNat + 256 * num bs) = b := by
      apply UInt8.toNat_inj.mp
      rw [UInt8.toNat_ofNat']
      omega
    rw [List.length_cons, num, bytes, hdiv, ih, hlow]

theorem bytes_mod (k x : ℕ) : bytes k (x % 256 ^ k) = bytes k x := by
  have h := bytes_num (bytes k x)
  rwa [length_bytes, num_bytes] at h

theorem num_append (as bs : Bytes) : num (as ++ bs) = num as + 256 ^ as.length * num bs := by
  induction as with
  | nil => simp [num]
  | cons a as ih =>
    rw [List.cons_append, num, num, ih, List.length_cons, pow_succ]
    ring

theorem bytes_add (j k x : ℕ) : bytes (j + k) x = bytes j x ++ bytes k (x / 256 ^ j) := by
  induction j generalizing x with
  | zero => simp [bytes]
  | succ j ih =>
    rw [Nat.succ_add, bytes, bytes, ih, List.cons_append, Nat.div_div_eq_div_mul, pow_succ,
      Nat.mul_comm 256]

theorem take_bytes {j k : ℕ} (h : j ≤ k) (x : ℕ) : (bytes k x).take j = bytes j x := by
  obtain ⟨m, rfl⟩ := Nat.exists_eq_add_of_le h
  rw [bytes_add, List.take_left' (length_bytes j x)]

theorem drop_bytes {j k : ℕ} (h : j ≤ k) (x : ℕ) :
    (bytes k x).drop j = bytes (k - j) (x / 256 ^ j) := by
  obtain ⟨m, rfl⟩ := Nat.exists_eq_add_of_le h
  rw [bytes_add, List.drop_left' (length_bytes j x), Nat.add_sub_cancel_left]

/-- A string of `m` words of `w` bytes. -/
theorem bytes_mul (w m x : ℕ) :
    bytes (w * m) x = (List.range m).flatMap fun j => bytes w (x / 256 ^ (w * j)) := by
  induction m with
  | zero => simp [bytes]
  | succ m ih => rw [Nat.mul_succ, bytes_add, ih, List.range_succ, List.flatMap_append]; simp

theorem pow_256 (k : ℕ) : 256 ^ k = 2 ^ (8 * k) := by
  rw [pow_mul, show 2 ^ 8 = 256 by rfl]

/-- The bytes of a vector, from its lowest byte lane. -/
def lanes {k : ℕ} (x : BitVec (8 * k)) : Bytes := bytes k x.toNat

@[simp] theorem length_lanes {k : ℕ} (x : BitVec (8 * k)) : (lanes x).length = k := length_bytes k _

theorem num_lanes {k : ℕ} (x : BitVec (8 * k)) : num (lanes x) = x.toNat := by
  rw [lanes, num_bytes, pow_256]
  exact Nat.mod_eq_of_lt x.isLt

/-- A byte string as a vector. -/
theorem lanes_ofNat {k : ℕ} {bs : Bytes} (h : bs.length = k) :
    lanes (BitVec.ofNat (8 * k) (num bs)) = bs := by
  subst h
  rw [lanes, BitVec.toNat_ofNat, ← pow_256, Nat.mod_eq_of_lt (num_lt bs), bytes_num]

theorem lanes_inj {k : ℕ} {x y : BitVec (8 * k)} (h : lanes x = lanes y) : x = y := by
  apply BitVec.eq_of_toNat_eq
  rw [← num_lanes, h, num_lanes]

/-- A part select of whole bytes. -/
theorem lanes_slice {k : ℕ} (x : BitVec (8 * k)) {j m : ℕ} (h : j + m ≤ k) :
    lanes (k := m) (Clocked.slice x (8 * j) (8 * m)) = ((lanes x).drop j).take m := by
  rw [lanes, Clocked.toNat_slice, ← pow_256, ← pow_256, bytes_mod, lanes, drop_bytes (by omega),
    take_bytes (by omega)]

/-- A vector word by word, the lowest word first. -/
theorem lanes_words {w m : ℕ} (x : BitVec (8 * (w * m))) :
    lanes x = (List.range m).flatMap fun j => lanes (k := w) (Clocked.slice x (8 * (w * j)) (8 * w)) := by
  rw [lanes, bytes_mul]
  refine congrArg (fun f => (List.range m).flatMap f) (funext fun j => ?_)
  rw [lanes, Clocked.toNat_slice, ← pow_256, ← pow_256, bytes_mod]

/-- Equal pieces one after the other: entry `b` of piece `a`. -/
theorem getD_flatMap_range {α : Type*} {r k : ℕ} {f : ℕ → List α} (hf : ∀ i, (f i).length = r) {a b : ℕ}
    (ha : a < k) (hb : b < r) (d : α) : ((List.range k).flatMap f).getD (r * a + b) d = (f a).getD b d := by
  induction k with
  | zero => omega
  | succ k ih =>
    have hlen : ((List.range k).flatMap f).length = r * k := by
      simp [List.length_flatMap, hf, Nat.mul_comm]
    rw [List.range_succ, List.flatMap_append, List.flatMap_singleton]
    by_cases hak : a < k
    · have hlt : r * a + b < r * k := by
        calc r * a + b < r * (a + 1) := by rw [Nat.mul_add, Nat.mul_one]; omega
          _ ≤ r * k := Nat.mul_le_mul_left r hak
      rw [List.getD_append _ _ _ _ (by omega), ih hak]
    · have hk : a = k := by omega
      subst hk
      rw [List.getD_append_right _ _ _ _ (by omega), hlen, Nat.add_sub_cancel_left]

theorem lanes_byte (x : BitVec 8) : lanes (k := 1) x = [⟨x⟩] := by
  apply congrArg (fun b => [b])
  apply UInt8.toNat_inj.mp
  rw [UInt8.toNat_ofNat']
  exact Nat.mod_eq_of_lt x.isLt

/-- Byte `n` of a vector is its byte lane `n`. -/
theorem getD_lanes {k : ℕ} (x : BitVec (8 * k)) {n : ℕ} (h : n < k) :
    (lanes x).getD n 0 = ⟨Clocked.slice x (8 * n) 8⟩ := by
  have hone : ((lanes x).drop n).take 1 = [⟨Clocked.slice x (8 * n) 8⟩] := by
    rw [← lanes_slice x (j := n) (m := 1) (by omega)]
    exact lanes_byte _
  have hget := congrArg (fun bs => bs.getD 0 0) hone
  simpa [List.getD_eq_getElem?_getD, List.getElem?_take, List.getElem?_drop] using hget

/-- The low part comes first. -/
theorem bytes_append {j k : ℕ} (hi : BitVec (8 * k)) (lo : BitVec (8 * j)) :
    bytes (j + k) (hi ++ lo).toNat = lanes lo ++ lanes hi := by
  have hlt : lo.toNat < 256 ^ j := by
    rw [pow_256]
    exact lo.isLt
  have hnat : (hi ++ lo).toNat = lo.toNat + 256 ^ j * hi.toNat := by
    rw [Clocked.toNat_append, pow_256]
    ring
  have hlow : bytes j (lo.toNat + 256 ^ j * hi.toNat) = lanes lo := by
    rw [← bytes_mod, Nat.add_mul_mod_self_left, Nat.mod_eq_of_lt hlt, lanes]
  have hhigh : (lo.toNat + 256 ^ j * hi.toNat) / 256 ^ j = hi.toNat := by
    rw [Nat.add_mul_div_left _ _ (Nat.pos_of_ne_zero (by positivity)), Nat.div_eq_of_lt hlt, Nat.zero_add]
  rw [hnat, bytes_add, hlow, hhigh]
  rfl

theorem bytes_xor (k x y : ℕ) :
    bytes k (x ^^^ y) = List.zipWith (· ^^^ ·) (bytes k x) (bytes k y) := by
  induction k generalizing x y with
  | zero => rfl
  | succ k ih =>
    have hlow : UInt8.ofNat (x ^^^ y) = UInt8.ofNat x ^^^ UInt8.ofNat y := by simp
    have hhigh : (x ^^^ y) / 256 = x / 256 ^^^ y / 256 := Nat.xor_div_two_pow (n := 8)
    rw [bytes, hlow, hhigh, ih]
    rfl

theorem lanes_xor {k : ℕ} (x y : BitVec (8 * k)) :
    lanes (x ^^^ y) = List.zipWith (· ^^^ ·) (lanes x) (lanes y) := by
  rw [lanes, BitVec.toNat_xor, bytes_xor]
  rfl

end LittleEndian
