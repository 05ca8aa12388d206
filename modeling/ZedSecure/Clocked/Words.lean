import Mathlib.Data.BitVec
import Mathlib.Data.List.Basic
import Mathlib.Tactic.Common

/-! Part selects of logic vectors: reading `x[lo +: n]`, writing it, and reversing
the byte lanes. A vector is determined by its aligned slices, so word-by-word
transfers are compared slice by slice. -/

namespace Clocked

/-- `x[lo +: n]` as a value. -/
def slice {w : ℕ} (x : BitVec w) (lo n : ℕ) : BitVec n := x.extractLsb' lo n

/-- `x` after `x[lo +: n] <= v`. -/
def patch {w n : ℕ} (x : BitVec w) (lo : ℕ) (v : BitVec n) : BitVec w :=
  (x &&& ~~~((BitVec.allOnes n).setWidth w <<< lo)) ||| (v.setWidth w <<< lo)

theorem getLsbD_slice {w : ℕ} (x : BitVec w) (lo n i : ℕ) :
    (slice x lo n).getLsbD i = (decide (i < n) && x.getLsbD (lo + i)) := by
  simp [slice]

theorem getLsbD_patch {w n : ℕ} (x : BitVec w) (lo : ℕ) (v : BitVec n) (i : ℕ) (hi : i < w) :
    (patch x lo v).getLsbD i =
      if lo ≤ i ∧ i < lo + n then v.getLsbD (i - lo) else x.getLsbD i := by
  by_cases hlo : lo ≤ i
  · by_cases hn : i < lo + n
    · have h1 : i - lo < n := by omega
      simp [patch, hi, hlo, hn, h1, show ¬ i < lo by omega]
    · have h1 : ¬ i - lo < n := by omega
      have h2 : v.getLsbD (i - lo) = false := BitVec.getLsbD_of_ge _ _ (by omega)
      simp [patch, hi, hlo, hn, h1, h2, show ¬ i < lo by omega]
  · simp [patch, hi, hlo, show i < lo by omega]

theorem slice_patch_self {w n : ℕ} (x : BitVec w) (lo : ℕ) (v : BitVec n) (h : lo + n ≤ w) :
    slice (patch x lo v) lo n = v := by
  apply BitVec.eq_of_getLsbD_eq
  intro i hi
  rw [getLsbD_slice, getLsbD_patch _ _ _ _ (by omega)]
  simp [hi]

theorem slice_patch_of_disjoint {w n m : ℕ} (x : BitVec w) (lo lo' : ℕ) (v : BitVec n)
    (hw : lo' + m ≤ w) (h : lo' + m ≤ lo ∨ lo + n ≤ lo') :
    slice (patch x lo v) lo' m = slice x lo' m := by
  apply BitVec.eq_of_getLsbD_eq
  intro i hi
  rw [getLsbD_slice, getLsbD_slice, getLsbD_patch _ _ _ _ (by omega), if_neg (by omega)]

theorem slice_low {w n lo m : ℕ} (x : BitVec w) (h : lo + m ≤ n) : slice (slice x 0 n) lo m = slice x lo m := by
  apply BitVec.eq_of_getLsbD_eq
  intro i hi
  rw [getLsbD_slice, getLsbD_slice, getLsbD_slice]
  simp [hi, show lo + i < n by omega]

/-- Equal slices of width `n` at the multiples of `n` make equal vectors. -/
theorem eq_of_slices {n k : ℕ} (x y : BitVec (n * k)) (h : ∀ j < k, slice x (n * j) n = slice y (n * j) n) :
    x = y := by
  apply BitVec.eq_of_getLsbD_eq
  intro i hi
  have hn : 0 < n := Nat.pos_of_ne_zero (by rintro rfl; simp at hi)
  have hj : i / n < k := Nat.div_lt_of_lt_mul hi
  have hm : i % n < n := Nat.mod_lt _ hn
  have hs := congrArg (fun v => v.getLsbD (i % n)) (h _ hj)
  simp only [getLsbD_slice, hm, decide_true, Bool.true_and, Nat.div_add_mod] at hs
  exact hs

/-- `k` parts of width `n` side by side, part 0 lowest. -/
def join (n k : ℕ) (part : ℕ → BitVec n) : BitVec (n * k) :=
  (List.range k).foldl (fun x j => patch x (n * j) (part j)) 0

theorem slice_join {n k : ℕ} (part : ℕ → BitVec n) {j : ℕ} (hj : j < k) :
    slice (join n k part) (n * j) n = part j := by
  set f := fun (x : BitVec (n * k)) j => patch x (n * j) (part j)
  -- after `m` parts the lanes below `m` are final
  have key : ∀ m ≤ k, ∀ j < m, slice ((List.range m).foldl f 0) (n * j) n = part j := by
    intro m
    induction m with
    | zero => intro _ j hj; omega
    | succ m ih =>
      intro hm j hj
      have hlane : ∀ i < k, n * i + n ≤ n * k := fun i hi => by
        calc n * i + n = n * (i + 1) := rfl
          _ ≤ n * k := Nat.mul_le_mul_left n hi
      rw [List.range_succ, List.foldl_append]
      simp only [List.foldl_cons, List.foldl_nil, f]
      rcases Nat.lt_succ_iff_lt_or_eq.mp hj with hlt | rfl
      · have hbelow : n * j + n ≤ n * m := Nat.mul_le_mul_left n hlt
        rw [slice_patch_of_disjoint _ _ _ _ (hlane j (by omega)) (Or.inl hbelow)]
        exact ih (by omega) j hlt
      · exact slice_patch_self _ _ _ (hlane j (by omega))
  exact key k le_rfl j hj

/-- Byte `j` of the result is byte `k - 1 - j` of the value. -/
def packBe (k : ℕ) (value : BitVec (8 * k)) : BitVec (8 * k) :=
  (List.range k).foldl (fun acc j => patch acc (8 * j) (slice value (8 * (k - 1 - j)) 8)) 0

theorem slice_packBe {k : ℕ} (value : BitVec (8 * k)) {j : ℕ} (hj : j < k) :
    slice (packBe k value) (8 * j) 8 = slice value (8 * (k - 1 - j)) 8 :=
  slice_join (fun j => slice value (8 * (k - 1 - j)) 8) hj

theorem toNat_slice {w : ℕ} (x : BitVec w) (lo n : ℕ) :
    (slice x lo n).toNat = x.toNat / 2 ^ lo % 2 ^ n := by
  rw [slice, BitVec.extractLsb'_toNat, Nat.shiftRight_eq_div_pow]

theorem packBe_packBe {k : ℕ} (value : BitVec (8 * k)) : packBe k (packBe k value) = value := by
  apply eq_of_slices
  intro j hj
  rw [slice_packBe _ hj, slice_packBe _ (by omega), show k - 1 - (k - 1 - j) = j by omega]

theorem packBe_inj {k : ℕ} {a b : BitVec (8 * k)} (h : packBe k a = packBe k b) : a = b := by
  rw [← packBe_packBe a, h, packBe_packBe]

theorem toNat_append {n m : ℕ} (x : BitVec n) (y : BitVec m) :
    (x ++ y).toNat = x.toNat * 2 ^ m + y.toNat := by
  rw [BitVec.toNat_append, ← Nat.shiftLeft_add_eq_or_of_lt y.isLt, Nat.shiftLeft_eq]

end Clocked
