import ZedSecure.Crypto.Ntt
import ZedSecure.Proofs.PolyCommands
import ZedSecure.Proofs.PolyWords

/-! What the commands compute: transform, base multiplication and inverse multiply polynomials modulo `X ^ 256 + 1`
and the prime, and no sum on the way leaves its sixteen bits. -/

namespace ZedSecure

open Clocked

namespace PolyLoops

open PolyAccelerator Polynomial

section Layers

variable {span b j : ℕ} {u v : ℕ → BitVec 16 → BitVec 16 → BitVec 16}

theorem blocks_pos (hs : span ∈ spans) : 0 < span := (span_blocks hs).1

theorem item_lt (hs : span ∈ spans) (hb : b < 128 / span) (hj : j < span) : span * b + j < 128 := by
  calc span * b + j < span * b + span := by omega
    _ = span * (b + 1) := (Nat.mul_succ span b).symm
    _ ≤ span * (128 / span) := Nat.mul_le_mul_left span hb
    _ = 128 := by rw [Nat.mul_comm]; exact (span_blocks hs).2

theorem item_div (hj : j < span) : (span * b + j) / span = b := by
  rw [Nat.mul_add_div (by omega), Nat.div_eq_of_lt hj, Nat.add_zero]

theorem lo_item (hj : j < span) : lo span (span * b + j) = 2 * span * b + j := by
  rw [lo, item_div hj, Nat.mul_add_mod, Nat.mod_eq_of_lt hj]

/-- What a layer leaves in the lower half of a block. -/
theorem layer_lo (hs : span ∈ spans) (hb : b < 128 / span) (hj : j < span) (f : Coeffs) :
    (layer span u v).after f 128 (BitVec.ofNat 8 (2 * span * b + j)) =
      u (span * b + j) (f (BitVec.ofNat 8 (2 * span * b + j))) (f (BitVec.ofNat 8 (2 * span * b + j + span))) := by
  have ht := item_lt hs hb hj
  have hne : BitVec.ofNat 8 (lo span (span * b + j)) ≠ BitVec.ofNat 8 (lo span (span * b + j) + span) := fun h =>
    lo_ne hs (ofNat_inj (by have := lo_lt hs ht; omega) (lo_lt hs ht) h)
  rw [← lo_item hj, (layer_local hs u v).after_done le_rfl ht (Set.mem_insert _ _)]
  exact Pass.pairs_lo f hne

/-- What a layer leaves in the upper half of a block. -/
theorem layer_hi (hs : span ∈ spans) (hb : b < 128 / span) (hj : j < span) (f : Coeffs) :
    (layer span u v).after f 128 (BitVec.ofNat 8 (2 * span * b + j + span)) =
      v (span * b + j) (f (BitVec.ofNat 8 (2 * span * b + j))) (f (BitVec.ofNat 8 (2 * span * b + j + span))) := by
  have ht := item_lt hs hb hj
  rw [← lo_item hj, (layer_local hs u v).after_done le_rfl ht (Set.mem_insert_of_mem _ rfl)]
  exact Pass.pairs_hi f

/-- Every address lies in one half of one block. -/
theorem address_cases (hs : span ∈ spans) (x : BitVec 8) : ∃ b < 128 / span, ∃ j < span,
    x = BitVec.ofNat 8 (2 * span * b + j) ∨ x = BitVec.ofNat 8 (2 * span * b + j + span) := by
  have hx := x.isLt
  have hpos := blocks_pos hs
  have hn := Nat.div_add_mod x.toNat (2 * span)
  have hmod := Nat.mod_lt x.toNat (show 0 < 2 * span by omega)
  have hback : x = BitVec.ofNat 8 x.toNat := by rw [BitVec.ofNat_toNat, BitVec.setWidth_eq]
  have hb : x.toNat / (2 * span) < 128 / span := by
    rw [Nat.div_lt_iff_lt_mul (by omega), Nat.mul_left_comm, (span_blocks hs).2]
    omega
  refine ⟨x.toNat / (2 * span), hb, ?_⟩
  rcases Nat.lt_or_ge (x.toNat % (2 * span)) span with hlt | hge
  · exact ⟨x.toNat % (2 * span), hlt, Or.inl (by rw [hn]; exact hback)⟩
  · refine ⟨x.toNat % (2 * span) - span, by omega, Or.inr ?_⟩
    rw [show 2 * span * (x.toNat / (2 * span)) + (x.toNat % (2 * span) - span) + span = x.toNat by omega]
    exact hback

/-- A bound on both halves is a bound on every word. -/
theorem layer_within {B : ℤ} (hs : span ∈ spans) {f : Coeffs}
    (hu : ∀ t x y, Within B (u t (f x) (f y))) (hv : ∀ t x y, Within B (v t (f x) (f y))) (x : BitVec 8) :
    Within B ((layer span u v).after f 128 x) := by
  obtain ⟨b, hb, j, hj, rfl | rfl⟩ := address_cases hs x
  · rw [layer_lo hs hb hj]
    exact hu _ _ _
  · rw [layer_hi hs hb hj]
    exact hv _ _ _

end Layers

section Zetas

/-- The root of a node, in the form of the table. -/
def rootWord (k : ℕ) : BitVec 16 := if k % 2 = 0 then zetas (k / 2) else -zetas (k / 2)

def zeta (k : ℕ) : ZMod 3329 := 169 * residue (zetas k)

def root (k : ℕ) : ZMod 3329 := 169 * residue (rootWord k)

theorem zetas_within (k : ℕ) : Within 1664 (zetas k) := by
  rcases Nat.lt_or_ge k 128 with hk | hk
  · have h : ∀ k < 128, -1664 ≤ (zetas k).toInt ∧ (zetas k).toInt ≤ 1664 := by decide +kernel
    exact h k hk
  · rw [zetas, List.getD_eq_getElem?_getD, List.getElem?_eq_none hk]
    exact ⟨by decide, by decide⟩

theorem pairZeta_eq (i : ℕ) : pairZeta i = rootWord (128 + i) := by
  rw [pairZeta, rootWord, show (128 + i) / 2 = 64 + i / 2 by omega]
  rcases Nat.mod_two_eq_zero_or_one i with h | h
  · rw [if_neg (by omega), if_pos (by omega)]
  · rw [if_pos h, if_neg (by omega)]

theorem toInt_neg_zetas (k : ℕ) : (-zetas k).toInt = -(zetas k).toInt := by
  obtain ⟨hlo, hhi⟩ := zetas_within k
  rw [BitVec.toInt_neg]
  exact Int.bmod_eq_of_le (by norm_num; omega) (by norm_num; omega)

theorem rootWord_within (k : ℕ) : Within 1664 (rootWord k) := by
  obtain ⟨hlo, hhi⟩ := zetas_within (k / 2)
  rw [rootWord]
  split_ifs
  · exact ⟨hlo, hhi⟩
  · rw [Within, toInt_neg_zetas]
    exact ⟨by omega, by omega⟩

theorem zetas_square : ∀ k < 128, 1 ≤ k → (3329 : ℤ) ∣ (zetas k).toInt ^ 2 - 65536 * (rootWord k).toInt := by
  decide +kernel

theorem zetas_opposite : ∀ l < 7, ∀ b < 1 <<< l,
    (3329 : ℤ) ∣ (zetas ((1 <<< l) + b)).toInt * (zetas ((2 <<< l) - 1 - b)).toInt + 4294967296 := by decide +kernel

/-- The table is the tree of the roots of `-1`. -/
theorem zeta_tree : Ntt.Tree root zeta 128 where
  left k _ _ := by rw [root, rootWord, if_pos (by omega), Nat.mul_div_cancel_left k two_pos, zeta]
  right k _ _ := by
    rw [root, rootWord, if_neg (by omega), show (2 * k + 1) / 2 = k by omega, zeta, residue, toInt_neg_zetas,
      Int.cast_neg, residue]
    ring
  square k hk hk' := by
    obtain ⟨c, hc⟩ := zetas_square k hk' hk
    have hcast := congrArg (Int.cast : ℤ → ZMod 3329) hc
    push_cast at hcast
    have hq : (3329 : ZMod 3329) = 0 := rfl
    have hr : (169 * 65536 : ZMod 3329) = 1 := rfl
    rw [zeta, root, residue, residue]
    linear_combination (169 * 169) * hcast + 169 * ((rootWord k).toInt : ZMod 3329) * hr +
      (169 * 169 * (c : ZMod 3329)) * hq

theorem zeta_opposite {l b : ℕ} (hl : l < 7) (hb : b < 1 <<< l) :
    zeta ((1 <<< l) + b) * (169 * residue (zetas ((2 <<< l) - 1 - b))) = -1 := by
  obtain ⟨c, hc⟩ := zetas_opposite l hl b hb
  have hcast := congrArg (Int.cast : ℤ → ZMod 3329) hc
  push_cast at hcast
  have hq : (3329 : ZMod 3329) = 0 := rfl
  have hr : (169 * 169 * 4294967296 : ZMod 3329) = 1 := rfl
  rw [zeta, residue, residue]
  linear_combination (169 * 169) * hcast - hr + (169 * 169 * (c : ZMod 3329)) * hq

theorem root_one : root 1 = -1 := rfl

end Zetas

section Transforms

variable {l : ℕ} {f : Coeffs} {P : (ZMod 3329)[X]}

/-- Coefficient `n` modulo the prime. -/
def coeff (f : Coeffs) (n : ℕ) : ZMod 3329 := residue (f (BitVec.ofNat 8 n))

/-- The polynomial of 256 coefficients. -/
noncomputable def poly (f : Coeffs) : (ZMod 3329)[X] :=
  ∑ i ∈ Finset.range 256, C ((f (BitVec.ofNat 8 i)).toInt : ZMod 3329) * X ^ i

theorem poly_eq_block (f : Coeffs) : poly f = Ntt.block (coeff f) (256 * 0) 256 := by
  rw [poly, Ntt.block]
  apply Finset.sum_congr rfl
  intro i _
  rw [coeff, residue, Nat.mul_zero, Nat.zero_add]

theorem twiddle_within (x : BitVec 16) (j : ℕ) : Within 2497 (fqmul x (zetas j)) :=
  fqmul_within (within_word x) (zetas_within j) (by norm_num)

/-- A layer of the transform: the words grow by less than a modulus, and every block is split. -/
theorem nttLayer_step {B : ℤ} (hl : l < 7) (hB : B + 2497 ≤ 32767) (hf : ∀ x, Within B (f x))
    (h : Ntt.Residues root (256 >>> l) (1 <<< l) (coeff f) P) :
    (∀ x, Within (B + 2497) (nttLayer (128 >>> l) (1 <<< l) f x)) ∧
      Ntt.Residues root (128 >>> l) (1 <<< (l + 1)) (coeff (nttLayer (128 >>> l) (1 <<< l) f)) P := by
  have hs : 128 >>> l ∈ spans := by interval_cases l <;> decide
  have hblocks : 128 / (128 >>> l) = 1 <<< l := by interval_cases l <;> decide
  have hdouble : 256 >>> l = 128 >>> l + 128 >>> l := by interval_cases l <;> decide
  have hnext : 1 <<< (l + 1) = 2 * 1 <<< l := by interval_cases l <;> decide
  have hpos : 1 ≤ 1 <<< l := by interval_cases l <;> decide
  have htop : 2 * 1 <<< l ≤ 128 := by interval_cases l <;> decide
  rw [hdouble] at h
  rw [nttLayer_eq hs, hnext]
  generalize 128 >>> l = span at *
  refine ⟨layer_within hs ?_ ?_, h.split zeta_tree hpos htop ?_ ?_⟩
  · exact fun t x y => (toInt_add_within (hf x) (twiddle_within _ _) hB).2
  · exact fun t x y => (toInt_sub_within (hf x) (twiddle_within _ _) hB).2
  · intro b hb j hj
    rw [← Nat.two_mul, coeff, layer_lo hs (by omega) hj, residue_add (hf _) (twiddle_within _ _) hB, residue_fqmul,
      item_div hj, Nat.add_right_comm, coeff, coeff, zeta]
    ring
  · intro b hb j hj
    rw [← Nat.two_mul, coeff, Nat.add_right_comm, layer_hi hs (by omega) hj,
      residue_sub (hf _) (twiddle_within _ _) hB, residue_fqmul, item_div hj, coeff, coeff, zeta]
    ring

/-- The transform of a polynomial with small coefficients. -/
theorem ntt_residues (hf : ∀ x, Within 3328 (f x)) :
    (∀ x, Within 20807 (ntt f x)) ∧ Ntt.Residues root 2 128 (coeff (ntt f)) (poly f) := by
  have h : ∀ l : ℕ, l ≤ 7 → (∀ x, Within (3328 + 2497 * l) (loop l (fun f l => nttLayer (128 >>> l) (1 <<< l) f) f x)) ∧
      Ntt.Residues root (256 >>> l) (1 <<< l) (coeff (loop l (fun f l => nttLayer (128 >>> l) (1 <<< l) f) f))
        (poly f) := by
    intro l
    induction l with
    | zero =>
      refine fun _ => ⟨fun x => (hf x).mono (by norm_num), fun b hb => ?_⟩
      obtain rfl : b = 0 := by omega
      rw [loop_zero, poly_eq_block, show 256 >>> 0 = 256 from rfl, sub_self]
      exact dvd_zero _
    | succ l ih =>
      intro (hl : l < 7)
      obtain ⟨hwithin, hres⟩ := ih (by omega)
      obtain ⟨hwithin', hres'⟩ := nttLayer_step (by omega) (by omega) hwithin hres
      rw [loop_succ, show 256 >>> (l + 1) = 128 >>> l by interval_cases l <;> decide]
      exact ⟨fun x => (hwithin' x).mono (by push_cast; omega), hres'⟩
  exact h 7 le_rfl

/-- A layer of the inverse: the words stay small, and the blocks are merged into twice the polynomial. -/
theorem inttLayer_step (hl : l < 7) (hf : ∀ x, Within 2386 (f x))
    (h : Ntt.Residues root (2 <<< l) (128 >>> l) (coeff f) P) :
    (∀ x, Within 1792 (inttLayer (2 <<< l) ((128 >>> l) - 1) f x)) ∧
      Ntt.Residues root (4 <<< l) (64 >>> l) (coeff (inttLayer (2 <<< l) ((128 >>> l) - 1) f)) (C 2 * P) := by
  have hs : 2 <<< l ∈ spans := by interval_cases l <;> decide
  have hblocks : 128 / (2 <<< l) = 64 >>> l := by interval_cases l <;> decide
  have hhalf : 128 >>> l = 2 * 64 >>> l := by interval_cases l <;> decide
  have hdouble : 4 <<< l = 2 <<< l + 2 <<< l := by interval_cases l <;> decide
  have hpos : 1 ≤ 64 >>> l := by interval_cases l <;> decide
  have htop : 2 * 64 >>> l ≤ 128 := by interval_cases l <;> decide
  have hopposite : ∀ b < 64 >>> l, zeta (64 >>> l + b) * (169 * residue (zetas (2 * 64 >>> l - 1 - b))) = -1 := by
    rw [← hhalf, show 64 >>> l = 1 <<< (6 - l) by interval_cases l <;> decide,
      show 128 >>> l = 2 <<< (6 - l) by interval_cases l <;> decide]
    exact fun b hb => zeta_opposite (by omega) hb
  rw [hhalf] at h
  rw [inttLayer_eq hs, hhalf, hdouble]
  generalize 2 <<< l = span at *
  refine ⟨layer_within hs ?_ ?_, h.merge zeta_tree (show (1665 : ZMod 3329) * 2 = 1 from rfl) hpos htop hopposite ?_ ?_⟩
  · intro t x y
    obtain ⟨c, -, hbarrett⟩ := toInt_barrett (f x + f y)
    exact hbarrett.mono (by norm_num)
  · exact fun t x y => fqmul_within (toInt_sub_within (hf y) (hf x) (by norm_num)).2 (zetas_within _) (by norm_num)
  · intro b hb j hj
    rw [← Nat.two_mul, coeff, layer_lo hs (by omega) hj, residue_barrett, residue_add (hf _) (hf _) (by norm_num),
      Nat.add_right_comm, coeff, coeff]
  · intro b hb j hj
    rw [← Nat.two_mul, coeff, Nat.add_right_comm, layer_hi hs (by omega) hj, residue_fqmul,
      residue_sub (hf _) (hf _) (by norm_num), item_div hj, coeff, coeff]
    ring

theorem scale_apply (f : Coeffs) (x : BitVec 8) : scale f x = fqmul (f x) 1441#16 := by
  have hlocal : scalePass.Local 256 := Pass.each_local fun _ hj _ hk h => ofNat_inj hj hk h
  have hback : BitVec.ofNat 8 x.toNat = x := by rw [BitVec.ofNat_toNat, BitVec.setWidth_eq]
  rw [scale_eq, hlocal.after_done le_rfl x.isLt (show x ∈ scalePass.cells x.toNat from hback.symm)]
  change Function.update f (BitVec.ofNat 8 x.toNat) _ x = _
  rw [hback, Function.update_self]

/-- The inverse brings the residues together again. -/
theorem intt_residues (h : Ntt.Residues root 2 128 (coeff f) P) :
    (∀ x, Within 1792 (intt f x)) ∧ X ^ 256 + 1 ∣ C (128 * (169 * 1441)) * P - poly (intt f) := by
  have hscale : Ntt.Residues root 2 128 (coeff (scale f)) (C (169 * 1441) * P) := by
    refine h.scale fun j _ => ?_
    rw [coeff, scale_apply, residue_fqmul, coeff, show residue 1441#16 = 1441 from rfl]
    ring
  have hwithin : ∀ x, Within 2386 (scale f x) := fun x => by
    rw [scale_apply]
    exact fqmul_within (within_word _) (show Within 1441 1441#16 from ⟨by decide, by decide⟩) (by norm_num)
  have hrun : ∀ l : ℕ, l ≤ 7 →
      (∀ x, Within (if l = 0 then 2386 else 1792)
        (loop l (fun f l => inttLayer (2 <<< l) ((128 >>> l) - 1) f) (scale f) x)) ∧
      Ntt.Residues root (2 <<< l) (128 >>> l)
        (coeff (loop l (fun f l => inttLayer (2 <<< l) ((128 >>> l) - 1) f) (scale f)))
        (C (2 ^ l * (169 * 1441)) * P) := by
    intro l
    induction l with
    | zero => exact fun _ => ⟨hwithin, by rw [pow_zero, one_mul]; exact hscale⟩
    | succ l ih =>
      intro (hl : l < 7)
      obtain ⟨hw, hr⟩ := ih (by omega)
      obtain ⟨hw', hr'⟩ := inttLayer_step (by omega) (fun x => (hw x).mono (by split_ifs <;> norm_num)) hr
      rw [loop_succ, if_neg (Nat.succ_ne_zero l), show 2 <<< (l + 1) = 4 <<< l by interval_cases l <;> decide,
        show 128 >>> (l + 1) = 64 >>> l by interval_cases l <;> decide]
      rw [← mul_assoc, ← C_mul, ← mul_assoc, ← pow_succ'] at hr'
      exact ⟨hw', hr'⟩
  obtain ⟨hw, hr⟩ := hrun 7 le_rfl
  refine ⟨hw, ?_⟩
  have hlast := hr 0 (by decide)
  have hmodulus : (X ^ 256 - C (-1) : (ZMod 3329)[X]) = X ^ 256 + 1 := by rw [C_neg, C_1, sub_neg_eq_add]
  rw [show 2 <<< 7 = 256 from rfl, show 128 >>> 7 + 0 = 1 from rfl, root_one, hmodulus,
    show (2 : ZMod 3329) ^ 7 = 128 from rfl] at hlast
  rw [poly_eq_block, intt]
  exact hlast

end Transforms

section Products

variable {f g r : Coeffs} {P Q : (ZMod 3329)[X]}

/-- The base multiplication multiplies residues, up to one Montgomery factor. -/
theorem basemul_residues (hf : ∀ x, Within 20807 (f x)) (hg : ∀ x, Within 20807 (g x))
    (hP : Ntt.Residues root 2 128 (coeff f) P) (hQ : Ntt.Residues root 2 128 (coeff g) Q) :
    Ntt.Residues root 2 128 (coeff (basemul f g r)) (C 169 * (P * Q)) := by
  have hprod : ∀ x y, Within 8271 (fqmul (f x) (g y)) := fun x y => fqmul_within (hf x) (hg y) (by norm_num)
  have htwice : ∀ x y b, Within 1875 (fqmul (fqmul (f x) (g y)) (pairZeta b)) := fun x y b => by
    rw [pairZeta_eq]
    exact fqmul_within (hprod x y) (rootWord_within _) (by norm_num)
  refine hP.mul hQ ?_ ?_
  · intro b hb
    rw [coeff, basemul_lo hb, residue_add (htwice _ _ _) (hprod _ _) (by norm_num), residue_fqmul, residue_fqmul,
      residue_fqmul, pairZeta_eq, coeff, coeff, coeff, coeff, root]
    ring
  · intro b hb
    rw [coeff, basemul_hi hb, residue_add (hprod _ _) (hprod _ _) (by norm_num), residue_fqmul, residue_fqmul, coeff,
      coeff, coeff, coeff]
    ring

/-- Transform, multiply, transform back. -/
theorem loops_multiply {a b : Coeffs} (r : Coeffs) (ha : ∀ x, Within 3328 (a x)) (hb : ∀ x, Within 3328 (b x)) :
    (∀ x, Within 1792 (intt (basemul (ntt a) (ntt b) r) x)) ∧
      X ^ 256 + 1 ∣ poly a * poly b - poly (intt (basemul (ntt a) (ntt b) r)) := by
  obtain ⟨hwa, hra⟩ := ntt_residues ha
  obtain ⟨hwb, hrb⟩ := ntt_residues hb
  obtain ⟨hw, hdvd⟩ := intt_residues (basemul_residues (r := r) hwa hwb hra hrb)
  refine ⟨hw, ?_⟩
  rw [← mul_assoc, ← C_mul, show (128 * (169 * 1441) * 169 : ZMod 3329) = 1 from rfl, C_1, one_mul] at hdvd
  exact hdvd

end Products

end PolyLoops

namespace PolyAccelerator

open PolyLoops Polynomial

/-- A command given to the idle unit: any state it can be in, any host accesses, the set held to the end. -/
structure Execution (c : BitVec 2) where
  s : State
  ins : ℕ → In
  v : Bool
  reachable : design.Reachable s
  idle : s.ctrl.state = .idle
  start : (ins 0).start = true
  command : (ins 0).command = c
  set : ∀ k < cycles c, (ins k).set = v

namespace Execution

variable {c : BitVec 2} (x : Execution c)

/-- The banks the command finds in its half. -/
def before : Banks := (x.s.half x.v).banks

/-- The banks it leaves there. -/
def after : Banks := ((design.stream x.s x.ins (cycles c)).half x.v).banks

theorem after_eq : x.after = x.before.command c := by
  obtain ⟨s, ins, v, hs, hidle, hstart, rfl, hset⟩ := x
  exact (command_run hidle (quiet_of_idle hs hidle) hstart hset).2.2

/-- The unit out of reset with banks that are loaded. -/
def loaded (c : BitVec 2) (m : Banks) : Execution c where
  s := rst ⟨fun _ => ⟨fun i => m.a (address false i), fun i => m.a (address true i), m.b, m.r, 0, 0, 0, 0, 0⟩, false,
    false, false, .reset, .reset, .reset⟩
  ins k := ⟨k = 0, c, false, false, 0, 0, 0⟩
  v := false
  reachable := ⟨_, [], rfl⟩
  idle := rfl
  start := rfl
  command := rfl
  set _ _ := rfl

theorem before_loaded (m : Banks) : (loaded c m).before = m := by
  have ha : ∀ x, (if parity x then m.a (address true (index x)) else m.a (address false (index x))) = m.a x := by
    intro x
    have hx := address_parity x
    cases hp : parity x
    · rw [if_neg (by decide), ← hp, hx]
    · rw [if_pos rfl, ← hp, hx]
  exact congrArg (fun a => (⟨a, m.b, m.r⟩ : Banks)) (funext ha)

end Execution

/-- Four commands multiply: the transforms of two polynomials, multiplied pair by pair and transformed back, are their
product modulo `X ^ 256 + 1` and the prime, in words well inside one modulus. -/
theorem commands_multiply (na nb : Execution 0) (m : Execution 2) (i : Execution 1)
    (ha : ∀ x, Within 3328 (na.before.a x)) (hb : ∀ x, Within 3328 (nb.before.a x)) (hma : m.before.a = na.after.a)
    (hmb : m.before.b = nb.after.a) (hi : i.before.a = m.after.r) :
    (∀ x, Within 1792 (i.after.a x)) ∧ X ^ 256 + 1 ∣ poly na.before.a * poly nb.before.a - poly i.after.a := by
  have hend : i.after.a = intt (basemul (ntt na.before.a) (ntt nb.before.a) m.before.r) := by
    rw [i.after_eq]
    change intt i.before.a = _
    rw [hi, m.after_eq]
    change intt (basemul m.before.a m.before.b m.before.r) = _
    rw [hma, hmb, na.after_eq, nb.after_eq]
    rfl
  rw [hend]
  exact loops_multiply m.before.r ha hb

/-- A polynomial of ones. -/
def ones : Banks := ⟨fun _ => 1, fun _ => 0, fun _ => 0⟩

def transformed : Coeffs := (Execution.loaded 0 ones).after.a

def squared : Coeffs := (Execution.loaded 2 ⟨transformed, transformed, fun _ => 0⟩).after.r

theorem commands_multiply_ones : X ^ 256 + 1 ∣
    poly ones.a * poly ones.a - poly (Execution.loaded 1 ⟨squared, fun _ => 0, fun _ => 0⟩).after.a := by
  have hone : ∀ x, Within 3328 ((Execution.loaded 0 ones).before.a x) := fun x => by
    rw [Execution.before_loaded]
    exact (show Within 3328 1#16 from ⟨by decide, by decide⟩)
  have h := (commands_multiply (Execution.loaded 0 ones) (Execution.loaded 0 ones)
    (Execution.loaded 2 ⟨transformed, transformed, fun _ => 0⟩) (Execution.loaded 1 ⟨squared, fun _ => 0, fun _ => 0⟩)
    hone hone (by rw [Execution.before_loaded, transformed]) (by rw [Execution.before_loaded, transformed])
    (by rw [Execution.before_loaded, squared])).2
  rw [Execution.before_loaded] at h
  exact h

end PolyAccelerator

end ZedSecure
