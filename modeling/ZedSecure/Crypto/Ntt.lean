import Mathlib.Algebra.Polynomial.Basic
import Mathlib.RingTheory.Coprime.Basic
import Mathlib.Tactic.LinearCombination

/-! Number-theoretic transforms as residues. The coefficients are kept in blocks, and each block is a polynomial's
residue modulo `X ^ n - r` for the root `r` of a node; the nodes form a binary tree, in which the children of `k` are
`2 * k` and `2 * k + 1`. A butterfly splits a residue between the children of its node or merges it again. -/

namespace Ntt

open Polynomial

variable {R : Type*} [CommRing R]

/-- The polynomial whose coefficients stand from `s` on. -/
noncomputable def block (f : ℕ → R) (s n : ℕ) : R[X] := ∑ j ∈ Finset.range n, C (f (s + j)) * X ^ j

theorem block_add (f : ℕ → R) (s m n : ℕ) : block f s (m + n) = block f s m + X ^ m * block f (s + m) n := by
  rw [block, Finset.sum_range_add, block, block, Finset.mul_sum]
  congr 1
  apply Finset.sum_congr rfl
  intro j _
  rw [pow_add, Nat.add_assoc]
  ring

theorem block_two (f : ℕ → R) (s : ℕ) : block f s 2 = C (f s) + C (f (s + 1)) * X := by
  rw [block, Finset.sum_range_succ, Finset.sum_range_one, pow_zero, pow_one, mul_one, Nat.add_zero]

/-- A block that combines two others coefficient by coefficient. -/
theorem block_linear {f g : ℕ → R} {s t u n : ℕ} {c d : R} (h : ∀ j < n, f (s + j) = c * g (t + j) + d * g (u + j)) :
    block f s n = C c * block g t n + C d * block g u n := by
  simp only [block, Finset.mul_sum]
  rw [← Finset.sum_add_distrib]
  apply Finset.sum_congr rfl
  intro j hj
  rw [h j (Finset.mem_range.mp hj), C_add, C_mul, C_mul]
  ring

section Butterfly

variable {f g : ℕ → R} {P : R[X]} {s n : ℕ} {z w : R}

/-- A butterfly splits a residue modulo `X ^ 2n - z ^ 2`. -/
theorem split (h : X ^ (n + n) - C (z ^ 2) ∣ P - block f s (n + n))
    (hlo : ∀ j < n, g (s + j) = f (s + j) + z * f (s + n + j))
    (hhi : ∀ j < n, g (s + n + j) = f (s + j) - z * f (s + n + j)) :
    X ^ n - C z ∣ P - block g s n ∧ X ^ n - C (-z) ∣ P - block g (s + n) n := by
  have hl : block g s n = C 1 * block f s n + C z * block f (s + n) n :=
    block_linear fun j hj => by rw [hlo j hj, one_mul]
  have hh : block g (s + n) n = C 1 * block f s n + C (-z) * block f (s + n) n :=
    block_linear fun j hj => by rw [hhi j hj]; ring
  obtain ⟨q, hq⟩ := h
  rw [block_add, pow_add, C_pow] at hq
  rw [hl, hh, C_1, C_neg]
  constructor
  · exact ⟨(X ^ n + C z) * q + block f (s + n) n, by linear_combination hq⟩
  · exact ⟨(X ^ n - C z) * q + block f (s + n) n, by linear_combination hq⟩

/-- An inverse butterfly merges two residues into twice the one they come from. -/
theorem merge {two : R} (htwo : two * 2 = 1) (hzw : z * w = -1) (hlo : X ^ n - C z ∣ P - block f s n)
    (hhi : X ^ n - C (-z) ∣ P - block f (s + n) n) (hl : ∀ j < n, g (s + j) = f (s + j) + f (s + n + j))
    (hh : ∀ j < n, g (s + n + j) = (f (s + n + j) - f (s + j)) * w) :
    X ^ (n + n) - C (z ^ 2) ∣ C 2 * P - block g s (n + n) := by
  have hbl : block g s n = C 1 * block f s n + C 1 * block f (s + n) n :=
    block_linear fun j hj => by rw [hl j hj, one_mul, one_mul]
  have hbh : block g (s + n) n = C (-w) * block f s n + C w * block f (s + n) n :=
    block_linear fun j hj => by rw [hh j hj]; ring
  have hzw' : (C z * C w : R[X]) = -1 := by rw [← C_mul, hzw, C_neg, C_1]
  have htwo' : (C two * 2 : R[X]) = 1 := by
    rw [show (2 : R[X]) = C 2 from rfl, ← C_mul, htwo, C_1]
  have hfac : (X ^ (n + n) - C (z ^ 2) : R[X]) = (X ^ n - C z) * (X ^ n - C (-z)) := by
    rw [pow_add, C_pow, C_neg]
    ring
  rw [hfac, block_add, hbl, hbh]
  simp only [C_1, C_neg] at hhi ⊢
  -- the two factors differ by a unit
  apply IsCoprime.mul_dvd
  · refine ⟨C two * C w, -(C two * C w), ?_⟩
    linear_combination (-(C two * 2)) * hzw' + htwo'
  · obtain ⟨q, hq⟩ := hlo
    refine ⟨C 2 * q + C w * (block f s n - block f (s + n) n), ?_⟩
    rw [show (C 2 : R[X]) = 2 from rfl]
    linear_combination 2 * hq + (block f s n - block f (s + n) n) * hzw'
  · obtain ⟨q, hq⟩ := hhi
    refine ⟨C 2 * q + C w * (block f s n - block f (s + n) n), ?_⟩
    rw [show (C 2 : R[X]) = 2 from rfl]
    linear_combination 2 * hq - (block f s n - block f (s + n) n) * hzw'

end Butterfly

section Levels

variable {ρ ζ : ℕ → R} {f g : ℕ → R} {P Q : R[X]} {n B : ℕ}

/-- The blocks of a level hold the residues of `P` at the nodes from `B` on. -/
def Residues (ρ : ℕ → R) (n B : ℕ) (f : ℕ → R) (P : R[X]) : Prop :=
  ∀ b < B, X ^ n - C (ρ (B + b)) ∣ P - block f (n * b) n

/-- The zeta of a node is a square root of its root, and the root of its first child. -/
structure Tree (ρ ζ : ℕ → R) (N : ℕ) : Prop where
  left : ∀ k, 1 ≤ k → k < N → ρ (2 * k) = ζ k
  right : ∀ k, 1 ≤ k → k < N → ρ (2 * k + 1) = -ζ k
  square : ∀ k, 1 ≤ k → k < N → ζ k ^ 2 = ρ k

variable {N : ℕ} (ht : Tree ρ ζ N)

include ht

/-- A layer of the transform. -/
theorem Residues.split (hB : 1 ≤ B) (hN : 2 * B ≤ N) (h : Residues ρ (n + n) B f P)
    (hlo : ∀ b < B, ∀ j < n, g ((n + n) * b + j) = f ((n + n) * b + j) + ζ (B + b) * f ((n + n) * b + n + j))
    (hhi : ∀ b < B, ∀ j < n, g ((n + n) * b + n + j) = f ((n + n) * b + j) - ζ (B + b) * f ((n + n) * b + n + j)) :
    Residues ρ n (2 * B) g P := by
  have hboth : ∀ b < B, X ^ n - C (ζ (B + b)) ∣ P - block g ((n + n) * b) n ∧
      X ^ n - C (-ζ (B + b)) ∣ P - block g ((n + n) * b + n) n := by
    intro b hb
    have hroot := h b hb
    rw [← ht.square (B + b) (by omega) (by omega)] at hroot
    exact Ntt.split hroot (hlo b hb) (hhi b hb)
  intro b hb
  obtain ⟨hl, hr⟩ := hboth (b / 2) (by omega)
  rcases Nat.mod_two_eq_zero_or_one b with heven | hodd
  · rw [← ht.left (B + b / 2) (by omega) (by omega), show 2 * (B + b / 2) = 2 * B + b by omega,
      show (n + n) * (b / 2) = n * b by rw [← Nat.mul_two, Nat.mul_assoc, show 2 * (b / 2) = b by omega]] at hl
    exact hl
  · rw [← ht.right (B + b / 2) (by omega) (by omega), show 2 * (B + b / 2) + 1 = 2 * B + b by omega,
      show (n + n) * (b / 2) + n = n * b by
        rw [← Nat.mul_two, Nat.mul_assoc, ← Nat.mul_succ, show (2 * (b / 2)).succ = b by omega]] at hr
    exact hr

/-- A layer of the inverse. -/
theorem Residues.merge {two : R} (htwo : two * 2 = 1) {w : ℕ → R} (hB : 1 ≤ B) (hN : 2 * B ≤ N)
    (hw : ∀ b < B, ζ (B + b) * w b = -1) (h : Residues ρ n (2 * B) f P)
    (hlo : ∀ b < B, ∀ j < n, g ((n + n) * b + j) = f ((n + n) * b + j) + f ((n + n) * b + n + j))
    (hhi : ∀ b < B, ∀ j < n, g ((n + n) * b + n + j) = (f ((n + n) * b + n + j) - f ((n + n) * b + j)) * w b) :
    Residues ρ (n + n) B g (C 2 * P) := by
  intro b hb
  have hl := h (2 * b) (by omega)
  have hr := h (2 * b + 1) (by omega)
  rw [show 2 * B + 2 * b = 2 * (B + b) by omega, ht.left (B + b) (by omega) (by omega),
    show n * (2 * b) = (n + n) * b by rw [← Nat.mul_assoc, Nat.mul_two]] at hl
  rw [show 2 * B + (2 * b + 1) = 2 * (B + b) + 1 by omega, ht.right (B + b) (by omega) (by omega),
    show n * (2 * b + 1) = (n + n) * b + n by rw [Nat.mul_succ, ← Nat.mul_assoc, Nat.mul_two]] at hr
  rw [← ht.square (B + b) (by omega) (by omega)]
  exact Ntt.merge htwo (hw b hb) hl hr (hlo b hb) (hhi b hb)

omit ht

/-- Residues modulo `X ^ 2 - r` are multiplied pair by pair. -/
theorem Residues.mul {h : ℕ → R} {u : R} (hf : Residues ρ 2 B f P) (hg : Residues ρ 2 B g Q)
    (hlo : ∀ b < B, h (2 * b) = u * (f (2 * b) * g (2 * b) + f (2 * b + 1) * g (2 * b + 1) * ρ (B + b)))
    (hhi : ∀ b < B, h (2 * b + 1) = u * (f (2 * b) * g (2 * b + 1) + f (2 * b + 1) * g (2 * b))) :
    Residues ρ 2 B h (C u * (P * Q)) := by
  intro b hb
  obtain ⟨p, hp⟩ := hf b hb
  obtain ⟨q, hq⟩ := hg b hb
  rw [block_two] at hp hq ⊢
  rw [hlo b hb, hhi b hb]
  simp only [C_add, C_mul]
  refine ⟨C u * (p * Q + (C (f (2 * b)) + C (f (2 * b + 1)) * X) * q + C (f (2 * b + 1)) * C (g (2 * b + 1))), ?_⟩
  linear_combination C u * Q * hp + C u * (C (f (2 * b)) + C (f (2 * b + 1)) * X) * hq

/-- Scaling the coefficients scales the polynomial. -/
theorem Residues.scale {c : R} (hf : Residues ρ n B f P) (hg : ∀ j < n * B, g j = c * f j) :
    Residues ρ n B g (C c * P) := by
  intro b hb
  have hblock : block g (n * b) n = C c * block f (n * b) n + C 0 * block f (n * b) n :=
    block_linear fun j hj => by
      rw [hg _ (by calc n * b + j < n * b + n := by omega
                     _ = n * (b + 1) := (Nat.mul_succ n b).symm
                     _ ≤ n * B := Nat.mul_le_mul_left n hb)]
      ring
  rw [hblock, C_0, zero_mul, add_zero, ← mul_sub]
  exact (hf b hb).mul_left _

end Levels

end Ntt
