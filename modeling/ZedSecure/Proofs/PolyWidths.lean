import ZedSecure.Proofs.PolyLimbs

/-! The Poly1305 unit loses no bit before the final addition: every sum, product and carry fits
the register it goes to, and the limbs stay narrow enough for one conditional subtraction. -/

namespace ZedSecure

open Clocked LittleEndian

namespace Poly1305Fixed96

open Rfc8439 (p1305)

section Widths

/-- The numbers the next edge forms fit the widths of their registers, and the indices it selects
with stay inside the limb arrays. -/
def Fits (s : State) (start : Option PolyIn) : Prop :=
  match s.state with
  | .idle => ∀ x, start = some x → ∀ i < 5, (keyLimb x.oneTimeKey i).toNat * 5 < 2 ^ 29
  | .loadBlock => ∀ i < 5, (s.hLimb i).toNat + (messageLimb s i).toNat < 2 ^ 28
  | .select => s.termIndex.toNat < 5 ∧ s.outputIndex.toNat < 5
  | .multiply => s.mulAReg.toNat * s.mulBReg.toNat < 2 ^ 57
  | .accumulate => s.outputIndex.toNat < 5 ∧ s.accReg.toNat + s.productReg.toNat < 2 ^ 64
  | .norm0 => (s.dAcc 1).toNat + (s.dAcc 0).toNat / 2 ^ 26 < 2 ^ 64
  | .norm1 => (s.dAcc 2).toNat + (s.dAcc 1).toNat / 2 ^ 26 < 2 ^ 64
  | .norm2 => (s.dAcc 3).toNat + (s.dAcc 2).toNat / 2 ^ 26 < 2 ^ 64
  | .norm3 => (s.dAcc 4).toNat + (s.dAcc 3).toNat / 2 ^ 26 < 2 ^ 64
  | .norm4 => (s.dAcc 0).toNat + (s.dAcc 4).toNat / 2 ^ 26 * 5 < 2 ^ 64
  | .norm5 => (s.dAcc 1).toNat + (s.dAcc 0).toNat / 2 ^ 26 < 2 ^ 27 ∧
      ∀ i, 2 ≤ i → i < 5 → (s.dAcc i).toNat < 2 ^ 27
  | .pack => (s.hLimb 2).toNat + (s.hLimb 1).toNat / 2 ^ 26 < 2 ^ 27 ∧
      (s.hLimb 3).toNat + (packedLimb2 s).toNat / 2 ^ 26 < 2 ^ 27 ∧
      (s.hLimb 4).toNat + (packedLimb3 s).toNat / 2 ^ 26 < 2 ^ 27 ∧ value (nat s.hLimb) < 2 ^ 131
  | .reduce => s.hValueReg.toNat < 2 * p1305
  | .final => s.canonicalReg.toNat < p1305

/-- Between the blocks only limb 1 may pass 26 bits, and the number is below twice the prime. -/
structure Narrow (s : State) : Prop where
  others : ∀ i < 5, i ≠ 1 → (s.hLimb i).toNat < 2 ^ 26
  first : (s.hLimb 1).toNat < 2 ^ 26 + 2 ^ 11
  value : value (nat s.hLimb) < 2 * p1305

theorem Tight.narrow {s : State} (h : Tight (nat s.hLimb)) : Narrow s := by
  obtain ⟨h0, h1, h2, h3, h4⟩ := h
  refine ⟨?_, h1, ?_⟩
  · intro i hi hne
    interval_cases i
    exacts [h0, absurd rfl hne, h2, h3, h4]
  · unfold value p1305
    omega

variable {x : PolyIn} {s : State}

theorem loadBlock_fits (hT : Tight (nat s.hLimb)) {i : ℕ} (hi : i < 5) :
    (s.hLimb i).toNat + (messageLimb s i).toNat < 2 ^ 28 := by
  have hm := (messageLimb s i).isLt
  have hh : (s.hLimb i).toNat < 2 ^ 26 + 2 ^ 11 := by
    by_cases h1 : i = 1
    · rw [h1]
      exact hT.narrow.first
    · have := hT.narrow.others i hi h1
      omega
  omega

theorem multiply_fits (s : State) : s.mulAReg.toNat * s.mulBReg.toNat < 2 ^ 57 := by
  have hA := s.mulAReg.isLt
  have hB := s.mulBReg.isLt
  calc s.mulAReg.toNat * s.mulBReg.toNat < 2 ^ 28 * 2 ^ 29 := Nat.mul_lt_mul'' hA hB
    _ = 2 ^ 57 := by norm_num

theorem accumulate_fits (hP : Products x s) (hprod : s.productReg.toNat =
    term (nat s.aLimb) (nat s.rLimb) s.outputIndex.toNat s.termIndex.toNat) :
    s.accReg.toNat + s.productReg.toNat < 2 ^ 64 := by
  have ht := hP.term
  have hlt := hP.sum_lt hP.output (i := s.termIndex.toNat + 1) (by omega)
  rw [sum_succ, ← hP.acc, ← hprod] at hlt
  omega

theorem Carried.fits {i : ℕ} (hc : Carried x s i) (hi : i < 4) :
    (s.dAcc (i + 1)).toNat + (s.dAcc i).toNat / 2 ^ 26 < 2 ^ 64 := by
  have hmid := hc.mid
  have hhigh := hc.high (i + 1) (Nat.lt_succ_self i) (by omega)
  omega

theorem pack_fits (hT : Tight (nat s.hLimb)) :
    (s.hLimb 2).toNat + (s.hLimb 1).toNat / 2 ^ 26 < 2 ^ 27 ∧
      (s.hLimb 3).toNat + (packedLimb2 s).toNat / 2 ^ 26 < 2 ^ 27 ∧
      (s.hLimb 4).toNat + (packedLimb3 s).toNat / 2 ^ 26 < 2 ^ 27 ∧
      value (nat s.hLimb) < 2 ^ 131 := by
  have hv := hT.narrow.value
  obtain ⟨-, h1, h2, h3, h4⟩ := hT
  have hp2 := (packedLimb2 s).isLt
  have hp3 := (packedLimb3 s).isLt
  unfold nat at h1 h2 h3 h4
  unfold p1305 at hv
  refine ⟨by omega, by omega, by omega, by omega⟩

/-- The invariant of the operation gives every width. -/
theorem Working.fits (h : Working x s) (start : Option PolyIn) : Fits s start := by
  obtain ⟨hL, hS⟩ := h
  unfold Stage at hS
  unfold Fits
  cases hstate : s.state <;> simp only [hstate] at hS ⊢
  case loadBlock => exact fun i hi => loadBlock_fits hS.1 hi
  case select => exact ⟨hS.term, hS.output⟩
  case multiply => exact multiply_fits s
  case accumulate => exact ⟨hS.1.output, accumulate_fits hS.1 hS.2⟩
  case norm0 => exact hS.fits (by decide)
  case norm1 => exact hS.fits (by decide)
  case norm2 => exact hS.fits (by decide)
  case norm3 => exact hS.fits (by decide)
  case norm4 =>
    have hmid := hS.mid
    have hlow := hS.low 0 (by decide)
    omega
  case norm5 =>
    obtain ⟨hd, hd0, -⟩ := hS
    have hd1 := hd 1 (by decide) (by decide)
    refine ⟨by omega, ?_⟩
    intro i hi hi5
    have := hd i hi5 (by omega)
    omega
  case pack => exact pack_fits hS.1
  case reduce =>
    have hlt := hS.1
    unfold p1305
    omega
  case final =>
    rw [hS]
    exact accum_lt x 6

theorem start_fits (hstate : s.state = .idle) (start : Option PolyIn) : Fits s start := by
  rw [Fits, hstate]
  intro a _ i _
  have := (keyLimb a.oneTimeKey i).isLt
  omega

end Widths

section Runs

variable {x : PolyIn} {s : State}

/-- Only a start and the end of a block write the limbs. -/
theorem hLimb_next (start : Option PolyIn) (hidle : s.state ≠ .idle) (hnorm : s.state ≠ .norm5) :
    (next s start).hLimb = s.hLimb := by
  cases hstate : s.state <;> simp only [next, hstate]
  case idle => exact absurd hstate hidle
  case norm5 => exact absurd hstate hnorm
  case accumulate => split_ifs <;> rfl

theorem tight_next (h : Working x s) (hT : Tight (nat s.hLimb)) (start : Option PolyIn) :
    Tight (nat (next s start).hLimb) := by
  by_cases hnorm : s.state = .norm5
  · -- the limbs are checked where the next stage uses them
    rcases (working_next h : Working x (next s start) ∨ _) with ⟨-, hS⟩ | ⟨hidle, -, -⟩
    · by_cases hlast : s.blockIndex = 5#3
      · rw [Stage, show (next s start).state = .pack by simp [next, hnorm, hlast]] at hS
        exact hS.1
      · rw [Stage, show (next s start).state = .loadBlock by simp [next, hnorm, hlast]] at hS
        exact hS.1
    · simp only [next, hnorm] at hidle
      split_ifs at hidle
  · have hidle : s.state ≠ .idle := by
      intro hidle
      have hS := h.2
      rwa [Stage, hidle] at hS
    rwa [hLimb_next start hidle hnorm]

/-- The limbs stay tight from a start to its answer. -/
theorem tight_after {n : ℕ} {ins : ℕ → Option PolyIn × Unit} (hT : Tight (nat s.hLimb))
    (hrun : ∀ i < n, Working x (unit.after s ins i)) {i : ℕ} (hi : i ≤ n) :
    Tight (nat (unit.after s ins i).hLimb) := by
  induction i with
  | zero => exact hT
  | succ i ih => exact tight_next (hrun i (by omega)) (ih (by omega)) (ins i).1

theorem start_tight (hidle : s.state = .idle) (x : PolyIn) : Tight (nat (next s (some x)).hLimb) := by
  have hzero : (next s (some x)).hLimb = fun _ => 0 := by simp [next, hidle]
  rw [hzero]
  refine ⟨?_, ?_, ?_, ?_, ?_⟩ <;> exact Nat.pos_of_ne_zero (by decide)

/-- A key and a message whose first block carries limb 1 up to bit 26. -/
def carryInput : PolyIn :=
  ⟨0x0fffff00000000000000000000000001#256, 0xed7304c9a3b31#768⟩

/-- Started from any idle state, and whatever is on the start pins meanwhile, the unit answers within
497 edges with the tag of its operands; up to the answer every number fits its
register and the limbs are narrow. Limb 1 does reach bit 26. -/
theorem tag_exact :
    (∀ s : State, s.state = .idle → ∀ (x : PolyIn) (ins : ℕ → Option PolyIn × Unit),
      Fits s (some x) ∧ ∃ n ≤ 497,
        (∀ i < n, Fits (unit.after (next s (some x)) ins i) (ins i).1 ∧
          Narrow (unit.after (next s (some x)) ins i) ∧ (unit.after (next s (some x)) ins i).done = false) ∧
        (unit.after (next s (some x)) ins n).done = true ∧
        lanes (k := 16) (unit.after (next s (some x)) ins n).tag =
          Rfc8439.mac (lanes (k := 32) x.oneTimeKey) (lanes (k := 96) x.message)) ∧
    ∃ n, 2 ^ 26 ≤ ((unit.after (next .init (some carryInput)) (fun _ => (none, ())) n).hLimb 1).toNat := by
  refine ⟨?_, ?_⟩
  · intro s hidle x ins
    refine ⟨start_fits hidle _, ?_⟩
    obtain ⟨n, hn, hrun, -, hdone, htag⟩ := timed.answers (start_next hidle x) ins
    have hstart : timed.left (next s (some x)) ≤ 496 := timed.start_le s x () hidle
    refine ⟨n, by omega, ?_, hdone, ?_⟩
    · intro i hi
      have hT := tight_after (start_tight hidle x) hrun hi.le
      exact ⟨(hrun i hi).fits _, hT.narrow, (hrun i hi).1.done⟩
    · have htag' : (unit.after (next s (some x)) ins n).tag = poly1305 x := htag
      rw [htag', poly1305, lanes_ofNat (k := 16) (Rfc8439.length_mac _ _)]
  · exact ⟨82, by decide +kernel⟩

/-- The tag of `carryInput` from reset. -/
theorem tag_exact_carryInput : ∃ n ≤ 497,
    (unit.after (next .init (some carryInput)) (fun _ => (none, ())) n).done = true ∧
    lanes (k := 16) (unit.after (next .init (some carryInput)) (fun _ => (none, ())) n).tag =
      Rfc8439.mac (lanes (k := 32) carryInput.oneTimeKey) (lanes (k := 96) carryInput.message) := by
  obtain ⟨-, n, hn, -, hanswer⟩ := tag_exact.1 .init rfl carryInput fun _ => (none, ())
  exact ⟨n, hn, hanswer⟩

end Runs

end Poly1305Fixed96

end ZedSecure
