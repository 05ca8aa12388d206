import ZedSecure.Rtl.Chacha20Block
import Mathlib.Tactic.FinCases
import Mathlib.Tactic.IntervalCases

/-! The forty half-round steps are the ten double rounds of the ChaCha20 block function, and
the block unit answers every start with the block of its operands. -/

namespace ZedSecure

open Clocked LittleEndian

/-- The block function on bit vectors. -/
def chacha20 (x : ChachaIn) : BitVec 512 :=
  BitVec.ofNat 512 (num (Rfc8439.block (lanes (k := 32) x.key) x.blockCounter (lanes (k := 12) x.nonce)))

namespace Chacha20Block

open Rfc8439 (Words innerBlock)

section Rounds

/-- Step `k` on the working words. -/
def halfRound (k : ℕ) (w : Words) : Words :=
  roundState { State.init with workingState := w, stepIndex := BitVec.ofNat 6 k }

/-- The first `k` steps. -/
def steps : ℕ → Words → Words
  | 0, w => w
  | k + 1, w => halfRound k (steps k w)

theorem roundState_eq (s : State) : roundState s = halfRound s.stepIndex.toNat s.workingState := by
  simp [halfRound, roundState]

/-- Only the two low bits of the step matter. -/
theorem halfRound_mod (m j : ℕ) (w : Words) : halfRound (4 * m + j) w = halfRound j w := by
  have hbit : ∀ k < 2, (BitVec.ofNat 6 (4 * m + j)).getLsbD k = (BitVec.ofNat 6 j).getLsbD k := by
    intro k hk
    simp only [BitVec.getLsbD_ofNat]
    interval_cases k
    · rw [Nat.testBit_zero, Nat.testBit_zero, show (4 * m + j) % 2 = j % 2 by omega]
    · rw [Nat.testBit_succ, Nat.testBit_zero, Nat.testBit_succ, Nat.testBit_zero,
        show (4 * m + j) / 2 % 2 = j / 2 % 2 by omega]
  simp only [halfRound, roundState, hbit 0 (by decide), hbit 1 (by decide)]

theorem words_eta (w : Words) :
    w = #v[w[0], w[1], w[2], w[3], w[4], w[5], w[6], w[7], w[8], w[9], w[10], w[11], w[12], w[13],
      w[14], w[15]] := by
  refine Vector.ext fun i hi => ?_
  interval_cases i <;> rfl

theorem rotl32_eq (x : BitVec 32) {n : ℕ} (h : n < 32) : rotl32 x n = x.rotateLeft n := by
  rw [BitVec.rotateLeft_def, Nat.mod_eq_of_lt h]
  rfl

/-- Four steps are a double round: the two halves of the columns, then of the diagonals. -/
theorem double_round (w : Words) :
    halfRound 3 (halfRound 2 (halfRound 1 (halfRound 0 w))) = innerBlock w := by
  rw [words_eta w]
  simp [halfRound, roundState, quarterRoundHalf, innerBlock, Rfc8439.quarterRound, Rfc8439.add,
    Rfc8439.mix, rotl32_eq]

theorem steps_eq (m : ℕ) (w : Words) : steps (4 * m) w = innerBlock^[m] w := by
  induction m with
  | zero => rfl
  | succ m ih =>
    rw [Function.iterate_succ_apply', ← ih, ← double_round]
    simp only [Nat.mul_succ, steps]
    rw [halfRound_mod m 3, halfRound_mod m 2, halfRound_mod m 1, ← halfRound_mod m 0]
    rfl

end Rounds

section Operands

theorem word_lanes {k : ℕ} (x : BitVec (8 * k)) {i : ℕ} (h : 4 * i + 4 ≤ k) :
    Rfc8439.word (lanes x) i = slice x (32 * i) 32 := by
  apply BitVec.eq_of_toNat_eq
  have hpow : 256 ^ (4 * i) = 2 ^ (32 * i) := by
    rw [pow_256, show 8 * (4 * i) = 32 * i by ring]
  rw [Rfc8439.word, lanes, drop_bytes (by omega), take_bytes (by omega), num_bytes, toNat_slice,
    BitVec.toNat_ofNat, hpow]
  exact Nat.mod_mod _ _

theorem load_eq (x : ChachaIn) :
    load x = Rfc8439.initial (lanes (k := 32) x.key) x.blockCounter (lanes (k := 12) x.nonce) := by
  unfold load Rfc8439.initial
  congr 1
  funext i
  fin_cases i <;> simp [word_lanes (k := 32), word_lanes (k := 12)]

theorem slice_output (w : Words) {j : ℕ} (h : j < 16) : slice (output w) (32 * j) 32 = w[j] := by
  rw [output]
  exact (slice_join _ h).trans (by simp [Nat.mod_eq_of_lt h])

/-- The output bytes are the serialized words. -/
theorem lanes_output (w : Words) : lanes (k := 64) (output w) = Rfc8439.serialize w := by
  have hword : ∀ j ∈ List.range 16,
      bytes 4 ((output w).toNat / 256 ^ (4 * j)) = bytes 4 (w.toList.getD j 0).toNat := by
    intro j hj
    have hlt := List.mem_range.mp hj
    have hpow : 256 ^ (4 * j) = 2 ^ (32 * j) := by
      rw [pow_256, show 8 * (4 * j) = 32 * j by ring]
    rw [← bytes_mod 4, hpow, show 256 ^ 4 = 2 ^ 32 by rfl, ← toNat_slice, slice_output w hlt]
    simp [List.getD_eq_getElem?_getD, hlt]
  have hmul := bytes_mul 4 16 (output w).toNat
  rw [List.flatMap_congr hword] at hmul
  rw [lanes, hmul, Rfc8439.serialize]
  conv_rhs => rw [words_eta w]
  rw [words_eta w]
  rfl

theorem lanes_chacha20 (x : ChachaIn) : lanes (k := 64) (chacha20 x) =
    Rfc8439.block (lanes (k := 32) x.key) x.blockCounter (lanes (k := 12) x.nonce) :=
  lanes_ofNat (k := 64) (Rfc8439.length_block _ _ _)

/-- Forty steps and the feed-forward addition give the block. -/
theorem output_eq (x : ChachaIn) :
    output ((steps 40 (load x)).zipWith (· + ·) (load x)) = chacha20 x := by
  apply lanes_inj (k := 64)
  rw [lanes_output, lanes_chacha20, load_eq, Rfc8439.block, steps_eq 10]

end Operands

section Unit

/-- Somewhere in the forty steps on the operands. -/
def Working (x : ChachaIn) (s : State) : Prop :=
  s.busy = true ∧ s.done = false ∧ s.initialState = load x ∧ s.stepIndex.toNat ≤ 40 ∧
    s.workingState = steps s.stepIndex.toNat (load x)

theorem next_idle {s : State} (h : s.busy = false) :
    (next s none).busy = false ∧ (next s none).done = false := by
  simp [next, h]

theorem next_start {s : State} (h : s.busy = false) (x : ChachaIn) :
    Working x (next s (some x)) := by
  simp [Working, next, h, steps]

/-- A start on the pins of a busy unit is not seen. -/
theorem next_busy {s : State} (h : s.busy = true) (start : Option ChachaIn) : next s start =
    if s.stepIndex = 40#6 then
      { s with block := output (s.workingState.zipWith (· + ·) s.initialState), busy := false, done := true }
    else { s with done := false, workingState := roundState s, stepIndex := s.stepIndex + 1#6 } := by
  unfold next
  rw [h]
  cases start <;> rfl

theorem next_working {s : State} {x : ChachaIn} (h : Working x s) (start : Option ChachaIn) :
    Working x (next s start) ∨ ((next s start).busy = false ∧ (next s start).done = true ∧
      (next s start).block = chacha20 x) := by
  obtain ⟨hb, -, hi, hle, hw⟩ := h
  rw [next_busy hb]
  split_ifs with h40
  · right
    refine ⟨rfl, rfl, ?_⟩
    rw [hw, hi, h40]
    exact output_eq x
  · left
    have hlt : s.stepIndex.toNat < 40 := by
      refine lt_of_le_of_ne hle fun heq => h40 (BitVec.eq_of_toNat_eq heq)
    have hinc : (s.stepIndex + 1#6).toNat = s.stepIndex.toNat + 1 := by
      rw [BitVec.toNat_add]
      exact Nat.mod_eq_of_lt (by simp; omega)
    refine ⟨hb, rfl, hi, ?_, ?_⟩
    · rw [hinc]
      exact hlt
    · rw [hinc, steps, ← hw]
      exact roundState_eq s

/-- The block unit answers each start with the block of its operands. -/
def unit : StartDone chacha20 Unit where
  σ := State
  init := .init
  next s start _ := next s start
  done s := s.done
  result s := s.block
  idle s := s.busy = false
  working := Working
  init_idle := rfl
  init_done := rfl
  idle_wait _ _ h := next_idle h
  idle_start _ x _ h := ⟨next_start h x, (next_start h x).2.1⟩
  working_done _ _ h := h.2.1
  working_next _ _ start _ h := next_working h start

/-- A block takes 41 edges after its start. -/
def timed : unit.Timed where
  left s := 40 - s.stepIndex.toNat
  bound := 40
  start_le _ _ _ _ := Nat.sub_le _ _
  next_lt s x start k hw hw' := by
    change 40 - (next s start).stepIndex.toNat < 40 - s.stepIndex.toNat
    obtain ⟨hb, -, -, hle, -⟩ := hw
    obtain ⟨-, hd', -⟩ : Working x (next s start) := hw'
    rw [next_busy hb] at hd' ⊢
    split_ifs at hd' ⊢ with h40
    have hlt : s.stepIndex.toNat < 40 := by
      refine lt_of_le_of_ne hle fun heq => h40 (BitVec.eq_of_toNat_eq heq)
    have hinc : (s.stepIndex + 1#6).toNat = s.stepIndex.toNat + 1 := by
      rw [BitVec.toNat_add]
      exact Nat.mod_eq_of_lt (by simp; omega)
    change 40 - (s.stepIndex + 1#6).toNat < _
    omega

end Unit

end Chacha20Block

end ZedSecure
