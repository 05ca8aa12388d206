import Mathlib.Tactic.FinCases
import ZedSecure.Clocked.StartDone
import ZedSecure.Crypto.Fips202
import ZedSecure.Rtl.KeccakF1600

/-! The lane arithmetic of one clock is one round of FIPS 202, and the permutation unit answers
every start with Keccak-f of its operand. -/

namespace ZedSecure

open Clocked

namespace KeccakF1600

open Fips202 (StateArray keccakF)

section Lanes

/-- The lanes hold the array. -/
def Lanes (a : ℕ → BitVec 64) (A : StateArray) : Prop :=
  ∀ (x y : Fin 5) (z : Fin 64), (a (x.val + 5 * y.val)).getLsbD z.val = A x y z

theorem lanes_slice (S : BitVec 1600) : Lanes (fun i => slice S (64 * i) 64) (Fips202.array S) := by
  intro x y z
  rw [getLsbD_slice, Fips202.array, Nat.add_comm x.val]
  simp

theorem getLsbD_rotl64 (v : BitVec 64) (k : ℕ) (hk : k < 64) (z : Fin 64) :
    (rotl64 v k).getLsbD z.val = v.getLsbD (z - Fin.ofNat 64 k).val := by
  have hz := z.isLt
  have hsub : (z - Fin.ofNat 64 k).val = (64 - k % 64 + z.val) % 64 := rfl
  rw [hsub, Nat.mod_eq_of_lt hk]
  unfold rotl64
  split_ifs with h0
  · subst h0
    congr 1
    omega
  · rw [BitVec.getLsbD_or, BitVec.getLsbD_shiftLeft, BitVec.getLsbD_ushiftRight]
    by_cases hlt : z.val < k
    · simp [hlt]
      congr 1
      omega
    · have hhigh : v.getLsbD (64 - k + z.val) = false := BitVec.getLsbD_of_ge _ _ (by omega)
      simp [hlt, hhigh]
      congr 1
      omega

theorem lanes_theta {a : ℕ → BitVec 64} {A : StateArray} (h : Lanes a A) :
    Lanes (thetaLanes a) (Fips202.theta A) := by
  intro x y z
  have hx := x.isLt
  have hcol : ∀ (w : Fin 5) (u : Fin 64),
      (a w.val ^^^ a (w.val + 5) ^^^ a (w.val + 10) ^^^ a (w.val + 15) ^^^ a (w.val + 20)).getLsbD u.val =
        (A w 0 u ^^ A w 1 u ^^ A w 2 u ^^ A w 3 u ^^ A w 4 u) := by
    intro w u
    rw [← h w 0 u, ← h w 1 u, ← h w 2 u, ← h w 3 u, ← h w 4 u]
    simp
  have hmod : (x.val + 5 * y.val) % 5 = x.val := by omega
  have hleft : (x.val + 4) % 5 = (x - 1).val := by rw [Fin.sub_def]; simp; omega
  have hright : (x.val + 1) % 5 = (x + 1).val := rfl
  unfold thetaLanes
  simp only []
  rw [hmod, hleft, hright, BitVec.getLsbD_xor, BitVec.getLsbD_xor, getLsbD_rotl64 _ 1 (by decide), hcol,
    hcol, h x y z]
  rfl

/-- Where the loop puts each lane. -/
theorem rhoPiLanes_eq (a : ℕ → BitVec 64) (x y : Fin 5) : rhoPiLanes a (x.val + 5 * y.val) =
    rotl64 (a ((x + 3 * y).val + 5 * x.val)) (rhoOffset ((x + 3 * y).val + 5 * x.val)) := by
  fin_cases x <;> fin_cases y <;> rfl

theorem rhoOffset_eq : ∀ x y : Fin 5, rhoOffset (x.val + 5 * y.val) < 64 ∧
    Fin.ofNat 64 (rhoOffset (x.val + 5 * y.val)) = Fin.ofNat 64 (Fips202.rhoOffset x y) := by
  decide

theorem lanes_rhoPi {a : ℕ → BitVec 64} {A : StateArray} (h : Lanes a A) :
    Lanes (rhoPiLanes a) (Fips202.pi (Fips202.rho A)) := by
  intro x y z
  obtain ⟨hlt, hoff⟩ := rhoOffset_eq (x + 3 * y) x
  rw [rhoPiLanes_eq, getLsbD_rotl64 _ _ hlt, hoff]
  exact h (x + 3 * y) x _

theorem lanes_chi {a : ℕ → BitVec 64} {A : StateArray} (h : Lanes a A) :
    Lanes (chiLanes a) (Fips202.chi A) := by
  intro x y z
  have hx := x.isLt
  have hmod : (x.val + 5 * y.val) % 5 = x.val := by omega
  have hdiv : (x.val + 5 * y.val) / 5 = y.val := by omega
  have h1 : (x.val + 1) % 5 = (x + 1).val := rfl
  have h2 : (x.val + 2) % 5 = (x + 2).val := rfl
  unfold chiLanes Fips202.chi
  simp only []
  rw [hmod, hdiv, h1, h2, ← h x y z, ← h (x + 1) y z, ← h (x + 2) y z]
  simp

theorem roundConstant_eq : ∀ (ir : Fin 24) (z : Fin 64),
    (roundConstant (BitVec.ofNat 5 ir.val)).getLsbD z.val = Fips202.roundConstant ir.val z := by
  decide +kernel

theorem lanes_iota {a : ℕ → BitVec 64} {A : StateArray} (h : Lanes a A) {r : BitVec 5}
    (hr : r.toNat < 24) : Lanes (iotaLanes a r) (Fips202.iota r.toNat A) := by
  intro x y z
  have hconst := roundConstant_eq ⟨r.toNat, hr⟩ z
  rw [BitVec.ofNat_toNat, BitVec.setWidth_eq] at hconst
  unfold iotaLanes Fips202.iota
  by_cases h0 : x = 0 ∧ y = 0
  · obtain ⟨rfl, rfl⟩ := h0
    have hzero : ((0 : Fin 5).val + 5 * (0 : Fin 5).val) = 0 := rfl
    rw [if_pos hzero, if_pos ⟨rfl, rfl⟩, BitVec.getLsbD_xor, hconst, ← h 0 0 z]
    rfl
  · have hne : ¬ x.val + 5 * y.val = 0 := by
      intro hz
      exact h0 ⟨Fin.ext (by simp; omega), Fin.ext (by simp; omega)⟩
    rw [if_neg hne, if_neg h0]
    exact h x y z

/-- The lanes side by side are the string of the array. -/
theorem join_lanes {a : ℕ → BitVec 64} {A : StateArray} (h : Lanes a A) :
    join 64 25 a = Fips202.string A := by
  have harray : Fips202.array (join 64 25 a) = A := by
    funext x y z
    have hidx : x.val + 5 * y.val < 25 := by omega
    have hbit := congrArg (fun v => v.getLsbD z.val) (slice_join (n := 64) (k := 25) a hidx)
    simp only [getLsbD_slice, z.isLt, decide_true, Bool.true_and] at hbit
    rw [h x y z] at hbit
    rw [← hbit, Fips202.array, Nat.add_comm x.val]
  rw [← harray, Fips202.string_array]

theorem nextState_eq {s : State} (h : s.roundIndex.toNat < 24) :
    nextState s = Fips202.round s.stateReg s.roundIndex.toNat :=
  join_lanes (lanes_iota (lanes_chi (lanes_rhoPi (lanes_theta (lanes_slice s.stateReg)))) h)

end Lanes

section Unit

/-- The first `k` rounds. -/
def rounds (k : ℕ) (S : BitVec 1600) : BitVec 1600 := (List.range k).foldl Fips202.round S

theorem rounds_succ (k : ℕ) (S : BitVec 1600) : rounds (k + 1) S = Fips202.round (rounds k S) k := by
  simp only [rounds, List.range_succ, List.foldl_append, List.foldl_cons, List.foldl_nil]

/-- Somewhere in the 24 rounds on `x`. -/
def Working (x : BitVec 1600) (s : State) : Prop :=
  s.busy = true ∧ s.done = false ∧ s.roundIndex.toNat < 24 ∧ s.stateReg = rounds s.roundIndex.toNat x

theorem next_busy {s : State} (h : s.busy = true) (start : Option (BitVec 1600)) : next s start =
    if s.roundIndex = 23#5 then { s with stateO := nextState s, busy := false, done := true }
    else { s with done := false, stateReg := nextState s, roundIndex := s.roundIndex + 1#5 } := by
  unfold next
  rw [h]
  cases start <;> rfl

theorem roundIndex_succ {s : State} (hlt : s.roundIndex.toNat < 24) (h : s.roundIndex ≠ 23#5) :
    (s.roundIndex + 1#5).toNat = s.roundIndex.toNat + 1 ∧ s.roundIndex.toNat + 1 < 24 := by
  have hne : s.roundIndex.toNat ≠ 23 := fun heq => h (BitVec.eq_of_toNat_eq heq)
  rw [BitVec.toNat_add, BitVec.toNat_ofNat]
  omega

theorem next_working {s : State} {x : BitVec 1600} (h : Working x s) (start : Option (BitVec 1600)) :
    Working x (next s start) ∨ ((next s start).busy = false ∧ (next s start).done = true ∧
      (next s start).stateO = keccakF x) := by
  obtain ⟨hb, -, hlt, hw⟩ := h
  have hround := nextState_eq hlt
  rw [hw, ← rounds_succ] at hround
  rw [next_busy hb]
  split_ifs with h23
  · right
    refine ⟨rfl, rfl, ?_⟩
    have hlast : s.roundIndex.toNat + 1 = 24 := by rw [h23]; rfl
    rw [hlast] at hround
    exact hround
  · left
    obtain ⟨hinc, hlt'⟩ := roundIndex_succ hlt h23
    refine ⟨hb, rfl, ?_, ?_⟩
    · change (s.roundIndex + 1#5).toNat < 24
      omega
    · change nextState s = rounds (s.roundIndex + 1#5).toNat x
      rw [hinc, hround]

/-- The permutation unit. -/
def unit : StartDone keccakF Unit where
  σ := State
  init := .init
  next s start _ := next s start
  done s := s.done
  result s := s.stateO
  idle s := s.busy = false
  working := Working
  init_idle := rfl
  init_done := rfl
  idle_wait s _ h := by simp [next, h]
  idle_start s x _ h := by simp [Working, next, h, rounds]
  working_done _ _ h := h.2.1
  working_next _ _ start _ h := next_working h start

/-- A permutation takes 24 edges after its start. -/
def timed : unit.Timed where
  left s := 23 - s.roundIndex.toNat
  bound := 23
  start_le _ _ _ _ := Nat.sub_le _ _
  next_lt s x start k hw hw' := by
    change 23 - (next s start).roundIndex.toNat < 23 - s.roundIndex.toNat
    obtain ⟨hb, -, hlt, -⟩ := hw
    obtain ⟨-, hd', -⟩ : Working x (next s start) := hw'
    rw [next_busy hb] at hd' ⊢
    split_ifs at hd' ⊢ with h23
    obtain ⟨hinc, hlt'⟩ := roundIndex_succ hlt h23
    change 23 - (s.roundIndex + 1#5).toNat < _
    omega

end Unit

end KeccakF1600

end ZedSecure
