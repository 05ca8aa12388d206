import ZedSecure.Proofs.PolyRuns

/-! The base multiplication in its eight stages. -/

namespace ZedSecure

open Clocked

namespace PolyAccelerator

open PolyLoops

variable {s : State} {i : In} {v : Bool} {t : ℕ}

section Holds

variable {x y x' y' a0 a1 b0 b1 w : BitVec 16} {k : ℕ}

/-- How far a product has come in its reduction. -/
def Reduction.Holds (x y : BitVec 16) : ℕ → Reduction → Prop
  | 0, r => r.prodReg = product x y
  | 1, r => r.prodD1 = product x y ∧ r.multReg = montMultiplier (product x y)
  | 2, r => r.pReg = fqmul x y
  | _, _ => False

theorem Reduction.next_first (r : Reduction) : (r.next x y).Holds x y 0 := rfl

theorem Reduction.Holds.next {r : Reduction} (hk : k < 2) (h : r.Holds x y k) : (r.next x' y').Holds x y (k + 1) := by
  interval_cases k
  · exact ⟨h, congrArg montMultiplier h⟩
  · obtain ⟨hp, hm⟩ := h
    change fqResult r.prodD1 r.multReg = _
    rw [hp, hm, fqmul]

/-- All four products of a pair. -/
def Products (a0 a1 b0 b1 : BitVec 16) (k : ℕ) (m : Basemul) : Prop :=
  m.p11.Holds a1 b1 k ∧ m.p00.Holds a0 b0 k ∧ m.p01.Holds a0 b1 k ∧ m.p10.Holds a1 b0 k

/-- What the stages hold of a pair. -/
def PairHolds (a0 a1 b0 b1 w : BitVec 16) : ℕ → State → Prop
  | 1, s => aDout0 s = a0 ∧ aDout1 s = a1 ∧ (s.half s.setQ).bDout0 = b0 ∧ (s.half s.setQ).bDout1 = b1
  | 2, s => s.bm.a0Reg = a0 ∧ s.bm.a1Reg = a1 ∧ s.bm.b0Reg = b0 ∧ s.bm.b1Reg = b1
  | 3, s => Products a0 a1 b0 b1 0 s.bm ∧ s.bm.zetaReg = w
  | 4, s => Products a0 a1 b0 b1 1 s.bm ∧ s.bm.zetaD1 = w
  | 5, s => Products a0 a1 b0 b1 2 s.bm ∧ s.bm.zetaD2 = w
  | 6, s => s.bm.zprodReg = product (fqmul a1 b1) w ∧ s.bm.p00D1 = fqmul a0 b0 ∧ s.bm.p01D1 = fqmul a0 b1 ∧
      s.bm.p10D1 = fqmul a1 b0
  | 7, s => (s.bm.zprodD1 = product (fqmul a1 b1) w ∧ s.bm.zmultReg = montMultiplier (product (fqmul a1 b1) w)) ∧
      s.bm.p00D2 = fqmul a0 b0 ∧ s.bm.p01D2 = fqmul a0 b1 ∧ s.bm.p10D2 = fqmul a1 b0
  | 8, s => s.bm.p11zReg = fqmul (fqmul a1 b1) w ∧ s.bm.p00D3 = fqmul a0 b0 ∧ s.bm.p01D3 = fqmul a0 b1 ∧
      s.bm.p10D3 = fqmul a1 b0
  | _, _ => False

theorem Basemul.next_run {m : Basemul} {c : Ctrl} {d0 d1 e0 e1 : BitVec 16}
    (h : c.state = .basemulRun ∨ c.state = .basemulDrain) : m.next c d0 d1 e0 e1 =
    { idxD := Flow.shift 8 m.idxD c.bmPtr
      vldD := Flow.shift 8 m.vldD (c.state = .basemulRun)
      a0Reg := d0
      a1Reg := d1
      b0Reg := e0
      b1Reg := e1
      p11 := m.p11.next m.a1Reg m.b1Reg
      p00 := m.p00.next m.a0Reg m.b0Reg
      p01 := m.p01.next m.a0Reg m.b1Reg
      p10 := m.p10.next m.a1Reg m.b0Reg
      p00D1 := m.p00.pReg
      p00D2 := m.p00D1
      p00D3 := m.p00D2
      p01D1 := m.p01.pReg
      p01D2 := m.p01D1
      p01D3 := m.p01D2
      p10D1 := m.p10.pReg
      p10D2 := m.p10D1
      p10D3 := m.p10D2
      zetaReg := pairZeta (m.idxD 2)
      zetaD1 := m.zetaReg
      zetaD2 := m.zetaD1
      zprodReg := product m.p11.pReg m.zetaD2
      zprodD1 := m.zprodReg
      zmultReg := montMultiplier m.zprodReg
      p11zReg := fqResult m.zprodD1 m.zmultReg } := by
  rcases h with h | h <;> simp only [Basemul.next, h]

theorem PairHolds.next (hst : s.ctrl.state = .basemulRun ∨ s.ctrl.state = .basemulDrain) (hk : 1 ≤ k) (hk8 : k < 8)
    (hw : k = 2 → Basemul.pairZeta (s.bm.idxD 2) = w) (h : PairHolds a0 a1 b0 b1 w k s) :
    PairHolds a0 a1 b0 b1 w (k + 1) (next s i) := by
  have hbm : (PolyAccelerator.next s i).bm = _ := Basemul.next_run hst
  interval_cases k
  · obtain ⟨h0, h1, h2, h3⟩ := h
    exact ⟨by rw [hbm]; exact h0, by rw [hbm]; exact h1, by rw [hbm]; exact h2, by rw [hbm]; exact h3⟩
  · obtain ⟨h0, h1, h2, h3⟩ := h
    refine ⟨?_, by rw [hbm]; exact hw rfl⟩
    rw [hbm, ← h0, ← h1, ← h2, ← h3]
    exact ⟨rfl, rfl, rfl, rfl⟩
  · obtain ⟨⟨h11, h00, h01, h10⟩, hz⟩ := h
    refine ⟨?_, by rw [hbm]; exact hz⟩
    rw [hbm]
    exact ⟨h11.next (by decide), h00.next (by decide), h01.next (by decide), h10.next (by decide)⟩
  · obtain ⟨⟨h11, h00, h01, h10⟩, hz⟩ := h
    refine ⟨?_, by rw [hbm]; exact hz⟩
    rw [hbm]
    exact ⟨h11.next (by decide), h00.next (by decide), h01.next (by decide), h10.next (by decide)⟩
  · obtain ⟨⟨h11, h00, h01, h10⟩, hz⟩ := h
    refine ⟨?_, by rw [hbm]; exact h00, by rw [hbm]; exact h01, by rw [hbm]; exact h10⟩
    rw [hbm, ← show s.bm.p11.pReg = _ from h11, ← hz]
  · obtain ⟨hp, h00, h01, h10⟩ := h
    refine ⟨⟨by rw [hbm]; exact hp, by rw [hbm]; exact congrArg montMultiplier hp⟩, by rw [hbm]; exact h00,
      by rw [hbm]; exact h01, by rw [hbm]; exact h10⟩
  · obtain ⟨⟨hp, hm⟩, h00, h01, h10⟩ := h
    refine ⟨?_, by rw [hbm]; exact h00, by rw [hbm]; exact h01, by rw [hbm]; exact h10⟩
    rw [hbm]
    change fqResult s.bm.zprodD1 s.bm.zmultReg = _
    rw [hp, hm]
    rfl

end Holds

section Line

variable {a b r : Coeffs}

/-- The base multiplication at edge `t`. -/
def BasemulAt (t : ℕ) (c : Ctrl) : Prop :=
  if t < 128 then c.state = .basemulRun ∧ c.busy = true ∧ c.done = false ∧ c.bmPtr = BitVec.ofNat 7 t
  else if t < 136 then c.state = .basemulDrain ∧ c.busy = true ∧ c.done = false
  else Finished c

theorem BasemulAt.working {c : Ctrl} (ht : t < 136) (h : BasemulAt t c) :
    (c.state = .basemulRun ∨ c.state = .basemulDrain) ∧ c.busy = true ∧ c.done = false := by
  unfold BasemulAt at h
  split_ifs at h
  · exact ⟨Or.inl h.1, h.2.1, h.2.2.1⟩
  · exact ⟨Or.inr h.1, h.2.1, h.2.2⟩

theorem pair_address : ∀ j < 128, 2#8 * (BitVec.ofNat 7 j).setWidth 8 = BitVec.ofNat 8 (2 * j) ∧
    2#8 * (BitVec.ofNat 7 j).setWidth 8 + 1#8 = BitVec.ofNat 8 (2 * j + 1) := by decide +kernel

theorem pairZeta_ofNat : ∀ j < 128, Basemul.pairZeta (BitVec.ofNat 7 j) = PolyLoops.pairZeta j := by decide +kernel

theorem index_last : ∀ j < 128, BitVec.ofNat 7 j = 127 ↔ j = 127 := by decide +kernel

theorem index_next : ∀ j < 127, BitVec.ofNat 7 j + 1 = BitVec.ofNat 7 (j + 1) := by decide +kernel

/-- The base multiplication as a pass over the results. -/
def basemulPass (a b : Coeffs) : Pass (BitVec 8) (BitVec 16) :=
  Pass.pairs (fun j => BitVec.ofNat 8 (2 * j)) (fun j => BitVec.ofNat 8 (2 * j + 1))
    (fun j _ _ => fqmul (fqmul (a (BitVec.ofNat 8 (2 * j + 1))) (b (BitVec.ofNat 8 (2 * j + 1)))) (PolyLoops.pairZeta j) +
      fqmul (a (BitVec.ofNat 8 (2 * j))) (b (BitVec.ofNat 8 (2 * j))))
    fun j _ _ => fqmul (a (BitVec.ofNat 8 (2 * j))) (b (BitVec.ofNat 8 (2 * j + 1))) +
      fqmul (a (BitVec.ofNat 8 (2 * j + 1))) (b (BitVec.ofNat 8 (2 * j)))

theorem basemul_eq (a b r : Coeffs) : basemul a b r = (basemulPass a b).after r 128 := rfl

theorem basemulPass_local : (basemulPass a b).Local 128 := by
  apply Pass.pairs_local
  · intro j hj k hk h
    have := ofNat_inj (by omega) (by omega) h
    omega
  · intro j hj k hk h
    have := ofNat_inj (by omega) (by omega) h
    omega
  · intro j hj k hk h
    have := ofNat_inj (by omega) (by omega) h
    omega

theorem basemul_lo {j : ℕ} (hj : j < 128) : basemul a b r (BitVec.ofNat 8 (2 * j)) =
    fqmul (fqmul (a (BitVec.ofNat 8 (2 * j + 1))) (b (BitVec.ofNat 8 (2 * j + 1)))) (PolyLoops.pairZeta j) +
      fqmul (a (BitVec.ofNat 8 (2 * j))) (b (BitVec.ofNat 8 (2 * j))) := by
  rw [basemul_eq, basemulPass_local.after_done le_rfl hj (Set.mem_insert _ _)]
  exact Pass.pairs_lo r fun h => by
    have := ofNat_inj (by omega) (by omega) h
    omega

theorem basemul_hi {j : ℕ} (hj : j < 128) : basemul a b r (BitVec.ofNat 8 (2 * j + 1)) =
    fqmul (a (BitVec.ofNat 8 (2 * j))) (b (BitVec.ofNat 8 (2 * j + 1))) +
      fqmul (a (BitVec.ofNat 8 (2 * j + 1))) (b (BitVec.ofNat 8 (2 * j))) := by
  rw [basemul_eq, basemulPass_local.after_done le_rfl hj (Set.mem_insert_of_mem _ rfl)]
  exact Pass.pairs_hi r

/-- Every result is written. -/
theorem basemul_congr (r r' : Coeffs) : basemul a b r = basemul a b r' := by
  funext x
  have hx := x.isLt
  have hback : x = BitVec.ofNat 8 x.toNat := by rw [BitVec.ofNat_toNat, BitVec.setWidth_eq]
  rcases Nat.mod_two_eq_zero_or_one x.toNat with h | h
  · rw [hback, show x.toNat = 2 * (x.toNat / 2) by omega, basemul_lo (by omega), basemul_lo (by omega)]
  · rw [hback, show x.toNat = 2 * (x.toNat / 2) + 1 by omega, basemul_hi (by omega), basemul_hi (by omega)]

def basemulLine (v : Bool) (a b : Coeffs) : Pipeline State (BitVec 8) (BitVec 16) where
  depth := 8
  count := 128
  ctrl t s := BasemulAt t s.ctrl ∧ (s.half v).bankA = a ∧ (s.half v).bankB = b
  item k j s := (s.bm.idxD k = BitVec.ofNat 7 j ∧ s.bm.vldD k = true) ∧
    PairHolds (a (BitVec.ofNat 8 (2 * j))) (a (BitVec.ofNat 8 (2 * j + 1))) (b (BitVec.ofNat 8 (2 * j)))
      (b (BitVec.ofNat 8 (2 * j + 1))) (PolyLoops.pairZeta j) k s
  bubble k s := s.bm.vldD k = false
  mem s := (s.half v).bankR

theorem retire_basemul {c : Ctrl} (h : c.state = .basemulRun ∨ c.state = .basemulDrain) (w : Flow) (p : Port) :
    retire c w p = p := by
  rcases h with h | h <;> simp only [retire, h]

theorem reads_rWe (c : Ctrl) : (reads c).rWe0 = false ∧ (reads c).rWe1 = false := by
  unfold reads
  cases c.state <;> exact ⟨rfl, rfl⟩

/-- The operands stay as they are. -/
theorem basemul_banks (hv : i.set = v) (hst : s.ctrl.state = .basemulRun ∨ s.ctrl.state = .basemulDrain) :
    ((next s i).half v).bankA = (s.half v).bankA ∧ ((next s i).half v).bankB = (s.half v).bankB := by
  rw [next_half hv]
  refine ⟨Half.compute_bankA_none ?_ ?_, rfl⟩
  · rw [port, retire_basemul hst, retireR]
    split_ifs <;> exact (reads_we _).1
  · rw [port, retire_basemul hst, retireR]
    split_ifs <;> exact (reads_we _).2

theorem basemul_writes (hv : i.set = v) (hvld : s.bm.vldD 8 = true) :
    ((next s i).half v).bankR = Function.update
      (Function.update (s.half v).bankR (2#8 * (s.bm.idxD 8).setWidth 8) (s.bm.p11zReg + s.bm.p00D3))
      (2#8 * (s.bm.idxD 8).setWidth 8 + 1#8) (s.bm.p01D3 + s.bm.p10D3) := by
  rw [next_half hv, port, retireR, if_pos hvld]
  rfl

theorem BasemulAt.next {start last : Bool} {command : BitVec 2} {c : Ctrl} (ht : t < 136)
    (hlast : 128 ≤ t → last = decide (t = 135)) (h : BasemulAt t c) : BasemulAt (t + 1) (c.next start command last) := by
  unfold BasemulAt at h ⊢
  rcases Nat.lt_trichotomy t 127 with hrun | rfl | hdrain
  · rw [if_pos (by omega)] at h ⊢
    obtain ⟨hst, hbusy, -, hp⟩ := h
    have hne : BitVec.ofNat 7 t ≠ 127 := by rw [Ne, index_last t (by omega)]; omega
    simp only [Ctrl.next, hst, hp, hne, if_false, hbusy, index_next t hrun, and_self]
  · rw [if_pos (by omega)] at h
    rw [if_neg (by omega), if_pos (by omega)]
    obtain ⟨hst, hbusy, -, hp⟩ := h
    simp only [Ctrl.next, hst, hp, (index_last 127 (by decide)).mpr rfl, if_true, hbusy, and_self]
  · rw [if_neg (by omega), if_pos ht] at h
    obtain ⟨hst, hbusy, -⟩ := h
    rw [if_neg (by omega)]
    rcases Nat.eq_or_lt_of_le (Nat.le_of_lt_succ ht) with rfl | hlt
    · rw [if_neg (by omega), hlast (by omega)]
      simp only [Ctrl.next, hst]
      exact ⟨rfl, rfl, rfl⟩
    · rw [if_pos (by omega), hlast (by omega)]
      simp only [Ctrl.next, hst, hbusy, show t ≠ 135 by omega, decide_false, Bool.false_eq_true, if_false, and_self]

theorem basemul_works {f : Coeffs} : (basemulLine v a b).Works design (fun i => i.set = v) (basemulPass a b) f where
  depth_pos := Nat.succ_pos 7
  cells := basemulPass_local
  issue := by
    rintro t s i hv ⟨hat, ha, hb⟩ ht -
    change t < 128 at ht
    rw [BasemulAt, if_pos ht] at hat
    obtain ⟨hst, -, -, hp⟩ := hat
    have hbm : (next s i).bm = _ := Basemul.next_run (Or.inl hst)
    obtain ⟨hlo, hhi⟩ := pair_address t ht
    have hreads : reads s.ctrl =
        { aRaddr0 := BitVec.ofNat 8 (2 * t), aRaddr1 := BitVec.ofNat 8 (2 * t + 1), bAddr0 := BitVec.ofNat 8 (2 * t)
          bAddr1 := BitVec.ofNat 8 (2 * t + 1) } := by
      rw [reads, hst, hp, hhi, hlo]
    obtain ⟨hb0, hb1⟩ := bDout_next (s := s) hv
    refine ⟨⟨?_, ?_⟩, ?_, ?_, ?_, ?_⟩
    · rw [design, hbm, hp]
      rfl
    · rw [design, hbm, decide_eq_true hst]
      rfl
    · rw [design, aDout0_next hv, hreads, ha]
    · rw [design, aDout1_next hv (by rw [hreads]; exact parity_even t ht), hreads, ha]
    · rw [design, hb0, hreads, hb]
    · rw [design, hb1, hreads, hb]
  dry := by
    rintro t s i hv ⟨hat, -⟩ hge hlt
    change t < 136 at hlt
    change 128 ≤ t at hge
    rw [BasemulAt, if_neg (by omega), if_pos hlt] at hat
    have hbm : (next s i).bm = _ := Basemul.next_run (Or.inr hat.1)
    change (next s i).bm.vldD 1 = false
    rw [hbm, hat.1]
    rfl
  moves := by
    rintro s i k j hv ⟨hat, -⟩ hk hk8 hj ⟨⟨hidx, hvld⟩, hholds⟩
    change k < 8 at hk8
    change j < 128 at hj
    have hst := (hat.working (by omega)).1
    have hbm : (next s i).bm = _ := Basemul.next_run hst
    refine ⟨⟨?_, ?_⟩, hholds.next hst hk hk8 ?_⟩
    · rw [design, hbm, ← hidx]
      exact shift_succ _ _ hk hk8
    · rw [design, hbm, ← hvld]
      exact shift_succ _ _ hk hk8
    · rintro rfl
      rw [hidx, pairZeta_ofNat j hj]
  empties := by
    rintro t s i k hv ⟨hat, -⟩ ht hk hk8 hb
    have hbm : (next s i).bm = _ := Basemul.next_run (hat.working ht).1
    change (next s i).bm.vldD (k + 1) = false
    rw [hbm, ← show s.bm.vldD k = false from hb]
    exact shift_succ _ _ hk hk8
  writes := by
    rintro s i j hv ⟨hat, ha, hb⟩ hj ⟨⟨hidx, hvld⟩, hz, h00, h01, h10⟩ -
    obtain ⟨hlo, hhi⟩ := pair_address j hj
    change ((next s i).half v).bankR = _
    rw [basemul_writes hv hvld, show s.bm.idxD 8 = _ from hidx, hhi, hlo, hz, h00, h01, h10]
    rfl
  keeps := by
    rintro t s i hv ⟨hat, -⟩ ht hb
    change ((next s i).half v).bankR = (s.half v).bankR
    rw [next_half hv, port, retireR, show s.bm.vldD 8 = false from hb, retire_basemul (hat.working ht).1]
    exact Half.compute_bankR_none (reads_rWe _).1 (reads_rWe _).2
  ctrl_next := by
    rintro t s i hv ⟨⟨hat, ha, hb⟩, hitem, -, -⟩ ht
    change t < 136 at ht
    obtain ⟨hA, hB⟩ := basemul_banks hv (hat.working ht).1
    refine ⟨hat.next ht ?_, hA.trans ha, hB.trans hb⟩
    intro hge
    obtain ⟨⟨hidx, hvld⟩, -⟩ := hitem 8 (t - 8) (by decide) le_rfl (by omega) (show t - 8 < 128 by omega)
    rw [lastResult, hvld, hidx, Bool.true_and]
    have hiff := index_last (t - 8) (by omega)
    exact decide_eq_decide.mpr (hiff.trans (by omega))

end Line

end PolyAccelerator

end ZedSecure
