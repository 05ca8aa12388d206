import ZedSecure.Proofs.PolyRuns

/-! The inverse in the pipeline: the scale pass, then the layers, whose butterflies take one stage more. -/

namespace ZedSecure

open Clocked

namespace PolyAccelerator

open PolyLoops

variable {s : State} {i : In} {v : Bool} {x y w : BitVec 16}

section Scale

variable {b r f : Coeffs} {t : ℕ}

/-- What the stages hold of a coefficient `x` in the scale pass. -/
def ScaleHolds (x : BitVec 16) : ℕ → State → Prop
  | 1, s => aDout0 s = x
  | 2, s => s.flow.fqProductReg = product x 1441#16
  | 3, s => s.flow.fqProductD1 = product x 1441#16 ∧ s.flow.montMultiplierReg = montMultiplier (product x 1441#16)
  | 4, s => s.flow.fqResultReg = fqmul x 1441#16
  | _, _ => False

theorem ScaleHolds.next (hst : s.ctrl.state = .inttScaleRun ∨ s.ctrl.state = .inttScaleDrain) {k : ℕ} (hk : 1 ≤ k)
    (hk4 : k < 4) (h : ScaleHolds x k s) : ScaleHolds x (k + 1) (next s i) := by
  have hflow : (PolyAccelerator.next s i).flow = _ := Flow.next_scale hst
  interval_cases k
  · change (PolyAccelerator.next s i).flow.fqProductReg = _
    rw [hflow, ← show aDout0 s = x from h]
  · change s.flow.fqProductReg = _ at h
    refine ⟨by rw [hflow]; exact h, ?_⟩
    rw [hflow, ← h]
    rfl
  · obtain ⟨hp, hm⟩ := h
    change (PolyAccelerator.next s i).flow.fqResultReg = _
    rw [hflow]
    change fqResult s.flow.fqProductD1 s.flow.montMultiplierReg = _
    rw [hp, hm, fqmul]

/-- The scale pass at edge `t`. -/
def ScaleAt (t : ℕ) (s : State) : Prop :=
  if t < 256 then s.ctrl.state = .inttScaleRun ∧ s.ctrl.busy = true ∧ s.ctrl.done = false ∧ s.ctrl.butterfly = t
  else if t ≤ 259 then
    s.ctrl.state = .inttScaleDrain ∧ s.ctrl.busy = true ∧ s.ctrl.done = false ∧
      s.ctrl.drain = BitVec.ofNat 3 (259 - t)
  else RunAt true 7 2 127 0 s.ctrl ∧ ∀ k, s.flow.vldD k = false

theorem ScaleAt.working (ht : t ≤ 259) (h : ScaleAt t s) :
    (s.ctrl.state = .inttScaleRun ∨ s.ctrl.state = .inttScaleDrain) ∧ s.ctrl.busy = true ∧ s.ctrl.done = false := by
  unfold ScaleAt at h
  split_ifs at h
  · exact ⟨Or.inl h.1, h.2.1, h.2.2.1⟩
  · exact ⟨Or.inr h.1, h.2.1, h.2.2.1⟩

theorem ScaleAt.vldD (ht : t < 259) (h : ScaleAt t s) :
    (next s i).flow.vldD = Flow.shift 4 s.flow.vldD (s.ctrl.state = .inttScaleRun) := by
  have hflow : (next s i).flow = _ := Flow.next_scale (h.working (by omega)).1
  rw [hflow]
  refine if_neg ?_
  rintro ⟨hst, hd⟩
  rw [ScaleAt] at h
  rcases Nat.lt_or_ge t 256 with hrun | hrun
  · rw [if_pos hrun] at h
    exact absurd (h.1.symm.trans hst) (by decide)
  · rw [if_neg (by omega), if_pos (by omega)] at h
    exact (drain_pred (259 - t) (by omega) (by omega)).1 (h.2.2.2.symm.trans hd)

theorem ScaleAt.next (ht : t ≤ 259) (h : ScaleAt t s) : ScaleAt (t + 1) (next s i) := by
  have hctrl : (PolyAccelerator.next s i).ctrl = s.ctrl.next i.start i.command (lastResult s.bm) := rfl
  unfold ScaleAt at h ⊢
  rw [hctrl]
  rcases Nat.lt_trichotomy t 255 with hrun | rfl | hdrain
  · rw [if_pos (by omega)] at h ⊢
    obtain ⟨hst, hbusy, -, hb⟩ := h
    simp only [Ctrl.next, hst, hb, show t ≠ 255 by omega, if_false, hbusy, and_self]
  · rw [if_pos (by omega)] at h
    rw [if_neg (by omega), if_pos (by omega)]
    obtain ⟨hst, hbusy, -, hb⟩ := h
    simp only [Ctrl.next, hst, hb, if_true, hbusy, true_and]
    rfl
  · rw [if_neg (by omega), if_pos ht] at h
    obtain ⟨hst, hbusy, -, hd⟩ := h
    rw [if_neg (by omega)]
    rcases Nat.eq_or_lt_of_le ht with rfl | hlt
    · rw [if_neg (by omega)]
      have hflow : (PolyAccelerator.next s i).flow = _ := Flow.next_scale (Or.inr hst)
      refine ⟨⟨s.ctrl.drain, s.ctrl.bmPtr, ?_⟩, ?_⟩
      · simp only [Ctrl.next, hst, hd, hbusy]
        rfl
      · intro k
        rw [hflow]
        exact congrFun (if_pos ⟨hst, hd⟩) k
    · obtain ⟨hne, hpred⟩ := drain_pred (259 - t) (by omega) (by omega)
      rw [if_pos (by omega), ← Nat.sub_sub, ← hpred]
      simp only [Ctrl.next, hst, hd, hne, if_false, hbusy, and_self]

theorem scale_writes (hv : i.set = v) (hq : Quiet s.bm)
    (hst : s.ctrl.state = .inttScaleRun ∨ s.ctrl.state = .inttScaleDrain) {a : BitVec 8} (htag : Tagged 4 a s.flow) :
    ((next s i).half v).bankA = Function.update (s.half v).bankA a s.flow.fqResultReg := by
  have hport : retire s.ctrl s.flow (reads s.ctrl) =
      { reads s.ctrl with aWaddr0 := a, aWe0 := true, aWdin0 := s.flow.fqResultReg } := by
    rcases hst with h | h <;> simp only [retire, h, htag.2, htag.1, if_true]
  rw [next_half hv, port_quiet (hq 8 (by decide) le_rfl), hport]
  exact Half.compute_bankA_one rfl (reads_we _).2

/-- The scale pass over the coefficients. -/
def scalePass : Pass (BitVec 8) (BitVec 16) := Pass.each (BitVec.ofNat 8) fun _ x => fqmul x 1441#16

def scaleLine (v : Bool) (b r f : Coeffs) : Pipeline State (BitVec 8) (BitVec 16) where
  depth := 4
  count := 256
  ctrl t s := ScaleAt t s ∧ Kept v b r s
  item k j s := Tagged k (BitVec.ofNat 8 j) s.flow ∧ ScaleHolds (f (BitVec.ofNat 8 j)) k s
  bubble k s := s.flow.vldD k = false
  mem s := (s.half v).bankA

theorem scale_works : (scaleLine v b r f).Works design (fun i => i.set = v) scalePass f where
  depth_pos := Nat.succ_pos 3
  cells := Pass.each_local fun _ hj _ hk h => ofNat_inj hj hk h
  issue := by
    rintro t s i hv ⟨hat, -⟩ ht hf
    change t < 256 at ht
    have hvld := hat.vldD (i := i) (by omega)
    rw [ScaleAt, if_pos ht] at hat
    obtain ⟨hst, -, -, hb⟩ := hat
    have hflow : (next s i).flow = _ := Flow.next_scale (Or.inl hst)
    have hreads : reads s.ctrl = { aRaddr0 := BitVec.ofNat 8 t } := by
      rw [reads, hst, hb]
    refine ⟨Tagged.issue (congrArg Flow.bfD hflow) hvld ?_ (decide_eq_true hst), ?_⟩
    · rw [hb]
    · change aDout0 (next s i) = _
      rw [aDout0_next hv, hreads]
      exact hf _ rfl
  dry := by
    rintro t s i hv ⟨hat, -⟩ hge hlt
    change t < 260 at hlt
    change 256 ≤ t at hge
    rcases Nat.eq_or_lt_of_le (Nat.le_of_lt_succ hlt) with rfl | hlt'
    · have hnext := hat.next (i := i) le_rfl
      rw [ScaleAt, if_neg (by decide), if_neg (by decide)] at hnext
      exact hnext.2 1
    · have hvld := hat.vldD (i := i) hlt'
      rw [ScaleAt, if_neg (by omega), if_pos (by omega)] at hat
      refine bubble_issue hvld (decide_eq_false ?_)
      rw [hat.1]
      decide
  moves := by
    rintro s i k j hv ⟨hat, -⟩ hk hk4 hj ⟨htag, hholds⟩
    change k < 4 at hk4
    change j < 256 at hj
    have hst := (hat.working (by omega)).1
    have hflow : (next s i).flow = _ := Flow.next_scale hst
    exact ⟨htag.next (congrArg Flow.bfD hflow) (hat.vldD (by omega)) hk hk4, hholds.next hst hk hk4⟩
  empties := by
    rintro t s i k hv ⟨hat, -⟩ ht hk hk4 hb
    change t < 260 at ht
    rcases Nat.eq_or_lt_of_le (Nat.le_of_lt_succ ht) with rfl | hlt
    · have hnext := hat.next (i := i) le_rfl
      rw [ScaleAt, if_neg (by decide), if_neg (by decide)] at hnext
      exact hnext.2 (k + 1)
    · exact bubble_next (hat.vldD hlt) hk hk4 hb
  writes := by
    rintro s i j hv ⟨hat, hkept⟩ hj ⟨htag, hr⟩ hf
    change j < 256 at hj
    have hst := (hat.working (show j + 4 ≤ 259 by omega)).1
    change ((next s i).half v).bankA = _
    rw [scale_writes hv hkept.quiet hst htag, show s.flow.fqResultReg = _ from hr, ← hf _ rfl]
    rfl
  keeps := by
    rintro t s i hv ⟨hat, hkept⟩ ht hb
    refine bubble_keeps hv hkept.quiet ?_
    rcases (hat.working (Nat.le_of_lt_succ ht)).1 with h | h <;>
      simp only [retire, h, show s.flow.vldD 4 = false from hb, Bool.false_eq_true, if_false]
  ctrl_next := by
    rintro t s i hv ⟨⟨hat, hkept⟩, -, -, -⟩ ht
    refine ⟨hat.next (Nat.le_of_lt_succ ht), hkept.next hv ?_ ?_⟩
    · rcases (hat.working (Nat.le_of_lt_succ ht)).1 with h | h <;> rw [h] <;> decide
    · rcases (hat.working (Nat.le_of_lt_succ ht)).1 with h | h <;> rw [h] <;> decide

theorem scale_eq (f : Coeffs) : scale f = scalePass.after f 256 := rfl

end Scale

section Layers

variable {span L z : ℕ} {b r f : Coeffs} {after : Ctrl → Prop}

/-- What the stages hold of an inverse butterfly on `x` and `y` with the zeta `w`. -/
def InttHolds (x y w : BitVec 16) : ℕ → State → Prop
  | 1, s => s.flow.zetaD1 = w ∧ aDout0 s = x ∧ aDout1 s = y
  | 2, s => s.flow.zetaD2 = w ∧ s.flow.inttSumReg = x + y ∧ s.flow.inttDiffReg = y - x
  | 3, s => s.flow.inttSumD1 = x + y ∧ s.flow.barrettAccumReg = barrettAccum (x + y) ∧
      s.flow.fqProductReg = product (y - x) w
  | 4, s => s.flow.inttSumD2 = x + y ∧ s.flow.barrettTempReg = barrettTemp (barrettAccum (x + y)) ∧
      s.flow.fqProductD1 = product (y - x) w ∧ s.flow.montMultiplierReg = montMultiplier (product (y - x) w)
  | 5, s => s.flow.barrettResultReg = barrett (x + y) ∧ s.flow.fqResultReg = fqmul (y - x) w
  | _, _ => False

theorem InttHolds.next (hst : s.ctrl.state = .inttRun ∨ s.ctrl.state = .inttDrain) {k : ℕ} (hk : 1 ≤ k) (hk5 : k < 5)
    (h : InttHolds x y w k s) : InttHolds x y w (k + 1) (next s i) := by
  have hflow : (PolyAccelerator.next s i).flow = _ := Flow.next_intt hst
  interval_cases k
  · obtain ⟨hz, h0, h1⟩ := h
    refine ⟨by rw [hflow]; exact hz, ?_, ?_⟩ <;> rw [hflow, ← h0, ← h1]
  · obtain ⟨hz, hsum, hdiff⟩ := h
    refine ⟨by rw [hflow]; exact hsum, ?_, ?_⟩
    · rw [hflow, ← hsum]
    · rw [hflow, ← hdiff, ← hz]
  · obtain ⟨hsum, hacc, hp⟩ := h
    refine ⟨by rw [hflow]; exact hsum, ?_, by rw [hflow]; exact hp, ?_⟩
    · rw [hflow, ← hacc]
    · rw [hflow, ← hp]
      rfl
  · obtain ⟨hsum, htemp, hp, hm⟩ := h
    refine ⟨?_, ?_⟩
    · rw [hflow]
      change barrettResult s.flow.inttSumD2 s.flow.barrettTempReg = _
      rw [hsum, htemp, barrett]
    · rw [hflow]
      change fqResult s.flow.fqProductD1 s.flow.montMultiplierReg = _
      rw [hp, hm, fqmul]

theorem intt_writes (hv : i.set = v) (hq : Quiet s.bm) (hst : s.ctrl.state = .inttRun ∨ s.ctrl.state = .inttDrain)
    {n : ℕ} (htag : Tagged 5 (BitVec.ofNat 8 n) s.flow)
    (hp : parity (BitVec.ofNat 8 (n + s.ctrl.span)) = !parity (BitVec.ofNat 8 n)) :
    ((next s i).half v).bankA = Function.update
      (Function.update (s.half v).bankA (BitVec.ofNat 8 n) s.flow.barrettResultReg)
      (BitVec.ofNat 8 (n + s.ctrl.span)) s.flow.fqResultReg := by
  rw [BitVec.ofNat_add] at hp ⊢
  have hport : retire s.ctrl s.flow (reads s.ctrl) =
      { reads s.ctrl with
        aWaddr0 := BitVec.ofNat 8 n, aWaddr1 := BitVec.ofNat 8 n + BitVec.ofNat 8 s.ctrl.span, aWe0 := true
        aWe1 := true, aWdin0 := s.flow.barrettResultReg, aWdin1 := s.flow.fqResultReg } := by
    rcases hst with h | h <;> simp only [retire, h, htag.2, htag.1, if_true]
  rw [next_half hv, port_quiet (hq 8 (by decide) le_rfl), hport]
  exact Half.compute_bankA_pair rfl rfl hp

/-- A layer of the inverse as a pass. -/
def inttPass (span z : ℕ) : Pass (BitVec 8) (BitVec 16) :=
  layer span (fun _ x y => barrett (x + y)) fun t x y => fqmul (y - x) (zetas (z - t / span))

def inttLine (v : Bool) (b r f : Coeffs) (L span z : ℕ) (after : Ctrl → Prop) :
    Pipeline State (BitVec 8) (BitVec 16) where
  depth := 5
  count := 128
  ctrl t s := LayerAt true L span z after t s.ctrl ∧ Kept v b r s
  item k j s := Tagged k (BitVec.ofNat 8 (lo span j)) s.flow ∧
    InttHolds (f (BitVec.ofNat 8 (lo span j))) (f (BitVec.ofNat 8 (lo span j + span))) (zetas (z - j / span)) k s
  bubble k s := s.flow.vldD k = false
  mem s := (s.half v).bankA

theorem intt_works (hs : span ∈ spans) (hafter : ∀ c start command last,
    DrainAt true L span (z - 127 / span) 0 c → after (c.next start command last)) :
    (inttLine v b r f L span z after).Works design (fun i => i.set = v) (inttPass span z) f where
  depth_pos := Nat.succ_pos 4
  cells := layer_local hs _ _
  issue := by
    rintro t s i hv ⟨hlayer, -⟩ ht hf
    have hrun := hlayer.run ht
    have hflow : (next s i).flow = _ := Flow.next_intt (Or.inl hrun.state)
    have hreads : reads s.ctrl =
        { aRaddr0 := BitVec.ofNat 8 (lo span t), aRaddr1 := BitVec.ofNat 8 (lo span t + span) } := by
      obtain ⟨d, p, hc⟩ := hrun
      rw [hc]
      rfl
    obtain ⟨d, p, hc⟩ := hrun
    refine ⟨Tagged.issue (congrArg Flow.bfD hflow) (congrArg Flow.vldD hflow) ?_ (decide_eq_true ?_), ?_, ?_, ?_⟩
    · rw [hc]
    · rw [hc]
      rfl
    · rw [design, hflow, hc]
      rfl
    · rw [design, aDout0_next hv, hreads]
      exact hf _ (Set.mem_insert _ _)
    · rw [design, aDout1_next hv (by rw [hreads]; exact parity_lo hs ht), hreads]
      exact hf _ (Set.mem_insert_of_mem _ rfl)
  dry := by
    rintro t s i hv ⟨hlayer, -⟩ hge hlt
    have hst := (hlayer.drain hge (show t ≤ lastEdge true from Nat.le_of_lt_succ hlt)).state
    have hflow : (next s i).flow = _ := Flow.next_intt (Or.inr hst)
    refine bubble_issue (congrArg Flow.vldD hflow) (decide_eq_false ?_)
    rw [hst]
    decide
  moves := by
    rintro s i k j hv ⟨hlayer, -⟩ hk hk5 hj ⟨htag, hholds⟩
    change k < 5 at hk5
    change j < 128 at hj
    have hst := (hlayer.working (show j + k ≤ lastEdge true by change j + k ≤ 132; omega)).1
    have hflow : (next s i).flow = _ := Flow.next_intt hst
    exact ⟨htag.next (congrArg Flow.bfD hflow) (congrArg Flow.vldD hflow) hk hk5, hholds.next hst hk hk5⟩
  empties := by
    rintro t s i k hv ⟨hlayer, -⟩ ht hk hk5 hb
    have hst := (hlayer.working (show t ≤ lastEdge true from Nat.le_of_lt_succ ht)).1
    have hflow : (next s i).flow = _ := Flow.next_intt hst
    exact bubble_next (congrArg Flow.vldD hflow) hk hk5 hb
  writes := by
    rintro s i j hv ⟨hlayer, hkept⟩ hj ⟨htag, ha, hr⟩ hf
    change j < 128 at hj
    obtain ⟨hst, hspan, -⟩ := hlayer.working (show j + 5 ≤ lastEdge true by change j + 5 ≤ 132; omega)
    have hx := hf (BitVec.ofNat 8 (lo span j)) (Set.mem_insert _ _)
    have hy := hf (BitVec.ofNat 8 (lo span j + span)) (Set.mem_insert_of_mem _ rfl)
    change ((next s i).half v).bankA = _
    rw [intt_writes hv hkept.quiet hst htag (by rw [hspan]; exact parity_lo hs hj), ha, hr, hspan, ← hx, ← hy]
    rfl
  keeps := by
    rintro t s i hv ⟨hlayer, hkept⟩ ht hb
    refine bubble_keeps hv hkept.quiet ?_
    rcases (hlayer.working (show t ≤ lastEdge true from Nat.le_of_lt_succ ht)).1 with h | h <;>
      simp only [retire, h, show s.flow.vldD 5 = false from hb, Bool.false_eq_true, if_false, if_true]
  ctrl_next := by
    rintro t s i hv ⟨⟨hlayer, hkept⟩, -, -, -⟩ ht
    have ht' : t ≤ lastEdge true := Nat.le_of_lt_succ ht
    have hst := (hlayer.working ht').1
    refine ⟨hlayer.next hs (fun c hc => hafter c _ _ _ hc) ht', hkept.next hv ?_ ?_⟩
    · rcases hst with h | h <;> rw [h] <;> decide
    · rcases hst with h | h <;> rw [h] <;> decide

end Layers

end PolyAccelerator

end ZedSecure
