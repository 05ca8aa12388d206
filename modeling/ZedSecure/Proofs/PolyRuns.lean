import ZedSecure.Proofs.PolyLayers

/-! The pipelines of the unit at work: each layer, the scale pass and the base multiplication leave in the bank what
the plain loops leave there. -/

namespace ZedSecure

open Clocked

namespace PolyAccelerator

open PolyLoops

section Sequencer

variable {inv : Bool} {L span z t : ℕ} {d : BitVec 3} {c : Ctrl} {start last : Bool} {command : BitVec 2}

/-- The zeta of block `b`: up from `z` in the transform, down in the inverse. -/
def zetaAt (inv : Bool) (z b : ℕ) : ℕ := if inv then z - b else z + b

/-- The sequencer issues butterfly `t` of a layer. -/
def RunAt (inv : Bool) (L span z t : ℕ) (c : Ctrl) : Prop :=
  ∃ d p, c = ⟨if inv then .inttRun else .nttRun, true, false, L, span, 2 * span * (t / span), lo span t,
    zetaAt inv z (t / span), d, p⟩

/-- The layer is issued; `d` more edges after this one. -/
def DrainAt (inv : Bool) (L span z : ℕ) (d : BitVec 3) (c : Ctrl) : Prop :=
  ∃ b x p, c = ⟨if inv then .inttDrain else .nttDrain, true, false, L, span, b, x, z, d, p⟩

/-- The command is over; `done_o` is up for this edge. -/
def Finished (c : Ctrl) : Prop := c.state = .idle ∧ c.busy = false ∧ c.done = true

theorem RunAt.next (hs : span ∈ spans) (ht : t + 1 < 128) (h : RunAt inv L span z t c) :
    RunAt inv L span z (t + 1) (c.next start command last) := by
  obtain ⟨hturn, hgo⟩ := walk hs ht
  obtain ⟨d, p, rfl⟩ := h
  refine ⟨d, p, ?_⟩
  by_cases hend : lo span t = 2 * span * (t / span) + span - 1
  · obtain ⟨hlt, hlo, hblock⟩ := hturn hend
    have hnot : ¬256 ≤ 2 * span * (t / span) + 2 * span := by omega
    cases inv
    · simp only [Ctrl.next, Bool.false_eq_true, if_false, if_pos hend, if_neg hnot, hlo, hblock, zetaAt,
        Nat.mul_add, Nat.mul_one, Nat.add_assoc]
    · simp only [Ctrl.next, if_true, if_pos hend, if_neg hnot, hlo, hblock, zetaAt, Nat.mul_add, Nat.mul_one,
        Nat.sub_sub]
  · obtain ⟨hlo, hblock⟩ := hgo hend
    cases inv
    · simp only [Ctrl.next, Bool.false_eq_true, if_false, if_neg hend, hlo, hblock]
    · simp only [Ctrl.next, if_true, if_neg hend, hlo, hblock]

theorem RunAt.drain (hs : span ∈ spans) (h : RunAt inv L span z 127 c) :
    DrainAt inv L span (zetaAt inv z (127 / span)) (if inv then 4 else 3) (c.next start command last) := by
  obtain ⟨hend, hfull⟩ := walk_end hs
  obtain ⟨d, p, rfl⟩ := h
  refine ⟨2 * span * (127 / span), lo span 127, p, ?_⟩
  cases inv
  · simp only [Ctrl.next, Bool.false_eq_true, if_false, if_pos hend, if_pos hfull]
  · simp only [Ctrl.next, if_true, if_pos hend, if_pos hfull]

theorem DrainAt.next (hd : d ≠ 0) (h : DrainAt inv L span z d c) :
    DrainAt inv L span z (d - 1) (c.next start command last) := by
  obtain ⟨b, x, p, rfl⟩ := h
  refine ⟨b, x, p, ?_⟩
  cases inv
  · simp only [Ctrl.next, Bool.false_eq_true, if_false, if_neg hd]
  · simp only [Ctrl.next, if_true, if_neg hd]

theorem DrainAt.layer (hL : L ≠ 7) (h : DrainAt false L span z 0 c) :
    RunAt false (L + 1) (span / 2) (z + 1) 0 (c.next start command last) := by
  obtain ⟨b, x, p, rfl⟩ := h
  refine ⟨0, p, ?_⟩
  simp only [Ctrl.next, Bool.false_eq_true, if_false, if_true, if_neg hL, lo, zetaAt, Nat.zero_div, Nat.mul_zero,
    Nat.zero_mod, Nat.add_zero]

theorem DrainAt.layer_inv (hL : L ≠ 1) (h : DrainAt true L span z 0 c) :
    RunAt true (L - 1) (span * 2) ((1 <<< (L - 1)) - 1) 0 (c.next start command last) := by
  obtain ⟨b, x, p, rfl⟩ := h
  refine ⟨0, p, ?_⟩
  simp only [Ctrl.next, if_true, if_neg hL, lo, zetaAt, Nat.zero_div, Nat.mul_zero, Nat.zero_mod, Nat.add_zero,
    Nat.sub_zero]

theorem DrainAt.finish (hL : L = if inv then 1 else 7) (h : DrainAt inv L span z 0 c) :
    Finished (c.next start command last) := by
  obtain ⟨b, x, p, rfl⟩ := h
  subst hL
  cases inv <;> exact ⟨rfl, rfl, rfl⟩

theorem RunAt.state (h : RunAt inv L span z t c) : c.state = if inv then .inttRun else .nttRun := by
  obtain ⟨d, p, rfl⟩ := h
  rfl

theorem DrainAt.state (h : DrainAt inv L span z d c) : c.state = if inv then .inttDrain else .nttDrain := by
  obtain ⟨b, x, p, rfl⟩ := h
  rfl

/-- The last edge of a layer. -/
def lastEdge (inv : Bool) : ℕ := if inv then 132 else 131

/-- A layer from its first butterfly to its last write, at edge `t`; `next` is what follows. -/
def LayerAt (inv : Bool) (L span z : ℕ) (next : Ctrl → Prop) (t : ℕ) (c : Ctrl) : Prop :=
  if t < 128 then RunAt inv L span z t c
  else if t ≤ lastEdge inv then DrainAt inv L span (zetaAt inv z (127 / span)) (BitVec.ofNat 3 (lastEdge inv - t)) c
  else next c

theorem drain_pred : ∀ n < 5, n ≠ 0 → BitVec.ofNat 3 n ≠ 0 ∧ BitVec.ofNat 3 n - 1 = BitVec.ofNat 3 (n - 1) := by
  decide

theorem LayerAt.next {next : Ctrl → Prop} (hs : span ∈ spans)
    (hnext : ∀ c, DrainAt inv L span (zetaAt inv z (127 / span)) 0 c → next (c.next start command last))
    (ht : t ≤ lastEdge inv) (h : LayerAt inv L span z next t c) :
    LayerAt inv L span z next (t + 1) (c.next start command last) := by
  have hlast : 131 ≤ lastEdge inv ∧ lastEdge inv ≤ 132 := by cases inv <;> decide
  unfold LayerAt at h ⊢
  rcases Nat.lt_trichotomy t 127 with hrun | rfl | hdrain
  · rw [if_pos (by omega)] at h ⊢
    exact RunAt.next hs (by omega) h
  · rw [if_pos (by omega)] at h
    rw [if_neg (by omega), if_pos (by omega)]
    have hd : DrainAt inv L span (zetaAt inv z (127 / span)) (if inv then 4 else 3) (c.next start command last) :=
      RunAt.drain hs h
    cases inv <;> exact hd
  · rw [if_neg (by omega), if_pos ht] at h
    rw [if_neg (by omega)]
    rcases Nat.eq_or_lt_of_le ht with rfl | hlt
    · rw [if_neg (by omega)]
      rw [Nat.sub_self] at h
      exact hnext c h
    · obtain ⟨hne, hpred⟩ := drain_pred (lastEdge inv - t) (by omega) (by omega)
      rw [if_pos (by omega), ← Nat.sub_sub, ← hpred]
      exact DrainAt.next hne h

theorem LayerAt.run {next : Ctrl → Prop} (ht : t < 128) (h : LayerAt inv L span z next t c) :
    RunAt inv L span z t c := by
  rwa [LayerAt, if_pos ht] at h

theorem LayerAt.drain {next : Ctrl → Prop} (ht : 128 ≤ t) (hlast : t ≤ lastEdge inv) (h : LayerAt inv L span z next t c) :
    DrainAt inv L span (zetaAt inv z (127 / span)) (BitVec.ofNat 3 (lastEdge inv - t)) c := by
  rwa [LayerAt, if_neg (by omega), if_pos hlast] at h

/-- Throughout a layer the sequencer is busy with its span. -/
theorem LayerAt.working {next : Ctrl → Prop} (ht : t ≤ lastEdge inv) (h : LayerAt inv L span z next t c) :
    (c.state = (if inv then .inttRun else .nttRun) ∨ c.state = if inv then .inttDrain else .nttDrain) ∧
      c.span = span ∧ c.busy = true ∧ c.done = false := by
  rcases Nat.lt_or_ge t 128 with hrun | hdrain
  · obtain ⟨d, p, rfl⟩ := h.run hrun
    exact ⟨Or.inl rfl, rfl, rfl, rfl⟩
  · obtain ⟨b, x, p, rfl⟩ := h.drain hdrain ht
    exact ⟨Or.inr rfl, rfl, rfl, rfl⟩

end Sequencer

section Stages

variable {f f' : Flow} {c : Ctrl} {start : Bool} {d0 d1 : BitVec 16} {k depth : ℕ}

theorem shift_one {α : Type*} (v : ℕ → α) (x : α) : Flow.shift depth v x 1 = x := if_pos rfl

theorem shift_succ {α : Type*} (v : ℕ → α) (x : α) (hk : 1 ≤ k) (hd : k < depth) :
    Flow.shift depth v x (k + 1) = v k := by
  rw [Flow.shift, if_neg (by omega), if_pos ⟨by omega, hd⟩, Nat.add_sub_cancel]

/-- Stage `k` holds the butterfly at address `x`. -/
def Tagged (k : ℕ) (x : BitVec 8) (f : Flow) : Prop := f.bfD k = x ∧ f.vldD k = true

theorem Flow.next_ntt (h : c.state = .nttRun ∨ c.state = .nttDrain) : f.next c start d0 d1 =
    { f.reduce with
      butterflyAReg := d0
      fqProductReg := product d1 f.zetaD1
      butterflyAD1 := f.butterflyAReg
      butterflyAD2 := f.butterflyAD1
      zetaD1 := zetas c.zetaIndex
      bfD := shift 4 f.bfD (BitVec.ofNat 8 c.butterfly)
      vldD := shift 4 f.vldD (c.state = .nttRun) } := by
  rcases h with h | h <;> simp only [Flow.next, h]

theorem Flow.next_scale (h : c.state = .inttScaleRun ∨ c.state = .inttScaleDrain) : f.next c start d0 d1 =
    { f.reduce with
      fqProductReg := product d0 1441#16
      bfD := shift 4 f.bfD (BitVec.ofNat 8 c.butterfly)
      vldD := if c.state = .inttScaleDrain ∧ c.drain = 0 then fun _ => false
        else shift 4 f.vldD (c.state = .inttScaleRun) } := by
  rcases h with h | h <;> simp only [Flow.next, h]

theorem Flow.next_intt (h : c.state = .inttRun ∨ c.state = .inttDrain) : f.next c start d0 d1 =
    { f.reduce with
      inttSumReg := d0 + d1
      inttDiffReg := d1 - d0
      fqProductReg := product f.inttDiffReg f.zetaD2
      barrettAccumReg := barrettAccum f.inttSumReg
      inttSumD1 := f.inttSumReg
      barrettTempReg := barrettTemp f.barrettAccumReg
      inttSumD2 := f.inttSumD1
      barrettResultReg := barrettResult f.inttSumD2 f.barrettTempReg
      zetaD1 := zetas c.zetaIndex
      zetaD2 := f.zetaD1
      bfD := shift 5 f.bfD (BitVec.ofNat 8 c.butterfly)
      vldD := shift 5 f.vldD (c.state = .inttRun) } := by
  rcases h with h | h <;> simp only [Flow.next, h]

end Stages

/-- No result is on its way. -/
def Quiet (m : Basemul) : Prop := ∀ k, 1 ≤ k → k ≤ 8 → m.vldD k = false

section Kept

variable {s : State} {i : In} {v : Bool} {a b r : Coeffs}

/-- What a transform leaves alone in its half. -/
structure Kept (v : Bool) (b r : Coeffs) (s : State) : Prop where
  bankB : (s.half v).bankB = b
  bankR : (s.half v).bankR = r
  quiet : Quiet s.bm

theorem port_quiet (h : s.bm.vldD 8 = false) : port s = retire s.ctrl s.flow (reads s.ctrl) := by
  rw [port, retireR, h]
  rfl

theorem retire_rWe (c : Ctrl) (f : Flow) : (retire c f (reads c)).rWe0 = false ∧ (retire c f (reads c)).rWe1 = false := by
  unfold retire reads
  cases f.vldD 4 <;> cases f.vldD 5 <;> cases c.state <;> exact ⟨rfl, rfl⟩

theorem next_bm (hrun : s.ctrl.state ≠ .basemulRun) (hdrain : s.ctrl.state ≠ .basemulDrain) :
    (next s i).bm = s.bm := by
  simp only [next, Basemul.next]

theorem Kept.next (hv : i.set = v) (h : Kept v b r s) (hrun : s.ctrl.state ≠ .basemulRun)
    (hdrain : s.ctrl.state ≠ .basemulDrain) : Kept v b r (next s i) where
  bankB := by
    rw [next_half hv]
    exact h.bankB
  bankR := by
    rw [next_half hv, port_quiet (h.quiet 8 (by decide) le_rfl),
      Half.compute_bankR_none (retire_rWe _ _).1 (retire_rWe _ _).2]
    exact h.bankR
  quiet := by
    rw [next_bm hrun hdrain]
    exact h.quiet

end Kept

section Transform

variable {s : State} {i : In} {v : Bool} {x y w : BitVec 16}

/-- What the stages hold of a butterfly on `x` and `y` with the zeta `w`. -/
def NttHolds (x y w : BitVec 16) : ℕ → State → Prop
  | 1, s => s.flow.zetaD1 = w ∧ aDout0 s = x ∧ aDout1 s = y
  | 2, s => s.flow.butterflyAReg = x ∧ s.flow.fqProductReg = product y w
  | 3, s => s.flow.butterflyAD1 = x ∧ s.flow.fqProductD1 = product y w ∧
      s.flow.montMultiplierReg = montMultiplier (product y w)
  | 4, s => s.flow.butterflyAD2 = x ∧ s.flow.fqResultReg = fqmul y w
  | _, _ => False

theorem NttHolds.next (hst : s.ctrl.state = .nttRun ∨ s.ctrl.state = .nttDrain) {k : ℕ} (hk : 1 ≤ k) (hk4 : k < 4)
    (h : NttHolds x y w k s) : NttHolds x y w (k + 1) (next s i) := by
  have hflow : (PolyAccelerator.next s i).flow = _ := Flow.next_ntt hst
  interval_cases k
  · obtain ⟨hz, h0, h1⟩ := h
    refine ⟨by rw [hflow]; exact h0, ?_⟩
    rw [hflow, ← hz, ← h1]
  · obtain ⟨ha, hp⟩ := h
    refine ⟨by rw [hflow]; exact ha, by rw [hflow]; exact hp, ?_⟩
    rw [hflow, ← hp]
    rfl
  · obtain ⟨ha, hp, hm⟩ := h
    refine ⟨by rw [hflow]; exact ha, ?_⟩
    rw [hflow]
    change fqResult s.flow.fqProductD1 s.flow.montMultiplierReg = _
    rw [hp, hm, fqmul]

section Tags

variable {f f' : Flow} {a x : BitVec 8} {b : Bool} {k depth : ℕ}

theorem Tagged.issue (hbf : f'.bfD = Flow.shift depth f.bfD x) (hvld : f'.vldD = Flow.shift depth f.vldD b)
    (hx : x = a) (hb : b = true) : Tagged 1 a f' := by
  rw [Tagged, hbf, hvld, shift_one, shift_one]
  exact ⟨hx, hb⟩

theorem Tagged.next (hbf : f'.bfD = Flow.shift depth f.bfD x) (hvld : f'.vldD = Flow.shift depth f.vldD b) (hk : 1 ≤ k)
    (hd : k < depth) (h : Tagged k a f) : Tagged (k + 1) a f' := by
  rw [Tagged, hbf, hvld, shift_succ _ _ hk hd, shift_succ _ _ hk hd]
  exact h

theorem bubble_issue (hvld : f'.vldD = Flow.shift depth f.vldD b) (hb : b = false) : f'.vldD 1 = false := by
  rw [hvld, shift_one, hb]

theorem bubble_next (hvld : f'.vldD = Flow.shift depth f.vldD b) (hk : 1 ≤ k) (hd : k < depth)
    (h : f.vldD k = false) : f'.vldD (k + 1) = false := by
  rw [hvld, shift_succ _ _ hk hd, h]

end Tags

theorem reads_we (c : Ctrl) : (reads c).aWe0 = false ∧ (reads c).aWe1 = false := by
  unfold reads
  cases c.state <;> exact ⟨rfl, rfl⟩

/-- A bubble at the end of the pipeline writes nothing. -/
theorem bubble_keeps (hv : i.set = v) (hq : Quiet s.bm) (h : retire s.ctrl s.flow (reads s.ctrl) = reads s.ctrl) :
    ((next s i).half v).bankA = (s.half v).bankA := by
  rw [next_half hv, port_quiet (hq 8 (by decide) le_rfl), h]
  exact Half.compute_bankA_none (reads_we _).1 (reads_we _).2

theorem ntt_writes (hv : i.set = v) (hq : Quiet s.bm) (hst : s.ctrl.state = .nttRun ∨ s.ctrl.state = .nttDrain)
    {n : ℕ} (htag : Tagged 4 (BitVec.ofNat 8 n) s.flow)
    (hp : parity (BitVec.ofNat 8 (n + s.ctrl.span)) = !parity (BitVec.ofNat 8 n)) :
    ((next s i).half v).bankA = Function.update
      (Function.update (s.half v).bankA (BitVec.ofNat 8 n) (s.flow.butterflyAD2 + s.flow.fqResultReg))
      (BitVec.ofNat 8 (n + s.ctrl.span)) (s.flow.butterflyAD2 - s.flow.fqResultReg) := by
  rw [BitVec.ofNat_add] at hp ⊢
  have hport : retire s.ctrl s.flow (reads s.ctrl) =
      { reads s.ctrl with
        aWaddr0 := BitVec.ofNat 8 n, aWaddr1 := BitVec.ofNat 8 n + BitVec.ofNat 8 s.ctrl.span, aWe0 := true
        aWe1 := true, aWdin0 := s.flow.butterflyAD2 + s.flow.fqResultReg
        aWdin1 := s.flow.butterflyAD2 - s.flow.fqResultReg } := by
    rcases hst with h | h <;> simp only [retire, h, htag.2, htag.1, if_true]
  rw [next_half hv, port_quiet (hq 8 (by decide) le_rfl), hport]
  exact Half.compute_bankA_pair rfl rfl hp

variable {span L z : ℕ} {b r f : Coeffs} {after : Ctrl → Prop}

/-- A forward layer as a pass. -/
def nttPass (span z : ℕ) : Pass (BitVec 8) (BitVec 16) :=
  layer span (fun t x y => x + fqmul y (zetas (z + t / span))) fun t x y => x - fqmul y (zetas (z + t / span))

def nttLine (v : Bool) (b r f : Coeffs) (L span z : ℕ) (after : Ctrl → Prop) :
    Pipeline State (BitVec 8) (BitVec 16) where
  depth := 4
  count := 128
  ctrl t s := LayerAt false L span z after t s.ctrl ∧ Kept v b r s
  item k j s := Tagged k (BitVec.ofNat 8 (lo span j)) s.flow ∧
    NttHolds (f (BitVec.ofNat 8 (lo span j))) (f (BitVec.ofNat 8 (lo span j + span))) (zetas (z + j / span)) k s
  bubble k s := s.flow.vldD k = false
  mem s := (s.half v).bankA

theorem ntt_works (hs : span ∈ spans) (hafter : ∀ c start command last,
    DrainAt false L span (z + 127 / span) 0 c → after (c.next start command last)) :
    (nttLine v b r f L span z after).Works design (fun i => i.set = v) (nttPass span z) f where
  depth_pos := Nat.succ_pos 3
  cells := layer_local hs _ _
  issue := by
    rintro t s i hv ⟨hlayer, -⟩ ht hf
    have hrun := hlayer.run ht
    have hflow : (next s i).flow = _ := Flow.next_ntt (Or.inl hrun.state)
    have hreads : reads s.ctrl =
        { aRaddr0 := BitVec.ofNat 8 (lo span t), aRaddr1 := BitVec.ofNat 8 (lo span t + span) } := by
      obtain ⟨d, p, hc⟩ := hrun
      rw [hc]
      rfl
    obtain ⟨d, p, hc⟩ := hrun
    refine ⟨Tagged.issue (congrArg Flow.bfD hflow) (congrArg Flow.vldD hflow) ?_ (decide_eq_true ?_), ?_, ?_, ?_⟩
    · rw [hc]
    · rw [hc]
      rfl
    · rw [design, hflow, hc]
      rfl
    · rw [design, aDout0_next hv, hreads]
      exact hf _ (Set.mem_insert _ _)
    · rw [design, aDout1_next hv (by rw [hreads]; exact parity_lo hs ht), hreads]
      exact hf _ (Set.mem_insert_of_mem _ rfl)
  dry := by
    rintro t s i hv ⟨hlayer, -⟩ hge hlt
    have hst := (hlayer.drain hge (show t ≤ lastEdge false from Nat.le_of_lt_succ hlt)).state
    have hflow : (next s i).flow = _ := Flow.next_ntt (Or.inr hst)
    refine bubble_issue (congrArg Flow.vldD hflow) (decide_eq_false ?_)
    rw [hst]
    decide
  moves := by
    rintro s i k j hv ⟨hlayer, -⟩ hk hk4 hj ⟨htag, hholds⟩
    have hst := (hlayer.working (show j + k ≤ lastEdge false by change j + k ≤ 131; change k < 4 at hk4; change j < 128 at hj; omega)).1
    have hflow : (next s i).flow = _ := Flow.next_ntt hst
    exact ⟨htag.next (congrArg Flow.bfD hflow) (congrArg Flow.vldD hflow) hk hk4, hholds.next hst hk hk4⟩
  empties := by
    rintro t s i k hv ⟨hlayer, -⟩ ht hk hk4 hb
    have hflow : (next s i).flow = _ := Flow.next_ntt (hlayer.working (show t ≤ lastEdge false from Nat.le_of_lt_succ ht)).1
    exact bubble_next (congrArg Flow.vldD hflow) hk hk4 hb
  writes := by
    rintro s i j hv ⟨hlayer, hkept⟩ hj ⟨htag, ha, hr⟩ hf
    obtain ⟨hst, hspan, -⟩ := hlayer.working (show j + 4 ≤ lastEdge false by change j + 4 ≤ 131; change j < 128 at hj; omega)
    have hx := hf (BitVec.ofNat 8 (lo span j)) (Set.mem_insert _ _)
    have hy := hf (BitVec.ofNat 8 (lo span j + span)) (Set.mem_insert_of_mem _ rfl)
    change ((next s i).half v).bankA = _
    rw [ntt_writes hv hkept.quiet hst htag (by rw [hspan]; exact parity_lo hs hj), ha, hr, hspan, ← hx, ← hy]
    rfl
  keeps := by
    rintro t s i hv ⟨hlayer, hkept⟩ ht hb
    refine bubble_keeps hv hkept.quiet ?_
    rcases (hlayer.working (show t ≤ lastEdge false from Nat.le_of_lt_succ ht)).1 with h | h <;>
      simp only [retire, h, show s.flow.vldD 4 = false from hb, Bool.false_eq_true, if_false]
  ctrl_next := by
    rintro t s i hv ⟨⟨hlayer, hkept⟩, -, -, -⟩ ht
    have hst := (hlayer.working (show t ≤ lastEdge false from Nat.le_of_lt_succ ht)).1
    refine ⟨hlayer.next hs (fun c hc => hafter c _ _ _ hc) (show t ≤ lastEdge false from Nat.le_of_lt_succ ht), hkept.next hv ?_ ?_⟩
    · rcases hst with h | h <;> rw [h] <;> decide
    · rcases hst with h | h <;> rw [h] <;> decide

end Transform

end PolyAccelerator

end ZedSecure
