import ZedSecure.Proofs.PolyBasemul
import ZedSecure.Proofs.PolyInverse

/-! The commands of the unit. From the start to `done_o` the half the arithmetic has goes through the plain loops, and
the other half sees nothing but the host. -/

namespace ZedSecure

open Clocked

namespace PolyAccelerator

open PolyLoops

/-- The three banks of a half, the parity split undone. -/
def Half.banks (h : Half) : Banks := ⟨h.bankA, h.bankB, h.bankR⟩

def Working (s : State) : Prop := s.ctrl.busy = true ∧ s.ctrl.done = false

section Layers

variable {v : Bool} {b r f : Coeffs} {l : ℕ}

/-- The control before layer `l` of the transform. -/
def NttFrom (l : ℕ) (c : Ctrl) : Prop := if l < 7 then RunAt false (l + 1) (128 >>> l) (1 <<< l) 0 c else Finished c

/-- Before layer `l`, the earlier layers done. -/
structure NttStage (v : Bool) (b r f : Coeffs) (l : ℕ) (s : State) : Prop where
  ctrl : NttFrom l s.ctrl
  kept : Kept v b r s
  bubble : ∀ k, 1 ≤ k → k ≤ 4 → s.flow.vldD k = false
  bankA : (s.half v).bankA = loop l (fun f l => nttLayer (128 >>> l) (1 <<< l) f) f

theorem nttFrom_next (hl : l < 7) {c : Ctrl} {start last : Bool} {command : BitVec 2}
    (h : DrainAt false (l + 1) (128 >>> l) ((1 <<< l) + 127 / (128 >>> l)) 0 c) :
    NttFrom (l + 1) (c.next start command last) := by
  rcases Nat.eq_or_lt_of_le (Nat.le_of_lt_succ hl) with rfl | hlt
  · exact DrainAt.finish rfl h
  · rw [NttFrom, if_pos (by omega)]
    have hnext : RunAt false (l + 1 + 1) ((128 >>> l) / 2) ((1 <<< l) + 127 / (128 >>> l) + 1) 0
        (c.next start command last) := h.layer (by omega)
    interval_cases l <;> exact hnext

theorem ntt_layer (hl : l < 7) :
    design.Takes (fun i => i.set = v) Working 132 (NttStage v b r f l) (NttStage v b r f (l + 1)) := by
  have hs : 128 >>> l ∈ spans := by interval_cases l <;> decide
  have hnext : ∀ c start command last, DrainAt false (l + 1) (128 >>> l) ((1 <<< l) + 127 / (128 >>> l)) 0 c →
      NttFrom (l + 1) (c.next start command last) := fun c _ _ _ hc => nttFrom_next hl hc
  have hworks := ntt_works (v := v) (b := b) (r := r) (f := loop l (fun f l => nttLayer (128 >>> l) (1 <<< l) f) f)
    hs hnext
  refine (hworks.takes fun t s ht hctrl => ?_).mono ?_ ?_
  · exact (hctrl.1.working (show t ≤ lastEdge false from Nat.le_of_lt_succ ht)).2.2
  · intro s h
    have hrun := h.ctrl
    rw [NttFrom, if_pos hl] at hrun
    exact ⟨⟨by rwa [LayerAt, if_pos (by decide)], h.kept⟩, h.bubble, h.bankA⟩
  · intro s h
    obtain ⟨hctrl, hkept⟩ := h.ctrl
    refine ⟨hctrl, hkept, h.bubble, ?_⟩
    rw [loop_succ, nttLayer_eq hs]
    exact h.mem

theorem ntt_takes :
    design.Takes (fun i => i.set = v) Working (7 * 132) (NttStage v b r f 0) (NttStage v b r f 7) :=
  Design.Takes.iterate fun _ hl => ntt_layer hl

/-- The control before layer `l` of the inverse. -/
def InttFrom (l : ℕ) (c : Ctrl) : Prop :=
  if l < 7 then RunAt true (7 - l) (2 <<< l) ((128 >>> l) - 1) 0 c else Finished c

structure InttStage (v : Bool) (b r f : Coeffs) (l : ℕ) (s : State) : Prop where
  ctrl : InttFrom l s.ctrl
  kept : Kept v b r s
  bubble : ∀ k, 1 ≤ k → k ≤ 5 → s.flow.vldD k = false
  bankA : (s.half v).bankA = loop l (fun f l => inttLayer (2 <<< l) ((128 >>> l) - 1) f) f

theorem inttFrom_next (hl : l < 7) {c : Ctrl} {start last : Bool} {command : BitVec 2}
    (h : DrainAt true (7 - l) (2 <<< l) ((128 >>> l) - 1 - 127 / (2 <<< l)) 0 c) :
    InttFrom (l + 1) (c.next start command last) := by
  rcases Nat.eq_or_lt_of_le (Nat.le_of_lt_succ hl) with rfl | hlt
  · exact DrainAt.finish rfl h
  · rw [InttFrom, if_pos (by omega)]
    have hnext : RunAt true (7 - l - 1) ((2 <<< l) * 2) ((1 <<< (7 - l - 1)) - 1) 0 (c.next start command last) :=
      h.layer_inv (by omega)
    interval_cases l <;> exact hnext

theorem intt_layer (hl : l < 7) :
    design.Takes (fun i => i.set = v) Working 133 (InttStage v b r f l) (InttStage v b r f (l + 1)) := by
  have hs : 2 <<< l ∈ spans := by interval_cases l <;> decide
  have hnext : ∀ c start command last, DrainAt true (7 - l) (2 <<< l) ((128 >>> l) - 1 - 127 / (2 <<< l)) 0 c →
      InttFrom (l + 1) (c.next start command last) := fun c _ _ _ hc => inttFrom_next hl hc
  have hworks := intt_works (v := v) (b := b) (r := r)
    (f := loop l (fun f l => inttLayer (2 <<< l) ((128 >>> l) - 1) f) f) hs hnext
  refine (hworks.takes fun t s ht hctrl => ?_).mono ?_ ?_
  · exact (hctrl.1.working (show t ≤ lastEdge true from Nat.le_of_lt_succ ht)).2.2
  · intro s h
    have hrun := h.ctrl
    rw [InttFrom, if_pos hl] at hrun
    exact ⟨⟨by rwa [LayerAt, if_pos (by decide)], h.kept⟩, h.bubble, h.bankA⟩
  · intro s h
    obtain ⟨hctrl, hkept⟩ := h.ctrl
    refine ⟨hctrl, hkept, h.bubble, ?_⟩
    rw [loop_succ, inttLayer_eq hs]
    exact h.mem

theorem intt_takes :
    design.Takes (fun i => i.set = v) Working (7 * 133) (InttStage v b r f 0) (InttStage v b r f 7) :=
  Design.Takes.iterate fun _ hl => intt_layer hl

/-- The scale pass leads into the layers. -/
theorem scale_takes : design.Takes (fun i => i.set = v) Working 260 ((scaleLine v b r f).Ready f)
    (InttStage v b r (scale f) 0) := by
  refine ((scale_works (f := f)).takes fun t s ht hctrl => ?_).mono (fun s h => h) ?_
  · exact (hctrl.1.working (Nat.le_of_lt_succ ht)).2
  · intro s h
    obtain ⟨hat, hkept⟩ := h.ctrl
    change ScaleAt 260 s at hat
    rw [ScaleAt, if_neg (by decide), if_neg (by decide)] at hat
    refine ⟨hat.1, hkept, fun k _ _ => hat.2 k, ?_⟩
    rw [loop_zero, scale_eq]
    exact h.mem

theorem basemul_takes {a : Coeffs} : design.Takes (fun i => i.set = v) Working 136 ((basemulLine v a b).Ready f)
    ((basemulLine v a b).Drained (basemulPass a b) f) :=
  basemul_works.takes fun _ _ ht hctrl => (hctrl.1.working ht).2

end Layers

section Start

variable {s : State} {i : In} {v : Bool}

/-- An idle unit leaves its own half alone. -/
theorem idle_banks (hv : i.set = v) (hidle : s.ctrl.state = .idle) (hq : Quiet s.bm) :
    ((next s i).half v).banks = (s.half v).banks ∧ (next s i).bm = s.bm := by
  have hport : port s = {} := by
    rw [port_quiet (hq 8 (by decide) le_rfl)]
    simp only [retire, reads, hidle]
  have ha : ((next s i).half v).bankA = (s.half v).bankA := by
    rw [next_half hv, hport]
    exact Half.compute_bankA_none rfl rfl
  have hr : ((next s i).half v).bankR = (s.half v).bankR := by
    rw [next_half hv, hport]
    exact Half.compute_bankR_none rfl rfl
  refine ⟨?_, next_bm (by rw [hidle]; decide) (by rw [hidle]; decide)⟩
  rw [Half.banks, Half.banks, ha, hr, next_half hv]
  rfl

theorem start_vldD (hidle : s.ctrl.state = .idle) (hstart : i.start = true) (k : ℕ) :
    (next s i).flow.vldD k = false := by
  simp only [next, Flow.next, hidle, hstart, if_true]

theorem start_kept {m : Banks} (hv : i.set = v) (hidle : s.ctrl.state = .idle) (hq : Quiet s.bm)
    (hm : (s.half v).banks = m) : ((next s i).half v).bankA = m.a ∧ Kept v m.b m.r (next s i) := by
  obtain ⟨hbanks, hbm⟩ := idle_banks hv hidle hq
  rw [hm] at hbanks
  exact ⟨congrArg Banks.a hbanks, congrArg Banks.b hbanks, congrArg Banks.r hbanks, by rw [hbm]; exact hq⟩

/-- A command has begun on the banks `m`. -/
def Begun (v : Bool) (m : Banks) (c : BitVec 2) (s : State) : Prop :=
  if c = 0 then NttStage v m.b m.r m.a 0 s
  else if c = 1 then (scaleLine v m.b m.r m.a).Ready m.a s
  else (basemulLine v m.a m.b).Ready m.r s

theorem start_begun (hv : i.set = v) (hidle : s.ctrl.state = .idle) (hq : Quiet s.bm) (hstart : i.start = true) :
    Begun v (s.half v).banks i.command (next s i) := by
  obtain ⟨ha, hkept⟩ := start_kept hv hidle hq rfl
  have hvld := start_vldD hidle hstart
  have hctrl : (next s i).ctrl = s.ctrl.next true i.command (lastResult s.bm) := by
    rw [← hstart]
    rfl
  unfold Begun
  split_ifs with h0 h1
  · refine ⟨?_, hkept, fun k _ _ => hvld k, ha⟩
    rw [NttFrom, if_pos (by decide), hctrl, h0]
    refine ⟨s.ctrl.drain, s.ctrl.bmPtr, ?_⟩
    simp only [Ctrl.next, hidle]
    rfl
  · refine ⟨⟨?_, hkept⟩, fun k _ _ => hvld k, ha⟩
    rw [ScaleAt, if_pos (by decide), hctrl, h1]
    simp only [Ctrl.next, hidle]
    exact ⟨rfl, rfl, rfl, rfl⟩
  · refine ⟨⟨?_, ha, hkept.bankB⟩, fun k hk hk8 => hkept.quiet k hk hk8, hkept.bankR⟩
    rw [BasemulAt, if_pos (by decide), hctrl]
    simp only [Ctrl.next, hidle, h0, h1, if_false, if_true]
    exact ⟨trivial, trivial, trivial, rfl⟩

/-- The command is over and the banks are `m`. -/
def Ended (v : Bool) (m : Banks) (s : State) : Prop := Finished s.ctrl ∧ (s.half v).banks = m

theorem begun_takes (m : Banks) (c : BitVec 2) :
    design.Takes (fun i => i.set = v) Working (cycles c - 1) (Begun v m c) (Ended v (m.command c)) := by
  unfold cycles Begun Banks.command
  split_ifs
  · refine ntt_takes.mono (fun _ h => h) fun s h => ⟨h.ctrl, ?_⟩
    rw [Half.banks, h.bankA, h.kept.bankB, h.kept.bankR, ntt]
  · refine (scale_takes.trans intt_takes).mono (fun _ h => h) fun s h => ⟨h.ctrl, ?_⟩
    rw [Half.banks, h.bankA, h.kept.bankB, h.kept.bankR, intt]
  · refine basemul_takes.mono (fun _ h => h) fun s h => ?_
    obtain ⟨hat, hA, hB⟩ := h.ctrl
    have hR : (s.half v).bankR = _ := h.mem
    refine ⟨?_, ?_⟩
    · change BasemulAt 136 _ at hat
      rwa [BasemulAt, if_neg (by decide), if_neg (by decide)] at hat
    · rw [Half.banks, hA, hB, hR, basemul_eq]
      rfl

theorem cycles_pos (c : BitVec 2) : 1 ≤ cycles c := by
  unfold cycles
  split_ifs <;> decide

/-- A command from its start edge on: busy until the end, and then its half is as the loops leave it. -/
theorem command_run (hidle : s.ctrl.state = .idle) (hq : Quiet s.bm) {ins : ℕ → In} (hstart : (ins 0).start = true)
    (hv : ∀ k < cycles (ins 0).command, (ins k).set = v) :
    (∀ k, 0 < k → k < cycles (ins 0).command → Working (design.stream s ins k)) ∧
      Ended v ((s.half v).banks.command (ins 0).command) (design.stream s ins (cycles (ins 0).command)) := by
  have hpos := cycles_pos (ins 0).command
  have hsplit : ∀ k, design.stream s ins (1 + k) = design.stream (next s (ins 0)) (fun j => ins (1 + j)) k :=
    fun k => Design.stream_add s ins 1 k
  obtain ⟨hwork, hend⟩ := begun_takes (v := v) (s.half v).banks (ins 0).command (next s (ins 0)) (fun j => ins (1 + j))
    (start_begun (hv 0 hpos) hidle hq hstart) fun k hk => hv (1 + k) (by omega)
  refine ⟨fun k hk hlt => ?_, ?_⟩
  · obtain ⟨k, rfl⟩ := Nat.exists_eq_add_of_le hk
    rw [hsplit]
    exact hwork k (by omega)
  · obtain ⟨n, hn⟩ := Nat.exists_eq_add_of_le hpos
    rw [hn, Nat.add_sub_cancel_left] at hend
    rw [hn, hsplit]
    exact hend

end Start

section Reachable

variable {s : State} {i : In}

/-- The valid bits of the base multiplication alone, whatever its data and its half. -/
def tagLine : Pipeline State Unit Unit where
  depth := 8
  count := 128
  ctrl t s := BasemulAt t s.ctrl
  item k j s := s.bm.idxD k = BitVec.ofNat 7 j ∧ s.bm.vldD k = true
  bubble k s := s.bm.vldD k = false
  mem _ _ := ()

def noPass : Pass Unit Unit := ⟨fun _ => ∅, fun f _ => f⟩

theorem tag_works : tagLine.Works design (fun _ => True) noPass fun _ => () where
  depth_pos := Nat.succ_pos 7
  cells := ⟨fun _ _ _ _ _ => rfl, fun _ _ _ _ _ _ _ => rfl, fun _ _ _ _ _ _ _ => Set.notMem_empty _⟩
  issue := by
    rintro t s i - hat ht -
    change t < 128 at ht
    change BasemulAt t s.ctrl at hat
    rw [BasemulAt, if_pos ht] at hat
    obtain ⟨hst, -, -, hp⟩ := hat
    have hbm : (next s i).bm = _ := Basemul.next_run (Or.inl hst)
    refine ⟨?_, ?_⟩
    · rw [design, hbm, hp]
      rfl
    · rw [design, hbm, decide_eq_true hst]
      rfl
  dry := by
    rintro t s i - hat hge hlt
    change t < 136 at hlt
    change 128 ≤ t at hge
    change BasemulAt t s.ctrl at hat
    rw [BasemulAt, if_neg (by omega), if_pos hlt] at hat
    have hbm : (next s i).bm = _ := Basemul.next_run (Or.inr hat.1)
    change (next s i).bm.vldD 1 = false
    rw [hbm, hat.1]
    rfl
  moves := by
    rintro s i k j - hat hk hk8 hj ⟨hidx, hvld⟩
    change k < 8 at hk8
    change j < 128 at hj
    have hbm : (next s i).bm = _ := Basemul.next_run (BasemulAt.working (by omega) hat).1
    refine ⟨?_, ?_⟩
    · rw [design, hbm, ← hidx]
      exact shift_succ _ _ hk hk8
    · rw [design, hbm, ← hvld]
      exact shift_succ _ _ hk hk8
  empties := by
    rintro t s i k - hat ht hk hk8 hb
    have hbm : (next s i).bm = _ := Basemul.next_run (BasemulAt.working ht hat).1
    change (next s i).bm.vldD (k + 1) = false
    rw [hbm, ← show s.bm.vldD k = false from hb]
    exact shift_succ _ _ hk hk8
  writes _ _ _ _ _ _ _ _ := rfl
  keeps _ _ _ _ _ _ _ := rfl
  ctrl_next := by
    rintro t s i - ⟨hat, hitem, -, -⟩ ht
    change t < 136 at ht
    refine BasemulAt.next ht (fun hge => ?_) hat
    obtain ⟨hidx, hvld⟩ := hitem 8 (t - 8) (by decide) le_rfl (by omega) (show t - 8 < 128 by omega)
    rw [lastResult, hvld, hidx, Bool.true_and]
    exact decide_eq_decide.mpr ((index_last (t - 8) (by omega)).trans (by omega))

/-- Either a base multiplication is under way, or no result is. -/
def Tidy (s : State) : Prop :=
  if s.ctrl.state = .basemulRun ∨ s.ctrl.state = .basemulDrain then ∃ t < 136, tagLine.At noPass (fun _ => ()) t s
  else Quiet s.bm

/-- A transform or an idle unit gets to a base multiplication by a start only. -/
theorem Ctrl.next_state {c : Ctrl} {start last : Bool} {command : BitVec 2} (h : c.state ≠ .basemulRun)
    (h' : c.state ≠ .basemulDrain) :
    ((c.next start command last).state ≠ .basemulRun ∧ (c.next start command last).state ≠ .basemulDrain) ∨
      BasemulAt 0 (c.next start command last) := by
  obtain ⟨st, busy, done, L, span, b, x, z, d, p⟩ := c
  cases st
  case idle =>
    simp only [Ctrl.next]
    split_ifs
    · exact Or.inl ⟨by simp, by simp⟩
    · exact Or.inl ⟨by simp, by simp⟩
    · exact Or.inr ⟨rfl, rfl, rfl, rfl⟩
    · exact Or.inl ⟨by simp, by simp⟩
  case basemulRun => exact absurd rfl h
  case basemulDrain => exact absurd rfl h'
  all_goals
    simp only [Ctrl.next, Ctrl.stop]
    split_ifs <;> exact Or.inl ⟨by simp, by simp⟩

theorem tidy_next (h : Tidy s) : Tidy (next s i) := by
  unfold Tidy at h
  split_ifs at h with hst
  · obtain ⟨t, ht, hat⟩ := h
    have hnext : tagLine.At noPass (fun _ => ()) (t + 1) (next s i) := tag_works.next_at (i := i) trivial hat ht
    rcases Nat.eq_or_lt_of_le (Nat.le_of_lt_succ ht) with rfl | hlt
    · have hfin : BasemulAt 136 (next s i).ctrl := hnext.ctrl
      rw [BasemulAt, if_neg (by decide), if_neg (by decide)] at hfin
      rw [Tidy, if_neg (by rw [hfin.1]; decide)]
      exact hnext.drained.bubble
    · rw [Tidy, if_pos (BasemulAt.working (show t + 1 < 136 by omega) hnext.ctrl).1]
      exact ⟨t + 1, by omega, hnext⟩
  · rw [not_or] at hst
    have hbm := next_bm (i := i) hst.1 hst.2
    have hcases : ((next s i).ctrl.state ≠ .basemulRun ∧ (next s i).ctrl.state ≠ .basemulDrain) ∨
        BasemulAt 0 (next s i).ctrl := Ctrl.next_state hst.1 hst.2
    rcases hcases with hother | hbegin
    · rw [Tidy, if_neg (not_or.mpr hother), hbm]
      exact h
    · have hready : tagLine.Ready (fun _ => ()) (next s i) :=
        ⟨hbegin, fun k hk hk8 => (congrArg (fun m : Basemul => m.vldD k) hbm).trans (h k hk hk8), rfl⟩
      rw [Tidy, if_pos (BasemulAt.working (by decide) hbegin).1]
      exact ⟨0, by decide, hready.at_zero⟩

theorem quiet_of_idle (hs : design.Reachable s) (hidle : s.ctrl.state = .idle) : Quiet s.bm := by
  have h : Tidy s := by
    refine Design.reachable_induct design (fun s => ?_) (fun s i => tidy_next) hs
    rw [Tidy, if_neg (by rintro (h | h) <;> cases h)]
    exact fun _ _ _ => rfl
  rwa [Tidy, if_neg (by rw [hidle]; decide)] at h

end Reachable

section Host

variable {s : State} {i : In} {v : Bool} {ins : ℕ → In} {n : ℕ}

theorem bank_cases : ∀ bank : BitVec 2, bank ≠ 0 → bank ≠ 1 → 2 ≤ bank := by decide

theorem host_banks (h : Half) (p : Port) : (h.host p i).banks = h.banks.hostWrite i := by
  rw [Half.banks, Half.host_bankA, Banks.hostWrite]
  cases hwe : i.hostWe
  · simp only [Half.host, Half.store, hwe, Bool.false_and, Bool.false_eq_true, if_false]
    rfl
  · by_cases h0 : i.hostBank = 0
    · simp only [Half.host, Half.store, hwe, h0]
      rfl
    · by_cases h1 : i.hostBank = 1
      · simp only [Half.host, Half.store, hwe, h1]
        rfl
      · simp only [Half.host, Half.store, hwe, h0, h1, bank_cases _ h0 h1, decide_true, decide_false, Bool.and_self,
          Bool.and_false, Bool.false_eq_true, if_true, if_false]
        rfl

/-- The banks of the host's half after the first `k` edges. -/
def hosted (s : State) (v : Bool) (ins : ℕ → In) (k : ℕ) : Banks :=
  loop k (fun m j => m.hostWrite (ins j)) (s.half (!v)).banks

theorem host_half (hv : ∀ k < n, (ins k).set = v) {k : ℕ} (hk : k ≤ n) :
    ((design.stream s ins k).half (!v)).banks = hosted s v ins k := by
  induction k with
  | zero => rfl
  | succ k ih =>
    have hnext : (design.stream s ins (k + 1)).half (!v) = _ := next_other (hv k hk)
    rw [hnext, host_banks, ih (by omega), hosted, hosted, loop_succ]

theorem host_rdata (hv : ∀ k < n, (ins k).set = v) {k : ℕ} (hk : k < n) (bank : BitVec 2) :
    hostRdata (design.stream s ins (k + 1)) bank = (hosted s v ins k).hostRead bank (ins k).hostAddr := by
  obtain ⟨s', hs'⟩ : ∃ s', design.stream s ins k = s' := ⟨_, rfl⟩
  have hbanks := host_half (s := s) hv (Nat.le_of_lt hk)
  rw [hs'] at hbanks
  have hnext : design.stream s ins (k + 1) = next s' (ins k) := by rw [← hs']; rfl
  have hset : (next s' (ins k)).setQ = v := hv k hk
  rw [hnext, hostRdata, hset, next_other (hv k hk), ← hbanks]
  have hsel : (next s' (ins k)).haSelQ = parity (ins k).hostAddr := rfl
  rw [hsel, Banks.hostRead]
  rfl

end Host

/-- Any command at any idle moment, with any host accesses beside it: the unit is busy until the last write has landed,
its half is as the plain loops leave it, and the host reads and writes the other half as a memory of its own. -/
theorem commands_run_loops {s : State} (hs : design.Reachable s) (hidle : s.ctrl.state = .idle) {ins : ℕ → In}
    {v : Bool} (hstart : (ins 0).start = true) (hset : ∀ k < cycles (ins 0).command, (ins k).set = v) :
    (∀ k, 0 < k → k < cycles (ins 0).command → Working (design.stream s ins k)) ∧
      Ended v ((s.half v).banks.command (ins 0).command) (design.stream s ins (cycles (ins 0).command)) ∧
      (∀ k ≤ cycles (ins 0).command, ((design.stream s ins k).half (!v)).banks = hosted s v ins k) ∧
      ∀ k < cycles (ins 0).command, ∀ bank,
        hostRdata (design.stream s ins (k + 1)) bank = (hosted s v ins k).hostRead bank (ins k).hostAddr := by
  obtain ⟨hwork, hend⟩ := command_run hidle (quiet_of_idle hs hidle) hstart hset
  exact ⟨hwork, hend, fun k hk => host_half hset hk, fun k hk bank => host_rdata hset hk bank⟩

/-- Banks that hold one word throughout. -/
def filled (w : BitVec 16) : Half := ⟨fun _ => w, fun _ => w, fun _ => w, fun _ => w, 0, 0, 0, 0, 0⟩

/-- A unit out of reset. -/
def fresh : State := rst ⟨fun _ => filled 5, false, false, false, .reset, .reset, .reset⟩

/-- A base multiplication, with the host filling the other bank a. -/
def multiply (k : ℕ) : In := ⟨k = 0, 2, true, true, 0, BitVec.ofNat 8 k, 7⟩

theorem commands_run_loops_multiply :
    Ended true ((fresh.half true).banks.command 2) (design.stream fresh multiply 137) ∧
      ((design.stream fresh multiply 137).half false).banks = hosted fresh true multiply 137 := by
  obtain ⟨-, hend, hhost, -⟩ := @commands_run_loops fresh
    ⟨⟨fun _ => filled 5, false, false, false, .reset, .reset, .reset⟩, [], rfl⟩ rfl multiply true rfl fun _ _ => rfl
  have hn : cycles (multiply 0).command = 137 := rfl
  rw [hn] at hend hhost
  have hother := hhost 137 (by decide)
  rw [Bool.not_true] at hother
  exact ⟨hend, hother⟩

end PolyAccelerator

end ZedSecure
