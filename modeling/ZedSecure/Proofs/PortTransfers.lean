import ZedSecure.Proofs.Exchanges
import ZedSecure.Proofs.HostReads
import ZedSecure.Spec.TopPorts

/-! No AXI transfer is lost or done twice on the ports of the complete top, when the master of the traffic port
waits for the reset. What each port holds is conserved by every edge. -/

namespace ZedSecure

open Clocked

namespace CompleteTop

variable {n maxStage : ℕ} {aead : EngineIn → EngineOut} {κ : Type} {dp : Datapath} {H : HashUnit} {E : StartDone aead κ}

section Traffic

open TrafficFrontend (awready wready arready pairs)

def trafficBuffers : Port.Buffers (State n dp H E) (BitVec 9) (BitVec 32 × BitVec 4) where
  addr s := place s.traffic.awHold s.traffic.awaddrQ
  data s := place s.traffic.wHold (s.traffic.wdataQ, s.traffic.wstrbQ)
  write s := place s.traffic.writeCommit (s.traffic.awaddrQ, s.traffic.wdataQ, s.traffic.wstrbQ)
  waiting _ := 0

/-- While an answer is offered nothing is held; and until the core's reset is released nothing at all. -/
structure TrafficHeld (s : State n dp H E) : Prop where
  sync : rstSync s = true → s.rstSyncQ.getLsbD 0 = true
  held : (s.traffic.awHold || s.traffic.wHold) = true → s.traffic.bvalid = false
  reset : rstSync s = false → s.traffic = TrafficFrontend.reset s.traffic

variable {s : State n dp H E} {i : In κ}

theorem TrafficHeld.low (h : TrafficHeld s) (hr : rstSync s = false) :
    s.traffic.awHold = false ∧ s.traffic.wHold = false ∧ s.traffic.writeCommit = false ∧ s.traffic.bvalid = false ∧
      s.traffic.rvalid = false :=
  have ht := h.reset hr
  ⟨congrArg TrafficFrontend.State.awHold ht, congrArg TrafficFrontend.State.wHold ht,
    congrArg TrafficFrontend.State.writeCommit ht, congrArg TrafficFrontend.State.bvalid ht,
    congrArg TrafficFrontend.State.rvalid ht⟩

/-- The synchroniser fills and stays full. -/
theorem sync_next (maxStage : ℕ) (i : In κ) (h : rstSync s = true → s.rstSyncQ.getLsbD 0 = true) :
    (rstSync s = true → rstSync (next maxStage s i) = true) ∧
      (rstSync (next maxStage s i) = true → (next maxStage s i).rstSyncQ.getLsbD 0 = true) := by
  obtain ⟨hhigh, hlow⟩ := rstSync_shift s.rstSyncQ
  exact ⟨fun hr => hhigh.trans (h hr), fun _ => hlow⟩

theorem traffic_held (maxStage : ℕ) (i : In κ) (hr : rstSync s = false) :
    (next maxStage s i).traffic = TrafficFrontend.reset s.traffic := by
  rw [next, hr]
  rfl

theorem trafficHeld_next (h : TrafficHeld s) : TrafficHeld (next maxStage s i) := by
  obtain ⟨hstays, hsync⟩ := sync_next maxStage i h.sync
  cases hr : rstSync s
  · have ht := traffic_held maxStage i hr
    refine ⟨hsync, fun _ => ?_, fun _ => ?_⟩ <;> rw [ht]
    · rfl
    · rfl
  · refine ⟨hsync, ?_, fun hn => absurd ((hstays hr).symm.trans hn) (by decide)⟩
    rw [traffic_next hr, TrafficFrontend.next_awHold, TrafficFrontend.next_wHold, TrafficFrontend.next_bvalid]
    have hheld := h.held
    revert hheld
    simp only [pairs, awready, wready]
    cases s.traffic.awHold <;> cases s.traffic.wHold <;> cases s.traffic.bvalid <;> simp

theorem pair_ite {α δ : Type*} (c : Prop) [Decidable c] (a a' : α) (d d' : δ) :
    ((if c then a else a'), if c then d else d') = if c then (a, d) else (a', d') := by split_ifs <;> rfl

/-- Until the reset is released nothing is held, nothing comes and nothing goes. -/
theorem traffic_quiet (h : TrafficHeld s) (hC : Apart s i) (hr : rstSync s = false) :
    (trafficBuffers.addr s = [] ∧ trafficBuffers.data s = [] ∧ trafficBuffers.write s = []) ∧
      (trafficPort.aw s i = [] ∧ trafficPort.w s i = [] ∧ trafficPort.ar s i = []) ∧
      (trafficPort.write s i = [] ∧ trafficPort.b s i = [] ∧ trafficPort.r s i = []) := by
  obtain ⟨ha, hw, hc, hb, hv⟩ := h.low hr
  refine ⟨?_, hC.1 hr, ?_⟩
  · simp [trafficBuffers, place, ha, hw, hc]
  · simp [trafficPort, place, beat, hb, hv, hr]

theorem trafficBuffers_held (i : In κ) (hr : rstSync s = false) :
    trafficBuffers.addr (next maxStage s i) = [] ∧ trafficBuffers.data (next maxStage s i) = [] ∧
      trafficBuffers.write (next maxStage s i) = [] := by
  simp only [trafficBuffers, traffic_held maxStage i hr]
  exact ⟨rfl, rfl, rfl⟩

/-- The traffic port conserves what it holds. -/
theorem traffic_keeps : trafficPort.Keeps (design n maxStage dp H E) trafficBuffers Apart TrafficHeld where
  inv s i h _ := trafficHeld_next h
  addr s i h hC := by
    change _ = _ ++ trafficBuffers.addr (next maxStage s i)
    cases hr : rstSync s
    · obtain ⟨⟨ha, hd, -⟩, ⟨haw, -, -⟩, -⟩ := traffic_quiet h hC hr
      rw [Port.Buffers.met, ha, hd, haw, (trafficBuffers_held i hr).1]
      rfl
    · simp only [trafficBuffers, traffic_next hr, TrafficFrontend.next_awHold, TrafficFrontend.next_awaddrQ]
      exact place_addr _ _ _ h.held
  data s i h hC := by
    change _ = _ ++ trafficBuffers.data (next maxStage s i)
    cases hr : rstSync s
    · obtain ⟨⟨ha, hd, -⟩, ⟨-, hw, -⟩, -⟩ := traffic_quiet h hC hr
      rw [Port.Buffers.met, ha, hd, hw, (trafficBuffers_held i hr).2.1]
      rfl
    · simp only [trafficBuffers, traffic_next hr, TrafficFrontend.next_wHold, TrafficFrontend.next_wdataQ,
        TrafficFrontend.next_wstrbQ, pair_ite]
      exact place_data _ _ _ h.held
  write s i h hC := by
    change _ = _ ++ trafficBuffers.write (next maxStage s i)
    cases hr : rstSync s
    · obtain ⟨⟨ha, hd, hw⟩, -, ⟨hwrite, -, -⟩⟩ := traffic_quiet h hC hr
      rw [Port.Buffers.met, ha, hd, hw, hwrite, (trafficBuffers_held i hr).2.2]
      rfl
    · simp only [trafficBuffers, Port.Buffers.met, place_met _ _ h.held, traffic_next hr,
        TrafficFrontend.next_writeCommit, TrafficFrontend.next_awaddrQ, TrafficFrontend.next_wdataQ,
        TrafficFrontend.next_wstrbQ]
      change _ = place (rstSync s && s.traffic.writeCommit) _ ++ place (pairs s.traffic) _
      rw [hr, Bool.true_and]
      cases hp : pairs s.traffic
      · change _ ++ place (pairs s.traffic) _ = _
        rw [hp]
        rfl
      · -- a held address and datum are not replaced
        have hheld : s.traffic.awHold = true ∧ s.traffic.wHold = true := by
          simp only [pairs, Bool.and_eq_true] at hp
          exact hp.1
        change _ ++ place (pairs s.traffic) _ = _
        simp [hp, awready, wready, hheld.1, hheld.2]
  written s i j h hC _ := by
    change _ ≤ (_ ++ trafficPort.write (next maxStage s i) j).length
    cases hr : rstSync s
    · obtain ⟨⟨ha, hd, hw⟩, -, -⟩ := traffic_quiet h hC hr
      rw [Port.Buffers.met, ha, hd, hw]
      exact Nat.zero_le _
    · have hstays := (sync_next maxStage i h.sync).1 hr
      simp only [trafficPort, trafficBuffers, Port.Buffers.met, place_met _ _ h.held, beat, List.length_append,
        place_length, hr, hstays, traffic_next hr, TrafficFrontend.next_writeCommit, Bool.true_and]
      exact le_rfl
  b s i h hC := by
    change _ = _ + (next maxStage s i).traffic.bvalid.toNat
    cases hr : rstSync s
    · obtain ⟨⟨ha, hd, -⟩, -, ⟨-, hb, -⟩⟩ := traffic_quiet h hC hr
      rw [Port.Buffers.met, ha, hd, hb, traffic_held maxStage i hr]
      simp [trafficPort, TrafficFrontend.reset, (h.low hr).2.2.2.1]
    · rw [traffic_next hr, TrafficFrontend.next_bvalid]
      exact place_answer _ _ h.held
  r s i h hC := by
    change _ = _ + ((next maxStage s i).traffic.rvalid.toNat + 0)
    cases hr : rstSync s
    · obtain ⟨-, ⟨-, -, har⟩, ⟨-, -, hv⟩⟩ := traffic_quiet h hC hr
      rw [har, hv, traffic_held maxStage i hr]
      simp [trafficPort, trafficBuffers, TrafficFrontend.reset, (h.low hr).2.2.2.2]
    · rw [traffic_next hr, TrafficFrontend.next_rvalid]
      exact place_read _ _ _
  r_stays s i h hC hv hr := by
    change (next maxStage s i).traffic.rvalid = true
    have hready := not_ready_of_beat hr hv
    cases hsync : rstSync s
    · exact absurd ((h.low hsync).2.2.2.2.symm.trans hv) Bool.false_ne_true
    · rw [traffic_next hsync, TrafficFrontend.next_rvalid, hready, show s.traffic.rvalid = true from hv]
      simp
  waiting s i j _ _ _ := Nat.zero_le _

end Traffic

section Kem

open DecapsFrontend (awready wready arready commits loads stores answersRead takesRead)

def kemBuffers : Port.Buffers (State n dp H E) (BitVec 8) (BitVec 32 × BitVec 4) where
  addr s := place s.core.front.awHold s.core.front.awaddrQ
  data s := place s.core.front.wHold (s.core.front.wdataQ, s.core.front.wstrbQ)
  write _ := []
  waiting s := s.core.front.readMemPending.toNat

/-- While an answer is offered nothing is held; a pending read is in the memory or just out of it. -/
structure KemHeld (s : State n dp H E) : Prop where
  sync : rstSync s = true → s.rstSyncQ.getLsbD 0 = true
  reset : rstSync s = false → s.core.front = DecapsFrontend.reset
  held : (s.core.front.awHold || s.core.front.wHold) = true → s.core.front.bvalid = false
  pending : s.core.front.readMemPending = true → s.core.front.rvalid = false ∧
    (s.core.front.memValid = true ∨ s.core.mem.hostValidQ = true)

variable {s : State n dp H E} {i : In κ}

theorem front_held (maxStage : ℕ) (i : In κ) (hr : rstSync s = false) :
    (next maxStage s i).core.front = DecapsFrontend.reset := by
  rw [next, hr]
  rfl

theorem front_runs (maxStage : ℕ) (i : In κ) (hr : rstSync s = true) :
    (next maxStage s i).core.front = DecapsFrontend.next s.core.front i.m (status s) s.core.mem := by
  rw [next, hr]
  rfl

theorem hostValidQ_next (maxStage : ℕ) (i : In κ) :
    (next maxStage s i).core.mem.hostValidQ = s.core.front.memValid := by
  cases hr : rstSync s <;> rw [next, hr] <;> rfl

/-- A read of the window that is answered in no other way is there one more edge. -/
theorem pending_next {f : DecapsFrontend.State (slotWidth n)} {m : DecapsMemory.State} {x : AxiIn 8}
    {st : DecapsFrontend.Status} (h : f.readMemPending = true → f.rvalid = false ∧ (f.memValid = true ∨ m.hostValidQ = true))
    (hp : (DecapsFrontend.next f x st m).readMemPending = true) :
    (DecapsFrontend.next f x st m).rvalid = false ∧
      ((DecapsFrontend.next f x st m).memValid = true ∨ f.memValid = true) := by
  rw [DecapsFrontend.next_readMemPending, Bool.and_eq_true, Bool.not_eq_true'] at hp
  obtain ⟨ha, hp⟩ := hp
  rw [DecapsFrontend.next_rvalid, DecapsFrontend.next_memValid, ha]
  cases hl : loads f x
  · rw [hl, Bool.or_false] at hp
    obtain ⟨hv, hword⟩ := h hp
    have ht : takesRead f x = false := by simp [takesRead, arready, hp]
    refine ⟨by simp [hv, ht], ?_⟩
    rcases hword with hm | hq
    · exact Or.inr hm
    · simp [answersRead, hp, hq] at ha
  · obtain ⟨ht, -⟩ := Bool.and_eq_true_iff.mp hl
    have hfree := MemoryWindow.loads_free ht
    exact ⟨by simp [hfree.1], Or.inl rfl⟩

theorem kemHeld_next (h : KemHeld s) : KemHeld (next maxStage s i) := by
  obtain ⟨hstays, hsync⟩ := sync_next maxStage i h.sync
  cases hr : rstSync s
  · have hf := front_held maxStage i hr
    refine ⟨hsync, fun _ => hf, ?_, ?_⟩ <;> rw [hf]
    · exact fun hheld => absurd hheld Bool.false_ne_true
    · exact fun hp => absurd hp Bool.false_ne_true
  · refine ⟨hsync, fun hn => absurd ((hstays hr).symm.trans hn) (by decide), ?_, ?_⟩
    · rw [front_runs maxStage i hr, DecapsFrontend.next_awHold, DecapsFrontend.next_wHold, DecapsFrontend.next_bvalid]
      have hheld := h.held
      revert hheld
      simp only [commits, awready, wready]
      cases s.core.front.awHold <;> cases s.core.front.wHold <;> cases s.core.front.bvalid <;> simp
    · rw [front_runs maxStage i hr, hostValidQ_next]
      exact pending_next h.pending

/-- The reads in the port: an answer `v`, a pending one `p`, and of this edge `t` taken, `l` of them of the window,
`a` answered by the memory. -/
theorem read_count {v p t l a ready : Bool} (hp : p = true → v = false) (ht : t = true → v = false ∧ p = false)
    (hl : l = true → t = true) (ha : a = true → p = true) : v.toNat + p.toNat + t.toNat =
      (v && ready).toNat + ((!(v && ready) && (v || (t && !l) || a)).toNat + (!a && (p || l)).toNat) := by
  revert hp ht hl ha
  cases v <;> cases p <;> cases t <;> cases l <;> cases a <;> cases ready <;> simp

/-- A read of the window is answered at the second edge after the one that took it. -/
theorem pending_taken (i j : In κ) (h : KemHeld s)
    (hp : (next maxStage (next maxStage s i) j).core.front.readMemPending = true) :
    1 ≤ (kemPort.ar s i).length + (kemPort.ar (next maxStage s i) j).length := by
  have hrun (s : State n dp H E) (i : In κ) (hp : (next maxStage s i).core.front.readMemPending = true) :
      rstSync s = true ∧ answersRead s.core.front s.core.mem = false ∧
        (s.core.front.readMemPending = true ∨ (kemPort.ar s i).length = 1) := by
    cases hr : rstSync s
    · rw [front_held maxStage i hr] at hp
      exact absurd hp Bool.false_ne_true
    · rw [front_runs maxStage i hr, DecapsFrontend.next_readMemPending, Bool.and_eq_true, Bool.not_eq_true',
        Bool.or_eq_true] at hp
      refine ⟨rfl, hp.1, hp.2.imp_right fun hl => ?_⟩
      obtain ⟨ht, -⟩ := Bool.and_eq_true_iff.mp hl
      change (beat i.m.arvalid (rstSync s && arready s.core.front) ()).length = 1
      rw [hr, Bool.true_and, beat, place_length]
      exact congrArg Bool.toNat ht
  obtain ⟨-, hanswer', hp' | hone⟩ := hrun _ _ hp
  · obtain ⟨hr, hanswer, hp'' | hone⟩ := hrun _ _ hp'
    · -- neither in the memory nor out of it
      rw [answersRead, hp', Bool.true_and, hostValidQ_next] at hanswer'
      rw [answersRead, hp'', Bool.true_and] at hanswer
      rcases (h.pending hp'').2 with hv | hv
      · exact absurd (hv.symm.trans hanswer') (by decide)
      · exact absurd (hv.symm.trans hanswer) (by decide)
    · omega
  · omega

/-- During the core's reset the port holds nothing and takes nothing. -/
theorem kem_quiet (i : In κ) (h : KemHeld s) (hr : rstSync s = false) :
    (kemBuffers.addr s = [] ∧ kemBuffers.data s = [] ∧ kemBuffers.waiting s = 0) ∧
      (kemPort.aw s i = [] ∧ kemPort.w s i = [] ∧ kemPort.ar s i = []) ∧
      (kemPort.write s i = [] ∧ kemPort.b s i = [] ∧ kemPort.r s i = []) ∧
      (kemPort.bvalid s = false ∧ kemPort.rvalid s = false) := by
  simp [kemBuffers, kemPort, place, beat, hr, h.reset hr, DecapsFrontend.reset]

theorem kemBuffers_held (maxStage : ℕ) (i : In κ) (hr : rstSync s = false) :
    kemBuffers.addr (next maxStage s i) = [] ∧ kemBuffers.data (next maxStage s i) = [] ∧
      kemBuffers.waiting (next maxStage s i) = 0 := by
  simp only [kemBuffers, front_held maxStage i hr]
  exact ⟨rfl, rfl, rfl⟩

/-- The ML-KEM port conserves what it holds. -/
theorem kem_keeps : kemPort.Keeps (design n maxStage dp H E) kemBuffers Apart KemHeld where
  inv s i h _ := kemHeld_next h
  addr s i h hC := by
    change _ = _ ++ kemBuffers.addr (next maxStage s i)
    cases hr : rstSync s
    · obtain ⟨⟨ha, hd, -⟩, ⟨haw, -, -⟩, -⟩ := kem_quiet i h hr
      rw [Port.Buffers.met, ha, hd, haw, (kemBuffers_held maxStage i hr).1]
      rfl
    · simp only [kemBuffers, kemPort, hr, Bool.true_and, front_runs maxStage i hr, DecapsFrontend.next_awHold,
        DecapsFrontend.next_awaddrQ]
      exact place_addr _ _ _ h.held
  data s i h hC := by
    change _ = _ ++ kemBuffers.data (next maxStage s i)
    cases hr : rstSync s
    · obtain ⟨⟨ha, hd, -⟩, ⟨-, hw, -⟩, -⟩ := kem_quiet i h hr
      rw [Port.Buffers.met, ha, hd, hw, (kemBuffers_held maxStage i hr).2.1]
      rfl
    · simp only [kemBuffers, kemPort, hr, Bool.true_and, front_runs maxStage i hr, DecapsFrontend.next_wHold,
        DecapsFrontend.next_wdataQ, DecapsFrontend.next_wstrbQ, pair_ite]
      exact place_data _ _ _ h.held
  write s i h hC := by
    cases hr : rstSync s
    · obtain ⟨⟨ha, hd, -⟩, -, ⟨hwrite, -, -⟩, -⟩ := kem_quiet i h hr
      rw [Port.Buffers.met, ha, hd, hwrite]
      rfl
    · change [] ++ _ = place (rstSync s && commits s.core.front) _ ++ []
      rw [List.nil_append, List.append_nil, hr, Bool.true_and]
      exact place_met _ _ h.held
  written s i j h hC _ := by
    cases hr : rstSync s
    · obtain ⟨⟨ha, hd, -⟩, -, -, -⟩ := kem_quiet i h hr
      rw [Port.Buffers.met, ha, hd]
      exact Nat.zero_le _
    · have hmet : kemBuffers.met s = kemPort.write s i := by
        change _ = place (rstSync s && commits s.core.front) _
        rw [hr, Bool.true_and]
        exact place_met _ _ h.held
      rw [hmet, List.length_append, List.length_append]
      exact (Nat.zero_add _).le.trans (Nat.le_add_right _ _)
  b s i h hC := by
    change _ = _ + (next maxStage s i).core.front.bvalid.toNat
    cases hr : rstSync s
    · obtain ⟨⟨ha, hd, -⟩, -, ⟨-, hb, -⟩, ⟨hbv, -⟩⟩ := kem_quiet i h hr
      rw [Port.Buffers.met, ha, hd, hb, hbv, front_held maxStage i hr]
      rfl
    · rw [front_runs maxStage i hr, DecapsFrontend.next_bvalid]
      exact place_answer _ _ h.held
  r s i h hC := by
    change _ = _ + ((next maxStage s i).core.front.rvalid.toNat + kemBuffers.waiting (next maxStage s i))
    cases hr : rstSync s
    · obtain ⟨⟨-, -, hwait⟩, ⟨-, -, har⟩, ⟨-, -, hrt⟩, ⟨-, hrv⟩⟩ := kem_quiet i h hr
      rw [hwait, har, hrt, hrv, (kemBuffers_held maxStage i hr).2.2, front_held maxStage i hr]
      rfl
    · simp only [kemBuffers, kemPort, hr, Bool.true_and, front_runs maxStage i hr, DecapsFrontend.next_rvalid,
        DecapsFrontend.next_readMemPending, beat, place_length]
      exact read_count (fun hp => (h.pending hp).1) (fun ht => MemoryWindow.loads_free ht)
        (fun hl => (Bool.and_eq_true_iff.mp hl).1) (fun ha => (Bool.and_eq_true_iff.mp ha).1)
  r_stays s i h hC hv hr := by
    change (next maxStage s i).core.front.rvalid = true
    have hready := not_ready_of_beat hr hv
    cases hsync : rstSync s
    · exact absurd ((kem_quiet i h hsync).2.2.2.2.symm.trans hv) Bool.false_ne_true
    · rw [front_runs maxStage i hsync, DecapsFrontend.next_rvalid, hready, show s.core.front.rvalid = true from hv]
      simp
  waiting s i j h _ _ := by
    change (next maxStage (next maxStage s i) j).core.front.readMemPending.toNat ≤ _
    cases hp : (next maxStage (next maxStage s i) j).core.front.readMemPending
    · exact Nat.zero_le _
    · exact pending_taken i j h hp

end Kem

section Words

open DecapsFrontend (REG_SLOT REG_SESSION REG_MEM_REGION REG_MEM_ADDR REG_MEM_DATA Change commits stores answersRead)

variable {w : ℕ}

/-- The words of a slot, a session id, a region and an address. -/
def kemWords (slot : BitVec w) (session : BitVec 32) (region : BitVec 2) (addr : BitVec 12) (a : BitVec 8) : BitVec 32 :=
  if a = REG_SLOT then slot.setWidth 32
  else if a = REG_SESSION then session
  else if a = REG_MEM_REGION then region.setWidth 32
  else if a = REG_MEM_ADDR then addr.setWidth 32
  else 0

variable (slot : BitVec w) (session : BitVec 32) (region : BitVec 2) (addr : BitVec 12) (x : BitVec 32) (strobe : BitVec 4)

theorem kemWords_advance :
    DecapsFrontend.advance (kemWords slot session region addr) = kemWords slot session region (addr + 1) := by
  have hne : REG_MEM_ADDR ≠ REG_SLOT ∧ REG_MEM_ADDR ≠ REG_SESSION ∧ REG_MEM_ADDR ≠ REG_MEM_REGION := by decide
  have hnext : (addr.setWidth 32 + 1) &&& (BitVec.allOnes 12).setWidth 32 = (addr + 1).setWidth 32 := by
    rw [← setWidth_mask]
    congr 1
    bv_omega
  funext a
  simp only [DecapsFrontend.advance, Function.update_apply, kemWords, hne, if_false, if_true, hnext]
  by_cases ha : a = REG_MEM_ADDR
  · simp only [ha, hne, if_true, if_false]
  · simp only [ha, if_false]

theorem kemWords_slot (hw : w ≤ 8) : putWord (DecapsFrontend.mask w) (kemWords slot session region addr) (REG_SLOT, x, strobe) =
    kemWords (if strobe.getLsbD 0 then x.setWidth w else slot) session region addr := by
  funext a
  simp only [putWord, Function.update_apply, kemWords, DecapsFrontend.mask, if_true, mergeBytes_low hw]
  split_ifs <;> rfl

theorem kemWords_session : putWord (DecapsFrontend.mask w) (kemWords slot session region addr) (REG_SESSION, x, strobe) =
    kemWords slot (mergeBytes session x strobe) region addr := by
  have hne : REG_SESSION ≠ REG_SLOT := by decide
  funext a
  simp only [putWord, Function.update_apply, kemWords, DecapsFrontend.mask, if_true, hne, if_false, BitVec.and_allOnes]
  by_cases ha : a = REG_SESSION
  · simp only [ha, hne, if_true, if_false]
  · simp only [ha, if_false]

theorem kemWords_region : putWord (DecapsFrontend.mask w) (kemWords slot session region addr) (REG_MEM_REGION, x, strobe) =
    kemWords slot session (if strobe.getLsbD 0 then slice x 0 2 else region) addr := by
  have hne : REG_MEM_REGION ≠ REG_SLOT ∧ REG_MEM_REGION ≠ REG_SESSION := by decide
  have hlow : slice x 0 2 = x.setWidth 2 := by
    apply BitVec.eq_of_getLsbD_eq
    intro i hi
    rw [getLsbD_slice, BitVec.getLsbD_setWidth, Nat.zero_add]
  funext a
  simp only [putWord, Function.update_apply, kemWords, DecapsFrontend.mask, if_true, hne, if_false,
    mergeBytes_low (by decide : 2 ≤ 8), hlow]
  by_cases ha : a = REG_MEM_REGION
  · simp only [ha, hne, if_true, if_false]
  · simp only [ha, if_false]

/-- The address register has two byte lanes. -/
theorem kemWords_addr : putWord (DecapsFrontend.mask w) (kemWords slot session region addr) (REG_MEM_ADDR, x, strobe) =
    kemWords slot session region
      (let low := if strobe.getLsbD 0 then patch addr 0 (slice x 0 8) else addr
        if strobe.getLsbD 1 then patch low 8 (slice x 8 4) else low) := by
  have hne : REG_MEM_ADDR ≠ REG_SLOT ∧ REG_MEM_ADDR ≠ REG_SESSION ∧ REG_MEM_ADDR ≠ REG_MEM_REGION := by decide
  have hlanes : mergeBytes (addr.setWidth 32) x strobe &&& (BitVec.allOnes 12).setWidth 32 =
      (let low := if strobe.getLsbD 0 then patch addr 0 (slice x 0 8) else addr
        if strobe.getLsbD 1 then patch low 8 (slice x 8 4) else low).setWidth 32 := by
    rw [← setWidth_mask]
    congr 1
    apply BitVec.eq_of_getLsbD_eq
    intro i hi
    rw [BitVec.getLsbD_setWidth, getLsbD_mergeBytes _ _ _ (by omega), BitVec.getLsbD_setWidth]
    by_cases hi8 : i < 8
    · rw [show i / 8 = 0 by omega]
      cases strobe.getLsbD 0 <;> cases strobe.getLsbD 1 <;>
        simp only [getLsbD_patch _ _ _ _ hi, getLsbD_slice, if_true, if_false, Bool.false_eq_true, hi, hi8, decide_true,
          Bool.true_and, Nat.zero_add, Nat.sub_zero, Nat.zero_le, true_and, show ¬ 8 ≤ i by omega, false_and,
          show i < 32 by omega]
    · rw [show i / 8 = 1 by omega]
      cases strobe.getLsbD 0 <;> cases strobe.getLsbD 1 <;>
        simp only [getLsbD_patch _ _ _ _ hi, getLsbD_slice, if_true, if_false, Bool.false_eq_true, hi, hi8, decide_true,
          Bool.true_and, Nat.zero_add, show 8 ≤ i by omega, and_self, and_false,
          show i - 8 < 4 by omega, show 8 + (i - 8) = i by omega, show i < 32 by omega]
  funext a
  simp only [putWord, Function.update_apply, kemWords, DecapsFrontend.mask, if_true, hne, if_false, hlanes]
  by_cases ha : a = REG_MEM_ADDR
  · simp only [ha, hne, if_true, if_false]
  · simp only [ha, if_false]

/-- No word is at another address. -/
theorem kemWords_other {b : BitVec 8} (h : b ≠ REG_SLOT ∧ b ≠ REG_SESSION ∧ b ≠ REG_MEM_REGION ∧ b ≠ REG_MEM_ADDR) :
    putWord (DecapsFrontend.mask w) (kemWords slot session region addr) (b, x, strobe) =
      kemWords slot session region addr := by
  funext a
  simp only [putWord, Function.update_apply, DecapsFrontend.mask, h, if_false]
  split_ifs with ha
  · simp only [ha, kemWords, h, if_false]
    exact BitVec.and_zero
  · rfl

/-- The words after a commit. -/
theorem commit_words (hw : w ≤ 8) (f : DecapsFrontend.State w) (hc : commits f = true) :
    Change.apply w (DecapsFrontend.registers f) (.write (f.awaddrQ, f.wdataQ, f.wstrbQ)) =
      kemWords (if f.awaddrQ = REG_SLOT ∧ f.wstrbQ.getLsbD 0 = true then f.wdataQ.setWidth w else f.decapSlot)
        (if f.awaddrQ = REG_SESSION then mergeBytes f.decapSessionId f.wdataQ f.wstrbQ else f.decapSessionId)
        (if f.awaddrQ = REG_MEM_REGION ∧ f.wstrbQ.getLsbD 0 = true then slice f.wdataQ 0 2 else f.region)
        (if stores f then f.memAddr + 1 else if f.awaddrQ = REG_MEM_ADDR then DecapsFrontend.seeked f else f.memAddr) := by
  have hword : DecapsFrontend.registers f = kemWords f.decapSlot f.decapSessionId f.region f.memAddr := rfl
  have hdata : REG_MEM_DATA ≠ REG_SLOT ∧ REG_MEM_DATA ≠ REG_SESSION ∧ REG_MEM_DATA ≠ REG_MEM_REGION ∧
      REG_MEM_DATA ≠ REG_MEM_ADDR := by decide
  have hstores : stores f = (decide (f.awaddrQ = REG_MEM_DATA) && decide (f.wstrbQ = 15#4)) := by
    rw [stores, hc, Bool.true_and]
  rw [hword]
  by_cases hd : f.awaddrQ = REG_MEM_DATA
  · by_cases h15 : f.wstrbQ = 15#4
    · simp [Change.apply, hstores, hd, h15, hdata, kemWords_advance]
    · simp [Change.apply, hstores, hd, h15, hdata]
  · have hns : stores f = false := by simp [hstores, hd]
    have happly : Change.apply w (kemWords f.decapSlot f.decapSessionId f.region f.memAddr)
        (.write (f.awaddrQ, f.wdataQ, f.wstrbQ)) = putWord (DecapsFrontend.mask w)
          (kemWords f.decapSlot f.decapSessionId f.region f.memAddr) (f.awaddrQ, f.wdataQ, f.wstrbQ) := if_neg hd
    rw [happly, hns, if_neg Bool.false_ne_true]
    by_cases hslot : f.awaddrQ = REG_SLOT
    · rw [hslot, kemWords_slot _ _ _ _ _ _ hw]
      simp [show REG_SLOT ≠ REG_SESSION ∧ REG_SLOT ≠ REG_MEM_REGION ∧ REG_SLOT ≠ REG_MEM_ADDR by decide]
    · by_cases hsession : f.awaddrQ = REG_SESSION
      · rw [hsession, kemWords_session]
        simp [show REG_SESSION ≠ REG_SLOT ∧ REG_SESSION ≠ REG_MEM_REGION ∧ REG_SESSION ≠ REG_MEM_ADDR by decide]
      · by_cases hregion : f.awaddrQ = REG_MEM_REGION
        · rw [hregion, kemWords_region]
          simp [show REG_MEM_REGION ≠ REG_SLOT ∧ REG_MEM_REGION ≠ REG_SESSION ∧ REG_MEM_REGION ≠ REG_MEM_ADDR by decide]
        · by_cases haddr : f.awaddrQ = REG_MEM_ADDR
          · rw [haddr, kemWords_addr]
            simp [show REG_MEM_ADDR ≠ REG_SLOT ∧ REG_MEM_ADDR ≠ REG_SESSION ∧ REG_MEM_ADDR ≠ REG_MEM_REGION by decide,
              DecapsFrontend.seeked]
          · rw [kemWords_other _ _ _ _ _ _ ⟨hslot, hsession, hregion, haddr⟩]
            simp [hslot, hsession, hregion, haddr]

/-- One edge of the ML-KEM port makes its changes to the words. -/
theorem kemWords_next (hw : w ≤ 8) (f : DecapsFrontend.State w) (i : AxiIn 8) (st : DecapsFrontend.Status)
    (m : DecapsMemory.State)
    (hapart : answersRead f m = true → stores f = false ∧ MemoryWindow.moves f = false) :
    DecapsFrontend.registers (DecapsFrontend.next f i st m) =
      ((place (commits f) (f.awaddrQ, f.wdataQ, f.wstrbQ)).map Change.write ++
        if answersRead f m then [Change.loaded] else []).foldl (Change.apply w) (DecapsFrontend.registers f) := by
  have hnext : DecapsFrontend.registers (DecapsFrontend.next f i st m) =
      kemWords (DecapsFrontend.next f i st m).decapSlot (DecapsFrontend.next f i st m).decapSessionId
        (DecapsFrontend.next f i st m).region (DecapsFrontend.next f i st m).memAddr := rfl
  rw [hnext, DecapsFrontend.next_decapSlot, DecapsFrontend.next_decapSessionId, DecapsFrontend.next_region,
    DecapsFrontend.next_memAddr, List.foldl_append]
  cases hc : commits f
  · have hns : stores f = false := by simp [stores, hc]
    cases answersRead f m
    · simp [place, hns]
      rfl
    · simp [place, Change.apply]
      exact (kemWords_advance _ _ _ _).symm
  · have hplace : ((place true (f.awaddrQ, f.wdataQ, f.wstrbQ)).map Change.write).foldl (Change.apply w)
        (DecapsFrontend.registers f) = Change.apply w (DecapsFrontend.registers f) (.write (f.awaddrQ, f.wdataQ, f.wstrbQ)) :=
      rfl
    rw [hplace, commit_words hw f hc]
    cases ha : answersRead f m
    · simp
    · obtain ⟨hns, hm⟩ := hapart ha
      have hkeep : (if f.awaddrQ = REG_MEM_ADDR then DecapsFrontend.seeked f else f.memAddr) = f.memAddr := by
        split_ifs with hadr
        · exact MemoryWindow.seeked_of_not_moves f hm (by simp [hc, hadr])
        · rfl
      simp [hns, hkeep, Change.apply, kemWords_advance]

end Words

section Runs

variable {s : State n dp H E} {i : In κ}

theorem trafficRegisters_reset (f : TrafficFrontend.State n) :
    TrafficFrontend.registers (TrafficFrontend.reset f) = 0 := by
  have hzero (base : BitVec 9) (count : ℕ) (a : BitVec 9) : TrafficFrontend.readArray base count (fun _ => 0) a 0 = 0 := by
    rw [TrafficFrontend.readArray]
    cases (List.range count).find? fun k => decide (a = TrafficFrontend.wordReg base k) <;> rfl
  funext a
  simp only [TrafficFrontend.registers, TrafficFrontend.reset, hzero]
  split_ifs
  · exact BitVec.setWidth_zero _ _
  all_goals rfl

theorem trafficRegisters_next (h : TrafficHeld s) : TrafficFrontend.registers (next maxStage s i).traffic =
    (trafficPort.write s i).foldl (putWord (TrafficFrontend.mask n)) (TrafficFrontend.registers s.traffic) := by
  change _ = (place (rstSync s && s.traffic.writeCommit) _).foldl _ _
  cases hr : rstSync s
  · rw [traffic_held maxStage i hr, h.reset hr, trafficRegisters_reset, trafficRegisters_reset]
    rfl
  · rw [traffic_next hr, TrafficFrontend.registers_next, Bool.true_and]
    cases s.traffic.writeCommit <;> rfl

theorem kemRegisters_reset : DecapsFrontend.registers (DecapsFrontend.reset : DecapsFrontend.State (slotWidth n)) = 0 := by
  funext a
  simp only [DecapsFrontend.registers, DecapsFrontend.reset]
  split_ifs
  · exact BitVec.setWidth_zero _ _
  all_goals rfl

theorem kemRegisters_next (hn : n ≤ 256) (h : KemHeld s) (hC : Apart s i) :
    DecapsFrontend.registers (next maxStage s i).core.front =
      (changes s i).foldl (DecapsFrontend.Change.apply (slotWidth n)) (DecapsFrontend.registers s.core.front) := by
  cases hr : rstSync s
  · rw [front_held maxStage i hr, h.reset hr, changes, (kem_quiet i h hr).2.2.1.1, hr]
    rfl
  · have hw : slotWidth n ≤ 8 := Nat.clog_le_of_le_pow hn
    rw [front_runs maxStage i hr, kemWords_next hw _ _ _ _ hC.2.2, changes, hr, Bool.true_and]
    change _ = List.foldl _ _ ((place (rstSync s && DecapsFrontend.commits s.core.front) _).map _ ++ _)
    rw [hr, Bool.true_and]

/-- A word that is committed is on its way to the memory at the next edge. -/
theorem storing_next (hC : Apart s i) : storing (next maxStage s i) = stored s i := by
  cases hr : rstSync s
  · rw [storing, front_held maxStage i hr, stored, hr]
    rfl
  · simp only [storing, stored, hr, Bool.true_and, front_runs maxStage i hr, DecapsFrontend.next_memValid,
      DecapsFrontend.next_memWe, DecapsFrontend.next_region, DecapsFrontend.next_memAccessAddr,
      DecapsFrontend.next_wdataQ]
    cases hs : DecapsFrontend.stores s.core.front
    · simp
    · have hl : DecapsFrontend.loads s.core.front i.m = false :=
        eq_false_of_ne_true fun hl => Bool.false_ne_true ((hC.2.1 hl).symm.trans hs)
      simp only [DecapsFrontend.stores, DecapsFrontend.commits, Bool.and_eq_true, decide_eq_true_eq] at hs
      simp [hl, hs.1.2, DecapsFrontend.data_ne, DecapsFrontend.wready, hs.1.1.1.2]

theorem trafficRegisters_run {is : List (In κ)} (h : TrafficHeld s)
    (hC : (design n maxStage dp H E).AllSteps Apart s (is.map .tick)) :
    TrafficFrontend.registers ((design n maxStage dp H E).after s is).traffic =
      ((design n maxStage dp H E).ticks trafficPort.write s is).foldl (putWord (TrafficFrontend.mask n))
        (TrafficFrontend.registers s.traffic) := by
  -- the view stays abstract while the fold is built
  have hrun (view : State n dp H E → BitVec 9 → BitVec 32) (hv : ∀ s i, TrafficHeld s → Apart s i →
      view ((design n maxStage dp H E).next s i) = (trafficPort.write s i).foldl (putWord (TrafficFrontend.mask n)) (view s)) :
      view ((design n maxStage dp H E).after s is) =
        ((design n maxStage dp H E).ticks trafficPort.write s is).foldl (putWord (TrafficFrontend.mask n)) (view s) :=
    folded view _ _ (fun _ _ h _ => trafficHeld_next h) hv h hC
  exact hrun (fun s => TrafficFrontend.registers s.traffic) fun _ _ h _ => trafficRegisters_next h

theorem kemRegisters_run {is : List (In κ)} (hn : n ≤ 256) (h : KemHeld s)
    (hC : (design n maxStage dp H E).AllSteps Apart s (is.map .tick)) :
    DecapsFrontend.registers ((design n maxStage dp H E).after s is).core.front =
      ((design n maxStage dp H E).ticks changes s is).foldl (DecapsFrontend.Change.apply (slotWidth n))
        (DecapsFrontend.registers s.core.front) :=
  folded (C := Apart) (I := KemHeld) (fun s => DecapsFrontend.registers s.core.front) changes
    (DecapsFrontend.Change.apply (slotWidth n)) (fun _ _ h _ => kemHeld_next h)
    (fun _ _ h hc => kemRegisters_next hn h hc) h hC

theorem held_released (s : State n dp H E) : TrafficHeld (released s) ∧ KemHeld (released s) := by
  have hlow : rstSync (released s) = false := by simp [rstSync, released, rst]
  refine ⟨⟨?_, ?_, ?_⟩, ⟨?_, ?_, ?_, ?_⟩⟩
  · exact fun hr => absurd (hlow.symm.trans hr) Bool.false_ne_true
  · exact fun _ => rfl
  · exact fun _ => rfl
  · exact fun hr => absurd (hlow.symm.trans hr) Bool.false_ne_true
  · exact fun _ => rfl
  · exact fun _ => rfl
  · exact fun hp => absurd hp Bool.false_ne_true

/-- From the release of the reset on, every accepted beat is used in one register write, in order, and answered
once; the registers are what these writes make of zeros, and the words for the window reach the memory. -/
theorem transfers_exact (hn : n ≤ 256) (s : State n dp H E) (is : List (In κ))
    (hC : (design n maxStage dp H E).AllSteps Apart (released s) (is.map .tick)) :
    Transfers (design n maxStage dp H E) (released s) is := by
  obtain ⟨htraffic, hkem⟩ := held_released s
  have hwindow : storing (released s) ++ (design n maxStage dp H E).ticks stored (released s) is =
      (design n maxStage dp H E).ticks (fun s _ => storing s) (released s) is ++
        storing ((design n maxStage dp H E).after (released s) is) :=
    conserved (C := Apart) (I := KemHeld) (fun s i h _ => kemHeld_next h) (fun s i _ hc => congrArg (storing s ++ ·) (storing_next hc).symm) hkem hC
  have htrafficWords : TrafficFrontend.registers (released s).traffic = 0 := trafficRegisters_reset s.traffic
  have hkemWords : DecapsFrontend.registers (released s).core.front = 0 := kemRegisters_reset
  exact
    { traffic := traffic_keeps.exact htraffic rfl rfl rfl rfl rfl rfl hC
      kem := kem_keeps.exact hkem rfl rfl rfl rfl rfl rfl hC
      trafficRegisters := by
        rw [trafficRegisters_run htraffic hC, htrafficWords]
      kemRegisters := by
        rw [kemRegisters_run hn hkem hC, hkemWords]
      window := hwindow }

end Runs

section Sample

abbrev sampleTopDesign : Design SampleState (In Bool) :=
  design 64 300000 ProtectedTop.sampleDatapath ProtectedTop.sampleHash.toHashUnit sampleEngine

/-- A write of a word at both ports, each address with its datum. -/
def sampleWrites : In Bool :=
  { sampleQuiet with
    m := ⟨DecapsFrontend.REG_SESSION, true, 7, 15, true, true, 0, false, true⟩
    a := ⟨TrafficFrontend.REG_LENGTH, true, 64, 15, true, true, 0, false, true⟩ }

/-- The masters wait for two cycles. -/
def patient : List (In Bool) := [sampleQuiet, sampleQuiet, sampleWrites, sampleQuiet, sampleQuiet, sampleQuiet]

theorem transfers_exact_patient : (64 : ℕ) ≤ 256 ∧ Transfers sampleTopDesign (released sampleTop) patient :=
  ⟨by decide, transfers_exact (by decide) sampleTop patient (by decide +kernel)⟩

/-- The write comes in the second cycle after the release, in which the core is still in reset. -/
def hasty : List (In Bool) := [sampleQuiet, sampleWrites] ++ List.replicate 4 sampleQuiet

/-- The traffic port takes address and datum, and no write and no answer follows. -/
theorem transfer_swallowed : ¬ Transfers sampleTopDesign (released sampleTop) hasty := by
  intro h
  have hwritten := h.traffic.written [sampleQuiet, sampleWrites] (List.replicate 4 sampleQuiet) rfl (by decide)
  have hnone : ¬ (trafficPort.beats sampleTopDesign (released sampleTop) [sampleQuiet, sampleWrites]).length ≤
      (sampleTopDesign.ticks trafficPort.write (released sampleTop) hasty).length := by decide +kernel
  exact hnone hwritten.length_le

end Sample

end CompleteTop

end ZedSecure
