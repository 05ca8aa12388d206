import ZedSecure.Proofs.InstallChecked

/-! What a handshake depends on while it runs. Slot and session id are read live up to the
install request, the SK and CT memories up to the transcript, the polynomial memory up to the
end of the decapsulation. A run in which the host leaves these alone for as long as they are
used has the outcome its launch determined. -/

namespace ZedSecure

open Clocked

namespace DecapsFrontend

variable {w : ℕ}

/-- The write that commits at this edge changes the slot or the session id. -/
def retargets (s : State w) : Bool :=
  commits s &&
    ((s.awaddrQ == REG_SLOT && s.wstrbQ.getLsbD 0 && s.wdataQ.setWidth w != s.decapSlot) ||
      (s.awaddrQ == REG_SESSION &&
        mergeBytes s.decapSessionId s.wdataQ s.wstrbQ != s.decapSessionId))

theorem nextRead_target (s f : State w) (i : AxiIn 8) (busy : Bool) (m : DecapsMemory.State) :
    (nextRead s f i busy m).decapSlot = f.decapSlot ∧
      (nextRead s f i busy m).decapSessionId = f.decapSessionId := by
  simp only [nextRead, apply_ite State.decapSlot, apply_ite State.decapSessionId, ite_self, and_self]

theorem nextWrite_target (s f : State w) (i : AxiIn 8) (busy : Bool) (hc : commits s = false) :
    (nextWrite s f i busy).decapSlot = f.decapSlot ∧
      (nextWrite s f i busy).decapSessionId = f.decapSessionId := by
  simp only [nextWrite, hc, Bool.false_eq_true, if_false, apply_ite State.decapSlot,
    apply_ite State.decapSessionId, ite_self, and_self]

theorem commit_target {s f : State w} (hs : f.decapSlot = s.decapSlot)
    (hi : f.decapSessionId = s.decapSessionId) (hc : commits s = true) (h : retargets s = false)
    (busy : Bool) :
    (commit s f busy).decapSlot = s.decapSlot ∧ (commit s f busy).decapSessionId = s.decapSessionId := by
  simp only [retargets, hc, Bool.true_and, Bool.or_eq_false_iff] at h
  obtain ⟨hslot, hid⟩ := h
  unfold commit
  by_cases hS : s.awaddrQ = REG_SLOT
  · simp only [hS, show ¬ REG_SLOT = REG_CONTROL by decide, if_false, if_true]
    simp only [hS, beq_self_eq_true, Bool.true_and, Bool.and_eq_false_iff] at hslot
    split_ifs with h0
    · rcases hslot with hf | he
      · exact absurd (h0.symm.trans hf) (by simp)
      · exact ⟨by simpa using he, hi⟩
    · exact ⟨hs, hi⟩
  · by_cases hI : s.awaddrQ = REG_SESSION
    · simp only [hI, show ¬ REG_SESSION = REG_CONTROL by decide,
        show ¬ REG_SESSION = REG_SLOT by decide, if_false, if_true]
      exact ⟨hs, by simpa [hI] using hid⟩
    · simp only [hS, hI, if_false, apply_ite State.decapSlot, apply_ite State.decapSessionId, hs, hi,
        ite_self, and_self]

theorem target_next {s : State w} (h : retargets s = false) (i : AxiIn 8) (st : Status)
    (m : DecapsMemory.State) :
    (next s i st m).decapSlot = s.decapSlot ∧ (next s i st m).decapSessionId = s.decapSessionId := by
  unfold next
  obtain ⟨hs, hi⟩ := nextRead_target s (nextWrite s _ i st.busy) i st.busy m
  rw [hs, hi]
  rcases hc : commits s with _ | _
  · obtain ⟨hs', hi'⟩ := nextWrite_target s _ i st.busy hc
    rw [hs', hi']
    split_ifs <;> exact ⟨rfl, rfl⟩
  · simp only [nextWrite, hc, if_true]
    refine commit_target ?_ ?_ hc h st.busy
    all_goals
      simp only [apply_ite State.decapSlot, apply_ite State.decapSessionId, ite_self]

end DecapsFrontend

namespace DecapsMemory

/-- The host write of this cycle changes a word of the SK or CT memory. -/
def rewritesWords (s : State) (h : Host) : Bool :=
  (hostWrites h 0 && s.skMem (h.addr.setWidth 9) != h.wdata) ||
    (hostWrites h 1 && s.ctMem (h.addr.setWidth 8) != h.wdata)

/-- It changes a word of the polynomial memory. -/
def rewritesPoly (s : State) (h : Host) : Bool :=
  hostWrites h 2 && h.addr.toNat < 3072 && s.polyMem h.addr != h.wdata.setWidth 16

theorem write_same {a d : ℕ} {mem : BitVec a → BitVec d} {we : Bool} {addr : BitVec a} {x : BitVec d}
    (h : (we && mem addr != x) = false) : write mem we addr x = mem := by
  unfold write
  split_ifs with hw
  · have hx : mem addr = x := by simpa [hw] using h
    rw [← hx, Function.update_eq_self]
  · rfl

theorem words_next {s : State} {h : Host} (hk : rewritesWords s h = false) {p : Ports}
    (hs : p.skWe = false) (hc : p.ctWe = false) :
    (next s h p).skMem = s.skMem ∧ (next s h p).ctMem = s.ctMem := by
  simp only [rewritesWords, Bool.or_eq_false_iff] at hk
  simp only [next, hs, hc, write_same hk.1, write_same hk.2]
  exact ⟨rfl, rfl⟩

theorem poly_next {s : State} {h : Host} (hk : rewritesPoly s h = false) (p : Ports) :
    (next s h p).polyMem = write s.polyMem (p.polyWe && p.polyAddr.toNat < 3072) p.polyAddr p.polyWdata := by
  simp only [next, write_same hk]

end DecapsMemory

namespace ProtectedTop

variable {n : ℕ} {aead : EngineIn → EngineOut} {κ : Type} {dp : Datapath}
  {kdf : BitVec 256 → BitVec 256 → BitVec 576} {H : SharedHash kdf} {E : StartDone aead κ}

/-- The decapsulation runs, and uses all three memories. -/
def St.decapsulates : St → Bool
  | .dStart | .dWait => true
  | _ => false

/-- Key and ciphertext are still to be read: the decapsulation and the transcript. -/
def St.loads : St → Bool
  | .dStart | .dWait | .tGuard | .tStart | .tWait => true
  | _ => false

/-- Slot and session id are still to be used. -/
def St.targets : St → Bool
  | .idle | .cWait | .report => false
  | _ => true

/-- The host leaves alone what the handshake still uses. -/
def Undisturbed (s : State n dp H.toHashUnit E) : Prop :=
  (s.state.targets = true → DecapsFrontend.retargets s.front = false) ∧
  (s.state.loads = true →
    DecapsMemory.rewritesWords s.mem (DecapsFrontend.hostPort s.front) = false) ∧
  (s.state.decapsulates = true →
    DecapsMemory.rewritesPoly s.mem (DecapsFrontend.hostPort s.front) = false)

instance decidableUndisturbed (s : State n dp H.toHashUnit E) : Decidable (Undisturbed s) := by
  unfold Undisturbed
  infer_instance

/-- The two parts of an outcome: the report, and the configuration handed over for install. -/
inductive Outcome (n : ℕ) where
  | report (fail : Bool)
  | install (c : Config n)
  deriving DecidableEq

/-- What is seen of a handshake at one point of a run. -/
def outcome (s : State n dp H.toHashUnit E) : Act (In n κ) → List (Outcome n)
  | .reset => []
  | .tick i =>
    (if finalDone s then [.report (finalFail s)] else []) ++
    (if MaterialCore.latches s.channel (channelIn s i) then
      [.install (MaterialCore.materialConfig s.front.decapSlot s.front.decapSessionId s.materialA)]
    else [])

/-- Two runs of a handshake side by side: only the AXI port may differ, and both hosts leave
alone what is in use. -/
def Alike (p : State n dp H.toHashUnit E × State n dp H.toHashUnit E) (i : In n κ × In n κ) : Prop :=
  p.1.state ≠ .idle ∧ { i.1 with axi := i.2.axi } = i.2 ∧ Undisturbed p.1 ∧ Undisturbed p.2

instance [DecidableEq κ] (p : State n dp H.toHashUnit E × State n dp H.toHashUnit E)
    (i : In n κ × In n κ) : Decidable (Alike p i) := by
  unfold Alike
  infer_instance

/-- The registers that decide the outcome agree. -/
structure Agree (s s' : State n dp H.toHashUnit E) : Prop where
  rest : { s with front := s'.front, mem := s'.mem, dec := s'.dec } = s'
  target : s.state.targets = true →
    s.front.decapSlot = s'.front.decapSlot ∧ s.front.decapSessionId = s'.front.decapSessionId
  words : s.state.loads = true → s.mem.skMem = s'.mem.skMem ∧ s.mem.ctMem = s'.mem.ctMem ∧
    s.mem.skRdata = s'.mem.skRdata ∧ s.mem.ctRdata = s'.mem.ctRdata
  dec : s.state.decapsulates = true → s.dec = s'.dec ∧ s.mem.polyMem = s'.mem.polyMem ∧
    s.mem.polyRdata = s'.mem.polyRdata
  fail : s.dec.failQ = s'.dec.failQ

section Frames

variable {maxStage : ℕ} {s : State n dp H.toHashUnit E} {i : In n κ} {f : DecapsFrontend.State (slotWidth n)}
  {m : DecapsMemory.State} {d : DecapsEngine.State dp} {a : AxiIn 8}

/-- The monitors look past the frontend and the memories, and at the engine only for its hash
starts. -/
theorem watch_frame (hq : hsReq { s with front := f, mem := m, dec := d } = hsReq s)
    (ho : outOfSequence { s with front := f, mem := m, dec := d } { i with axi := a } =
      outOfSequence s i) :
    watch maxStage { s with front := f, mem := m, dec := d } { i with axi := a } =
      { watch maxStage s i with front := f, mem := m, dec := d } := by
  have hexp : expires maxStage { s with front := f, mem := m, dec := d } = expires maxStage s := rfl
  have hh : hashFails { s with front := f, mem := m, dec := d } = hashFails s := rfl
  have hr : reqReady { s with front := f, mem := m, dec := d } { i with axi := a } = reqReady s i := rfl
  have hu : unexpectedRsp { s with front := f, mem := m, dec := d } { i with axi := a } =
    unexpectedRsp s i := rfl
  have hv : rawRspValid { s with front := f, mem := m, dec := d } = rawRspValid s := rfl
  refine State.ext ?_ ?_ ?_ ?_ ?_ ?_ ?_ ?_ ?_ ?_ ?_ ?_ ?_ ?_ ?_ ?_ ?_ ?_ ?_ ?_ ?_ <;>
    simp only [watch_state, watch_prevState, watch_ssA, watch_ssB, watch_transcriptA,
      watch_transcriptB, watch_materialA, watch_materialB, watch_faultDetected, watch_faultCode,
      watch_hashIndex, watch_stageTimer, watch_outstanding, watch_ssMatch, watch_transcriptMatch,
      watch_materialMatch, watch_blocks, raises, hexp, hq, ho, hh, hr, hu, hv]

theorem machine_frame {g : State n dp H.toHashUnit E} (hidle : s.state ≠ .idle)
    (hd : s.state = .dWait → d = s.dec) :
    machine { s with front := f, mem := m, dec := d } { g with front := f, mem := m, dec := d }
        { i with axi := a } =
      { machine s g i with front := f, mem := m, dec := d } := by
  rcases hst : s.state with _ | _ | _ | _ | _ | _ | _ | _ | _ | _ | _ | _ | _ <;>
    simp only [machine, hst]
  case idle => exact absurd hst hidle
  case dWait =>
    rw [hd hst]
    split_ifs <;> rfl
  case tWait | kWait =>
    change (if hdoneCtl s i = true then _ else _) = _
    split_ifs <;> rfl
  all_goals
    try split_ifs
    all_goals rfl

/-- The material core takes slot, session id and material only with an install request. -/
theorem channel_frame {c : MaterialCore.State n E} {x y : MaterialCore.In n κ}
    (hi : x.install = y.install)
    (ht : x.install = true → x.slot = y.slot ∧ x.sessionId = y.sessionId)
    (hm : x.material = y.material)
    (hs : MaterialCore.sessionsIn c x = MaterialCore.sessionsIn c y) :
    MaterialCore.next c x = MaterialCore.next c y := by
  have hl : MaterialCore.latches c x = MaterialCore.latches c y := by
    simp only [MaterialCore.latches, hi]
  unfold MaterialCore.next
  rw [hs, hl]
  rcases hx : x.install with _ | _
  · have hy : MaterialCore.latches c y = false := by simp [MaterialCore.latches, ← hi, hx]
    simp only [hy, Bool.false_eq_true, if_false]
  · simp only [(ht hx).1, (ht hx).2, hm]

end Frames

section Agreement

variable {s s' : State n dp H.toHashUnit E} {g g' : Handshake} {i j : In n κ}

theorem Agree.state (h : Agree s s') : s'.state = s.state := by rw [← h.rest]

theorem Agree.hash (h : Agree s s') : s'.hash = s.hash := by rw [← h.rest]

theorem Agree.channel (h : Agree s s') : s'.channel = s.channel := by rw [← h.rest]

theorem Agree.faultDetected (h : Agree s s') : s'.faultDetected = s.faultDetected := by rw [← h.rest]

/-- In a handshake either the decapsulation runs, or it is over, or the report is out. -/
theorem busy_cases (h : s.state ≠ .idle) :
    s.state.decapsulates = true ∨ s.state.late = true ∨ s.state = .report := by
  rcases hst : s.state with _ | _ | _ | _ | _ | _ | _ | _ | _ | _ | _ | _ | _ <;>
    simp_all [St.decapsulates, St.late]

theorem loads_of_decapsulates (h : s.state.decapsulates = true) : s.state.loads = true := by
  rcases hst : s.state with _ | _ | _ | _ | _ | _ | _ | _ | _ | _ | _ | _ | _ <;>
    simp_all [St.decapsulates, St.loads]

theorem decIn_agree (h : Agree s s') (hij : { i with axi := j.axi } = j)
    (hl : s.state.loads = true) (hd : s.state.decapsulates = true) : decIn s' j = decIn s i := by
  obtain ⟨-, -, hsk, hct⟩ := h.words hl
  obtain ⟨-, -, hpoly⟩ := h.dec hd
  unfold decIn hdoneCtl hashOut
  rw [h.state, h.hash, ← hij, hsk, hct, hpoly]

theorem hsReq_agree (h : Agree s s') (hR : Ready s g) (hR' : Ready s' g') (hidle : s.state ≠ .idle)
    (hrep : s.state ≠ .report) : hsReq s' = hsReq s := by
  have hst := h.state
  rcases busy_cases hidle with hd | hl | hr
  · rw [← h.rest]
    simp only [hsReq, ← (h.dec hd).1]
  · by_cases ht : s.state = .tStart
    · rw [← h.rest]
      simp only [hsReq, ht]
    · by_cases hk : s.state = .kStart
      · rw [← h.rest]
        simp only [hsReq, hk]
      · rw [hsReq_late hR hl ht hk, hsReq_late hR' (by rwa [hst]) (by rwa [hst]) (by rwa [hst])]
  · exact absurd hr hrep

/-- A job that is asked for is the same job. -/
theorem hashJob_agree (h : Agree s s') (hij : { i with axi := j.axi } = j) (hR : Ready s g)
    (hidle : s.state ≠ .idle) (hrep : s.state ≠ .report) (hreq : hsReq s = true) :
    hashJob s' j = hashJob s i := by
  have hj : hashReq s' j = hashReq s i := by
    rcases busy_cases hidle with hd | hl | hr
    · have hin := decIn_agree h hij (loads_of_decapsulates hd) hd
      have hout : decOut s' j = decOut s i := by
        unfold decOut
        rw [hin, (h.dec hd).1]
      have hst : s.state = .dStart ∨ s.state = .dWait := by
        rcases hs : s.state with _ | _ | _ | _ | _ | _ | _ | _ | _ | _ | _ | _ | _ <;>
          simp_all [St.decapsulates]
      unfold hashReq
      rw [hout, h.state, (h.dec hd).1]
      rcases hst with hst | hst <;> simp only [hst]
    · by_cases ht : s.state = .tStart
      · simp only [hashReq, h.state, ht]
      · by_cases hk : s.state = .kStart
        · rw [← h.rest]
          simp only [hashReq, hk]
        · rw [hsReq_late hR hl ht hk] at hreq
          exact absurd hreq Bool.false_ne_true
    · exact absurd hr hrep
  unfold hashJob
  rw [hj, ← hij]

theorem outOfSequence_agree (h : Agree s s') (hij : { i with axi := j.axi } = j) (hR : Ready s g)
    (hR' : Ready s' g') (hidle : s.state ≠ .idle) (hrep : s.state ≠ .report) :
    outOfSequence s' j = outOfSequence s i := by
  have hq := hsReq_agree h hR hR' hidle hrep
  have hidx : s'.hashIndex = s.hashIndex := by rw [← h.rest]
  unfold outOfSequence
  rw [hq, hidx]
  rcases hreq : hsReq s with _ | _
  · rfl
  · rw [hashJob_agree h hij hR hidle hrep hreq]

/-- The job of `K_WAIT` takes nothing from the memories, flipped or not. -/
def KdfJob (s : State n dp H.toHashUnit E) (g : Handshake) : Prop :=
  s.state = .kWait → g.job.readsMemory = false

theorem kdfJob_next (hR : Ready s g) (h : KdfJob s g) (i : In n κ) :
    KdfJob (next 300000 s i) (record s (.tick i) g) := by
  intro hk
  have hst' := state_next 300000 s i
  rw [hk] at hst'
  rcases hst : s.state with _ | _ | _ | _ | _ | _ | _ | _ | _ | _ | _ | _ | _ <;>
    simp only [hst] at hst'
  case kStart =>
    split_ifs at hst' with hc
    have hreq : hsReq s = true := by
      simp only [hsReq, hst, Bool.not_eq_true']
      exact Bool.eq_false_iff.mpr hc
    rw [(record_of_hsReq hR (by simp [hst]) hreq).2]
    rcases hf : i.fault.hashCommand with _ | _ <;>
      simp [hashJob, hashReq, hst, hf, HashJob.readsMemory]
  case kWait =>
    have hreq : hsReq s = false :=
      hsReq_late hR (by simp [hst, St.late]) (by simp [hst]) (by simp [hst])
    rw [(record_of_not_hsReq (by simp [hst]) hreq).2]
    exact h hst
  all_goals
    try split_ifs at hst'
    all_goals cases hst'

/-- The hash engine keeps in step: it gets the same pins where it looks at them. -/
theorem hash_agree (h : Agree s s') (hij : { i with axi := j.axi } = j) (hR : Ready s g)
    (hR' : Ready s' g') (hK : KdfJob s g) (hidle : s.state ≠ .idle) (hrep : s.state ≠ .report) :
    H.next s'.hash (hashIn s' j) = H.next s.hash (hashIn s i) := by
  have hq := hsReq_agree h hR hR' hidle hrep
  have hjob := hashJob_agree h hij hR hidle hrep
  have hid : hsReq s = true → s'.front.decapSessionId = s.front.decapSessionId := by
    intro hreq
    refine (h.target ?_).2.symm
    by_contra ht
    have hl : s.state.late = true ∧ s.state ≠ .tStart ∧ s.state ≠ .kStart := by
      rcases hs : s.state with _ | _ | _ | _ | _ | _ | _ | _ | _ | _ | _ | _ | _ <;>
        simp_all [St.targets, St.late]
    rw [hsReq_late hR hl.1 hl.2.1 hl.2.2] at hreq
    exact absurd hreq Bool.false_ne_true
  rw [h.hash]
  rcases hbusy : (hashOut s).busy with _ | _
  · refine H.idle_pins s.hash _ _ hbusy hq fun hreq => ?_
    have hreq : hsReq s = true := hq ▸ hreq
    exact ⟨hjob hreq, hid hreq⟩
  · obtain ⟨a, k, hwork, hwait⟩ := hR.busy hbusy
    refine H.working_pins a k s.hash _ _ hwork fun hm => ?_
    by_cases hl : s.state.loads = true
    · obtain ⟨-, -, hsk, hct⟩ := h.words hl
      exact ⟨hsk.symm, hct.symm⟩
    · have hlate : s.state.late = true := by
        rcases hs : s.state with _ | _ | _ | _ | _ | _ | _ | _ | _ | _ | _ | _ | _ <;>
          simp_all [St.loads, St.late]
      rcases hwait with hw | ⟨hst | hst, rfl, -⟩
      · exact absurd hw (DecapsEngine.idle_of_phased hR.phased (hR.parked hlate)).2.1
      · exact absurd (by simp [hst, St.loads]) hl
      · exact absurd (hm.symm.trans (hK hst)) (by simp)

/-- What a handshake does not use any more it does not come back to. -/
theorem uses_of_next {N : ℕ} (hidle : s.state ≠ .idle) :
    ((next N s i).state.targets = true → s.state.targets = true) ∧
      ((next N s i).state.loads = true → s.state.loads = true) ∧
      ((next N s i).state.decapsulates = true → s.state.decapsulates = true) := by
  rw [state_next]
  rcases hst : s.state with _ | _ | _ | _ | _ | _ | _ | _ | _ | _ | _ | _ | _ <;> simp only
  case idle => exact absurd hst hidle
  all_goals
    refine ⟨?_, ?_, ?_⟩
    all_goals
      try split_ifs
      all_goals simp [St.targets, St.loads, St.decapsulates]

theorem memPorts_agree (h : Agree s s') (hij : { i with axi := j.axi } = j) (hR : Ready s g)
    (hR' : Ready s' g') (hidle : s.state ≠ .idle) (hl : s.state.loads = true) :
    (memPorts s' j).skAddr = (memPorts s i).skAddr ∧ (memPorts s' j).ctAddr = (memPorts s i).ctAddr ∧
      (s.state.decapsulates = true → memPorts s' j = memPorts s i) := by
  have hh : hashOut s' = hashOut s := by
    unfold hashOut
    rw [h.hash]
  by_cases hd : s.state.decapsulates = true
  · have hin := decIn_agree h hij hl hd
    have heq : memPorts s' j = memPorts s i := by
      unfold memPorts decOut
      rw [hh, hin, ← (h.dec hd).1]
    rw [heq]
    exact ⟨rfl, rfl, fun _ => rfl⟩
  · have hlate : s.state.late = true := by
      rcases hs : s.state with _ | _ | _ | _ | _ | _ | _ | _ | _ | _ | _ | _ | _ <;>
        simp_all [St.loads, St.late, St.decapsulates]
    have hidl := hR.parked hlate
    have hidl' := hR'.parked (by rwa [h.state])
    refine ⟨?_, ?_, fun hd' => absurd hd' hd⟩
    · simp only [memPorts, hh, DecapsEngine.skAddr, hidl, hidl']
    · simp only [memPorts, hh, DecapsEngine.ctAddr, hidl, hidl']

theorem words_agree (h : Agree s s') (hij : { i with axi := j.axi } = j) (hR : Ready s g)
    (hR' : Ready s' g') (hidle : s.state ≠ .idle) (hU : Undisturbed s) (hU' : Undisturbed s')
    (hl : s.state.loads = true) :
    (next 300000 s i).mem.skMem = (next 300000 s' j).mem.skMem ∧
      (next 300000 s i).mem.ctMem = (next 300000 s' j).mem.ctMem ∧
      (next 300000 s i).mem.skRdata = (next 300000 s' j).mem.skRdata ∧
      (next 300000 s i).mem.ctRdata = (next 300000 s' j).mem.ctRdata := by
  obtain ⟨hsk, hct, -, -⟩ := h.words hl
  obtain ⟨hpsk, hpct, -⟩ := memPorts_agree h hij hR hR' hidle hl
  have hw := DecapsMemory.words_next (hU.2.1 hl) (p := memPorts s i) rfl rfl
  have hw' := DecapsMemory.words_next (hU'.2.1 (by rwa [h.state])) (p := memPorts s' j) rfl rfl
  refine ⟨hw.1.trans (hsk.trans hw'.1.symm), hw.2.trans (hct.trans hw'.2.symm), ?_, ?_⟩
  · change s.mem.skMem (memPorts s i).skAddr = s'.mem.skMem (memPorts s' j).skAddr
    rw [hpsk, hsk]
  · change s.mem.ctMem (memPorts s i).ctAddr = s'.mem.ctMem (memPorts s' j).ctAddr
    rw [hpct, hct]

theorem dec_agree (h : Agree s s') (hij : { i with axi := j.axi } = j) (hR : Ready s g)
    (hR' : Ready s' g') (hidle : s.state ≠ .idle) (hU : Undisturbed s) (hU' : Undisturbed s')
    (hd : s.state.decapsulates = true) :
    (next 300000 s i).dec = (next 300000 s' j).dec ∧
      (next 300000 s i).mem.polyMem = (next 300000 s' j).mem.polyMem ∧
      (next 300000 s i).mem.polyRdata = (next 300000 s' j).mem.polyRdata := by
  have hl := loads_of_decapsulates hd
  obtain ⟨hdec, hpoly, -⟩ := h.dec hd
  have hports := (memPorts_agree h hij hR hR' hidle hl).2.2 hd
  have hin := decIn_agree h hij hl hd
  have hp := DecapsMemory.poly_next (hU.2.2 hd) (memPorts s i)
  have hp' := DecapsMemory.poly_next (hU'.2.2 (by rwa [h.state])) (memPorts s' j)
  refine ⟨?_, ?_, ?_⟩
  · change DecapsEngine.next s.dec (decIn s i) = DecapsEngine.next s'.dec (decIn s' j)
    rw [hin, hdec]
  · refine hp.trans (Eq.trans ?_ hp'.symm)
    rw [hports, hpoly]
  · change s.mem.polyMem (memPorts s i).polyAddr = s'.mem.polyMem (memPorts s' j).polyAddr
    rw [hports, hpoly]

/-- After the decapsulation its failure flag stands. -/
theorem failQ_next (hR : Ready s g) (hl : s.state.late = true) :
    (next 300000 s i).dec.failQ = s.dec.failQ := by
  have hst : s.state ≠ .dStart := by
    intro hst
    simp [hst, St.late] at hl
  have hin : (decIn s i).start = false := by simp [decIn, hst]
  change (DecapsEngine.next s.dec (decIn s i)).failQ = _
  simp [DecapsEngine.next, DecapsEngine.control, hR.parked hl, hin]

theorem installReq_agree (h : Agree s s') : installReq s' = installReq s := by
  rw [← h.rest]
  rfl

theorem targets_of_installReq (hreq : installReq s = true) : s.state.targets = true := by
  simp only [installReq, Bool.and_eq_true, decide_eq_true_eq] at hreq
  simp [hreq.1.1.1, St.targets]

theorem channel_agree (h : Agree s s') (hij : { i with axi := j.axi } = j) :
    MaterialCore.next s'.channel (channelIn s' j) = MaterialCore.next s.channel (channelIn s i) := by
  rw [h.channel]
  refine channel_frame (installReq_agree h) (fun hreq => ?_) ?_ ?_
  · have hreq : installReq s = true := (installReq_agree h).symm.trans hreq
    obtain ⟨hs, hi⟩ := h.target (targets_of_installReq hreq)
    exact ⟨hs.symm, hi.symm⟩
  · change s'.materialA = s.materialA
    rw [← h.rest]
  · rw [← hij]
    rfl

/-- One edge of a handshake: what still decides the outcome keeps agreeing. -/
theorem agree_next (h : Agree s s') (hij : { i with axi := j.axi } = j) (hR : Ready s g)
    (hR' : Ready s' g') (hK : KdfJob s g) (hidle : s.state ≠ .idle) (hrep : s.state ≠ .report)
    (hU : Undisturbed s) (hU' : Undisturbed s') :
    Agree (next 300000 s i) (next 300000 s' j) := by
  have hq := hsReq_agree h hR hR' hidle hrep
  have ho := outOfSequence_agree h hij hR hR' hidle hrep
  obtain ⟨htarget, hloads, hdecaps⟩ := uses_of_next (i := i) hidle
  have hslot : s.state.targets = true →
      (next 300000 s i).front.decapSlot = (next 300000 s' j).front.decapSlot ∧
        (next 300000 s i).front.decapSessionId = (next 300000 s' j).front.decapSessionId := by
    intro ht
    obtain ⟨hs1, hs2⟩ := h.target ht
    have hk := DecapsFrontend.target_next (hU.1 ht) i.axi
      ⟨s.state ≠ .idle, finalDone s, finalFail s⟩ s.mem
    have hk' := DecapsFrontend.target_next (hU'.1 (by rwa [h.state])) j.axi
      ⟨s'.state ≠ .idle, finalDone s', finalFail s'⟩ s'.mem
    exact ⟨hk.1.trans (hs1.trans hk'.1.symm), hk.2.trans (hs2.trans hk'.2.symm)⟩
  refine ⟨?_, fun ht => hslot (htarget ht),
    fun hl => words_agree h hij hR hR' hidle hU hU' (hloads hl),
    fun hd => dec_agree h hij hR hR' hidle hU hU' (hdecaps hd), ?_⟩
  · have hw : watch 300000 { s with front := s'.front, mem := s'.mem, dec := s'.dec }
        { i with axi := j.axi } = _ := watch_frame (by rw [h.rest, hq]) (by rw [h.rest, hij, ho])
    have hm := machine_frame (g := watch 300000 s i) (i := i) (f := s'.front) (m := s'.mem)
      (d := s'.dec) (a := j.axi) hidle fun hst => (h.dec (by simp [hst, St.decapsulates])).1.symm
    rw [h.rest, hij] at hw
    rw [h.rest, hij, ← hw] at hm
    have hhash := hash_agree h hij hR hR' hK hidle hrep
    unfold next
    rw [hm, hhash, channel_agree h hij]
  · rcases busy_cases hidle with hd | hl | hr
    · rw [(dec_agree h hij hR hR' hidle hU hU' hd).1]
    · rw [failQ_next hR hl, failQ_next hR' (by rwa [h.state])]
      exact h.fail
    · exact absurd hr hrep

theorem outcome_agree (h : Agree s s') :
    outcome s (.tick i) = outcome s' (.tick j) := by
  have hfail : finalFail s' = finalFail s := by
    simp only [finalFail, DecapsEngine.fail, h.fail, h.faultDetected]
  have hdone : finalDone s' = finalDone s := by simp only [finalDone, h.state]
  have hl : MaterialCore.latches s'.channel (channelIn s' j) =
      MaterialCore.latches s.channel (channelIn s i) := by
    simp only [MaterialCore.latches, channelIn, installReq_agree h, h.channel]
  have hA : s'.materialA = s.materialA := by rw [← h.rest]
  unfold outcome
  simp only [hfail, hdone, hl, hA]
  rcases hlt : MaterialCore.latches s.channel (channelIn s i) with _ | _
  · simp
  · have hreq : installReq s = true := by
      simp only [MaterialCore.latches, channelIn, Bool.and_eq_true] at hlt
      exact hlt.1.1
    obtain ⟨hs, hid⟩ := h.target (targets_of_installReq hreq)
    rw [hs, hid]

end Agreement

section Isolation

/-- Two copies of a handshake in step, each where the handshake expects its blocks. -/
def InStep (p : State n dp H.toHashUnit E × State n dp H.toHashUnit E) : Prop :=
  p.1.state = p.2.state ∧ (p.1.state ≠ .idle → Agree p.1 p.2 ∧
    (∃ g, Ready p.1 g ∧ KdfJob p.1 g) ∧ ∃ g, Ready p.2 g ∧ KdfJob p.2 g)

theorem inStep_next (hH : H.latency < 300000)
    {p : State n dp H.toHashUnit E × State n dp H.toHashUnit E} {i : In n κ × In n κ}
    (h : InStep p) (hC : Alike p i) :
    InStep ((design n 300000 dp H.toHashUnit E).pair.next p i) := by
  obtain ⟨s, s'⟩ := p
  obtain ⟨i, j⟩ := i
  obtain ⟨hidle, hij, hU, hU'⟩ := hC
  obtain ⟨hst, h⟩ := h
  obtain ⟨hA, ⟨g, hR, hK⟩, g', hR', hK'⟩ := h hidle
  change InStep (next 300000 s i, next 300000 s' j)
  by_cases hrep : s.state = .report
  · have hn := state_next 300000 s i
    have hn' := state_next 300000 s' j
    simp only [← show s.state = s'.state from hst, hrep] at hn hn'
    exact ⟨hn.trans hn'.symm, fun hne => absurd hn hne⟩
  · have hA' := agree_next hA hij hR hR' hK hidle hrep hU hU'
    exact ⟨hA'.state.symm, fun _ => ⟨hA', ⟨_, ready_next hH hR i, kdfJob_next hR hK i⟩,
      _, ready_next hH hR' j, kdfJob_next hR' hK' j⟩⟩

theorem inStep_refl (hH : H.latency < 300000) {s : State n dp H.toHashUnit E}
    (hs : (design n 300000 dp H.toHashUnit E).Reachable s) : InStep (s, s) := by
  obtain ⟨g, hg⟩ := Design.reachable_withLog _ record Handshake.fresh hs
  have hinv : Ready s g ∧ KdfJob s g := by
    refine Design.reachable_induct (recorded n dp H E) (P := fun p => Ready p.1 p.2 ∧ KdfJob p.1 p.2)
      ?_ ?_ hg
    · rintro ⟨s, g⟩
      exact ⟨(recorded_invariant hH ⟨(s, g), [], rfl⟩).1, fun hst => by cases hst⟩
    · rintro ⟨s, g⟩ i ⟨hR, hK⟩
      exact ⟨ready_next hH hR i, kdfJob_next hR hK i⟩
  exact ⟨rfl, fun _ => ⟨⟨rfl, fun _ => ⟨rfl, rfl⟩, fun _ => ⟨rfl, rfl, rfl, rfl⟩,
    fun _ => ⟨rfl, rfl, rfl⟩, rfl⟩, ⟨g, hinv⟩, g, hinv⟩⟩

/-- What was loaded is still there where it is used. -/
def Held (s t : State n dp H.toHashUnit E) : Prop :=
  (t.state.targets = true →
    t.front.decapSlot = s.front.decapSlot ∧ t.front.decapSessionId = s.front.decapSessionId) ∧
  (t.state.loads = true → t.mem.skMem = s.mem.skMem ∧ t.mem.ctMem = s.mem.ctMem)

theorem held_rst (s t : State n dp H.toHashUnit E) : Held s (rst t) := by
  refine ⟨fun ht => ?_, fun hl => ?_⟩
  · cases ht
  · cases hl

theorem held_next {N : ℕ} {s t : State n dp H.toHashUnit E} (h : Held s t) (hidle : t.state ≠ .idle)
    (hU : Undisturbed t) (i : In n κ) : Held s (next N t i) := by
  obtain ⟨htarget, hloads, -⟩ := uses_of_next (N := N) (i := i) hidle
  refine ⟨fun ht => ?_, fun hl => ?_⟩
  · have hk := DecapsFrontend.target_next (hU.1 (htarget ht)) i.axi
      ⟨t.state ≠ .idle, finalDone t, finalFail t⟩ t.mem
    obtain ⟨hs, hid⟩ := h.1 (htarget ht)
    exact ⟨hk.1.trans hs, hk.2.trans hid⟩
  · have hw := DecapsMemory.words_next (hU.2.1 (hloads hl)) (p := memPorts t i) rfl rfl
    obtain ⟨hsk, hct⟩ := h.2 (hloads hl)
    exact ⟨hw.1.trans hsk, hw.2.trans hct⟩

/-- From any reachable state, in particular the one after a launch: two continuations of a
handshake that differ in the AXI port only, with hosts that leave alone what is still in use,
have the same outcome; and slot, session id, key and ciphertext are the loaded ones wherever
they are used, so the session id hashed is the one installed and the ciphertext hashed the one
decapsulated. -/
theorem handshake_isolated (hH : H.latency < 300000) {s : State n dp H.toHashUnit E}
    (hs : (design n 300000 dp H.toHashUnit E).Reachable s) {acts : List (Act (In n κ × In n κ))}
    (hC : (design n 300000 dp H.toHashUnit E).pair.AllSteps Alike (s, s) acts) :
    let D := design n 300000 dp H.toHashUnit E
    D.trace outcome s (acts.map (Act.map Prod.fst)) = D.trace outcome s (acts.map (Act.map Prod.snd)) ∧
      Held s (D.run s (acts.map (Act.map Prod.fst))) ∧ Held s (D.run s (acts.map (Act.map Prod.snd))) := by
  intro D
  have hstart := inStep_refl hH hs
  have hrst : ∀ p, InStep p → InStep (D.pair.rst p) := fun p _ => ⟨rfl, fun hne => absurd rfl hne⟩
  refine ⟨?_, ?_⟩
  · refine Design.pair_trace D hrst (fun p i h hc => inStep_next hH h hc) (fun p i h hc => ?_)
      (fun _ _ => rfl) hstart hC
    exact outcome_agree (h.2 hc.1).1
  · have hinit : InStep (s, s) ∧ Held s s ∧ Held s s :=
      ⟨hstart, ⟨fun _ => ⟨rfl, rfl⟩, fun _ => ⟨rfl, rfl⟩⟩, ⟨fun _ => ⟨rfl, rfl⟩, fun _ => ⟨rfl, rfl⟩⟩⟩
    have hrun := Design.run_induct_of D.pair (P := fun p => InStep p ∧ Held s p.1 ∧ Held s p.2)
      (fun p h => ⟨hrst p h.1, held_rst s p.1, held_rst s p.2⟩)
      (fun p i h hc => ⟨inStep_next hH h.1 hc, held_next h.2.1 hc.1 hc.2.2.1 i.1,
        held_next h.2.2 (h.1.1 ▸ hc.1) hc.2.2.2 i.2⟩) hinit hC
    rw [Design.pair_run] at hrun
    exact hrun.2

end Isolation

section Sample

abbrev sampleDesign : Design SampleState (In 64 Bool) :=
  design 64 300000 sampleDatapath sampleHash.toHashUnit sampleEngine

/-- START has been written and raises `decap_start_o`. -/
def sampleLaunch : SampleState :=
  sampleDesign.run (sampleDesign.rst sampleTop)
    [.tick (sampleWrite DecapsFrontend.REG_CONTROL 1), .tick sampleQuiet]

/-- The handshake without and with a register write in its first cycles. -/
def sampleTwins (write : In 64 Bool) : List (Act (In 64 Bool × In 64 Bool)) :=
  .tick (sampleQuiet, write) :: List.replicate 87 (.tick (sampleQuiet, sampleQuiet))

theorem handshake_isolated_region :
    let s := next 300000 sampleLaunch sampleQuiet
    let acts := sampleTwins (sampleWrite DecapsFrontend.REG_MEM_REGION 1)
    sampleDesign.trace outcome s (acts.map (Act.map Prod.fst)) =
      sampleDesign.trace outcome s (acts.map (Act.map Prod.snd)) :=
  have hs : sampleDesign.Reachable (next 300000 sampleLaunch sampleQuiet) :=
    ⟨sampleTop, [.tick (sampleWrite DecapsFrontend.REG_CONTROL 1), .tick sampleQuiet,
      .tick sampleQuiet], rfl⟩
  have hC : sampleDesign.pair.AllSteps Alike
      (next 300000 sampleLaunch sampleQuiet, next 300000 sampleLaunch sampleQuiet)
      (sampleTwins (sampleWrite DecapsFrontend.REG_MEM_REGION 1)) := by
    decide +kernel
  (handshake_isolated (by decide) hs hC).1

/-- A slot written while the handshake runs: the session goes to another slot. -/
theorem handshake_not_isolated :
    let s := next 300000 sampleLaunch sampleQuiet
    let acts := sampleTwins (sampleWrite DecapsFrontend.REG_SLOT 1)
    launches sampleLaunch = true ∧
      sampleDesign.pair.AllSteps
        (fun p i => p.1.state ≠ .idle ∧ { i.1 with axi := i.2.axi } = i.2) (s, s) acts ∧
      sampleDesign.trace outcome s (acts.map (Act.map Prod.fst)) =
        [.install (MaterialCore.materialConfig 0 0 0)] ∧
      sampleDesign.trace outcome s (acts.map (Act.map Prod.snd)) =
        [.install (MaterialCore.materialConfig 1 0 0)] := by
  decide +kernel

end Sample

end ProtectedTop

end ZedSecure
