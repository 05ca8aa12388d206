import ZedSecure.Rtl.ProtectedTop

/-! What one clock edge does to the registers of the protected top: first the monitors,
which act in every state, then the state machine. -/

namespace ZedSecure

open Clocked

namespace ProtectedTop

variable {n : ℕ} {aead : EngineIn → EngineOut} {κ : Type} {dp : Datapath} {H : HashUnit}
  {E : StartDone aead κ} (N : ℕ) (s f : State n dp H E) (i : In n κ)

/-- A monitor raises a fault at this edge. -/
def raises : Bool :=
  expires N s || outOfSequence s i || hashFails s || unexpectedRsp s i

section Watch

@[simp] theorem watch_ssA : (watch N s i).ssA = s.ssA := by
  simp only [watch, apply_ite State.ssA, ite_self]

@[simp] theorem watch_ssB : (watch N s i).ssB = s.ssB := by
  simp only [watch, apply_ite State.ssB, ite_self]

@[simp] theorem watch_transcriptA : (watch N s i).transcriptA = s.transcriptA := by
  simp only [watch, apply_ite State.transcriptA, ite_self]

@[simp] theorem watch_transcriptB : (watch N s i).transcriptB = s.transcriptB := by
  simp only [watch, apply_ite State.transcriptB, ite_self]

@[simp] theorem watch_materialA : (watch N s i).materialA = s.materialA := by
  simp only [watch, apply_ite State.materialA, ite_self]

@[simp] theorem watch_materialB : (watch N s i).materialB = s.materialB := by
  simp only [watch, apply_ite State.materialB, ite_self]

@[simp] theorem watch_prevState : (watch N s i).prevState = s.state := by
  simp only [watch, apply_ite State.prevState, ite_self]

@[simp] theorem watch_ssMatch : (watch N s i).ssMatch = (s.ssA == ~~~s.ssB) := by
  simp only [watch, apply_ite State.ssMatch, ite_self]

@[simp] theorem watch_transcriptMatch :
    (watch N s i).transcriptMatch = (s.transcriptA == ~~~s.transcriptB) := by
  simp only [watch, apply_ite State.transcriptMatch, ite_self]

@[simp] theorem watch_materialMatch :
    (watch N s i).materialMatch = (s.materialA == ~~~s.materialB) := by
  simp only [watch, apply_ite State.materialMatch, ite_self]

@[simp] theorem watch_stageTimer : (watch N s i).stageTimer =
    if s.state ≠ s.prevState then 0
    else if s.state ≠ .idle ∧ s.state ≠ .report then s.stageTimer + 1 else s.stageTimer := by
  simp only [watch, apply_ite State.stageTimer, ite_self]

@[simp] theorem watch_state :
    (watch N s i).state = if expires N s then .report else s.state := by
  simp only [watch, apply_ite State.state, ite_self]

@[simp] theorem watch_hashIndex :
    (watch N s i).hashIndex = if hsReq s then s.hashIndex + 1 else s.hashIndex := by
  simp only [watch, apply_ite State.hashIndex, ite_self]

@[simp] theorem watch_faultDetected :
    (watch N s i).faultDetected = (s.faultDetected || raises N s i) := by
  have ho : hsReq s = false → outOfSequence s i = false := fun h => by simp [outOfSequence, h]
  simp only [watch, apply_ite State.faultDetected, raises]
  rcases hr : hsReq s with _ | _
  · rw [ho hr]
    cases expires N s <;> cases hashFails s <;> cases unexpectedRsp s i <;> simp
  · cases expires N s <;> cases outOfSequence s i <;> cases hashFails s <;>
      cases unexpectedRsp s i <;> simp

@[simp] theorem watch_faultCode : (watch N s i).faultCode =
    if unexpectedRsp s i then s.faultCode ||| F_OUTPUT
    else if hashFails s then s.faultCode ||| F_HASH
    else if outOfSequence s i then s.faultCode ||| F_SEQUENCE
    else if expires N s then s.faultCode ||| F_TIMEOUT
    else s.faultCode := by
  have ho : hsReq s = false → outOfSequence s i = false := fun h => by simp [outOfSequence, h]
  simp only [watch, apply_ite State.faultCode]
  rcases hr : hsReq s with _ | _
  · rw [ho hr]
    simp
  · simp

@[simp] theorem watch_outstanding : (watch N s i).outstanding =
    if rawRspValid s && i.rspReady && s.outstanding then false
    else if i.reqValid && reqReady s i then true else s.outstanding := by
  simp only [watch, apply_ite State.outstanding, ite_self]

@[simp] theorem watch_blocks : (watch N s i).front = s.front ∧
    (watch N s i).mem = s.mem ∧ (watch N s i).dec = s.dec ∧
    (watch N s i).hash = s.hash ∧ (watch N s i).channel = s.channel := by
  refine ⟨?_, ?_, ?_, ?_, ?_⟩
  · simp only [watch, apply_ite State.front, ite_self]
  · simp only [watch, apply_ite State.mem, ite_self]
  · simp only [watch, apply_ite State.dec, ite_self]
  · simp only [watch, apply_ite State.hash, ite_self]
  · simp only [watch, apply_ite State.channel, ite_self]

end Watch

/-- Where the state machine goes. A wait that ends in its last cycle wins over the timeout. -/
theorem state_next :
    (next N s i).state =
      let stay := if expires N s then St.report else s.state
      match s.state with
      | .idle => if s.front.decapStart then .dStart else stay
      | .dStart => .dWait
      | .dWait =>
        if DecapsEngine.done s.dec then (if DecapsEngine.fail s.dec then .report else .tGuard)
        else stay
      | .tGuard => .tStart
      | .tStart => if s.faultDetected || !s.ssMatch then .report else .tWait
      | .tWait => if hdoneCtl s i then .kGuard else stay
      | .kGuard => .kStart
      | .kStart => if s.faultDetected || !s.transcriptMatch then .report else .kWait
      | .kWait => if hdoneCtl s i then .cGuard else stay
      | .cGuard => .cStart
      | .cStart =>
        if s.faultDetected || !s.materialMatch || s.hashIndex != 14 then .report else .cWait
      | .cWait => if s.channel.installDone then .report else stay
      | .report => .idle := by
  unfold next machine
  rcases hs : s.state with _ | _ | _ | _ | _ | _ | _ | _ | _ | _ | _ | _ | _
  all_goals
    simp only [apply_ite State.state, watch_state, hs]

@[simp] theorem prevState_next : (next N s i).prevState = s.state := by
  unfold next machine
  rcases hs : s.state with _ | _ | _ | _ | _ | _ | _ | _ | _ | _ | _ | _ | _
  all_goals
    simp only [apply_ite State.prevState, watch_prevState, hs, ite_self]

@[simp] theorem outstanding_next : (next N s i).outstanding =
    if rawRspValid s && i.rspReady && s.outstanding then false
    else if i.reqValid && reqReady s i then true else s.outstanding := by
  unfold next machine
  rcases hs : s.state with _ | _ | _ | _ | _ | _ | _ | _ | _ | _ | _ | _ | _
  all_goals
    simp only [apply_ite State.outstanding, watch_outstanding, ite_self]

variable {N s i}

/-- Only the report leads back to idle. -/
theorem busy_next (hidle : s.state ≠ .idle) (hrep : s.state ≠ .report) : (next N s i).state ≠ .idle := by
  rw [state_next]
  cases hs : s.state <;> simp only
  case idle => exact absurd hs hidle
  case report => exact absurd hs hrep
  all_goals
    try split_ifs
    all_goals simp

theorem stageTimer_next (hst : s.state ≠ .idle) : (next N s i).stageTimer =
    if s.state ≠ s.prevState then 0
    else if s.state ≠ .report then s.stageTimer + 1 else s.stageTimer := by
  unfold next machine
  rcases hs : s.state with _ | _ | _ | _ | _ | _ | _ | _ | _ | _ | _ | _ | _
  all_goals
    simp_all [apply_ite State.stageTimer]

theorem stageTimer_idle (hst : s.state = .idle) : (next N s i).stageTimer =
    if s.front.decapStart then 0 else if s.state ≠ s.prevState then 0 else s.stageTimer := by
  unfold next machine
  simp only [hst, apply_ite State.stageTimer, watch_stageTimer]
  simp

theorem hashIndex_next (hst : s.state ≠ .idle) :
    (next N s i).hashIndex = if hsReq s then s.hashIndex + 1 else s.hashIndex := by
  unfold next machine
  rcases hs : s.state with _ | _ | _ | _ | _ | _ | _ | _ | _ | _ | _ | _ | _
  case idle => exact absurd hs hst
  all_goals
    simp only [apply_ite State.hashIndex, watch_hashIndex, ite_self]

/-- The check of the state the handshake is in fails. -/
def checkFails (s : State n dp H E) : Bool :=
  match s.state with
  | .dWait => DecapsEngine.done s.dec && s.hashIndex != 12
  | .tStart => !s.ssMatch
  | .kStart => !s.transcriptMatch
  | .cStart => !s.materialMatch || s.hashIndex != 14
  | _ => false

/-- Outside `IDLE` a fault stays, and a monitor or a failed check sets it. -/
theorem faultDetected_next (hst : s.state ≠ .idle) :
    (next N s i).faultDetected =
      (s.faultDetected || raises N s i || checkFails s) := by
  unfold next machine checkFails
  rcases hs : s.state with _ | _ | _ | _ | _ | _ | _ | _ | _ | _ | _ | _ | _
  case idle => exact absurd hs hst
  case dWait =>
    simp only [apply_ite State.faultDetected, watch_faultDetected]
    rcases DecapsEngine.done s.dec with _ | _ <;> by_cases h12 : s.hashIndex = 12#5 <;> simp [h12]
  case tStart =>
    simp only [apply_ite State.faultDetected, watch_faultDetected]
    rcases s.faultDetected with _ | _ <;> rcases s.ssMatch with _ | _ <;> simp
  case kStart =>
    simp only [apply_ite State.faultDetected, watch_faultDetected]
    rcases s.faultDetected with _ | _ <;> rcases s.transcriptMatch with _ | _ <;> simp
  case cStart =>
    simp only [apply_ite State.faultDetected, watch_faultDetected]
    rcases s.faultDetected with _ | _ <;> rcases s.materialMatch with _ | _ <;>
      rcases s.hashIndex != 14 with _ | _ <;> simp
  all_goals
    simp only [apply_ite State.faultDetected, watch_faultDetected, ite_self, Bool.or_false]

theorem quiet_of_next (hst : s.state ≠ .idle) (h : (next N s i).faultDetected = false) :
    s.faultDetected = false ∧ raises N s i = false ∧ checkFails s = false := by
  simpa only [faultDetected_next hst, Bool.or_eq_false_iff, and_assoc] using h

end ProtectedTop

end ZedSecure
