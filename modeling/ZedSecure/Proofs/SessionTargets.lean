import ZedSecure.Proofs.AeadDriver
import ZedSecure.Proofs.HandshakeIsolation
import ZedSecure.Proofs.HandshakeReports
import ZedSecure.Proofs.InstallOwners
import ZedSecure.Proofs.SessionRefinement
import ZedSecure.Rtl.CompletePort

/-! Which session a slot holds while the host leaves the ML-KEM port alone. A handshake under way can
only change the slot in the slot register, and when it ends as done that slot holds the id in the
session register. -/

namespace ZedSecure

open Clocked SessionTable

variable {n : ℕ} {aead : EngineIn → EngineOut} {κ : Type} {dp : Datapath} {H : HashUnit}
  {E : StartDone aead κ}

/-- The slot of the table holds a session with this id. -/
def Has (t : Table n) (slot : BitVec (slotWidth n)) (id : BitVec 32) : Prop :=
  (t.slots slot).map Session.sessionId = some id

namespace SessionManager

variable {s : State n E} {t : Table n} {i : In n κ} {slot : BitVec (slotWidth n)} {id : BitVec 32}

/-- The table after the commands of one edge. -/
def tableNext (s : State n E) (i : In n κ) (t : Table n) : Table n :=
  ((machine aead).run t (commands s (.tick i))).1

/-- Serving a request leaves every id alone. -/
theorem serve_id (t : Slots n) (q : Request n) (slot : BitVec (slotWidth n)) :
    ((serve aead t q).1 slot).map Session.sessionId = (t slot).map Session.sessionId := by
  cases he : t q.slot with
  | none => rw [serve_none he]
  | some e =>
    by_cases hr : Refused e q
    · rw [serve_refused he hr]
    · rw [serve_answer he hr rfl]
      split_ifs
      · by_cases hq : slot = q.slot
        · subst hq
          simp only [Function.update_self, he, Option.map_some, Session.advance]
          split_ifs <;> rfl
        · simp only [Function.update_of_ne hq]
      · rfl

/-- What happens behind a configuration leaves the ids alone. -/
theorem has_served (h : Has t slot id) :
    Has ((machine aead).run t ((if i.reqValid && reqReady s i then [.request i.req] else []) ++
      (if s.rspValid && i.rspReady then [.take] else []))).1 slot id := by
  have hslots : ((machine aead).run t ((if i.reqValid && reqReady s i then [.request i.req] else []) ++
      (if s.rspValid && i.rspReady then [.take] else []))).1.slots =
        if i.reqValid && reqReady s i then (serve aead t.slots i.req).1 else t.slots := by
    split_ifs <;> rfl
  rw [Has, hslots]
  split_ifs
  · rw [serve_id]
    exact h
  · exact h

/-- A configuration changes its own slot only. -/
theorem has_next (h : Has t slot id) (hno : i.cfgWrite = true → cfgReady s = true → i.cfg.slot ≠ slot) :
    Has (tableNext s i t) slot id := by
  rw [tableNext, commands, List.append_assoc]
  cases hw : i.cfgWrite && cfgReady s with
  | false => exact has_served h
  | true =>
    rw [Bool.and_eq_true] at hw
    refine has_served (t := ⟨configure t.slots i.cfg, t.pending⟩) ?_
    have hsame : configure t.slots i.cfg slot = t.slots slot := by
      rw [configure]
      split_ifs
      · rw [Function.update_of_ne (Ne.symm (hno hw.1 hw.2))]
      · rw [Function.update_of_ne (Ne.symm (hno hw.1 hw.2))]
      · rfl
    change (configure t.slots i.cfg slot).map _ = _
    rw [hsame]
    exact h

/-- A configuration that is taken up is in the table. -/
theorem has_configured (hw : i.cfgWrite = true) (hready : cfgReady s = true) (hv : i.cfg.valid = true)
    (hr : i.cfg.slot.toNat < n) : Has (tableNext s i t) i.cfg.slot i.cfg.sessionId := by
  rw [tableNext, commands, List.append_assoc, hw, hready]
  refine has_served (t := ⟨configure t.slots i.cfg, t.pending⟩) ?_
  change (configure t.slots i.cfg i.cfg.slot).map _ = _
  rw [configure, if_pos hr, Function.update_self, hv]
  rfl

/-- A configuration being written was held, or is the one at the pins. -/
theorem cfgQ_next (h : (next s i).state = .cfgWrite) :
    (s.state = .cfgWrite ∧ (next s i).cfgQ = s.cfgQ) ∨
      (s.state = .idle ∧ i.cfgWrite = true ∧ (next s i).cfgQ = i.cfg) := by
  by_cases hst : s.state = .cfgWrite
  · have hwr := next_writes (i := i) hst
    split_ifs at hwr
    · rw [hwr.1] at h
      cases h
    · exact Or.inl ⟨hst, hwr.2.1⟩
  · by_cases hidle : s.state = .idle ∧ i.cfgWrite = true
    · refine Or.inr ⟨hidle.1, hidle.2, ?_⟩
      simp only [next, hidle.1, hidle.2, if_true] at h ⊢
      split_ifs at h ⊢
      all_goals first | rfl | exact absurd (hidle.1.symm.trans h) (by decide)
    · refine absurd h (next_apart hst fun hi => ?_).1
      exact Bool.eq_false_iff.mpr fun hw => hidle ⟨hi, hw⟩

/-- The slot is valid in the hardware, and its id word is `id`. -/
def InMemory (s : State n E) (slot : BitVec (slotWidth n)) (id : BitVec 32) : Prop :=
  s.sessionValid slot = true ∧ s.sessionMem (wordAddr slot 0) = id

theorem word_zero (e : Session) : e.word 0 = e.sessionId := by
  change slice e.sessionId (32 * 0) 32 = e.sessionId
  simp [slice]

theorem inMemory_holds {old : Slots n} (h : HoldsAt s.sessionMem s.sessionValid slot (old slot))
    (hid : (old slot).map Session.sessionId = some id) : InMemory s slot id := by
  obtain ⟨e, he, rfl⟩ := Option.map_eq_some_iff.mp hid
  rw [he] at h
  exact ⟨h.2.1, (h.2.2 0 (by omega)).trans (word_zero e)⟩

theorem inMemory_serving {old : Slots n} {e : Session} (h : Serving s t old e) (hid : Has t slot id) :
    InMemory s slot id := by
  rw [Has, h.slots, serve_id] at hid
  exact inMemory_holds (h.holds slot) hid

/-- A counter that is being written back leaves the id word alone. -/
theorem inMemory_counting (h : Counting s t) {ok : ℕ → Prop} (hfinal : Final s ok) (hzero : ok 0)
    (hid : Has t slot id) : InMemory s slot id := by
  by_cases hslot : slot = s.requestQ.slot
  · subst hslot
    rw [Has, h.entry, Option.map_some, Option.some.injEq] at hid
    exact ⟨h.valid, (hfinal 0 (by omega) hzero).trans ((word_zero _).trans hid)⟩
  · exact inMemory_holds (h.others slot hslot) hid

/-- The entry of a slot that no configuration is being written to is in the memory. -/
theorem inMemory_of_rel (h : Rel s t) (hid : Has t slot id) (hno : s.state = .cfgWrite → s.cfgQ.slot ≠ slot) :
    InMemory s slot id := by
  have hlow : ∀ d : Bool, 0 ≠ Session.counterLo d ∧ 0 ≠ Session.counterHi d := by decide
  rcases hst : s.state with _ | _ | _ | _ | _ | _ | _ | _ | _ <;> simp only [Rel, hst] at h
  case idle => exact inMemory_holds (h.2.2.2 slot) hid
  case cfgWrite => exact inMemory_holds (h.2.2.2.others slot (Ne.symm (hno hst))) hid
  case readIssue =>
    obtain ⟨old, e', hs, -⟩ := h.2.2
    exact inMemory_serving hs hid
  case readCapture =>
    obtain ⟨old, e', hs, -⟩ := h.2.2
    exact inMemory_serving hs hid
  case check =>
    obtain ⟨old, hs⟩ := h.2.2
    exact inMemory_serving hs hid
  case engineWait =>
    obtain ⟨old, hs⟩ := h.2.1
    exact inMemory_serving hs hid
  case response => exact inMemory_holds (h.2.2.2.1 slot) hid
  case countWriteLo => exact inMemory_counting h.2.2.1 h.2.2.2 (hlow _) hid
  case countWriteHi => exact inMemory_counting h.2.2.1 h.2.2.2 (hlow _).2 hid

end SessionManager

namespace DecapsFrontend

variable {w : ℕ} {f : State w} {a : AxiIn 8} {st : Status} {m : DecapsMemory.State}

/-- The host offers nothing. -/
def Rests (a : AxiIn 8) : Prop := a.awvalid = false ∧ a.wvalid = false

/-- No write is half done. -/
def Unheld (f : State w) : Prop := f.awHold = false ∧ f.wHold = false

theorem commits_unheld (h : Unheld f) : commits f = false := by simp [commits, h.1]

theorem nextRead_flags (s g : State w) (a : AxiIn 8) (busy : Bool) (m : DecapsMemory.State) :
    (nextRead s g a busy m).awHold = g.awHold ∧ (nextRead s g a busy m).wHold = g.wHold ∧
      (nextRead s g a busy m).doneLatched = g.doneLatched ∧ (nextRead s g a busy m).failLatched = g.failLatched := by
  simp only [nextRead, apply_ite State.awHold, apply_ite State.wHold, apply_ite State.doneLatched,
    apply_ite State.failLatched, ite_self, and_self]

/-- An edge without an access: only a report moves the status. -/
theorem next_unheld (h : Unheld f) (ha : Rests a) (st : Status) (m : DecapsMemory.State) :
    Unheld (next f a st m) ∧ (next f a st m).decapStart = false ∧
      (next f a st m).decapSlot = f.decapSlot ∧ (next f a st m).decapSessionId = f.decapSessionId ∧
      (next f a st m).doneLatched = (st.done || f.doneLatched) ∧
      (next f a st m).failLatched = if st.done then st.fail else f.failLatched := by
  have hc := commits_unheld h
  have htarget := target_next (s := f) (by simp [retargets, hc]) a st m
  have hstart : (next f a st m).decapStart = false := by
    rw [ProtectedTop.front_start, hc]
    rfl
  refine ⟨?_, hstart, htarget.1, htarget.2, ?_, ?_⟩
  · rw [Unheld, next, (nextRead_flags ..).1, (nextRead_flags ..).2.1]
    simp only [nextWrite, hc, ha.1, ha.2, Bool.false_and, Bool.false_eq_true, if_false, apply_ite State.awHold,
      apply_ite State.wHold, h.1, h.2, ite_self, and_self]
  · rw [next, (nextRead_flags ..).2.2.1]
    simp only [nextWrite, hc, ha.1, ha.2, Bool.false_and, Bool.false_eq_true, if_false, apply_ite State.doneLatched,
      ite_self]
    cases st.done <;> rfl
  · rw [next, (nextRead_flags ..).2.2.2]
    simp only [nextWrite, hc, ha.1, ha.2, Bool.false_and, Bool.false_eq_true, if_false, apply_ite State.failLatched,
      ite_self]

theorem commit_held (f g : State w) (offset : BitVec 8) (value : BitVec 32) (busy : Bool) :
    (commit (held f offset value) g busy).decapSlot =
        (if offset = REG_SLOT then value.setWidth w else g.decapSlot) ∧
      (commit (held f offset value) g busy).decapSessionId =
        (if offset = REG_SESSION then value else g.decapSessionId) ∧
      (commit (held f offset value) g busy).doneLatched =
        (if offset = REG_CONTROL ∧ value.getLsbD 8 = true then false else g.doneLatched) := by
  have hlane : (0xf : BitVec 4).getLsbD 0 = true ∧ (0xf : BitVec 4).getLsbD 1 = true := by decide
  have hne : REG_CONTROL ≠ REG_SLOT ∧ REG_CONTROL ≠ REG_SESSION ∧ REG_SLOT ≠ REG_SESSION := by decide
  by_cases hctl : offset = REG_CONTROL
  · subst hctl
    simp only [commit, held, if_true, hlane.2, Bool.true_and, hne.1, hne.2.1, if_false, true_and,
      apply_ite State.decapSlot, apply_ite State.decapSessionId, apply_ite State.doneLatched, ite_self]
  by_cases hslot : offset = REG_SLOT
  · subst hslot
    simp only [commit, held, if_true, hne.1.symm, hlane.1, if_false, hne.2.2, false_and, and_self]
  by_cases hid : offset = REG_SESSION
  · subst hid
    simp only [commit, held, if_true, hne.2.1.symm, hne.2.2.symm, if_false, AeadHw.mergeBytes_full, false_and, and_self]
  · simp only [commit, held, hctl, hslot, hid, if_false, false_and, hlane.1, hlane.2, if_true]
    split_ifs <;> exact ⟨rfl, rfl, rfl⟩

/-- The registers of the front-end a driver sets up a handshake with. -/
theorem next_held (f : State w) (offset : BitVec 8) (value : BitVec 32) (ha : Rests a) (m : DecapsMemory.State)
    (hst : st.busy = false ∧ st.done = false) :
    let f' := next (held f offset value) a st m
    Unheld f' ∧ f'.decapStart = ((offset == REG_CONTROL) && value.getLsbD 0) ∧
      f'.decapSlot = (if offset = REG_SLOT then value.setWidth w else f.decapSlot) ∧
      f'.decapSessionId = (if offset = REG_SESSION then value else f.decapSessionId) ∧
      f'.doneLatched = (if offset = REG_CONTROL ∧ value.getLsbD 8 = true then false else f.doneLatched) := by
  intro f'
  have hc : commits (held f offset value) = true := rfl
  have hstart : f'.decapStart = ((offset == REG_CONTROL) && value.getLsbD 0) := by
    simp only [f', ProtectedTop.front_start, hst.1, held]
    simp
    rfl
  have hcommit := fun g => commit_held f g offset value st.busy
  refine ⟨?_, hstart, ?_, ?_, ?_⟩
  · simp only [f', Unheld, next, (nextRead_flags ..).1, (nextRead_flags ..).2.1, nextWrite, hc, if_true, and_self]
  · simp only [f', next, (nextRead_target ..).1, nextWrite, hc, if_true, ha.1, ha.2, Bool.false_and, hst.2,
      Bool.false_eq_true, if_false, (hcommit _).1]
    rfl
  · simp only [f', next, (nextRead_target ..).2, nextWrite, hc, if_true, ha.1, ha.2, Bool.false_and, hst.2,
      Bool.false_eq_true, if_false, (hcommit _).2.1]
    rfl
  · simp only [f', next, (nextRead_flags ..).2.2.1, nextWrite, hc, if_true, ha.1, ha.2, Bool.false_and, hst.2,
      Bool.false_eq_true, if_false, (hcommit _).2.2]
    rfl

end DecapsFrontend

namespace ProtectedTop

open DecapsFrontend (Rests Unheld)

variable {s : State n dp H E} {t : Table n} {g : Ledger n} {i : In n κ} {N : ℕ} {slot : BitVec (slotWidth n)}
  {id : BitVec 32}

/-- The session table behind an edge. -/
def tableNext (s : State n dp H E) (i : In n κ) (t : Table n) : Table n :=
  SessionManager.tableNext s.channel.sessions (MaterialCore.sessionsIn s.channel (channelIn s i)) t

theorem front_next : (next N s i).front =
    DecapsFrontend.next s.front i.axi ⟨s.state ≠ .idle, finalDone s, finalFail s⟩ s.mem := rfl

/-- No handshake is asked for or under way. -/
structure Free (s : State n dp H E) : Prop where
  idle : s.state = .idle
  start : s.front.decapStart = false
  clear : Clear s
  timer : s.stageTimer = 0

theorem expires_timer (h2 : 2 ≤ N) (h : s.stageTimer = 0) : expires N s = false := by
  simp [expires, h]
  omega

theorem Free.next_idle (h2 : 2 ≤ N) (h : Free s) : (next N s i).state = .idle ∧ Clear (next N s i) ∧
    (next N s i).stageTimer = 0 := by
  refine ⟨?_, h.clear.next (by simp [installReq, h.idle]), ?_⟩
  · rw [state_next, h.idle, h.start, expires_timer h2 h.timer]
    rfl
  · rw [stageTimer_idle h.idle, h.timer, ite_self, ite_self]

theorem Free.next (h2 : 2 ≤ N) (h : Free s) (hu : Unheld s.front) (ha : Rests i.axi) : Free (next N s i) := by
  obtain ⟨hst, hclear, htimer⟩ := h.next_idle (i := i) h2
  exact ⟨hst, (DecapsFrontend.next_unheld hu ha _ _).2.1, hclear, htimer⟩

/-- Nothing under way can change this slot. -/
def Spares (s : State n dp H E) (slot : BitVec (slotWidth n)) : Prop :=
  Free s ∨ (s.front.decapSlot ≠ slot ∧ (s.channel.pending = true → s.channel.slotQ ≠ slot) ∧
    (s.channel.sessions.state = .cfgWrite → s.channel.sessions.cfgQ.slot ≠ slot))

theorem pending_next (h : (next N s i).channel.pending = true) :
    (installReq s = true ∧ (next N s i).channel.slotQ = s.front.decapSlot ∧
        (next N s i).channel.sessionQ = s.front.decapSessionId) ∨
      (s.channel.pending = true ∧ (next N s i).channel.slotQ = s.channel.slotQ ∧
        (next N s i).channel.sessionQ = s.channel.sessionQ) := by
  have hslot : (channelIn s i).slot = s.front.decapSlot := rfl
  have hid : (channelIn s i).sessionId = s.front.decapSessionId := rfl
  rw [channel_next] at h ⊢
  cases hl : MaterialCore.latches s.channel (channelIn s i) with
  | true =>
    refine Or.inl ⟨?_, ?_, ?_⟩
    · simp only [MaterialCore.latches, Bool.and_eq_true] at hl
      exact hl.1.1
    · simp only [MaterialCore.next, hl, if_true, apply_ite MaterialCore.State.slotQ, ite_self, hslot]
    · simp only [MaterialCore.next, hl, if_true, apply_ite MaterialCore.State.sessionQ, ite_self, hid]
  | false =>
    refine Or.inr ⟨?_, ?_, ?_⟩
    · cases hp : s.channel.pending
      · simp [MaterialCore.next, hl, hp, apply_ite MaterialCore.State.pending] at h
      · rfl
    · simp only [MaterialCore.next, hl, Bool.false_eq_true, if_false, apply_ite MaterialCore.State.slotQ, ite_self]
    · simp only [MaterialCore.next, hl, Bool.false_eq_true, if_false, apply_ite MaterialCore.State.sessionQ, ite_self]

theorem Spares.next (h2 : 2 ≤ N) (h : Spares s slot) (hu : Unheld s.front) (ha : Rests i.axi) :
    Spares (next N s i) slot := by
  rcases h with hfree | ⟨hslot, hpend, hwrite⟩
  · exact Or.inl (hfree.next h2 hu ha)
  · refine Or.inr ⟨?_, fun hp => ?_, fun hw => ?_⟩
    · rw [front_next, (DecapsFrontend.next_unheld hu ha _ _).2.2.1]
      exact hslot
    · rcases pending_next hp with ⟨-, hq, -⟩ | ⟨hp, hq, -⟩
      · rw [hq]
        exact hslot
      · rw [hq]
        exact hpend hp
    · rw [sessions_next] at hw ⊢
      rcases SessionManager.cfgQ_next hw with ⟨hst, hq⟩ | ⟨-, hp, hq⟩
      · rw [hq]
        exact hwrite hst
      · rw [hq]
        exact hpend hp

/-- Without an install that waits for the table every id stays. -/
theorem has_kept (h : Has t slot id) (hp : s.channel.pending = false) : Has (tableNext s i t) slot id := by
  refine SessionManager.has_next h fun hw => ?_
  rw [show (MaterialCore.sessionsIn s.channel (channelIn s i)).cfgWrite = s.channel.pending from rfl, hp] at hw
  cases hw

theorem Spares.has (h : Spares s slot) (hhas : Has t slot id) : Has (tableNext s i t) slot id := by
  rcases h with hfree | ⟨-, hpend, -⟩
  · exact has_kept hhas hfree.clear.pending
  · exact SessionManager.has_next hhas fun hw _ => hpend hw

/-- What a slot that nothing changes holds is in the memory. -/
theorem Spares.inMemory (h : Spares s slot) (hrel : Rel s.channel.sessions t) (hhas : Has t slot id) :
    SessionManager.InMemory s.channel.sessions slot id := by
  refine SessionManager.inMemory_of_rel hrel hhas fun hw => ?_
  rcases h with hfree | ⟨-, -, hwrite⟩
  · exact absurd hw hfree.clear.apart
  · exact hwrite hw

/-- From the install request to the report no fault is raised. -/
def Calm (N : ℕ) (s : State n dp H E) (i : In n κ) : Prop :=
  (installReq s = true ∨ s.state = .cWait → raises N s i = false) ∧
    (s.state = .report ∧ s.prevState = .cWait → expires N s = false)

instance (N : ℕ) (s : State n dp H E) (i : In n κ) : Decidable (Calm N s i) := by
  unfold Calm
  infer_instance

/-- Between the accesses of the host: installs are accounted for, and a handshake runs for the slot in
the slot register. -/
structure Based (s : State n dp H E) (g : Ledger n) : Prop where
  accounted : Accounted s g
  unheld : Unheld s.front
  asked : s.front.decapStart = true → s.state = .idle
  aimed : s.state ≠ .idle → g.slot = s.front.decapSlot
  inRange : s.state ≠ .idle ∨ s.front.decapStart = true → s.front.decapSlot.toNat < n

theorem Based.clear (h : Based s g) (hw : s.state ≠ .cWait) : Clear s := clear_of_stage h.accounted.stage hw

theorem Based.timer (h : Based s g) (hst : s.state = .idle) : s.stageTimer = 0 := by
  have hstage := h.accounted.stage
  simp only [Stage, hst] at hstage
  exact hstage.2

theorem Based.free (h : Based s g) (hst : s.state = .idle) (hstart : s.front.decapStart = false) : Free s :=
  ⟨hst, hstart, h.clear (by rw [hst]; decide), h.timer hst⟩

theorem Based.calmly (h : Based s g) (hC : Calm N s i) : InstallsCalmly N s g i := by
  refine ⟨hC.1, hC.2, fun hreq => ?_⟩
  have hst : s.state ≠ .idle := by
    intro hst
    simp [installReq, hst] at hreq
  exact ⟨(h.aimed hst).symm, h.aimed hst ▸ h.inRange (Or.inl hst)⟩

theorem Based.next (h2 : 2 ≤ N) (h : Based s g) (ha : Rests i.axi) (hC : Calm N s i) :
    Based (next N s i) (ledger N s (.tick i) g) := by
  obtain ⟨hunheld, hstart, hslot, -, -, -⟩ := DecapsFrontend.next_unheld h.unheld ha
    ⟨s.state ≠ .idle, finalDone s, finalFail s⟩ s.mem
  rw [← front_next (N := N)] at hunheld hstart hslot
  have hcases : (ProtectedTop.next N s i).state ≠ .idle → s.state ≠ .idle ∨ s.front.decapStart = true := by
    intro hnext
    by_contra hno
    rw [not_or, not_not, Bool.not_eq_true] at hno
    exact hnext ((h.free hno.1 hno.2).next_idle h2).1
  refine ⟨accounted_next h2 h.accounted (h.calmly hC), hunheld, fun hs => ?_, fun hnext => ?_, fun hnext => ?_⟩
  · rw [hstart] at hs
    cases hs
  · rw [hslot]
    by_cases hidle : s.state = .idle
    · have hlaunch : launches s = true := by
        simp [launches, hidle, (hcases hnext).resolve_left (not_not.mpr hidle)]
      simp [ledger, hlaunch]
    · simp [ledger, launches_of_ne hidle, h.aimed hidle]
  · rw [hslot]
    rcases hnext with hnext | hnext
    · exact h.inRange (hcases hnext)
    · rw [hstart] at hnext
      cases hnext

/-- The entry the slot may have had before. -/
def Kept (t : Table n) (slot : BitVec (slotWidth n)) (old : Option (BitVec 32)) : Prop :=
  ∀ id, old = some id → Has t slot id

/-- How far the handshake for `slot` is that is to install `id`: up to the table's taking it up the slot
holds what it held before. -/
inductive Phase (slot : BitVec (slotWidth n)) (id : BitVec 32) (old : Option (BitVec 32)) (s : State n dp H E)
    (t : Table n) : Prop where
  | asked (hst : s.state = .idle) (hstart : s.front.decapStart = true) (hdone : s.front.doneLatched = false)
      (hold : Kept t slot old)
  | before (hidle : s.state ≠ .idle) (hw : s.state ≠ .cWait) (hrep : s.state ≠ .report)
      (hdone : s.front.doneLatched = false) (hold : Kept t slot old)
  | waits (hst : s.state = .cWait) (hp : s.channel.pending = true) (hslot : s.channel.slotQ = slot)
      (hid : s.channel.sessionQ = id) (hdone : s.front.doneLatched = false) (hold : Kept t slot old)
  | placed (hst : s.state = .cWait) (hp : s.channel.pending = false) (hdone : s.front.doneLatched = false)
      (hhas : Has t slot id)
  | reports (hst : s.state = .report) (hdone : s.front.doneLatched = false)
      (hfail : finalFail s = true → Kept t slot old) (hok : finalFail s = false → Has t slot id)
  | ended (hst : s.state = .idle) (hstart : s.front.decapStart = false) (hdone : s.front.doneLatched = true)
      (hfail : s.front.failLatched = true → Kept t slot old) (hok : s.front.failLatched = false → Has t slot id)

/-- The handshake the host has set up last. -/
structure Under (slot : BitVec (slotWidth n)) (id : BitVec 32) (old : Option (BitVec 32)) (s : State n dp H E)
    (t : Table n) : Prop where
  atSlot : s.front.decapSlot = slot
  withId : s.front.decapSessionId = id
  phase : Phase slot id old s t

section Phases

variable {old : Option (BitVec 32)}

theorem Kept.next (h : Kept t slot old) (hp : s.channel.pending = false) : Kept (tableNext s i t) slot old :=
  fun id hid => has_kept (h id hid) hp

/-- A handshake that has not come to its install yet. -/
theorem phase_before (h2 : 2 ≤ N) (hB : Based s g) (ha : Rests i.axi) (hC : Calm N s i)
    (hslot : s.front.decapSlot = slot) (hid : s.front.decapSessionId = id) (hidle : s.state ≠ .idle)
    (hw : s.state ≠ .cWait) (hrep : s.state ≠ .report) (hdone : (next N s i).front.doneLatched = false)
    (hold : Kept t slot old) : Phase slot id old (next N s i) (tableNext s i t) := by
  have hold' := hold.next (i := i) (hB.clear hw).pending
  have hidle' := busy_next (N := N) (i := i) hidle hrep
  by_cases hw' : (next N s i).state = .cWait
  · have hst := state_next N s i
    rw [hw'] at hst
    have hreq : installReq s = true := by
      rcases hs : s.state with _ | _ | _ | _ | _ | _ | _ | _ | _ | _ | _ | _ | _ <;> simp only [hs] at hst
      case cWait => exact absurd hs hw
      case cStart =>
        split_ifs at hst with hc
        simp only [Bool.or_eq_true, not_or, Bool.not_eq_true, Bool.not_eq_false'] at hc
        simp [installReq, hs, hc.1.1, hc.1.2, bne] at hc ⊢
        simp [hc]
      all_goals
        try split_ifs at hst
        all_goals cases hst
    obtain ⟨hp', -, -, hs', -, -⟩ := (hB.clear hw).latches (g := g) (i := i) (N := N) hreq
    rcases pending_next hp' with ⟨-, -, hq⟩ | ⟨hp, -, -⟩
    · exact .waits hw' hp' (hs'.trans hslot) (hq.trans hid) hdone hold'
    · rw [(hB.clear hw).pending] at hp
      cases hp
  · by_cases hrep' : (next N s i).state = .report
    · have hstage := (hB.next (i := i) h2 ha hC).accounted.stage
      simp only [Stage, hrep', prevState_next] at hstage
      have hfail : finalFail (next N s i) = true := by
        rcases hstage.2.2 with ⟨hprev, -⟩ | ⟨hf, -⟩
        · exact absurd hprev hw
        · exact hf
      exact .reports hrep' hdone (fun _ => hold') fun hok => by rw [hfail] at hok; cases hok
    · exact .before hidle' hw' hrep' hdone hold'

/-- The install: the table takes it up as soon as it is free, and then it is in the table. -/
theorem phase_installs (hB : Based s g) (hC : Calm N s i) (hst : s.state = .cWait)
    (hdone : (next N s i).front.doneLatched = false)
    (h : (s.channel.pending = true ∧ s.channel.slotQ = slot ∧ s.channel.sessionQ = id ∧ Kept t slot old) ∨
      (s.channel.pending = false ∧ Has t slot id)) : Phase slot id old (next N s i) (tableNext s i t) := by
  have hidle : s.state ≠ .idle := by rw [hst]; decide
  have hraise := hC.1 (Or.inr hst)
  have hexp : expires N s = false := by
    simp only [raises, Bool.or_eq_false_iff] at hraise
    exact hraise.1.1.1
  have hstage := hB.accounted.stage
  simp only [Stage, hst] at hstage
  obtain ⟨hpark, hfault, hinst⟩ := hstage
  obtain ⟨hp', -, -, hs', -⟩ := materialCore_cWait (i := i) (N := N) hst
  have hst' := state_next N s i
  simp only [hst, hexp, Bool.false_eq_true, if_false] at hst'
  rcases h with ⟨hp, hslot, hid, hold⟩ | ⟨hp, hhas⟩
  · have hwaits : s.channel.installDone = false ∧ s.channel.slotQ.toNat < n := by
      rcases hinst with ⟨-, -, hd, -, -, -, hq, hr, -⟩ | ⟨hno, -⟩ | ⟨hno, -⟩ | ⟨hno, -⟩
      · exact ⟨hd, hq ▸ hr⟩
      all_goals
        rw [hp] at hno
        cases hno
    rw [hwaits.1, if_neg Bool.false_ne_true] at hst'
    cases hready : SessionManager.cfgReady s.channel.sessions with
    | true =>
      rw [hp, hready] at hp'
      refine .placed hst' hp' hdone ?_
      rw [← hslot, ← hid]
      exact SessionManager.has_configured (i := MaterialCore.sessionsIn s.channel (channelIn s i)) hp hready rfl
        hwaits.2
    | false =>
      rw [hp, hready] at hp'
      rcases pending_next hp' with ⟨hreq, -⟩ | ⟨-, hq, hq'⟩
      · simp [installReq, hst] at hreq
      refine .waits hst' hp' (hq.trans hslot) (hq'.trans hid) hdone fun id' hid' => ?_
      refine SessionManager.has_next (hold id' hid') fun _ hno => ?_
      rw [hready] at hno
      cases hno
  · have hhas' := has_kept (i := i) hhas hp
    rw [hp, Bool.false_and] at hp'
    cases hd : s.channel.installDone with
    | false =>
      rw [hd, if_neg Bool.false_ne_true] at hst'
      exact .placed hst' hp' hdone hhas'
    | true =>
      rw [hd, if_pos rfl] at hst'
      have hpark' := parked_next (N := N) (i := i) (by rw [hst]; decide) hpark
      have hf' : (next N s i).faultDetected = false := by
        simp [faultDetected_next hidle, hfault, hraise, checkFails, hst]
      have hok : finalFail (next N s i) = false := by simp [finalFail, DecapsEngine.fail, hf', hpark'.2]
      exact .reports hst' hdone (fun hf => by rw [hok] at hf; cases hf) fun _ => hhas'

theorem Under.next (h2 : 2 ≤ N) (hB : Based s g) (ha : Rests i.axi) (hC : Calm N s i) (h : Under slot id old s t) :
    Under slot id old (next N s i) (tableNext s i t) := by
  obtain ⟨-, hstart, hslot, hid, hdone, hfail⟩ := DecapsFrontend.next_unheld hB.unheld ha
    ⟨s.state ≠ .idle, finalDone s, finalFail s⟩ s.mem
  rw [← front_next (N := N)] at hstart hslot hid hdone hfail
  refine ⟨hslot.trans h.atSlot, hid.trans h.withId, ?_⟩
  have hquiet : s.state ≠ .report → s.front.doneLatched = false → (ProtectedTop.next N s i).front.doneLatched = false := by
    intro hrep hd
    rw [hdone, hd]
    simp [finalDone, hrep]
  cases h.phase with
  | asked hst hs hd hold =>
    have hst' : (ProtectedTop.next N s i).state = .dStart := by rw [state_next, hst, hs]; rfl
    have hw : s.state ≠ .cWait := by rw [hst]; decide
    refine .before ?_ ?_ ?_ (hquiet ?_ hd) (hold.next (hB.clear hw).pending)
    · rw [hst']; decide
    · rw [hst']; decide
    · rw [hst']; decide
    · rw [hst]; decide
  | before hidle hw hrep hd hold =>
    exact phase_before h2 hB ha hC h.atSlot h.withId hidle hw hrep (hquiet hrep hd) hold
  | waits hst hp hq hq' hd hold =>
    exact phase_installs hB hC hst (hquiet (by rw [hst]; decide) hd) (Or.inl ⟨hp, hq, hq', hold⟩)
  | placed hst hp hd hhas =>
    exact phase_installs hB hC hst (hquiet (by rw [hst]; decide) hd) (Or.inr ⟨hp, hhas⟩)
  | reports hst hd hf hok =>
    have hp := (hB.clear (by rw [hst]; decide)).pending
    have hfin : finalDone s = true := by simp [finalDone, hst]
    rw [hfin, if_pos rfl] at hfail
    rw [hfin, Bool.true_or] at hdone
    have hfail : (ProtectedTop.next N s i).front.failLatched = finalFail s := hfail
    refine .ended (by rw [state_next, hst]) hstart hdone (fun hf' => ?_) fun hok' => ?_
    · exact (hf (hfail ▸ hf')).next hp
    · exact has_kept (hok (hfail ▸ hok')) hp
  | ended hst hs hd hf hok =>
    have hfree := hB.free hst hs
    have hfin : finalDone s = false := by simp [finalDone, hst]
    rw [hfin, if_neg Bool.false_ne_true] at hfail
    rw [hfin, hd, Bool.or_true] at hdone
    refine .ended (hfree.next_idle h2).1 hstart hdone (fun hf' => ?_) fun hok' => ?_
    · exact (hf (hfail ▸ hf')).next hfree.clear.pending
    · exact has_kept (hok (hfail ▸ hok')) hfree.clear.pending

end Phases

section Writes

/-- The core with a write of the host held at its edge. -/
def hold (s : State n dp H E) (offset : BitVec 8) (value : BitVec 32) : State n dp H E :=
  { s with front := DecapsFrontend.held s.front offset value }

/-- A write while no handshake is asked for or under way. -/
theorem Based.write (h2 : 2 ≤ N) (hB : Based s g) (hfree : Free s) (ha : Rests i.axi) (offset : BitVec 8)
    (value : BitVec 32) (hrange : offset = DecapsFrontend.REG_CONTROL → s.front.decapSlot.toNat < n) :
    let s' := ProtectedTop.next N (hold s offset value) i
    Based s' (ledger N (hold s offset value) (.tick i) g) ∧ s'.state = .idle ∧
      s'.front.decapStart = ((offset == DecapsFrontend.REG_CONTROL) && value.getLsbD 0) ∧
      s'.front.decapSlot =
        (if offset = DecapsFrontend.REG_SLOT then value.setWidth (slotWidth n) else s.front.decapSlot) ∧
      s'.front.decapSessionId =
        (if offset = DecapsFrontend.REG_SESSION then value else s.front.decapSessionId) ∧
      s'.front.doneLatched =
        (if offset = DecapsFrontend.REG_CONTROL ∧ value.getLsbD 8 = true then false else s.front.doneLatched) := by
  intro s'
  have hidle : (hold s offset value).state = .idle := hfree.idle
  have hclear : Clear (hold s offset value) :=
    ⟨hfree.clear.pending, hfree.clear.accepted, hfree.clear.installDone, hfree.clear.cfgDone, hfree.clear.apart⟩
  have htimer : (hold s offset value).stageTimer = 0 := hfree.timer
  have hacc : Accounted (hold s offset value) g := by
    refine ⟨hB.accounted.sound, hB.accounted.known, fun hne => absurd hidle hne, ?_⟩
    simp only [Stage, hidle]
    exact ⟨hclear, htimer⟩
  have hcalmly : InstallsCalmly N (hold s offset value) g i := by
    refine ⟨fun h => ?_, fun h => ?_, fun h => ?_⟩
    · simp [installReq, hidle] at h
    · rw [hidle] at h
      cases h.1
    · simp [installReq, hidle] at h
  obtain ⟨hunheld, hstart, hslot, hid, hdone⟩ := @DecapsFrontend.next_held _ i.axi
    ⟨(hold s offset value).state ≠ .idle, finalDone (hold s offset value), finalFail (hold s offset value)⟩
    s.front offset value ha s.mem (by simp [hidle, finalDone])
  have hacc' := accounted_next (i := i) h2 hacc hcalmly
  have hst' : s'.state = .idle := by
    rw [show s'.state = (ProtectedTop.next N (hold s offset value) i).state from rfl, state_next, hidle, expires_timer h2 htimer]
    simp only [hold, DecapsFrontend.held, hfree.start]
    rfl
  refine ⟨⟨hacc', hunheld, fun _ => hst', fun hne => absurd hst' hne, fun h => ?_⟩, hst', hstart, hslot, hid, hdone⟩
  have hs := hstart.symm.trans (h.resolve_left (not_not.mpr hst'))
  rw [Bool.and_eq_true, beq_iff_eq] at hs
  have hne : DecapsFrontend.REG_CONTROL ≠ DecapsFrontend.REG_SLOT := by decide
  rw [show s'.front.decapSlot = _ from hslot, hs.1, if_neg hne]
  exact hrange hs.1

end Writes

end ProtectedTop

end ZedSecure
