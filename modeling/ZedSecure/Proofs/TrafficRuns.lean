import ZedSecure.Proofs.SessionAnswers
import ZedSecure.Rtl.TrafficPort

/-! The traffic port over runs: at rest it keeps its registers, and a request it has taken is
answered from the session table within a bounded number of edges. -/

namespace ZedSecure

open Clocked SessionManager SessionTable

variable {n : ℕ} {aead : EngineIn → EngineOut} {κ : Type} {E : StartDone aead κ}

namespace TrafficPort

variable {p : State n E} {T : Slots n} {q : Request n} {k : κ}

/-- No access is half done. -/
def Clear (p : State n E) : Prop := p.front.awHold = false ∧ p.front.writeCommit = false

/-- No request is under way, and `T` is the table. -/
structure Quiet (p : State n E) (T : Slots n) : Prop where
  clear : Clear p
  pending : p.front.pending = false
  inflight : p.front.inflight = false
  idle : p.sessions.state = .idle
  rel : Rel p.sessions ⟨T, none⟩

/-- Request `q` is under way on the table `T`. -/
structure Working (p : State n E) (T : Slots n) (q : Request n) : Prop where
  clear : Clear p
  inflight : p.front.inflight = true
  done : p.front.doneQ = false
  stage : (p.front.pending = true ∧ p.front.reqQ = q ∧ p.sessions.state = .idle ∧
      Rel p.sessions ⟨T, none⟩) ∨
    (p.front.pending = false ∧ Rel p.sessions ⟨(serve aead T q).1, some (serve aead T q).2⟩)

/-- The response registers hold `r`. -/
structure Shows (p : State n E) (r : Response n) : Prop where
  done : p.front.doneQ = true
  auth : p.front.authQ = r.authOk
  error : p.front.errorQ = r.error
  counter : p.front.rspCounterQ = r.counter
  data : p.front.rspDataQ = r.data
  tag : p.front.rspTagQ = r.tag

/-- Request `q` has been answered. -/
structure Answered (p : State n E) (T : Slots n) (q : Request n) : Prop where
  quiet : Quiet p (serve aead T q).1
  shows : Shows p (serve aead T q).2

/-- The port at rest on a table that is in the memory. -/
def holding (E : StartDone aead κ) (T : Slots n) : State n E where
  front :=
    { awHold := false, wHold := false, writeCommit := false, awaddrQ := 0, wdataQ := 0, wstrbQ := 0
      bvalid := false, rvalid := false, rdata := 0, slotReg := 0, lengthReg := 0, counterReg := 0
      inputData := fun _ => 0, inputTag := fun _ => 0, reqQ := ⟨0, false, 0, 0, 0, 0⟩, pending := false
      inflight := false, doneQ := false, authQ := false, errorQ := false, rspSlotQ := 0, rspCounterQ := 0
      rspDataQ := 0, rspTagQ := 0 }
  sessions :=
    { state := .idle
      sessionMem := fun a => match T (BitVec.ofNat _ (a.toNat / 24)) with
        | some e => e.word (a.toNat % 24)
        | none => 0
      sessionValid := fun slot => (T slot).isSome, memRdata := 0, cfgDone := false, cfgBaseQ := 0, cfgWordQ := 0
      cfgQ := ⟨0, false, 0, 0, 0, 0, 0⟩, activeBaseQ := 0, readWordQ := 0, requestQ := ⟨0, false, 0, 0, 0, 0⟩
      active := .zero, operationCounterQ := 0, updatedCounterQ := 0, counterWordLoQ := 0, counterWordHiQ := 0
      engineStart := false, engineIn := .zero, rspValid := false, rsp := ⟨false, false, 0, 0, 0, 0⟩
      engine := E.init }

theorem quiet_holding (hT : ∀ slot e, T slot = some e → slot.toNat < n) : Quiet (holding E T) T := by
  refine ⟨⟨rfl, rfl⟩, rfl, rfl, rfl, ⟨rfl, E.init_idle⟩, rfl, rfl, fun slot => ?_⟩
  change HoldsAt _ _ slot (T slot)
  cases he : T slot with
  | none =>
    intro _
    simp [holding, he]
  | some e =>
    have hrange := hT slot e he
    refine ⟨hrange, by simp [holding, he], fun w hw => ?_⟩
    have haddr := toNat_wordAddr hrange (by omega : w < 24)
    have hslot : BitVec.ofNat (slotWidth n) ((wordAddr slot w).toNat / 24) = slot := by
      rw [haddr, show (slot.toNat * 24 + w) / 24 = slot.toNat by omega, BitVec.ofNat_toNat, BitVec.setWidth_eq]
    have hword : (wordAddr slot w).toNat % 24 = w := by omega
    simp only [holding, hslot, he, hword]

/-- An edge without an access or answer moves the request only. -/
theorem next_rest {f : TrafficFrontend.State n} {c : TrafficFrontend.CoreOut n} (ha : f.awHold = false)
    (hw : f.writeCommit = false) (hno : (f.inflight && c.rspValid) = false) :
    TrafficFrontend.next f rest c = { f with pending := f.pending && !c.reqReady } := by
  obtain ⟨⟩ := f
  simp only at ha hw hno
  subst ha hw
  simp only [TrafficFrontend.next, rest, hno, Bool.false_and, Bool.false_eq_true, if_false, Bool.and_false]
  split_ifs <;> simp_all

/-- An answer is taken into the response registers. -/
theorem next_answer {f : TrafficFrontend.State n} {c : TrafficFrontend.CoreOut n} (ha : f.awHold = false)
    (hw : f.writeCommit = false) (hp : f.pending = false) (hyes : (f.inflight && c.rspValid) = true) :
    TrafficFrontend.next f rest c = { f with
      inflight := false, doneQ := true, authQ := c.rsp.authOk, errorQ := c.rsp.error, rspSlotQ := c.rsp.slot
      rspCounterQ := c.rsp.counter, rspDataQ := c.rsp.data, rspTagQ := c.rsp.tag } := by
  obtain ⟨⟩ := f
  simp only at ha hw hp hyes
  subst ha hw hp
  simp only [TrafficFrontend.next, rest, hyes, Bool.false_and, Bool.false_eq_true, if_false, Bool.and_false,
    if_true]

/-- Without a request the table rests. -/
theorem sessions_rest (hpend : p.front.pending = false) (hidle : p.sessions.state = .idle)
    (hrel : Rel p.sessions ⟨T, none⟩) :
    (TrafficPort.tick p k).sessions.state = .idle ∧ Rel (TrafficPort.tick p k).sessions ⟨T, none⟩ := by
  have hrv : p.sessions.rspValid = false := by
    have := hrel.rspValid_iff
    simpa [hidle] using this
  have hnone : commands p.sessions (.tick (sessionsIn p k)) = [] := by
    simp [commands, sessionsIn, hpend, hrv]
  have hnext : Rel (TrafficPort.tick p k).sessions _ := rel_step p.sessions ⟨T, none⟩ (.tick (sessionsIn p k)) hrel
  rw [hnone] at hnext
  have hi : (frame p.sessions (sessionsIn p k)).state = .idle := hidle
  refine ⟨?_, hnext⟩
  simp [TrafficPort.tick, SessionManager.next, hidle, sessionsIn, hpend]
  exact hi

theorem Quiet.tick (h : Quiet p T) : (TrafficPort.tick p k).front = p.front ∧ Quiet (TrafficPort.tick p k) T := by
  have hpend := h.pending
  have hfront : (TrafficPort.tick p k).front = p.front := by
    rw [TrafficPort.tick, next_rest h.clear.1 h.clear.2 (by rw [h.inflight]; rfl), hpend, Bool.false_and,
      ← hpend]
  obtain ⟨hidle, hrel⟩ := sessions_rest (k := k) hpend h.idle h.rel
  refine ⟨hfront, ⟨?_, ?_, ?_, hidle, hrel⟩⟩
  · rw [Clear, hfront]
    exact h.clear
  · rw [hfront]
    exact h.pending
  · rw [hfront]
    exact h.inflight

/-- A request under way goes on or is answered. -/
theorem Working.tick (h : Working p T q) :
    Working (TrafficPort.tick p k) T q ∨ Answered (TrafficPort.tick p k) T q := by
  rcases h.stage with ⟨hpend, hq, hidle, hrel⟩ | ⟨hpend, hrel⟩
  · -- the table takes the request
    have hrv : p.sessions.rspValid = false := by
      have := hrel.rspValid_iff
      simpa [hidle] using this
    have hcmd : commands p.sessions (.tick (sessionsIn p k)) = [.request q] := by
      simp [commands, sessionsIn, reqReady, hpend, hq, hidle, hrv]
    have hnext : Rel (TrafficPort.tick p k).sessions _ :=
      rel_step p.sessions ⟨T, none⟩ (.tick (sessionsIn p k)) hrel
    have hready : (coreOut p k).reqReady = true := by simp [coreOut, reqReady, sessionsIn, hidle]
    have hfront : (TrafficPort.tick p k).front = { p.front with pending := p.front.pending && !true } := by
      rw [TrafficPort.tick, next_rest h.clear.1 h.clear.2 (by simp [coreOut, hrv]), hready]
    rw [hcmd] at hnext
    left
    constructor
    · rw [Clear, hfront]
      exact h.clear
    · rw [hfront]
      exact h.inflight
    · rw [hfront]
      exact h.done
    · exact Or.inr ⟨by rw [hfront]; simp, hnext⟩
  · cases hrv : p.sessions.rspValid
    · have hcmd : commands p.sessions (.tick (sessionsIn p k)) = [] := by
        simp [commands, sessionsIn, hpend, hrv]
      have hnext : Rel (TrafficPort.tick p k).sessions _ :=
        rel_step p.sessions _ (.tick (sessionsIn p k)) hrel
      have hfront : (TrafficPort.tick p k).front =
          { p.front with pending := p.front.pending && !(coreOut p k).reqReady } := by
        rw [TrafficPort.tick, next_rest h.clear.1 h.clear.2 (by simp [coreOut, hrv])]
      rw [hcmd] at hnext
      left
      constructor
      · rw [Clear, hfront]
        exact h.clear
      · rw [hfront]
        exact h.inflight
      · rw [hfront]
        exact h.done
      · exact Or.inr ⟨by rw [hfront]; simp [hpend], hnext⟩
    · -- the answer is taken over
      have hcmd : commands p.sessions (.tick (sessionsIn p k)) = [.take] := by
        simp [commands, sessionsIn, hpend, hrv, h.inflight]
      have hnext : Rel (TrafficPort.tick p k).sessions _ :=
        rel_step p.sessions _ (.tick (sessionsIn p k)) hrel
      have hrsp := Option.some.inj (hrel.pending_of_rspValid hrv)
      have hst := hrel.rspValid_iff.mp hrv
      have hfront : (TrafficPort.tick p k).front = _ :=
        next_answer (c := coreOut p k) h.clear.1 h.clear.2 hpend (by simp [coreOut, hrv, h.inflight])
      have hsame : (coreOut p k).rsp = (serve aead T q).2 := hrsp.symm
      rw [hcmd] at hnext
      rw [hsame] at hfront
      right
      refine ⟨⟨?_, ?_, ?_, ?_, hnext⟩, ?_⟩
      · rw [Clear, hfront]
        exact h.clear
      · rw [hfront]
        exact hpend
      · rw [hfront]
      · simp [TrafficPort.tick, SessionManager.next, hst, sessionsIn, h.inflight]
      · constructor <;> rw [hfront]

section Timing

variable (C : E.Timed)

/-- The edges the engine still needs for the request, at most. -/
def engineLeft (s : SessionManager.State n E) : ℕ :=
  match s.state with
  | .readIssue | .readCapture | .check => C.bound + 2
  | .engineWait => C.togo s.engineStart s.engine
  | _ => 0

theorem engineLeft_next {s : SessionManager.State n E} {t : Table n} (i : In n κ) (h : Rel s t)
    (hpos : 0 < cyclesLeft s) :
    engineLeft C (SessionManager.next s i) + (if waitsForEngine s then 1 else 0) ≤ engineLeft C s := by
  cases hst : s.state <;> simp only [Rel, hst] at h <;> simp [cyclesLeft, hst] at hpos
  case engineWait =>
    obtain ⟨-, -, -, -, -, hiss⟩ := h
    have hs : (frame s i).state = .engineWait := hst
    cases hd : E.done s.engine
    · have hlt := C.togo_lt hiss hd i.engine
      simp [engineLeft, waitsForEngine, SessionManager.next, hst, hd, frame]
      omega
    · cases hok : (E.result s.engine).authOk <;> cases hdec : s.requestQ.decrypt <;>
        simp [engineLeft, waitsForEngine, SessionManager.next, hst, hd, hok, hdec]
  all_goals simp only [engineLeft, waitsForEngine, SessionManager.next, hst]
  case readIssue => simp
  case readCapture => by_cases h23 : s.readWordQ = 23#5 <;> simp [h23]
  case check =>
    by_cases hc : 64#8 < s.requestQ.dataLen ∨
      (s.requestQ.decrypt = true ∧ s.requestQ.counter ≠ s.active.rxCounter) <;>
      simp [hc, StartDone.Timed.togo]
  case countWriteLo => simp
  case countWriteHi => simp

/-- The edges until a request under way is answered, at most. -/
def left (p : State n E) : ℕ :=
  if p.front.pending then C.bound + 56 else cyclesLeft p.sessions + engineLeft C p.sessions + 1

theorem cyclesLeft_pos {s : SessionManager.State n E} {t : Table n} {r : Response n} (h : Rel s t)
    (hp : t.pending = some r) (hv : s.rspValid = false) : 0 < cyclesLeft s := by
  have hresp : s.state ≠ .response := by
    rw [← h.rspValid_iff.ne, hv]
    decide
  cases hst : s.state <;> simp only [cyclesLeft, hst] <;> try omega
  case idle =>
    simp only [Rel, hst] at h
    simp [h.2.2.1] at hp
  case cfgWrite =>
    simp only [Rel, hst] at h
    simp [h.2.2.1] at hp
  case response => exact absurd hst hresp

theorem Working.tick_pending (h : Working p T q) : (TrafficPort.tick p k).front.pending = false := by
  rcases h.stage with ⟨-, -, hidle, hrel⟩ | ⟨hpend, -⟩
  · have hrv : p.sessions.rspValid = false := by
      have := hrel.rspValid_iff
      simpa [hidle] using this
    rw [TrafficPort.tick, next_rest h.clear.1 h.clear.2 (by simp [coreOut, hrv])]
    simp [coreOut, reqReady, sessionsIn, hidle]
  · cases hrv : p.sessions.rspValid
    · rw [TrafficPort.tick, next_rest h.clear.1 h.clear.2 (by simp [coreOut, hrv])]
      simp [hpend]
    · rw [TrafficPort.tick, next_answer h.clear.1 h.clear.2 hpend (by simp [coreOut, hrv, h.inflight])]
      exact hpend

/-- Every edge of a request comes closer to its answer. -/
theorem Working.closer (h : Working p T q) : Answered (TrafficPort.tick p k) T q ∨
    (Working (TrafficPort.tick p k) T q ∧ left C (TrafficPort.tick p k) < left C p) := by
  rcases h.tick (k := k) with hw | ha
  · right
    refine ⟨hw, ?_⟩
    rw [left, left, h.tick_pending]
    simp only [Bool.false_eq_true, if_false]
    rcases h.stage with ⟨hpend, -, hidle, -⟩ | ⟨hpend, hrel⟩
    · have hle := cyclesLeft_le (s := (TrafficPort.tick p k).sessions)
      have hengine : engineLeft C (TrafficPort.tick p k).sessions ≤ C.bound + 2 := by
        simp only [engineLeft, TrafficPort.tick, SessionManager.next, hidle, sessionsIn, hpend,
          Bool.false_eq_true, if_false, if_true]
        split_ifs <;> simp
      rw [hpend, if_pos rfl]
      omega
    · rw [hpend]
      simp only [Bool.false_eq_true, if_false]
      cases hrv : p.sessions.rspValid
      · have hpos := cyclesLeft_pos hrel rfl hrv
        have hcycle := cyclesLeft_next (sessionsIn p k) hrel hpos
        have hengine := engineLeft_next C (sessionsIn p k) hrel hpos
        change _ + engineLeft C (SessionManager.next p.sessions (sessionsIn p k)) + 1 < _
        change cyclesLeft (SessionManager.next p.sessions (sessionsIn p k)) + _ + 1 < _
        split_ifs at hcycle hengine <;> omega
      · -- an answer that shows is taken at this edge
        have hlow := hw.inflight
        rw [TrafficPort.tick, next_answer h.clear.1 h.clear.2 hpend (by simp [coreOut, hrv, h.inflight])] at hlow
        simp at hlow
  · exact Or.inl ha

end Timing

end TrafficPort

end ZedSecure
