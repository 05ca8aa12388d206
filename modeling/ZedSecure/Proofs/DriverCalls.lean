import ZedSecure.Proofs.AeadDriver
import ZedSecure.Proofs.Exchanges
import ZedSecure.Rtl.CompletePort

/-! The driver on the complete top: whatever the poll limits cut short and whatever handshakes run
meanwhile, a call that reports an answer reports the one to its own request. -/

namespace ZedSecure

open Clocked LittleEndian SessionManager SessionTable

namespace AeadHw

open CompleteTop

variable {N n : ℕ} {aead : EngineIn → EngineOut} {κ : Type} {dp : Datapath} {H : HashUnit}
  {E : StartDone aead κ}

/-- The complete top with the exchanges at its traffic port. -/
structure Board (N n : ℕ) (dp : Datapath) (H : HashUnit) {aead : EngineIn → EngineOut} {κ : Type}
    (E : StartDone aead κ) where
  top : State n dp H E
  ledger : Exchanges n

def Board.tick (p : Board N n dp H E) (k : CompletePort.Pins κ) : Board N n dp H E :=
  ⟨CompletePort.tick N p.top k, exchange N p.top (.tick (CompletePort.pins k)) p.ledger⟩

def Board.hold (p : Board N n dp H E) (offset : BitVec 9) (value : BitVec 32) : Board N n dp H E :=
  ⟨CompletePort.hold p.top offset value, p.ledger⟩

instance : Device (Board N n dp H E) (CompletePort.Pins κ) where
  tick := Board.tick
  write p offset value k := (p.hold offset value).tick k
  read p offset k := CompletePort.read p.top offset k

/-- The response shown is the last one recorded, and no request is under way. -/
def Shows (s : State n dp H E) (g : Exchanges n) : Prop :=
  s.traffic.doneQ = true → s.traffic.inflight = false ∧
    ∃ r, g.recorded.getLast? = some r ∧ r.rsp = TrafficFrontend.shown s.traffic

/-- Out of reset, between the accesses of the driver, with the requests `L` handed over. -/
structure Driven (L : List (Request n)) (p : Board N n dp H E) : Prop where
  sync : rstSync p.top = true
  paired : Paired (Answers aead) p.top p.ledger
  awHold : p.top.traffic.awHold = false
  writeCommit : p.top.traffic.writeCommit = false
  shows : Shows p.top p.ledger
  started : p.ledger.started = L

/-- No request is under way. -/
structure Resting (L : List (Request n)) (p : Board N n dp H E) : Prop extends Driven L p where
  pending : p.top.traffic.pending = false
  inflight : p.top.traffic.inflight = false

section Edges

variable {L : List (Request n)} {p : Board N n dp H E} {k : CompletePort.Pins κ} {offset : BitVec 9}
  {value : BitVec 32}

theorem shows_next {s : State n dp H E} {g : Exchanges n} {i : In κ} (hr : rstSync s = true) (h : Shows s g) :
    Shows (next N s i) (exchange N s (.tick i) g) := by
  intro hdone
  have htraffic := @traffic_next _ _ _ _ _ _ N s i hr
  have hdone' := hdone
  rw [htraffic] at hdone'
  obtain ⟨hstart, hcases⟩ := TrafficFrontend.doneQ_next _ _ _ hdone'
  have hin := TrafficFrontend.inflight_next s.traffic i.a (coreOut s i)
  rw [← htraffic, hstart, Bool.false_or] at hin
  cases hcap : TrafficFrontend.captures s.traffic (coreOut s i) with
  | true =>
    refine ⟨?_, ⟨s.core.faultDetected, TrafficFrontend.shown (next N s i).traffic⟩, ?_, rfl⟩
    swap
    · simp only [exchange, hr, hcap, if_true, List.getLast?_concat]
    rw [TrafficFrontend.captures, Bool.and_eq_true] at hcap
    rw [hin, hcap.2]
    simp
  | false =>
    obtain ⟨hidle, r, hlast, hrsp⟩ := h (hcases.resolve_left (by rw [hcap]; exact Bool.false_ne_true))
    refine ⟨by rw [hin, hidle, Bool.false_and], r, by simp [exchange, hr, hcap, hlast], hrsp.trans ?_⟩
    rw [htraffic, TrafficFrontend.shown_next _ _ _ hstart, hcap]
    rfl

theorem rstSync_tick (hr : rstSync p.top = true) (hp : Paired (Answers aead) p.top p.ledger) :
    rstSync (p.tick k).top = true := ((rstSync_shift _).1).trans (hp.filled hr)

theorem paired_tick (hp : Paired (Answers aead) p.top p.ledger) :
    Paired (Answers aead) (p.tick k).top (p.tick k).ledger :=
  paired_next hp (fun _ hf => by cases hf) fun _ _ _ _ => rfl

/-- A held write changes nothing that pairs the exchanges. -/
theorem paired_hold (hp : Paired (Answers aead) p.top p.ledger) (offset : BitVec 9) (value : BitVec 32) :
    Paired (Answers aead) (p.hold offset value).top (p.hold offset value).ledger := by
  refine ⟨hp.rel, hp.effect, hp.filled, hp.held, fun hr => ?_⟩
  cases hp.stage hr with
  | rest hpend hin hout htable hstarted hrec => exact .rest hpend hin hout htable hstarted hrec
  | asked hpend hin hout htable hstarted hrec => exact .asked hpend hin hout htable hstarted hrec
  | taken hpend hin hout done x htable hserved hstarted hrec =>
    exact .taken hpend hin hout done x htable hserved hstarted hrec

theorem started_tick (hr : rstSync p.top = true) : (p.tick k).ledger.started =
    p.ledger.started ++ if TrafficFrontend.startsRequest p.top.traffic then [TrafficFrontend.operands p.top.traffic]
      else [] := by
  simp [Board.tick, exchange, hr]

theorem traffic_tick (hr : rstSync p.top = true) : (p.tick k).top.traffic =
    TrafficFrontend.next p.top.traffic TrafficPort.rest (coreOut p.top (CompletePort.pins k)) := traffic_next hr

theorem clear_rest {f : TrafficFrontend.State n} {c : TrafficFrontend.CoreOut n} (ha : f.awHold = false)
    (hw : f.writeCommit = false) : (TrafficFrontend.next f TrafficPort.rest c).awHold = false ∧
      (TrafficFrontend.next f TrafficPort.rest c).writeCommit = false := by
  simp only [TrafficFrontend.next, TrafficPort.rest, ha, hw, Bool.false_and, Bool.false_eq_true, if_false]
  split_ifs <;> exact ⟨rfl, rfl⟩

theorem clear_commit (s f : TrafficFrontend.State n) :
    (TrafficFrontend.commit s f).awHold = f.awHold ∧ (TrafficFrontend.commit s f).writeCommit = f.writeCommit := by
  simp only [TrafficFrontend.commit, apply_ite TrafficFrontend.State.awHold,
    apply_ite TrafficFrontend.State.writeCommit, ite_self, and_self]

theorem Driven.tick (h : Driven L p) : Driven L (p.tick k) := by
  have hclear := clear_rest (c := coreOut p.top (CompletePort.pins k)) h.awHold h.writeCommit
  rw [← traffic_tick h.sync] at hclear
  refine ⟨rstSync_tick h.sync h.paired, paired_tick h.paired, hclear.1, hclear.2, shows_next h.sync h.shows, ?_⟩
  rw [started_tick h.sync, h.started]
  simp [TrafficFrontend.startsRequest, h.writeCommit]

/-- The port moves nothing while no request is under way. -/
theorem Resting.traffic_tick (h : Resting L p) : (p.tick k).top.traffic = p.top.traffic := by
  rw [AeadHw.traffic_tick h.sync, TrafficPort.next_rest h.awHold h.writeCommit (by rw [h.inflight, Bool.false_and]),
    h.pending, Bool.false_and, ← h.pending]

theorem Resting.tick (h : Resting L p) : Resting L (p.tick k) := by
  refine ⟨h.toDriven.tick, ?_, ?_⟩
  · rw [h.traffic_tick, h.pending]
  · rw [h.traffic_tick, h.inflight]

/-- The edge of a write: what holds of the front-end behind its commit holds of the port's. -/
theorem Resting.traffic_write (h : Resting L p) : ((p.hold offset value).tick k).top.traffic =
    TrafficFrontend.commit (held p.top.traffic offset value)
      { held p.top.traffic offset value with writeCommit := false } := by
  rw [AeadHw.traffic_tick (p := p.hold offset value) h.sync]
  exact next_held h.awHold h.pending h.inflight offset value

theorem Resting.write (h : Resting L p) (hno : offset = TrafficFrontend.REG_CONTROL → value.getLsbD 0 = false) :
    Resting L ((p.hold offset value).tick k) ∧
      regs ((p.hold offset value).tick k).top.traffic = (regs p.top.traffic).written offset value := by
  obtain ⟨hclear, hpend, hin, hregs⟩ := commit_held h.awHold h.pending h.inflight hno
  rw [← h.traffic_write (k := k)] at hclear hpend hin hregs
  have hpaired := paired_hold h.paired offset value
  have hstart : TrafficFrontend.startsRequest (p.hold offset value).top.traffic = false := by
    by_cases hctl : offset = TrafficFrontend.REG_CONTROL
    · simp only [TrafficFrontend.startsRequest, Board.hold, CompletePort.hold, hno hctl, Bool.and_false,
        Bool.false_and]
    · simp [TrafficFrontend.startsRequest, Board.hold, CompletePort.hold, hctl]
  refine ⟨⟨⟨rstSync_tick h.sync hpaired, paired_tick hpaired, hclear.1, hclear.2, shows_next h.sync h.shows, ?_⟩,
    hpend, hin⟩, hregs⟩
  rw [started_tick (p := p.hold offset value) h.sync, hstart]
  simpa [Board.hold] using h.started

/-- START hands over the registers. -/
theorem Resting.start (h : Resting L p) (hgo : value.getLsbD 0 = true) :
    Driven (L ++ [(regs p.top.traffic).request (value.getLsbD 1)])
      ((p.hold TrafficFrontend.REG_CONTROL value).tick k) := by
  have hpaired := paired_hold h.paired TrafficFrontend.REG_CONTROL value
  have hstart : TrafficFrontend.startsRequest (p.hold TrafficFrontend.REG_CONTROL value).top.traffic = true := by
    simp only [TrafficFrontend.startsRequest, Board.hold, CompletePort.hold, hgo, h.pending, h.inflight]
    decide
  have hclear : ((p.hold TrafficFrontend.REG_CONTROL value).tick k).top.traffic.awHold = false ∧
      ((p.hold TrafficFrontend.REG_CONTROL value).tick k).top.traffic.writeCommit = false := by
    rw [h.traffic_write, (clear_commit _ _).1, (clear_commit _ _).2]
    exact ⟨h.awHold, rfl⟩
  refine ⟨rstSync_tick h.sync hpaired, paired_tick hpaired, hclear.1, hclear.2, shows_next h.sync h.shows, ?_⟩
  rw [started_tick (p := p.hold TrafficFrontend.REG_CONTROL value) h.sync, hstart, if_pos rfl]
  exact congrArg (· ++ [_]) h.started

end Edges

section Polls

variable {σ : Type} [Device σ κ] (time : ℕ → Access κ) {I : σ → Prop}

end Polls

section Calls

variable (time : ℕ → Access (CompletePort.Pins κ)) {b : BusOf (Board N n dp H E)} {L : List (Request n)}
  {q : Request n} {p : Board N n dp H E}

/-- How the wait after START ends. -/
inductive Ended (L : List (Request n)) (p : Board N n dp H E) : Option Err → Prop where
  | timeout (h : Driven L p) : Ended L p (some .timeout)
  | auth (h : Resting L p) (hdone : p.top.traffic.doneQ = true)
      (hno : p.top.traffic.authQ = false ∨ p.top.traffic.errorQ = true) : Ended L p (some .auth)
  | answer (h : Resting L p) (hdone : p.top.traffic.doneQ = true) (hauth : p.top.traffic.authQ = true)
      (herror : p.top.traffic.errorQ = false) : Ended L p none

/-- The response shown belongs to the request handed over last. -/
theorem Resting.answer (h : Resting (L ++ [q]) p) (hdone : p.top.traffic.doneQ = true) :
    ∃ x r, p.ledger.served.getLast? = some x ∧ x.request = q ∧ p.ledger.recorded.getLast? = some r ∧
      r.rsp = masked r.faulted (x.response aead) ∧ r.rsp = TrafficFrontend.shown p.top.traffic := by
  obtain ⟨-, r, hlast, hshown⟩ := h.shows hdone
  cases h.paired.stage h.sync with
  | rest _ _ _ _ hstarted hrec =>
    rw [h.started] at hstarted
    obtain ⟨xs, ys, hserved, -, hys⟩ := List.map_eq_append_iff.mp hstarted.symm
    obtain ⟨x, rfl, hx⟩ := List.map_eq_singleton_iff.mp hys
    obtain ⟨rs, hrs⟩ := List.getLast?_eq_some_iff.mp hlast
    rw [hserved, hrs, ← List.forall₂_reverse_iff, List.reverse_concat, List.reverse_concat,
      List.forall₂_cons] at hrec
    exact ⟨x, r, by rw [hserved, List.getLast?_concat], hx, hlast, hrec.1, hshown⟩
  | asked _ hbusy => rw [h.inflight] at hbusy; cases hbusy
  | taken _ hbusy => rw [h.inflight] at hbusy; cases hbusy

/-- What a call makes of the session manager's answer. -/
def Call.output : Call → Response n → Output
  | .encrypt .., r => .sealed (lanes (k := 64) r.data) (lanes (k := 16) r.tag) r.counter
  | .decrypt .., r => .opened (lanes (k := 64) r.data)

/-- The session manager served the request last of all and the port recorded `r` as the answer. -/
def Answered (b' : BusOf (Board N n dp H E)) (q : Request n) (x : Served n) (r : Recorded n) : Prop :=
  b'.port.ledger.served.getLast? = some x ∧ x.request = q ∧ b'.port.ledger.recorded.getLast? = some r ∧
    r.rsp = masked r.faulted (x.response aead)

/-- The board after a reset and the edges `ks`. -/
def powered (N : ℕ) (s0 : State n dp H E) (ks : List (CompletePort.Pins κ)) : Board N n dp H E :=
  ks.foldl Board.tick ⟨rst s0, .empty⟩

end Calls

section Sample

def sampleRest : CompletePort.Pins Bool := ⟨sampleQuiet.m, true⟩

/-- Before the first poll behind START lie the edges `ks`. -/
def sampleTime (ks : List (CompletePort.Pins Bool)) (access : ℕ) : Access (CompletePort.Pins Bool) :=
  if access = 21 then ⟨ks, sampleRest⟩ else ⟨[], sampleRest⟩

abbrev SampleBoard (N : ℕ) : Type :=
  Board N 64 ProtectedTop.sampleDatapath ProtectedTop.sampleHash.toHashUnit sampleEngine

end Sample

end AeadHw

end ZedSecure
