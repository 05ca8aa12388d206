import Mathlib.Data.List.Forall2
import ZedSecure.Proofs.InstallOwners
import ZedSecure.Proofs.SessionAnswers

/-! The exchanges of the traffic port: which START an answer belongs to. The port's two flags, the
monitor's flag and the session manager move together, and a ledger beside a run pairs each
START with the table it is served on and with what the port records of the answer. -/

namespace ZedSecure

open Clocked

namespace TrafficFrontend

variable {n : ℕ} (s f : State n) (i : AxiIn 9) (c : CoreOut n)

/-- The operands in the registers when a write commits. -/
def operands : Request n :=
  ⟨s.slotReg, s.wdataQ.getLsbD 1, s.lengthReg, s.counterReg, packWords 16 s.inputData,
    packWords 4 s.inputTag⟩

/-- The response registers. -/
def shown : Response n := ⟨s.authQ, s.errorQ, s.rspSlotQ, s.rspCounterQ, s.rspDataQ, s.rspTagQ⟩

/-- A response enters the response registers. -/
def captures : Bool := s.inflight && c.rspValid

theorem startsRequest_of_inflight (h : s.inflight = true) : startsRequest s = false := by
  simp [startsRequest, h]

theorem startsRequest_of_pending (h : s.pending = true) : startsRequest s = false := by
  simp [startsRequest, h]

theorem commit_request (hs : s.writeCommit = true) :
    (commit s f).pending = (if startsRequest s then true else f.pending) ∧
      (commit s f).inflight = (if startsRequest s then true else f.inflight) ∧
      (commit s f).reqQ = (if startsRequest s then operands s else f.reqQ) ∧
      (startsRequest s = false → shown (commit s f) = shown f) ∧
      ((commit s f).doneQ = true → startsRequest s = false ∧ f.doneQ = true) := by
  by_cases hctl : s.awaddrQ = REG_CONTROL
  · have hst : startsRequest s =
        (s.wstrbQ.getLsbD 0 && s.wdataQ.getLsbD 0 && !s.pending && !s.inflight) := by
      simp [startsRequest, hs, hctl]
    rw [hst]
    simp only [commit, hctl, if_true, operands]
    split_ifs <;> simp_all [shown]
  · have hst : startsRequest s = false := by simp [startsRequest, hctl]
    rw [hst]
    simp only [commit, hctl, if_false, Bool.false_eq_true, shown]
    split_ifs <;> simp

/-- The edge before the commit's assignments. -/
theorem next_commit : ∃ f, next s i c = (if s.writeCommit then commit s f else f) ∧
    f.pending = (s.pending && !c.reqReady) ∧ f.inflight = (s.inflight && !c.rspValid) ∧
    f.reqQ = s.reqQ ∧ shown f = (if captures s c then c.rsp else shown s) ∧
    f.doneQ = (captures s c || s.doneQ) := by
  refine ⟨_, rfl, ?_, ?_, ?_, ?_, ?_⟩
  · simp only [apply_ite State.pending, ite_self]
    cases s.pending <;> cases c.reqReady <;> simp
  · simp only [apply_ite State.inflight, ite_self]
    cases s.inflight <;> cases c.rspValid <;> simp
  · simp only [apply_ite State.reqQ, ite_self]
  · simp only [shown, captures, apply_ite State.authQ, apply_ite State.errorQ, apply_ite State.rspSlotQ,
      apply_ite State.rspCounterQ, apply_ite State.rspDataQ, apply_ite State.rspTagQ, ite_self]
    split_ifs <;> simp_all
  · simp only [captures, apply_ite State.doneQ, ite_self]
    cases s.inflight <;> cases c.rspValid <;> simp

theorem pending_next : (next s i c).pending = (startsRequest s || (s.pending && !c.reqReady)) := by
  obtain ⟨f, hf, hpend, -, -, -, -⟩ := next_commit s i c
  rw [hf]
  cases hw : s.writeCommit
  · simp [startsRequest, hw, hpend]
  · rw [if_pos rfl, (commit_request s f hw).1, hpend]
    cases startsRequest s <;> rfl

theorem inflight_next : (next s i c).inflight = (startsRequest s || (s.inflight && !c.rspValid)) := by
  obtain ⟨f, hf, -, hin, -, -, -⟩ := next_commit s i c
  rw [hf]
  cases hw : s.writeCommit
  · simp [startsRequest, hw, hin]
  · rw [if_pos rfl, (commit_request s f hw).2.1, hin]
    cases startsRequest s <;> rfl

theorem reqQ_next : (next s i c).reqQ = if startsRequest s then operands s else s.reqQ := by
  obtain ⟨f, hf, -, -, hreq, -, -⟩ := next_commit s i c
  rw [hf]
  cases hw : s.writeCommit
  · simp [startsRequest, hw, hreq]
  · rw [if_pos rfl, (commit_request s f hw).2.2.1, hreq]

theorem shown_next (h : startsRequest s = false) :
    shown (next s i c) = if captures s c then c.rsp else shown s := by
  obtain ⟨f, hf, -, -, -, hshown, -⟩ := next_commit s i c
  rw [hf]
  cases hw : s.writeCommit
  · exact hshown
  · rw [if_pos rfl, (commit_request s f hw).2.2.2.1 h, hshown]

theorem doneQ_next (h : (next s i c).doneQ = true) :
    startsRequest s = false ∧ (captures s c = true ∨ s.doneQ = true) := by
  obtain ⟨f, hf, -, -, -, -, hdone⟩ := next_commit s i c
  rw [hf] at h
  cases hw : s.writeCommit
  · rw [hw, if_neg Bool.false_ne_true, hdone, Bool.or_eq_true] at h
    exact ⟨by simp [startsRequest, hw], h⟩
  · rw [hw, if_pos rfl] at h
    obtain ⟨hstart, hset⟩ := (commit_request s f hw).2.2.2.2 h
    rw [hdone, Bool.or_eq_true] at hset
    exact ⟨hstart, hset⟩

end TrafficFrontend

namespace CompleteTop

open SessionManager SessionTable

variable {n : ℕ} {aead : EngineIn → EngineOut} {κ : Type} {dp : Datapath} {H : HashUnit}
  {E : StartDone aead κ}

/-- A request with the table it is served on, and the table after it. -/
structure Served (n : ℕ) where
  request : Request n
  before : Slots n
  after : Slots n

/-- What the port records of a response, and whether a fault is flagged in that cycle. -/
structure Recorded (n : ℕ) where
  faulted : Bool
  rsp : Response n
  deriving DecidableEq

/-- The session table, the STARTs taken so far, the requests the table has taken, and what the
port has recorded. -/
structure Exchanges (n : ℕ) where
  table : Table n
  started : List (Request n)
  served : List (Served n)
  recorded : List (Recorded n)

def Exchanges.empty : Exchanges n := ⟨.empty, [], [], []⟩

/-- The pins of the session manager. -/
def managerIn (s : State n dp H E) (i : In κ) : SessionManager.In n κ :=
  MaterialCore.sessionsIn s.core.channel (ProtectedTop.channelIn s.core (coreIn s i))

/-- The table takes the pending request. -/
def serves (s : State n dp H E) (i : In κ) : Bool := s.traffic.pending && (coreOut s i).reqReady

def exchange (maxStage : ℕ) (s : State n dp H E) : Act (In κ) → Exchanges n → Exchanges n
  | .reset, _ => .empty
  | .tick i, g =>
    if rstSync s then
      let table := ((machine aead).run g.table (commands s.core.channel.sessions (.tick (managerIn s i)))).1
      { table := table
        started := g.started ++
          if TrafficFrontend.startsRequest s.traffic then [TrafficFrontend.operands s.traffic] else []
        served := g.served ++ if serves s i then [⟨s.traffic.reqQ, g.table.slots, table.slots⟩] else []
        recorded := g.recorded ++
          if TrafficFrontend.captures s.traffic (coreOut s i) then
            [⟨s.core.faultDetected, TrafficFrontend.shown (next maxStage s i).traffic⟩]
          else [] }
    else .empty

variable (n dp H E) in
def exchanged (maxStage : ℕ) : Design (State n dp H E × Exchanges n) (In κ) :=
  (design n maxStage dp H E).withLog (exchange maxStage)

/-- The response as it passes the top while a fault is flagged, or not. -/
def masked (fault : Bool) (r : Response n) : Response n :=
  if fault then { r with authOk := false, error := true, data := 0 } else r

/-- The session manager's response to a request. -/
def Served.response (aead : EngineIn → EngineOut) (x : Served n) : Response n :=
  (serve aead x.before x.request).2

/-- The port has recorded the response to `x`. -/
def Answers (aead : EngineIn → EngineOut) (x : Served n) (r : Recorded n) : Prop :=
  r.rsp = masked r.faulted (x.response aead)

/-- Where the exchange under way stands: nothing is asked, or START was taken, or the table has
taken the request. The exchanges before it are related by `P`. -/
inductive Stage (P : Served n → Recorded n → Prop) (s : State n dp H E) (g : Exchanges n) : Prop where
  | rest (hpend : s.traffic.pending = false) (hin : s.traffic.inflight = false)
      (hout : s.core.outstanding = false) (htable : g.table.pending = none)
      (hstarted : g.started = g.served.map Served.request) (hrec : List.Forall₂ P g.served g.recorded)
  | asked (hpend : s.traffic.pending = true) (hin : s.traffic.inflight = true)
      (hout : s.core.outstanding = false) (htable : g.table.pending = none)
      (hstarted : g.started = g.served.map Served.request ++ [s.traffic.reqQ])
      (hrec : List.Forall₂ P g.served g.recorded)
  | taken (hpend : s.traffic.pending = false) (hin : s.traffic.inflight = true)
      (hout : s.core.outstanding = true) (done : List (Served n)) (x : Served n)
      (htable : g.table.pending = some (x.response aead)) (hserved : g.served = done ++ [x])
      (hstarted : g.started = g.served.map Served.request) (hrec : List.Forall₂ P done g.recorded)

/-- The exchanges are paired. While the reset is held the port keeps its old registers. -/
structure Paired (P : Served n → Recorded n → Prop) (s : State n dp H E) (g : Exchanges n) : Prop where
  rel : Rel s.core.channel.sessions g.table
  effect : ∀ x ∈ g.served, x.after = (serve aead x.before x.request).1
  filled : rstSync s = true → s.rstSyncQ.getLsbD 0 = true
  held : rstSync s = false → s.core.outstanding = false ∧ g = .empty
  stage : rstSync s = true → Stage P s g

/-- No spurious valid while a request is outstanding that the table has not answered yet. -/
def NotSpurious (s : State n dp H E) (i : In κ) : Prop :=
  rstSync s = true → i.fault.rspValid = true → s.core.outstanding = true →
    ProtectedTop.rawRspValid s.core = true

instance (s : State n dp H E) (i : In κ) : Decidable (NotSpurious s i) := by
  unfold NotSpurious
  infer_instance

section Steps

variable {P : Served n → Recorded n → Prop} {maxStage : ℕ} {s : State n dp H E} {g : Exchanges n}
  {i : In κ}

theorem sessions_next (hr : rstSync s = true) :
    (next maxStage s i).core.channel.sessions =
      SessionManager.next s.core.channel.sessions (managerIn s i) := by
  simp only [next, hr, if_true, ProtectedTop.next, MaterialCore.next,
    apply_ite MaterialCore.State.sessions, ite_self]
  rfl

theorem outstanding_next (hr : rstSync s = true) : (next maxStage s i).core.outstanding =
    if ProtectedTop.rawRspValid s.core && s.traffic.inflight && s.core.outstanding then false
    else if serves s i then true else s.core.outstanding := by
  simp only [next, hr, if_true]
  exact ProtectedTop.outstanding_next _ _ _

theorem captures_eq : TrafficFrontend.captures s.traffic (coreOut s i) =
    (s.traffic.inflight && ((ProtectedTop.rawRspValid s.core || i.fault.rspValid) && s.core.outstanding)) := rfl

theorem serves_eq :
    serves s i = (s.traffic.pending && SessionManager.reqReady s.core.channel.sessions (managerIn s i)) := rfl

/-- Nothing of the table's answer moves without a request of the port and an answer. -/
theorem pending_kept {m : SessionManager.State n E} {t : Table n} {j : SessionManager.In n κ}
    (hreq : (j.reqValid && SessionManager.reqReady m j) = false) (hrsp : m.rspValid = false) :
    ((machine aead).run t (commands m (.tick j))).1.pending = t.pending := by
  simp only [commands, hreq, hrsp, Bool.false_and, Bool.false_eq_true, if_false, List.append_nil]
  split_ifs <;> rfl

theorem quiet_of_none {m : SessionManager.State n E} {t : Table n} (h : Rel m t) (ht : t.pending = none) :
    m.rspValid = false := by
  cases hv : m.rspValid
  · rfl
  · rw [h.pending_of_rspValid hv] at ht
    cases ht

/-- The table takes up nothing new while an answer is due. -/
theorem commands_due {m : SessionManager.State n E} {t : Table n} {r : Response n} {j : SessionManager.In n κ}
    (h : Rel m t) (ht : t.pending = some r) :
    commands m (.tick j) = if m.rspValid && j.rspReady then [.take] else [] := by
  refine commands_busy j fun hidle => ?_
  simp only [Rel, hidle] at h
  rw [h.2.2.1] at ht
  cases ht

/-- What passes the top with a response of the table is the response, masked. -/
theorem rsp_masked (hout : s.core.outstanding = true) (hraw : ProtectedTop.rawRspValid s.core = true) :
    (coreOut s i).rsp = masked s.core.faultDetected s.core.channel.sessions.rsp := by
  have hmon : ProtectedTop.monRspValid s.core (coreIn s i) = true := by
    rw [ProtectedTop.monRspValid, hraw, Bool.true_or]
  simp only [coreOut, ProtectedTop.rspOut, hout, hmon, masked]
  cases s.core.faultDetected <;> simp

theorem traffic_next (hr : rstSync s = true) :
    (next maxStage s i).traffic = TrafficFrontend.next s.traffic i.a (coreOut s i) := by
  simp only [next, hr, if_true]

/-- What the port takes at this edge is related to its request. -/
def Taking (P : Served n → Recorded n → Prop) (s : State n dp H E) (i : In κ) : Prop :=
  rstSync s = true → TrafficFrontend.captures s.traffic (coreOut s i) = true → ∀ x : Served n,
    s.core.channel.sessions.rsp = x.response aead →
      P x ⟨s.core.faultDetected, masked s.core.faultDetected (x.response aead)⟩

theorem stage_next (hr : rstSync s = true) (hrel : Rel s.core.channel.sessions g.table)
    (h : Stage P s g) (hspur : NotSpurious s i) (hP : Taking P s i) :
    Stage P (next maxStage s i) (exchange maxStage s (.tick i) g) := by
  have hout' := @outstanding_next _ _ _ _ _ _ maxStage s i hr
  have htraffic := @traffic_next _ _ _ _ _ _ maxStage s i hr
  have hpend' := TrafficFrontend.pending_next s.traffic i.a (coreOut s i)
  have hin' := TrafficFrontend.inflight_next s.traffic i.a (coreOut s i)
  have hreq' := TrafficFrontend.reqQ_next s.traffic i.a (coreOut s i)
  rw [← htraffic] at hpend' hin' hreq'
  cases h with
  | rest hpend hin hout htable hstarted hrec =>
    have hquiet := quiet_of_none hrel htable
    have hserve : serves s i = false := by rw [serves_eq, hpend, Bool.false_and]
    have hcap : TrafficFrontend.captures s.traffic (coreOut s i) = false := by
      rw [captures_eq, hin, Bool.false_and]
    have hkept := pending_kept (t := g.table) (j := managerIn s i) hserve hquiet
    cases hstart : TrafficFrontend.startsRequest s.traffic
    · refine .rest ?_ ?_ ?_ ?_ ?_ ?_
      · rw [hpend', hstart, hpend]; rfl
      · rw [hin', hstart, hin]; rfl
      · rw [hout', hserve, hout]; simp
      · simp only [exchange, hr, if_true, hkept, htable]
      · simp [exchange, hr, hstart, hserve, hstarted]
      · simpa [exchange, hr, hcap, hserve] using hrec
    · refine .asked ?_ ?_ ?_ ?_ ?_ ?_
      · rw [hpend', hstart]; rfl
      · rw [hin', hstart]; rfl
      · rw [hout', hserve, hout]; simp
      · simp only [exchange, hr, if_true, hkept, htable]
      · rw [hreq', hstart]
        simp [exchange, hr, hstart, hserve, hstarted]
      · simpa [exchange, hr, hcap, hserve] using hrec
  | asked hpend hin hout htable hstarted hrec =>
    have hquiet := quiet_of_none hrel htable
    have hstart := TrafficFrontend.startsRequest_of_pending s.traffic hpend
    have hcap : TrafficFrontend.captures s.traffic (coreOut s i) = false := by
      rw [captures_eq, hout, Bool.and_false, Bool.and_false]
    have hvalid : (coreOut s i).rspValid = false := by
      change (ProtectedTop.monRspValid s.core (coreIn s i) && s.core.outstanding) = false
      rw [hout, Bool.and_false]
    cases hserve : serves s i
    · have hkept := pending_kept (t := g.table) (j := managerIn s i) hserve hquiet
      have hready : (coreOut s i).reqReady = false := by
        rw [serves_eq, hpend, Bool.true_and] at hserve
        exact hserve
      refine .asked ?_ ?_ ?_ ?_ ?_ ?_
      · rw [hpend', hstart, hpend, hready]; rfl
      · rw [hin', hstart, hin, hvalid]; rfl
      · rw [hout', hserve, hout]; simp
      · simp only [exchange, hr, if_true, hkept, htable]
      · rw [hreq', hstart]
        simp [exchange, hr, hstart, hserve, hstarted]
      · simpa [exchange, hr, hcap, hserve] using hrec
    · have hready : (coreOut s i).reqReady = true := by
        rw [serves_eq, hpend, Bool.true_and] at hserve
        exact hserve
      have hidle : s.core.channel.sessions.state = .idle ∧ (managerIn s i).cfgWrite = false := by
        have hboth : SessionManager.reqReady s.core.channel.sessions (managerIn s i) = true := hready
        simpa [SessionManager.reqReady] using hboth
      have hcmd : commands s.core.channel.sessions (.tick (managerIn s i)) = [.request s.traffic.reqQ] := by
        rw [commands_idle _ hidle.1 hquiet, hidle.2]
        simp only [Bool.false_eq_true, if_false]
        rw [if_pos (show (managerIn s i).reqValid = true from hpend)]
        rfl
      refine .taken ?_ ?_ ?_ g.served ⟨s.traffic.reqQ, g.table.slots, (serve aead g.table.slots s.traffic.reqQ).1⟩
        ?_ ?_ ?_ ?_
      · rw [hpend', hstart, hpend, hready]; rfl
      · rw [hin', hstart, hin, hvalid]; rfl
      · rw [hout', hserve, hout]; simp
      · simp only [exchange, hr, if_true, hcmd]
        rfl
      · simp only [exchange, hr, if_true, hserve, hcmd]
        rfl
      · simp [exchange, hr, hstart, hserve, hstarted]
      · simpa [exchange, hr, hcap] using hrec
  | taken hpend hin hout done x htable hserved hstarted hrec =>
    have hstart := TrafficFrontend.startsRequest_of_inflight s.traffic hin
    have hserve : serves s i = false := by rw [serves_eq, hpend, Bool.false_and]
    have hcmd := commands_due (j := managerIn s i) hrel htable
    have hcap : TrafficFrontend.captures s.traffic (coreOut s i) = ProtectedTop.rawRspValid s.core := by
      rw [captures_eq, hin, hout, Bool.true_and, Bool.and_true]
      cases hf : i.fault.rspValid
      · exact Bool.or_false _
      · rw [hspur hr hf hout]
        rfl
    have hvalid : (coreOut s i).rspValid = ProtectedTop.rawRspValid s.core := by
      rw [TrafficFrontend.captures, hin, Bool.true_and] at hcap
      exact hcap
    cases hraw : ProtectedTop.rawRspValid s.core
    · have hnone : commands s.core.channel.sessions (.tick (managerIn s i)) = [] := by
        rw [hcmd, show s.core.channel.sessions.rspValid = false from hraw]
        rfl
      refine .taken ?_ ?_ ?_ done x ?_ ?_ ?_ ?_
      · rw [hpend', hstart, hpend]; rfl
      · rw [hin', hstart, hin, hvalid, hraw]; rfl
      · rw [hout', hraw, hserve, hout]; simp
      · simp only [exchange, hr, if_true, hnone, Server.run_nil]
        exact htable
      · simp [exchange, hr, hserve, hserved]
      · simp [exchange, hr, hstart, hserve, hstarted]
      · simpa [exchange, hr, hcap, hraw] using hrec
    · have htake : commands s.core.channel.sessions (.tick (managerIn s i)) = [.take] := by
        rw [hcmd, show s.core.channel.sessions.rspValid = true from hraw,
          show (managerIn s i).rspReady = true from hin]
        rfl
      have hrsp : s.core.channel.sessions.rsp = x.response aead := by
        have hpending := hrel.pending_of_rspValid hraw
        rw [htable, Option.some.injEq] at hpending
        exact hpending.symm
      have hshown : TrafficFrontend.shown (next maxStage s i).traffic =
          masked s.core.faultDetected (x.response aead) := by
        rw [htraffic, TrafficFrontend.shown_next _ _ _ hstart, hcap, hraw, if_pos rfl, rsp_masked hout hraw, hrsp]
      refine .rest ?_ ?_ ?_ ?_ ?_ ?_
      · rw [hpend', hstart, hpend]; rfl
      · rw [hin', hstart, hin, hvalid, hraw]; rfl
      · rw [hout', hraw, hin, hout]; simp
      · simp only [exchange, hr, if_true, htake]
        rfl
      · simp [exchange, hr, hstart, hserve, hstarted]
      · simp only [exchange, hr, if_true, hcap, hraw, hserve, Bool.false_eq_true, if_false, List.append_nil,
          hserved]
        rw [hshown]
        exact List.rel_append hrec (.cons (hP hr (hcap.trans hraw) x hrsp) .nil)

theorem effect_next (hr : rstSync s = true) (h : ∀ x ∈ g.served, x.after = (serve aead x.before x.request).1)
    (hrel : Rel s.core.channel.sessions g.table) :
    ∀ x ∈ (exchange maxStage s (.tick i) g).served, x.after = (serve aead x.before x.request).1 := by
  intro x hx
  simp only [exchange, hr, if_true, List.mem_append] at hx
  rcases hx with hx | hx
  · exact h x hx
  · cases hserve : serves s i <;> simp only [hserve, if_true, Bool.false_eq_true, if_false, List.not_mem_nil,
      List.mem_singleton] at hx
    have hboth := hserve
    rw [serves_eq, Bool.and_eq_true] at hboth
    obtain ⟨hidle, hcfg⟩ : s.core.channel.sessions.state = .idle ∧ (managerIn s i).cfgWrite = false := by
      simpa [SessionManager.reqReady] using hboth.2
    have hquiet : s.core.channel.sessions.rspValid = false := by
      cases hv : s.core.channel.sessions.rspValid
      · rfl
      · have := hrel.rspValid_iff.mp hv
        rw [hidle] at this
        cases this
    rw [commands_idle _ hidle hquiet, hcfg, if_pos (show (managerIn s i).reqValid = true from hboth.1)] at hx
    rw [hx]
    rfl

theorem rstSync_shift : ∀ q : BitVec 2, (BitVec.ofBool (q.getLsbD 0) ++ 1#1).getLsbD 1 = q.getLsbD 0 ∧
    (BitVec.ofBool (q.getLsbD 0) ++ 1#1).getLsbD 0 = true := by decide

theorem paired_rst (s0 : State n dp H E) : Paired P (rst s0) .empty := by
  refine ⟨rel_rst _ .empty, by simp [Exchanges.empty], ?_, fun _ => ⟨rfl, rfl⟩, ?_⟩ <;>
    simp [rstSync, rst]

theorem paired_next (h : Paired P s g) (hspur : NotSpurious s i) (hP : Taking P s i) :
    Paired P (next maxStage s i) (exchange maxStage s (.tick i) g) := by
  have hsync : rstSync (next maxStage s i) = s.rstSyncQ.getLsbD 0 := (rstSync_shift _).1
  have hfill : (next maxStage s i).rstSyncQ.getLsbD 0 = true := (rstSync_shift _).2
  cases hr : rstSync s with
  | false =>
    have hempty : exchange maxStage s (.tick i) g = .empty := by simp [exchange, hr]
    have hcore : (next maxStage s i).core = ProtectedTop.rst (ProtectedTop.next maxStage s.core (coreIn s i)) := by
      simp [next, hr]
    have htraffic : (next maxStage s i).traffic = TrafficFrontend.reset s.traffic := by simp [next, hr]
    rw [hempty]
    refine ⟨?_, by simp [Exchanges.empty], fun _ => hfill, fun _ => ⟨by rw [hcore]; rfl, rfl⟩, fun _ => ?_⟩
    · rw [hcore]
      exact rel_rst _ .empty
    · refine .rest ?_ ?_ ?_ rfl rfl .nil
      · rw [htraffic]; rfl
      · rw [htraffic]; rfl
      · rw [hcore]; rfl
  | true =>
    refine ⟨?_, effect_next hr h.effect h.rel, fun _ => hfill, fun hlow => ?_,
      fun _ => stage_next hr h.rel (h.stage hr) hspur hP⟩
    · rw [sessions_next hr]
      simp only [exchange, hr, if_true]
      exact rel_step _ _ (.tick (managerIn s i)) h.rel
    · rw [hsync, h.filled hr] at hlow
      cases hlow

end Steps

/-- Every run whose edges meet `C` pairs the exchanges. -/
theorem paired_run {P : Served n → Recorded n → Prop} {maxStage : ℕ}
    {C : State n dp H E × Exchanges n → In κ → Prop} (hspur : ∀ p i, C p i → NotSpurious p.1 i)
    (hP : ∀ p i, C p i → Taking P p.1 i) (s0 : State n dp H E) {acts : List (Act (In κ))}
    (hC : (exchanged n dp H E maxStage).AllSteps C ((exchanged n dp H E maxStage).rst (s0, .empty)) acts) :
    Paired P ((exchanged n dp H E maxStage).run ((exchanged n dp H E maxStage).rst (s0, .empty)) acts).1
      ((exchanged n dp H E maxStage).run ((exchanged n dp H E maxStage).rst (s0, .empty)) acts).2 := by
  refine Design.run_induct_of _ (P := fun p => Paired P p.1 p.2) ?_ ?_ (paired_rst s0) hC
  · rintro ⟨s, g⟩ -
    exact paired_rst s
  · rintro ⟨s, g⟩ i h hc
    exact paired_next h (hspur _ _ hc) (hP _ _ hc)

/-- STARTs and recorded responses alternate, and the `k`-th response recorded is the session
manager's response to the operands of the `k`-th START, masked while a fault is flagged. -/
structure Exchanged (aead : EngineIn → EngineOut) (g : Exchanges n) : Prop where
  alternate : g.started.length = g.recorded.length ∨ g.started.length = g.recorded.length + 1
  answered : ∀ (k : ℕ) r, g.recorded[k]? = some r → ∃ x, g.served[k]? = some x ∧
    g.started[k]? = some x.request ∧ x.after = (serve aead x.before x.request).1 ∧
    r.rsp = masked r.faulted (x.response aead)

theorem Stage.related {P : Served n → Recorded n → Prop} {s : State n dp H E} {g : Exchanges n} (h : Stage P s g) :
    (g.started.length = g.recorded.length ∨ g.started.length = g.recorded.length + 1) ∧
      ∀ (k : ℕ) r, g.recorded[k]? = some r → ∃ x, g.served[k]? = some x ∧ g.started[k]? = some x.request ∧ P x r := by
  have hpick : ∀ {xs : List (Served n)} {rs : List (Recorded n)}, List.Forall₂ P xs rs → ∀ (k : ℕ) r, rs[k]? = some r →
      ∃ x, xs[k]? = some x ∧ P x r := by
    intro xs rs hall
    induction hall with
    | nil => intro k r hr; simp at hr
    | cons hx _ ih =>
      intro k r hr
      cases k with
      | zero => exact ⟨_, rfl, by simpa using (Option.some.inj hr) ▸ hx⟩
      | succ k => exact ih k r hr
  cases h with
  | rest _ _ _ _ hstarted hrec =>
    refine ⟨Or.inl (by rw [hstarted, List.length_map, hrec.length_eq]), fun k r hr => ?_⟩
    obtain ⟨x, hx, hP⟩ := hpick hrec k r hr
    exact ⟨x, hx, by rw [hstarted, List.getElem?_map, hx]; rfl, hP⟩
  | asked _ _ _ _ hstarted hrec =>
    refine ⟨Or.inr (by simp [hstarted, hrec.length_eq]), fun k r hr => ?_⟩
    obtain ⟨x, hx, hP⟩ := hpick hrec k r hr
    refine ⟨x, hx, ?_, hP⟩
    rw [hstarted, List.getElem?_append_left, List.getElem?_map, hx]
    · rfl
    · rw [List.length_map]
      exact (List.getElem?_eq_some_iff.mp hx).1
  | taken _ _ _ done x' _ hserved hstarted hrec =>
    refine ⟨Or.inr (by simp [hstarted, hserved, hrec.length_eq]), fun k r hr => ?_⟩
    obtain ⟨x, hx, hP⟩ := hpick hrec k r hr
    have hin : g.served[k]? = some x := by
      rw [hserved, List.getElem?_append_left, hx]
      exact (List.getElem?_eq_some_iff.mp hx).1
    exact ⟨x, hin, by rw [hstarted, List.getElem?_map, hin]; rfl, hP⟩

theorem Paired.related {P : Served n → Recorded n → Prop} {s : State n dp H E} {g : Exchanges n} (h : Paired P s g) :
    (g.started.length = g.recorded.length ∨ g.started.length = g.recorded.length + 1) ∧
      ∀ (k : ℕ) r, g.recorded[k]? = some r → ∃ x, g.served[k]? = some x ∧ g.started[k]? = some x.request ∧ P x r := by
  cases hr : rstSync s with
  | false =>
    rw [(h.held hr).2]
    exact ⟨Or.inl rfl, fun k r hk => by simp [Exchanges.empty] at hk⟩
  | true => exact (h.stage hr).related

theorem Paired.exchanged {P : Served n → Recorded n → Prop} {s : State n dp H E} {g : Exchanges n}
    (h : Paired P s g) (hP : ∀ x r, P x r → Answers aead x r) : Exchanged aead g := by
  obtain ⟨halt, hrel⟩ := h.related
  refine ⟨halt, fun k r hr => ?_⟩
  obtain ⟨x, hx, hstart, hxr⟩ := hrel k r hr
  exact ⟨x, hx, hstart, h.effect x (List.mem_of_getElem? hx), hP x r hxr⟩

/-- In every run without a spurious valid while a request is under way, each response recorded
belongs to the operands of its own START. -/
theorem exchanges_sound {maxStage : ℕ} (s0 : State n dp H E) (acts : List (Act (In κ)))
    (hC : (exchanged n dp H E maxStage).AllSteps (fun p i => NotSpurious p.1 i)
      ((exchanged n dp H E maxStage).rst (s0, .empty)) acts) :
    Exchanged aead
      ((exchanged n dp H E maxStage).run ((exchanged n dp H E maxStage).rst (s0, .empty)) acts).2 := by
  have hpaired := paired_run (P := Answers aead) (fun _ _ hc => hc) (fun _ _ _ _ _ _ _ => rfl) s0 hC
  exact hpaired.exchanged fun _ _ hxr => hxr

/-- The table answers a request with success exactly when it moves the counter. -/
theorem serve_effect {t : Slots n} {q : Request n} :
    ((serve aead t q).2.authOk = true → ∃ e, t q.slot = some e ∧
      (serve aead t q).1 = Function.update t q.slot (some (e.advance q.decrypt))) ∧
    ((serve aead t q).2.authOk = false → (serve aead t q).1 = t) ∧
    (serve aead t q).2.error = !(serve aead t q).2.authOk := by
  cases he : t q.slot with
  | none => simp [serve_none he, refusal]
  | some e =>
    by_cases hr : Refused e q
    · simp [serve_refused he hr, refusal]
    · rw [serve_answer he hr rfl]
      cases hok : (aead (engineOperands e q)).authOk <;> simp [answer, hok]

/-- A response recorded as a success moved the counter of its slot and direction by one and nothing
else, and a response recorded as an error moved nothing. -/
def Counted (g : Exchanges n) : Prop :=
  ∀ (k : ℕ) r, g.recorded[k]? = some r → ∃ x, g.served[k]? = some x ∧ g.started[k]? = some x.request ∧
    (r.rsp.authOk = true → ∃ e, x.before x.request.slot = some e ∧
      x.after = Function.update x.before x.request.slot (some (e.advance x.request.decrypt))) ∧
    (r.rsp.error = true → x.after = x.before)

/-- No spurious valid while a request is under way, and no success is taken while a fault is flagged. -/
def Unmasked (s : State n dp H E) (i : In κ) : Prop :=
  NotSpurious s i ∧ (rstSync s = true → TrafficFrontend.captures s.traffic (coreOut s i) = true →
    s.core.faultDetected = true → s.core.channel.sessions.rsp.authOk = false)

instance (s : State n dp H E) (i : In κ) : Decidable (Unmasked s i) := by
  unfold Unmasked
  infer_instance

/-- In every run whose edges meet the condition, the status at the port agrees with the table, whose
content the manager's memory holds. -/
theorem exchanges_counted {maxStage : ℕ} (s0 : State n dp H E) (acts : List (Act (In κ)))
    (hC : (exchanged n dp H E maxStage).AllSteps (fun p i => Unmasked p.1 i)
      ((exchanged n dp H E maxStage).rst (s0, .empty)) acts) :
    let p := (exchanged n dp H E maxStage).run ((exchanged n dp H E maxStage).rst (s0, .empty)) acts
    Counted p.2 ∧ Rel p.1.core.channel.sessions p.2.table := by
  intro p
  have hpaired := paired_run (P := fun x r => Answers aead x r ∧ (r.faulted = true → (x.response aead).authOk = false))
    (fun _ _ hc => hc.1) (fun q i hc hr hcap x hx => ⟨rfl, fun hf => hx ▸ hc.2 hr hcap hf⟩) s0 hC
  refine ⟨fun k r hr => ?_, hpaired.rel⟩
  obtain ⟨x, hx, hstart, hrec, hclear⟩ := hpaired.related.2 k r hr
  obtain ⟨hok, hno, herr⟩ := @serve_effect _ aead x.before x.request
  have hafter := hpaired.effect x (List.mem_of_getElem? hx)
  refine ⟨x, hx, hstart, fun ha => ?_, fun he => ?_⟩
  · rw [hafter]
    apply hok
    rw [hrec] at ha
    cases hf : r.faulted
    · rwa [hf] at ha
    · rw [hf] at ha
      cases ha
  · rw [hafter]
    apply hno
    cases hf : r.faulted
    · rw [hrec, hf] at he
      have hnot := herr.symm.trans he
      simpa using hnot
    · exact hclear hf

section Sample

abbrev sampleExchanged (maxStage : ℕ) : Design (SampleState × Exchanges 64) (In Bool) :=
  exchanged 64 ProtectedTop.sampleDatapath ProtectedTop.sampleHash.toHashUnit sampleEngine maxStage

/-- START of an encryption for slot 0. -/
def sampleStart : In Bool := { sampleQuiet with a := ⟨4, true, 1, 15, true, true, 0, false, true⟩ }

def sampleSpurious : In Bool :=
  { sampleQuiet with fault := { ProtectedTop.FaultInject.none with rspValid := true } }

/-- Slot 0 is installed, and `pins` lie on the two ports after that. -/
def sampleTraffic (maxStage : ℕ) (pins : List (In Bool)) : SampleState × Exchanges 64 :=
  (sampleExchanged maxStage).run ((sampleExchanged maxStage).rst (sampleTop, .empty))
    (sampleHandshake (List.replicate 120 sampleQuiet ++ pins))

/-- The table's answer to the first START. -/
def sampleAnswer : Response 64 := ⟨true, false, 0, 0, 0, 0⟩

/-- A spurious valid that finds no request under way does no harm. -/
theorem exchanges_sound_idle :
    (sampleTraffic 300000 (sampleSpurious :: sampleStart :: List.replicate 70 sampleQuiet)).2.recorded =
        [⟨true, masked true sampleAnswer⟩] ∧
      Exchanged (fixed64 (fun _ => 0#512) (fun _ => 0#128))
        (sampleTraffic 300000 (sampleSpurious :: sampleStart :: List.replicate 70 sampleQuiet)).2 :=
  ⟨by decide +kernel, exchanges_sound sampleTop _ (by decide +kernel)⟩

/-- A spurious valid while the request is worked on completes it with what the response registers
happen to hold. -/
theorem exchanges_unsound :
    ¬ Exchanged (fixed64 (fun _ => 0#512) (fun _ => 0#128)) (sampleTraffic 300000
      (sampleStart :: List.replicate 20 sampleQuiet ++ sampleSpurious :: List.replicate 5 sampleQuiet)).2 := by
  intro h
  obtain ⟨x, hx, -, -, hrsp⟩ := h.answered 0 ⟨false, ⟨false, false, 0, 0, 0, 0⟩⟩ (by decide +kernel)
  have hanswer := congrArg (Option.map (Served.response (fixed64 (fun _ => 0#512) (fun _ => 0#128)))) hx
  rw [show Option.map _ _ = some sampleAnswer by decide +kernel, Option.map_some, Option.some.injEq] at hanswer
  rw [← hanswer] at hrsp
  exact absurd hrsp (by decide)

/-- A success under no flagged fault moves the counter and is recorded as a success. -/
theorem exchanges_counted_success :
    (sampleTraffic 300000 (sampleStart :: List.replicate 70 sampleQuiet)).2.recorded = [⟨false, sampleAnswer⟩] ∧
      Counted (sampleTraffic 300000 (sampleStart :: List.replicate 70 sampleQuiet)).2 :=
  ⟨by decide +kernel, (exchanges_counted sampleTop _ (by decide +kernel)).1⟩

/-- A fault is flagged while nothing is asked; the next request is recorded as an error, and its
counter has moved. -/
theorem exchanges_uncounted :
    ¬ Counted (sampleTraffic 300000 (sampleSpurious :: sampleStart :: List.replicate 70 sampleQuiet)).2 := by
  intro h
  obtain ⟨x, hx, -, -, herr⟩ := h 0 ⟨true, masked true sampleAnswer⟩ (by decide +kernel)
  have hsame := congrArg (fun t : Slots 64 => (t 0).map Session.txCounter) (herr rfl)
  have hcounts := congrArg (Option.map fun x : Served 64 =>
    ((x.before 0).map Session.txCounter, (x.after 0).map Session.txCounter)) hx
  rw [show Option.map _ _ = some (some 0#64, some 1#64) by decide +kernel, Option.map_some, Option.some.injEq,
    Prod.mk.injEq] at hcounts
  rw [← hcounts.1, ← hcounts.2] at hsame
  exact absurd hsame (by decide)

end Sample

end CompleteTop

end ZedSecure
