import ZedSecure.Clocked.Client
import ZedSecure.Proofs.ArbiterRuns
import ZedSecure.Proofs.TrafficRuns

/-! Given the same configurations and requests one after the other, the register arbiter and the
block-memory manager of four sessions give the same responses: both follow the session table. -/

namespace ZedSecure

open Clocked SessionTable

section Calls

variable {n : ℕ}

/-- What a client asks of a session manager. -/
inductive Call (n : ℕ) where
  | configure (c : Config n)
  | request (q : Request n)

def Call.answers : Call n → Bool
  | .configure _ => false
  | .request _ => true

/-- The table as it serves calls, each complete before the next. -/
def callServer (aead : EngineIn → EngineOut) : Server (Slots n) (Call n) (Response n) where
  step t
    | .configure c => (configure t c, [])
    | .request q => ((serve aead t q).1, [(serve aead t q).2])

end Calls

variable {aead : EngineIn → EngineOut} {κ : Type}

namespace SessionManager

variable {n : ℕ} {E : StartDone aead κ}

/-- The client drives one of the valid pins; both readies are up while the manager is idle. -/
def endpoint (n : ℕ) (E : StartDone aead κ) : Endpoint (State n E) (In n κ) (Call n) (Response n) (In n κ) where
  next := next
  pins offer rdy e :=
    match offer with
    | none => { e with cfgWrite := false, reqValid := false, rspReady := rdy }
    | some (.configure c) => { e with cfgWrite := true, cfg := c, reqValid := false, rspReady := rdy }
    | some (.request q) => { e with cfgWrite := false, reqValid := true, req := q, rspReady := rdy }
  accepts s _ := cfgReady s
  shows s := if s.rspValid then some s.rsp else none
  answers := Call.answers

def Talks (s : State n E) (a : Slots n) : Phase (Call n) (Response n) → Prop
  | .rest | .offer _ => Rel s ⟨a, none⟩
  | .answer r => Rel s ⟨a, some r⟩

/-- The edges to the next handshake, at most. -/
def handshakeLeft (T : E.Timed) (s : State n E) : ℕ :=
  (if s.state = .cfgWrite then 24 - s.cfgWordQ.toNat else 0) + cyclesLeft s + TrafficPort.engineLeft T s

/-- Without a pending answer the manager is idle or installs. -/
theorem rel_none {s : State n E} {a : Slots n} (h : Rel s ⟨a, none⟩) :
    (s.state = .idle ∨ s.state = .cfgWrite) ∧ s.rspValid = false := by
  cases hst : s.state <;> simp only [Rel, hst] at h
  case idle => exact ⟨Or.inl rfl, h.2.1⟩
  case cfgWrite => exact ⟨Or.inr rfl, h.2.1⟩
  case response => exact absurd h.2.2.1 (by simp)
  case readIssue => obtain ⟨-, -, old, e, hs, -⟩ := h; exact absurd hs.pending (by simp)
  case readCapture => obtain ⟨-, -, old, e, hs, -⟩ := h; exact absurd hs.pending (by simp)
  case check => obtain ⟨-, -, old, hs⟩ := h; exact absurd hs.pending (by simp)
  case engineWait => obtain ⟨-, ⟨old, hs⟩, -⟩ := h; exact absurd hs.pending (by simp)
  case countWriteLo => exact absurd h.2.2.1.pending (by simp)
  case countWriteHi => exact absurd h.2.2.1.pending (by simp)

theorem rel_some {s : State n E} {a : Slots n} {r : Response n} (h : Rel s ⟨a, some r⟩) :
    s.state ≠ .idle ∧ s.state ≠ .cfgWrite := by
  refine ⟨?_, ?_⟩ <;> intro hst <;> simp [Rel, hst] at h

/-- An install goes on, one word nearer its end. -/
theorem installs_on (T : E.Timed) {s : State n E} {a : Slots n} (h : Rel s ⟨a, none⟩)
    (hst : s.state = .cfgWrite) (i : In n κ) :
    Rel (next s i) ⟨a, none⟩ ∧ handshakeLeft T (next s i) < handshakeLeft T s := by
  refine ⟨rel_cfgWrite i hst h, ?_⟩
  simp only [Rel, hst] at h
  have hlt := h.2.2.2.word
  by_cases h23 : s.cfgWordQ = 23#5
  · simp [handshakeLeft, next, hst, h23, cyclesLeft, TrafficPort.engineLeft]
  · have hadd : (s.cfgWordQ + 1#5).toNat = s.cfgWordQ.toNat + 1 := by
      simp only [BitVec.toNat_add, BitVec.toNat_ofNat]
      omega
    have hs : (frame s i).state = .cfgWrite := hst
    simp only [handshakeLeft, next, hst, h23, if_false, if_true, hs, hadd, cyclesLeft, TrafficPort.engineLeft]
    omega

theorem follows (T : E.Timed) : (endpoint n E).Follows (callServer aead) Talks (handshakeLeft T) where
  rest {s a} rdy e h := by
    rcases (rel_none h).1 with hst | hst
    · exact rel_idle_wait _ hst h rfl rfl
    · exact rel_cfgWrite _ hst h
  offered c h := h
  held {s a c} rdy e h hacc := by
    have hst : s.state = .cfgWrite := by
      rcases (rel_none h).1 with hst | hst
      · simp [endpoint, cfgReady, hst] at hacc
      · exact hst
    exact installs_on T h hst _
  told {s a c} rdy e h hacc hans := by
    have hst : s.state = .idle := by simpa [endpoint, cfgReady] using hacc
    cases c with
    | configure c => exact ⟨rel_idle_configure _ hst h rfl, rfl⟩
    | request q => cases hans
  asked {s a c} rdy e h hacc hans := by
    have hst : s.state = .idle := by simpa [endpoint, cfgReady] using hacc
    cases c with
    | configure c => cases hans
    | request q => exact ⟨_, rel_idle_request _ hst h rfl rfl, rfl⟩
  works {s a r} rdy e h hshow := by
    have hv : s.rspValid = false := by
      cases hv : s.rspValid <;> simp [endpoint, hv] at hshow ⊢
    obtain ⟨hidle, hcfg⟩ := rel_some h
    have hrel : Rel (next s ((endpoint n E).pins none rdy e)) ⟨a, some r⟩ := by
      have hstep : Rel (next s ((endpoint n E).pins none rdy e)) _ :=
        rel_step s ⟨a, some r⟩ (.tick ((endpoint n E).pins none rdy e)) h
      simpa [commands_busy _ hidle, hv] using hstep
    have hpos := TrafficPort.cyclesLeft_pos h rfl hv
    have hcycle := cyclesLeft_next ((endpoint n E).pins none rdy e) h hpos
    have hengine := TrafficPort.engineLeft_next T ((endpoint n E).pins none rdy e) h hpos
    refine ⟨hrel, ?_⟩
    change handshakeLeft T (next s ((endpoint n E).pins none rdy e)) < handshakeLeft T s
    simp only [handshakeLeft, (rel_some hrel).2, hcfg, if_false]
    split_ifs at hcycle hengine <;> omega
  shown {s a r r'} h hshow := by
    have hv : s.rspValid = true := by
      cases hv : s.rspValid <;> simp [endpoint, hv] at hshow ⊢
    have hp := h.pending_of_rspValid hv
    simp only [endpoint, hv, if_true] at hshow
    rw [← Option.some.inj hshow]
    exact (Option.some.inj hp).symm
  kept {s a r} e h hshow := by
    have hv : s.rspValid = true := by
      cases hv : s.rspValid <;> simp [endpoint, hv] at hshow ⊢
    have hst := h.rspValid_iff.mp hv
    refine ⟨rel_response _ hst h, ?_⟩
    rw [← hshow]
    simp [endpoint, next, hst, frame]
  taken {s a r} e h hshow := by
    have hv : s.rspValid = true := by
      cases hv : s.rspValid <;> simp [endpoint, hv] at hshow ⊢
    exact rel_response _ (h.rspValid_iff.mp hv) h

end SessionManager

namespace SessionArbiter

variable {E : StartDone aead κ}

/-- The part of a request that the pins of a port carry. -/
def portRequest (q : Request 4) : PortRequest := ⟨q.decrypt, q.dataLen, q.counter, q.data, q.tag⟩

/-- The client asks on the port of the slot, and takes its answer wherever it shows. -/
def endpoint (E : StartDone aead κ) : Endpoint (State E) (In κ) (Call 4) (Response 4) (In κ) where
  next := next
  pins offer rdy e :=
    match offer with
    | none => { e with cfgWrite := false, reqValid := fun _ => false, rspReady := fun _ => rdy }
    | some (.configure c) =>
      { e with cfgWrite := true, cfg := c, reqValid := fun _ => false, rspReady := fun _ => rdy }
    | some (.request q) =>
      { e with cfgWrite := false, reqValid := fun p => p = q.slot, req := fun _ => portRequest q
               rspReady := fun _ => rdy }
  accepts s c :=
    match c with
    | .configure _ => cfgReady s
    | .request q => reqReady s q.slot
  shows s := (ports.find? s.rspValid).map fun p => (s.rsp p).onSlot p
  answers := Call.answers

def Talks (s : State E) (a : Slots 4) : Phase (Call 4) (Response 4) → Prop
  | .rest => Rel s ⟨a, none⟩ ∧ s.state = .idle
  | .offer c => Rel s ⟨a, none⟩ ∧
      (s.state = .idle ∨ s.state = .grant ∧ ∃ q, c = .request q ∧ s.activeSlot = q.slot)
  | .answer r => Rel s ⟨a, some r⟩

/-- The edges to the next handshake, at most. -/
def handshakeLeft (T : E.Timed) (s : State E) : ℕ :=
  match s.state with
  | .idle => 1
  | .grant | .response => 0
  | .waitEngine => T.togo s.engineStart s.engine + 1

theorem grantSlot_only (last p : Port) : grantSlot last (fun q => q = p) = some p := by
  cases hg : grantSlot last (fun q => q = p) with
  | none => simpa using grantSlot_none hg p
  | some q => simpa using (grantSlot_first hg).1

theorem grantSlot_nobody (last : Port) : grantSlot last (fun _ => false) = none := by
  cases hg : grantSlot last (fun _ => false) with
  | none => rfl
  | some q => simpa using (grantSlot_first hg).1

/-- An answer is due: the engine works on it or it shows. -/
theorem rel_some {s : State E} {a : Slots 4} {r : Response 4} (h : Rel s ⟨a, some r⟩) :
    s.state = .waitEngine ∨ s.state = .response := by
  cases hst : s.state <;> simp [Rel, hst] at h ⊢

theorem shows_eq {s : State E} {t : Table 4} (h : Rel s t) : (endpoint E).shows s =
    if s.state = .response then some ((s.rsp s.activeSlot).onSlot s.activeSlot) else none := by
  have hv : s.rspValid = fun p => decide (s.state = .response) && decide (p = s.activeSlot) := by
    funext p
    exact h.rspValid p
  by_cases hst : s.state = .response
  · have hfind : ports.find? s.rspValid = some s.activeSlot := by
      rw [hv]
      rcases port_cases s.activeSlot with hp | hp | hp | hp <;> rw [hp, hst] <;> decide
    simp [endpoint, hfind, hst]
  · have hfind : ports.find? s.rspValid = none := by
      rw [hv]
      simp [hst]
    simp [endpoint, hfind, hst]

theorem follows (gated : ∀ x, (aead x).authOk = false → (aead x).data = 0#512) (T : E.Timed) :
    (endpoint E).Follows (callServer aead) Talks (handshakeLeft T) where
  rest {s a} rdy e h := by
    obtain ⟨hrel, hst⟩ := h
    refine ⟨rel_idle _ hst hrel, ?_⟩
    simp [endpoint, next, hst, grantSlot_nobody, frame]
  offered c h := ⟨h.1, Or.inl h.2⟩
  held {s a c} rdy e h hacc := by
    obtain ⟨hrel, hst | ⟨hst, q, rfl, hq⟩⟩ := h
    · cases c with
      | configure c => simp [endpoint, cfgReady, hst] at hacc
      | request q =>
        have hnext : next s ((endpoint E).pins (some (.request q)) rdy e) =
            { frame s ((endpoint E).pins (some (.request q)) rdy e) with
              activeSlot := q.slot, lastGrant := q.slot, state := .grant } := by
          simp [endpoint, next, hst, grantSlot_only]
        refine ⟨⟨rel_idle _ hst hrel, Or.inr ?_⟩, ?_⟩
        · refine ⟨congrArg State.state hnext, q, rfl, congrArg State.activeSlot hnext⟩
        · change handshakeLeft T (next s ((endpoint E).pins (some (.request q)) rdy e)) < _
          rw [hnext]
          simp [handshakeLeft, hst]
    · simp [endpoint, reqReady, hst, hq] at hacc
  told {s a c} rdy e h hacc hans := by
    cases c with
    | configure c =>
      have hst : s.state = .idle := by simpa [endpoint, cfgReady] using hacc
      refine ⟨⟨rel_idle _ hst h.1, ?_⟩, rfl⟩
      simp [endpoint, next, hst, frame]
    | request q => cases hans
  asked {s a c} rdy e h hacc hans := by
    cases c with
    | configure c => cases hans
    | request q =>
      have hst : s.state = .grant ∧ s.activeSlot = q.slot := by simpa [endpoint, reqReady] using hacc
      have hrel := rel_grant ((endpoint E).pins (some (.request q)) rdy e) hst.1 h.1
      have hreq : (((endpoint E).pins (some (.request q)) rdy e).req s.activeSlot).onSlot s.activeSlot = q := by
        rw [hst.2]
        rfl
      rw [hreq] at hrel
      exact ⟨_, hrel, rfl⟩
  works {s a r} rdy e h hshow := by
    have hst : s.state = .waitEngine := by
      rcases rel_some h with hst | hst
      · exact hst
      · rw [shows_eq h, if_pos hst] at hshow
        cases hshow
    refine ⟨rel_waitEngine gated _ hst h, ?_⟩
    change handshakeLeft T (next s ((endpoint E).pins none rdy e)) < handshakeLeft T s
    have hnext := waitEngine_next ((endpoint E).pins none rdy e) hst
    cases hd : E.done s.engine
    · change Rel s ⟨a, some r⟩ at h
      simp only [Rel, hst] at h
      obtain ⟨-, q, hq⟩ := h
      have hlt := T.togo_lt hq.issued hd ((endpoint E).pins none rdy e).engine
      simpa [handshakeLeft, next, hst, hd, frame] using hlt
    · rw [hd, if_pos rfl] at hnext
      simp [handshakeLeft, hst, hnext.2]
  shown {s a r r'} h hshow := by
    rw [shows_eq h] at hshow
    split_ifs at hshow with hst
    change Rel s ⟨a, some r⟩ at h
    simp only [Rel, hst] at h
    rw [← Option.some.inj hshow]
    exact (Option.some.inj h.2.2.2).symm
  kept {s a r} e h hshow := by
    have hst : s.state = .response := by
      rw [shows_eq h] at hshow
      split_ifs at hshow with hst
      exact hst
    have hrel := rel_response ((endpoint E).pins none false e) hst h
    refine ⟨hrel, ?_⟩
    rw [← hshow]
    simp [endpoint, next, hst, frame]
  taken {s a r} e h hshow := by
    have hst : s.state = .response := by
      rw [shows_eq h] at hshow
      split_ifs at hshow with hst
      exact hst
    refine ⟨rel_response ((endpoint E).pins none true e) hst h, ?_⟩
    simp [endpoint, next, hst]

end SessionArbiter

/-- Whatever the timing on both sides, every list of configurations and requests gets through both
designs, over one and the same engine, with the same responses. -/
theorem managers_agree {chacha20 : ChachaIn → BitVec 512} {poly1305 : PolyIn → BitVec 128}
    {E : StartDone (fixed64 chacha20 poly1305) κ} (T : E.Timed) (s0 : SessionManager.State 4 E)
    (cs : List (Call 4)) {envA : ℕ → Turn (SessionArbiter.In κ)} {envB : ℕ → Turn (SessionManager.In 4 κ)}
    (hA : Endpoint.Fair envA) (hB : Endpoint.Fair envB) : ∃ m n,
      let a := (SessionArbiter.endpoint E).loop (.init E, Client.start cs) envA m
      let b := (SessionManager.endpoint 4 E).loop (SessionManager.rst E s0, Client.start cs) envB n
      Client.Finished a.2 ∧ Client.Finished b.2 ∧ a.2.got = b.2.got := by
  have hinitA : SessionArbiter.Talks (SessionArbiter.State.init E) (fun _ => none) .rest :=
    ⟨SessionArbiter.rel_rst (.init E) .empty, rfl⟩
  have hinitB : SessionManager.Talks (SessionManager.rst E s0) (fun _ => none) .rest := rel_rst s0 .empty
  obtain ⟨m, s, ha⟩ := (SessionArbiter.follows (SessionArbiter.fixed64_gated chacha20 poly1305) T).completes cs hinitA hA []
  obtain ⟨n, s', hb⟩ := (SessionManager.follows T).completes cs hinitB hB []
  refine ⟨m, n, ?_⟩
  simp only [Client.start, ha, hb]
  exact ⟨⟨rfl, rfl, rfl⟩, ⟨rfl, rfl, rfl⟩, trivial⟩

/-- An install, a packet, a replay that is refused, and the slot emptied again. -/
def sampleCalls : List (Call 4) :=
  [.configure ⟨SessionArbiter.port 2, true, 7#32, 1#256, 2#256, 3#32, 4#32⟩,
    .request ⟨SessionArbiter.port 2, false, 5#8, 0#64, 6#512, 0#128⟩,
    .request ⟨SessionArbiter.port 2, true, 5#8, 9#64, 6#512, 0#128⟩,
    .configure ⟨SessionArbiter.port 2, false, 0#32, 0#256, 0#256, 0#32, 0#32⟩,
    .request ⟨SessionArbiter.port 2, false, 5#8, 0#64, 6#512, 0#128⟩]

def steady {ε : Type} (e : ε) (_ : ℕ) : Turn ε := ⟨true, true, e⟩

theorem steady_fair {ε : Type} (e : ε) : Endpoint.Fair (steady e) :=
  ⟨fun n => ⟨n, le_rfl, rfl⟩, fun n => ⟨n, le_rfl, rfl⟩⟩

def sampleManager : SessionManager.State 4 AeadEngine.packetEngine :=
  (TrafficPort.holding AeadEngine.packetEngine fun _ => none).sessions

theorem managers_agree_sample : ∃ m n,
    let a := (SessionArbiter.endpoint AeadEngine.packetEngine).loop (.init _, Client.start sampleCalls)
      (steady (SessionArbiter.sampleIn 0)) m
    let b := (SessionManager.endpoint 4 AeadEngine.packetEngine).loop
      (SessionManager.rst _ sampleManager, Client.start sampleCalls)
      (steady ⟨false, default, false, default, false, ((), ())⟩) n
    Client.Finished a.2 ∧ Client.Finished b.2 ∧ a.2.got = b.2.got :=
  managers_agree (AeadEngine.timed Chacha20Block.timed Poly1305Fixed96.timed) sampleManager sampleCalls
    (steady_fair _) (steady_fair _)

end ZedSecure
