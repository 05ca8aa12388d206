import ZedSecure.Rtl.TrafficFrontend

/-! The traffic port on the session table with no handshake under way and no fault latched: what
the PS reads and writes while packets are sealed and opened. An access is the edge at which it
takes effect. -/

namespace ZedSecure

open Clocked

namespace TrafficPort

variable {n : ℕ} {aead : EngineIn → EngineOut} {κ : Type} (E : StartDone aead κ)

structure State (n : ℕ) {aead : EngineIn → EngineOut} {κ : Type} (E : StartDone aead κ) where
  front : TrafficFrontend.State n
  sessions : SessionManager.State n E

variable {E}

/-- The pins of the session manager. -/
def sessionsIn (s : State n E) (k : κ) : SessionManager.In n κ :=
  { cfgWrite := false, cfg := default, reqValid := s.front.pending, req := s.front.reqQ
    rspReady := s.front.inflight, engine := k }

/-- What the port sees of the session manager. -/
def coreOut (s : State n E) (k : κ) : TrafficFrontend.CoreOut n :=
  { reqReady := SessionManager.reqReady s.sessions (sessionsIn s k), rspValid := s.sessions.rspValid
    rsp := s.sessions.rsp, faultDetected := false, faultCode := 0 }

/-- The bus at rest. -/
def rest : AxiIn 9 := ⟨0, false, 0, 0, false, false, 0, false, false⟩

/-- A clock edge without an access. -/
def tick (s : State n E) (k : κ) : State n E :=
  { front := TrafficFrontend.next s.front rest (coreOut s k)
    sessions := SessionManager.next s.sessions (sessionsIn s k) }

/-- The edge at which a write of a whole word takes effect. -/
def write (s : State n E) (offset : BitVec 9) (value : BitVec 32) (k : κ) : State n E :=
  tick { s with front := { s.front with
    awaddrQ := offset, wdataQ := value, wstrbQ := 0xf, writeCommit := true } } k

/-- The word a read at this edge brings. -/
def read (s : State n E) (offset : BitVec 9) (k : κ) : BitVec 32 :=
  TrafficFrontend.readMux s.front (coreOut s k) offset

end TrafficPort

end ZedSecure
