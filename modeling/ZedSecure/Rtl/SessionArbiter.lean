import ZedSecure.Rtl.SessionManager

/-! `aead_arbiter_4session`: four request ports, each bound to one slot of a register table, and one
engine. A port is picked round-robin, accepted one cycle later, and keeps the engine until its
response is taken. -/

namespace ZedSecure

open Clocked

namespace SessionArbiter

/-- A port number, and the slot it stands for. -/
abbrev Port := BitVec (slotWidth 4)

def port (k : ℕ) : Port := BitVec.ofNat _ k

inductive St where
  | idle | grant | waitEngine | response
  deriving DecidableEq

/-- The slices of the request pins that belong to one port. -/
structure PortRequest where
  decrypt : Bool
  dataLen : BitVec 8
  counter : BitVec 64
  data : BitVec 512
  tag : BitVec 128
  deriving DecidableEq, Inhabited

/-- The slices of the response registers that belong to one port. -/
structure PortResponse where
  authOk : Bool
  error : Bool
  counter : BitVec 64
  data : BitVec 512
  tag : BitVec 128
  deriving DecidableEq, Inhabited

/-- The input pins of one cycle, and the engine's own timing. -/
structure In (κ : Type) where
  cfgWrite : Bool
  cfg : Config 4
  reqValid : Port → Bool
  req : Port → PortRequest
  rspReady : Port → Bool
  engine : κ

/-- The request of port `p` in the words of the session table. -/
def PortRequest.onSlot (q : PortRequest) (p : Port) : Request 4 :=
  ⟨p, q.decrypt, q.dataLen, q.counter, q.data, q.tag⟩

def PortResponse.onSlot (r : PortResponse) (p : Port) : Response 4 :=
  ⟨r.authOk, r.error, p, r.counter, r.data, r.tag⟩

variable {aead : EngineIn → EngineOut} {κ : Type} (E : StartDone aead κ)

structure State {aead : EngineIn → EngineOut} {κ : Type} (E : StartDone aead κ) where
  state : St
  sessionValid : Port → Bool
  session : Port → Session
  lastGrant : Port
  activeSlot : Port
  activeDecrypt : Bool
  activeCounter : BitVec 64
  engineStart : Bool
  engineIn : EngineIn
  rspValid : Port → Bool
  rsp : Port → PortResponse
  engine : E.σ

/-- The values of the reset branch. -/
def State.init : State E :=
  { state := .idle, sessionValid := fun _ => false, session := fun _ => .zero, lastGrant := port 3
    activeSlot := port 0, activeDecrypt := false, activeCounter := 0#64, engineStart := false
    engineIn := .zero, rspValid := fun _ => false, rsp := fun _ => ⟨false, false, 0#64, 0#512, 0#128⟩
    engine := E.init }

def rst (_ : State E) : State E := .init E

variable {E}

/-- The order in which the ports are searched: it begins after the previous winner. -/
def searchOrder (lastGrant : Port) : List Port :=
  if lastGrant = port 0 then [port 1, port 2, port 3, port 0]
  else if lastGrant = port 1 then [port 2, port 3, port 0, port 1]
  else if lastGrant = port 2 then [port 3, port 0, port 1, port 2]
  else [port 0, port 1, port 2, port 3]

/-- `grant_valid` and `grant_slot` -/
def grantSlot (lastGrant : Port) (reqValid : Port → Bool) : Option Port :=
  (searchOrder lastGrant).find? reqValid

def cfgReady (s : State E) : Bool := s.state = .idle

def reqReady (s : State E) (p : Port) : Bool := s.state = .grant && s.activeSlot = p

/-- The edge without the state machine: the engine, and the start pulse that falls. -/
def frame (s : State E) (i : In κ) : State E :=
  { s with
    engineStart := false
    engine := E.next s.engine (if s.engineStart then some s.engineIn else none) i.engine }

/-- One clock edge: the right-hand sides read `s`, the registers before it. -/
def next (s : State E) (i : In κ) : State E :=
  let f := frame s i
  let p := s.activeSlot
  match s.state with
  | .idle =>
    if i.cfgWrite then
      let c := i.cfg
      { f with
        sessionValid := Function.update s.sessionValid c.slot c.valid
        session := Function.update s.session c.slot
          ⟨c.sessionId, c.txKey, c.rxKey, c.txPrefix, c.rxPrefix, 0#64, 0#64⟩ }
    else
      match grantSlot s.lastGrant i.reqValid with
      | some p => { f with activeSlot := p, lastGrant := p, state := .grant }
      | none => f
  | .grant =>
    let q := i.req p
    let e := s.session p
    let f := { f with activeDecrypt := q.decrypt
                      activeCounter := if q.decrypt then q.counter else e.txCounter }
    if s.sessionValid p = false ∨ 64#8 < q.dataLen ∨ (q.decrypt = true ∧ q.counter ≠ e.rxCounter) then
      { f with
        rsp := Function.update s.rsp p
          ⟨false, true, if q.decrypt then q.counter else 0#64, 0#512, 0#128⟩
        rspValid := Function.update s.rspValid p true
        state := .response }
    else
      { f with engineIn := SessionManager.engineOperands e (q.onSlot p), engineStart := true,
               state := .waitEngine }
  | .waitEngine =>
    if E.done s.engine then
      let out := E.result s.engine
      let e := s.session p
      let f := { f with
        rsp := Function.update s.rsp p ⟨out.authOk, !out.authOk, s.activeCounter, out.data, out.tag⟩
        rspValid := Function.update s.rspValid p true
        state := .response }
      if !s.activeDecrypt && out.authOk then
        { f with session := Function.update s.session p { e with txCounter := e.txCounter + 1#64 } }
      else if s.activeDecrypt && out.authOk then
        { f with session := Function.update s.session p { e with rxCounter := e.rxCounter + 1#64 } }
      else f
    else f
  | .response =>
    if i.rspReady p then { f with rspValid := Function.update s.rspValid p false, state := .idle }
    else f

variable (E)

def design : Design (State E) (In κ) := ⟨rst E, next⟩

end SessionArbiter

end ZedSecure
