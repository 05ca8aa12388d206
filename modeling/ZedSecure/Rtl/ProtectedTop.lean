import ZedSecure.Rtl.DecapsEngine
import ZedSecure.Rtl.DecapsFrontend
import ZedSecure.Rtl.SessionManager

/-! `secure_channel_material_bram_core` and
`mlkem_secure_channel_fault_protected_indexed_axi_top`: the handshake state machine with its
checks around the decapsulation engine, the shared hash engine and the session table. -/

namespace ZedSecure

open Clocked

/-- The pins of the shared hash engine in one cycle. -/
structure HashIn where
  start : Bool
  job : HashJob
  sessionId : BitVec 32
  skRdata : BitVec 32
  ctRdata : BitVec 32

structure HashOut where
  busy : Bool
  done : Bool
  error : Bool
  digest : BitVec 576
  skAddr : BitVec 9
  ctAddr : BitVec 8
  poly : PolyPort

/-- `mlkem_shared_hash_engine`; all its outputs are functions of its registers. -/
structure HashUnit where
  σ : Type
  rst : σ → σ
  next : σ → HashIn → σ
  out : σ → HashOut

namespace MaterialCore

variable {n : ℕ} {aead : EngineIn → EngineOut} {κ : Type} (E : StartDone aead κ)

structure State (n : ℕ) {aead : EngineIn → EngineOut} {κ : Type} (E : StartDone aead κ) where
  pending : Bool
  accepted : Bool
  installDone : Bool
  slotQ : BitVec (slotWidth n)
  sessionQ : BitVec 32
  materialQ : BitVec 576
  sessions : SessionManager.State n E

/-- The pins of one cycle. -/
structure In (n : ℕ) (κ : Type) where
  install : Bool
  slot : BitVec (slotWidth n)
  sessionId : BitVec 32
  material : BitVec 576
  reqValid : Bool
  req : Request n
  rspReady : Bool
  engine : κ

variable {E}

def rst (s : State n E) : State n E :=
  { pending := false, accepted := false, installDone := false, slotQ := 0, sessionQ := 0
    materialQ := 0, sessions := SessionManager.rst E s.sessions }

/-- The 72 bytes of material as a configuration of the table. -/
def materialConfig (slot : BitVec (slotWidth n)) (sessionId : BitVec 32) (material : BitVec 576) :
    Config n :=
  { slot := slot, valid := true, sessionId := sessionId
    txKey := slice material 288 256, rxKey := slice material 0 256
    txPrefix := slice material 544 32, rxPrefix := slice material 256 32 }

/-- The pins of the session manager. -/
def sessionsIn (s : State n E) (i : In n κ) : SessionManager.In n κ :=
  { cfgWrite := s.pending, cfg := materialConfig s.slotQ s.sessionQ s.materialQ
    reqValid := i.reqValid, req := i.req, rspReady := i.rspReady, engine := i.engine }

def reqReady (s : State n E) (i : In n κ) : Bool :=
  SessionManager.reqReady s.sessions (sessionsIn s i)

/-- The install request is taken over at this edge. -/
def latches (s : State n E) (i : In n κ) : Bool := i.install && !s.pending && !s.accepted

def next (s : State n E) (i : In n κ) : State n E :=
  let f := { s with installDone := false, sessions := SessionManager.next s.sessions (sessionsIn s i) }
  let f := if latches s i then
    { f with pending := true, slotQ := i.slot, sessionQ := i.sessionId, materialQ := i.material }
    else f
  let f := if s.pending && SessionManager.cfgReady s.sessions then
    { f with pending := false, accepted := true } else f
  if s.accepted && s.sessions.cfgDone then { f with accepted := false, installDone := true } else f

end MaterialCore

namespace ProtectedTop

inductive St where
  | idle | dStart | dWait | tGuard | tStart | tWait | kGuard | kStart | kWait | cGuard | cStart
  | cWait | report
  deriving DecidableEq

/-- The six fault inputs: hash command, secret, transcript, material, hash completion and
response valid. -/
structure FaultInject where
  hashCommand : Bool
  secret : Bool
  transcript : Bool
  material : Bool
  hashDone : Bool
  rspValid : Bool
  deriving DecidableEq

def FaultInject.none : FaultInject := ⟨false, false, false, false, false, false⟩

/-- The pins of one cycle, and the AEAD engine's timing. -/
structure In (n : ℕ) (κ : Type) where
  axi : AxiIn 8
  fault : FaultInject
  reqValid : Bool
  req : Request n
  rspReady : Bool
  engine : κ
  deriving DecidableEq

variable {n : ℕ} {aead : EngineIn → EngineOut} {κ : Type}

@[ext]
structure State (n : ℕ) (dp : Datapath) (H : HashUnit) {aead : EngineIn → EngineOut} {κ : Type}
    (E : StartDone aead κ) where
  state : St
  prevState : St
  ssA : BitVec 256
  ssB : BitVec 256
  transcriptA : BitVec 256
  transcriptB : BitVec 256
  materialA : BitVec 576
  materialB : BitVec 576
  faultDetected : Bool
  faultCode : BitVec 8
  hashIndex : BitVec 5
  stageTimer : BitVec 20
  outstanding : Bool
  ssMatch : Bool
  transcriptMatch : Bool
  materialMatch : Bool
  front : DecapsFrontend.State (slotWidth n)
  mem : DecapsMemory.State
  dec : DecapsEngine.State dp
  hash : H.σ
  channel : MaterialCore.State n E

variable {dp : Datapath} {H : HashUnit} {E : StartDone aead κ}

/-- Every register; the memories have no reset. -/
def rst (s : State n dp H E) : State n dp H E :=
  { state := .idle, prevState := .idle, ssA := 0, ssB := ~~~0, transcriptA := 0, transcriptB := ~~~0
    materialA := 0, materialB := ~~~0, faultDetected := false, faultCode := 0, hashIndex := 0
    stageTimer := 0, outstanding := false, ssMatch := false, transcriptMatch := false
    materialMatch := false, front := DecapsFrontend.reset, mem := s.mem
    dec := DecapsEngine.rst s.dec, hash := H.rst s.hash, channel := MaterialCore.rst s.channel }

def expectedHash (index : BitVec 5) : BitVec 3 :=
  if index = 0 then 0
  else if index = 1 then 1
  else if 2 ≤ index ∧ index ≤ 6 then 4
  else if 7 ≤ index ∧ index ≤ 10 then 3
  else if index = 11 then 2
  else if index = 12 then 5
  else 6

def F_SEQUENCE : BitVec 8 := 0x01
def F_HASH : BitVec 8 := 0x02
def F_SECRET : BitVec 8 := 0x04
def F_TRANSCRIPT : BitVec 8 := 0x08
def F_MATERIAL : BitVec 8 := 0x10
def F_TIMEOUT : BitVec 8 := 0x20
def F_OUTPUT : BitVec 8 := 0x40

def hashOut (s : State n dp H E) : HashOut := H.out s.hash

/-- The hash completion as the handshake sees it. -/
def hdoneCtl (s : State n dp H E) (i : In n κ) : Bool := (hashOut s).done && !i.fault.hashDone

def decIn (s : State n dp H E) (i : In n κ) : DecapsEngine.In :=
  { start := s.state = .dStart, hashDone := hdoneCtl s i, hashError := (hashOut s).error
    hashDigest := (hashOut s).digest, skRdata := s.mem.skRdata, ctRdata := s.mem.ctRdata
    polyRdata := s.mem.polyRdata }

def decOut (s : State n dp H E) (i : In n κ) : DatapathOut := DecapsEngine.datapathOut s.dec (decIn s i)

/-- `hs_req` -/
def hsReq (s : State n dp H E) : Bool :=
  match s.state with
  | .tStart => !(s.faultDetected || !s.ssMatch)
  | .kStart => !(s.faultDetected || !s.transcriptMatch)
  | _ => DecapsEngine.hashStart s.dec

/-- The requested job, before the command fault. -/
def hashReq (s : State n dp H E) (i : In n κ) : HashJob :=
  match s.state with
  | .tStart => { HashJob.zero with command := 5 }
  | .kStart => { HashJob.zero with command := 6, data0 := s.ssA, data1 := s.transcriptA }
  | _ => DecapsEngine.hashJob s.dec (decOut s i)

/-- The job at the hash engine. -/
def hashJob (s : State n dp H E) (i : In n κ) : HashJob :=
  let job := hashReq s i
  { job with command := if i.fault.hashCommand then job.command ^^^ 1 else job.command }

def hashIn (s : State n dp H E) (i : In n κ) : HashIn :=
  ⟨hsReq s, hashJob s i, s.front.decapSessionId, s.mem.skRdata, s.mem.ctRdata⟩

def memPorts (s : State n dp H E) (i : In n κ) : DecapsMemory.Ports :=
  let h := hashOut s
  let o := decOut s i
  let p := DecapsEngine.polyPort s.dec o
  { skWe := false, skAddr := if h.busy then h.skAddr else DecapsEngine.skAddr s.dec o, skWdata := 0
    ctWe := false, ctAddr := if h.busy then h.ctAddr else DecapsEngine.ctAddr s.dec o, ctWdata := 0
    polyWe := h.poly.we || p.we, polyAddr := if h.poly.we then h.poly.addr else p.addr
    polyWdata := if h.poly.we then h.poly.wdata else p.wdata }

/-- `install_req` -/
def installReq (s : State n dp H E) : Bool :=
  s.state = .cStart && !s.faultDetected && s.materialMatch && s.hashIndex == 14

def finalDone (s : State n dp H E) : Bool := s.state = .report

def finalFail (s : State n dp H E) : Bool := DecapsEngine.fail s.dec || s.faultDetected

def channelIn (s : State n dp H E) (i : In n κ) : MaterialCore.In n κ :=
  { install := installReq s, slot := s.front.decapSlot, sessionId := s.front.decapSessionId
    material := s.materialA, reqValid := i.reqValid, req := i.req, rspReady := i.rspReady
    engine := i.engine }

def reqReady (s : State n dp H E) (i : In n κ) : Bool := MaterialCore.reqReady s.channel (channelIn s i)

def rawRspValid (s : State n dp H E) : Bool := s.channel.sessions.rspValid

/-- `mon_rsp_valid` -/
def monRspValid (s : State n dp H E) (i : In n κ) : Bool := rawRspValid s || i.fault.rspValid

/-- The response as it leaves the top, with `rsp_valid_o`. -/
def rspOut (s : State n dp H E) (i : In n κ) : Bool × Response n :=
  let raw := s.channel.sessions.rsp
  (monRspValid s i && s.outstanding,
    { raw with
      authOk := raw.authOk && s.outstanding && !s.faultDetected
      error := raw.error || (s.faultDetected && monRspValid s i)
      data := if s.faultDetected then 0 else raw.data })

/-- `launch` is taken: a handshake begins. -/
def launches (s : State n dp H E) : Bool := s.state = .idle && s.front.decapStart

section Watch

variable (maxStage : ℕ)

/-- The four conditions that raise a fault in any state. -/
def expires (s : State n dp H E) : Bool := maxStage - 1 ≤ s.stageTimer.toNat

def outOfSequence (s : State n dp H E) (i : In n κ) : Bool :=
  hsReq s && (14 ≤ s.hashIndex || (hashJob s i).command != expectedHash s.hashIndex)

def hashFails (s : State n dp H E) : Bool := (hashOut s).done && (hashOut s).error

def unexpectedRsp (s : State n dp H E) (i : In n κ) : Bool := monRspValid s i && !s.outstanding

/-- The assignments before the state machine's: match registers, timer and monitors. The fault
code collects what a sequence of nonblocking assignments leaves, the last one made. -/
def watch (s : State n dp H E) (i : In n κ) : State n dp H E :=
  let f := { s with
    prevState := s.state
    ssMatch := s.ssA == ~~~s.ssB
    transcriptMatch := s.transcriptA == ~~~s.transcriptB
    materialMatch := s.materialA == ~~~s.materialB
    stageTimer := if s.state ≠ s.prevState then 0
      else if s.state ≠ .idle ∧ s.state ≠ .report then s.stageTimer + 1 else s.stageTimer }
  let flag (f : State n dp H E) (code : BitVec 8) : State n dp H E :=
    { f with faultDetected := true, faultCode := s.faultCode ||| code }
  let f := if expires maxStage s then { flag f F_TIMEOUT with state := .report } else f
  let f := if hsReq s then
    { if outOfSequence s i then flag f F_SEQUENCE else f with hashIndex := s.hashIndex + 1 } else f
  let f := if hashFails s then flag f F_HASH else f
  let f := if i.reqValid && reqReady s i then { f with outstanding := true } else f
  let f := if unexpectedRsp s i then flag f F_OUTPUT else f
  if rawRspValid s && i.rspReady && s.outstanding then { f with outstanding := false } else f

end Watch

/-- `x ^ {0, fault}` -/
def flip {w : ℕ} (x : BitVec w) (fault : Bool) : BitVec w := if fault then x ^^^ 1#w else x

/-- The state machine's assignments, over those of `watch`. -/
def machine (s f : State n dp H E) (i : In n κ) : State n dp H E :=
  let flag (f : State n dp H E) (code : BitVec 8) : State n dp H E :=
    { f with faultDetected := true, faultCode := s.faultCode ||| code }
  match s.state with
  | .idle =>
    if s.front.decapStart then
      { f with state := .dStart, faultDetected := false, faultCode := 0, hashIndex := 0
               stageTimer := 0 }
    else f
  | .dStart => { f with state := .dWait }
  | .dWait =>
    if DecapsEngine.done s.dec then
      let f := { f with ssA := flip s.dec.sharedSecret i.fault.secret, ssB := ~~~s.dec.sharedSecret }
      let f := if s.hashIndex ≠ 12 then flag f F_SEQUENCE else f
      { f with state := if DecapsEngine.fail s.dec then .report else .tGuard }
    else f
  | .tGuard => { f with state := .tStart }
  | .tStart =>
    if s.faultDetected || !s.ssMatch then { flag f F_SECRET with state := .report }
    else { f with state := .tWait }
  | .tWait =>
    if hdoneCtl s i then
      let digest := slice (hashOut s).digest 0 256
      { f with transcriptA := flip digest i.fault.transcript, transcriptB := ~~~digest
               state := .kGuard }
    else f
  | .kGuard => { f with state := .kStart }
  | .kStart =>
    if s.faultDetected || !s.transcriptMatch then { flag f F_TRANSCRIPT with state := .report }
    else { f with state := .kWait }
  | .kWait =>
    if hdoneCtl s i then
      let digest := (hashOut s).digest
      { f with materialA := flip digest i.fault.material, materialB := ~~~digest, state := .cGuard }
    else f
  | .cGuard => { f with state := .cStart }
  | .cStart =>
    if s.faultDetected || !s.materialMatch || s.hashIndex != 14 then
      { flag f F_MATERIAL with state := .report }
    else { f with state := .cWait }
  | .cWait => if s.channel.installDone then { f with state := .report } else f
  | .report => { f with state := .idle }

/-- The top after a clock edge: its own registers, and the five blocks on the pins `s` gives
them. -/
def next (maxStage : ℕ) (s : State n dp H E) (i : In n κ) : State n dp H E :=
  { machine s (watch maxStage s i) i with
    front := DecapsFrontend.next s.front i.axi ⟨s.state ≠ .idle, finalDone s, finalFail s⟩ s.mem
    mem := DecapsMemory.next s.mem (DecapsFrontend.hostPort s.front) (memPorts s i)
    dec := DecapsEngine.next s.dec (decIn s i)
    hash := H.next s.hash (hashIn s i)
    channel := MaterialCore.next s.channel (channelIn s i) }

/-- `MAX_STAGE_CYCLES` is `maxStage`. -/
def design (n maxStage : ℕ) (dp : Datapath) (H : HashUnit) (E : StartDone aead κ) :
    Design (State n dp H E) (In n κ) := ⟨rst, next maxStage⟩

end ProtectedTop

end ZedSecure
