import ZedSecure.Rtl.SessionArbiter
import ZedSecure.Rtl.SessionKdf
import ZedSecure.Rtl.TrafficFrontend

/-! `aead_axi_lite_wrapper`: one AXI4-Lite port over the four-session arbiter and the key derivation.
One latch holds the configuration that waits for the arbiter, whether a direct command or a finished
derivation put it there. -/

namespace ZedSecure

open Clocked

namespace AxiLiteWrapper

open SessionArbiter (Port PortRequest PortResponse)

def REG_VERSION : BitVec 10 := 0x000
def REG_CONTROL : BitVec 10 := 0x004
def REG_STATUS : BitVec 10 := 0x008
def REG_REQUEST_SLOT : BitVec 10 := 0x00c
def REG_DATA_LEN : BitVec 10 := 0x010
def REG_COUNTER_LO : BitVec 10 := 0x014
def REG_COUNTER_HI : BitVec 10 := 0x018
def REG_RSP_COUNTER_LO : BitVec 10 := 0x01c
def REG_RSP_COUNTER_HI : BitVec 10 := 0x020
def REG_CFG_SESSION_ID : BitVec 10 := 0x028
def REG_CFG_CONTROL : BitVec 10 := 0x02c
def REG_TX_KEY_BASE : BitVec 10 := 0x040
def REG_RX_KEY_BASE : BitVec 10 := 0x060
def REG_TX_PREFIX : BitVec 10 := 0x080
def REG_RX_PREFIX : BitVec 10 := 0x084
def REG_INPUT_DATA_BASE : BitVec 10 := 0x100
def REG_INPUT_TAG_BASE : BitVec 10 := 0x140
def REG_OUTPUT_DATA_BASE : BitVec 10 := 0x180
def REG_OUTPUT_TAG_BASE : BitVec 10 := 0x1c0
def REG_KDF_CONTROL : BitVec 10 := 0x200
def REG_SHARED_SECRET : BitVec 10 := 0x204
def REG_TRANSCRIPT_HASH : BitVec 10 := 0x224

/-- The registers of the AXI channels. -/
structure Channel where
  awHeld : Bool
  wHeld : Bool
  awaddrHeld : BitVec 10
  wdataHeld : BitVec 32
  wstrbHeld : BitVec 4
  writeCommit : Bool
  bvalid : Bool
  rvalid : Bool
  rdata : BitVec 32

/-- The registers the host writes. -/
structure Registers where
  requestSlotReg : Port
  dataLenReg : BitVec 8
  counterReg : BitVec 64
  cfgSessionIdReg : BitVec 32
  txKeyWords : ℕ → BitVec 32
  rxKeyWords : ℕ → BitVec 32
  txPrefixReg : BitVec 32
  rxPrefixReg : BitVec 32
  inputDataWords : ℕ → BitVec 32
  inputTagWords : ℕ → BitVec 32
  sharedSecretWords : ℕ → BitVec 32
  transcriptHashWords : ℕ → BitVec 32

/-- The request on its way to the arbiter and the response kept from it. -/
structure Exchange where
  reqIssuePending : Bool
  reqInflight : Bool
  reqSlotLatched : Port
  reqLatched : PortRequest
  responseDone : Bool
  response : PortResponse

/-- The configuration that waits for the arbiter, and the operands of a derivation with its start. -/
structure Latch where
  cfgPending : Bool
  cfgLatched : Config 4
  kdfStart : Bool
  /-- `kdf_shared_secret` and `kdf_transcript_hash` -/
  kdfIn : KdfIn

variable {aead : EngineIn → EngineOut} {κ κp : Type} (E : StartDone aead κ)
  (P : StartDone Fips202.keccakF κp)

structure State {aead : EngineIn → EngineOut} {κ κp : Type} (E : StartDone aead κ)
    (P : StartDone Fips202.keccakF κp) where
  channel : Channel
  regs : Registers
  exchange : Exchange
  latch : Latch
  arbiter : SessionArbiter.State E
  kdf : SessionKdf.State P

/-- The pins of the port, and the timing of the engine and of the permutation. -/
structure In (κ κp : Type) where
  axi : AxiIn 10
  engine : κ
  permutation : κp

/-- Every register at its reset value: `rst_sync_n` reaches all of them. -/
def State.init : State E P :=
  { channel := ⟨false, false, 0, 0, 0, false, false, false, 0⟩
    regs := { requestSlotReg := SessionArbiter.port 0, dataLenReg := 0, counterReg := 0, cfgSessionIdReg := 0
              txKeyWords := fun _ => 0, rxKeyWords := fun _ => 0, txPrefixReg := 0, rxPrefixReg := 0
              inputDataWords := fun _ => 0, inputTagWords := fun _ => 0, sharedSecretWords := fun _ => 0
              transcriptHashWords := fun _ => 0 }
    exchange := ⟨false, false, SessionArbiter.port 0, ⟨false, 0, 0, 0, 0⟩, false, ⟨false, false, 0, 0, 0⟩⟩
    latch := ⟨false, ⟨SessionArbiter.port 0, false, 0, 0, 0, 0, 0⟩, false, ⟨0, 0⟩⟩
    arbiter := .init E, kdf := .init P }

namespace Channel

def awready (c : Channel) : Bool := !c.awHeld && !c.bvalid

def wready (c : Channel) : Bool := !c.wHeld && !c.bvalid

def arready (c : Channel) : Bool := !c.rvalid

/-- The channels' edge; `readData` is the read multiplexer. -/
def next (c : Channel) (i : AxiIn 10) (readData : BitVec 32) : Channel :=
  let f := { c with writeCommit := false }
  let f := if i.awvalid && awready c then { f with awaddrHeld := i.awaddr, awHeld := true } else f
  let f := if i.wvalid && wready c then
    { f with wdataHeld := i.wdata, wstrbHeld := i.wstrb, wHeld := true } else f
  let f := if c.awHeld && c.wHeld && !c.bvalid then
      { f with writeCommit := true, awHeld := false, wHeld := false, bvalid := true }
    else if c.bvalid && i.bready then { f with bvalid := false }
    else f
  if i.arvalid && arready c then { f with rdata := readData, rvalid := true }
  else if c.rvalid && i.rready then { f with rvalid := false }
  else f

/-- A held bit under its strobe: bit `n` of the written word. -/
def bit (c : Channel) (n : ℕ) : Bool := c.wstrbHeld.getLsbD (n / 8) && c.wdataHeld.getLsbD n

end Channel

/-- The address of word `k` of a register array. -/
def wordReg (base : BitVec 10) (k : ℕ) : BitVec 10 := base + BitVec.ofNat 10 (4 * k)

/-- The write that takes effect in this cycle, over the registers `r`. -/
def Registers.write (r : Registers) (c : Channel) : Registers :=
  let merged (old : BitVec 32) : BitVec 32 := mergeBytes old c.wdataHeld c.wstrbHeld
  let array (base : BitVec 10) (count : ℕ) (word : ℕ → BitVec 32) (k : ℕ) : BitVec 32 :=
    if k < count ∧ c.awaddrHeld = wordReg base k then merged (word k) else word k
  if c.awaddrHeld = REG_REQUEST_SLOT then
    { r with requestSlotReg := (merged (r.requestSlotReg.setWidth 32)).setWidth _ }
  else if c.awaddrHeld = REG_DATA_LEN then { r with dataLenReg := (merged (r.dataLenReg.setWidth 32)).setWidth 8 }
  else if c.awaddrHeld = REG_COUNTER_LO then
    { r with counterReg := patch r.counterReg 0 (merged (slice r.counterReg 0 32)) }
  else if c.awaddrHeld = REG_COUNTER_HI then
    { r with counterReg := patch r.counterReg 32 (merged (slice r.counterReg 32 32)) }
  else if c.awaddrHeld = REG_CFG_SESSION_ID then { r with cfgSessionIdReg := merged r.cfgSessionIdReg }
  else if c.awaddrHeld = REG_TX_PREFIX then { r with txPrefixReg := merged r.txPrefixReg }
  else if c.awaddrHeld = REG_RX_PREFIX then { r with rxPrefixReg := merged r.rxPrefixReg }
  else
    { r with
      txKeyWords := array REG_TX_KEY_BASE 8 r.txKeyWords
      rxKeyWords := array REG_RX_KEY_BASE 8 r.rxKeyWords
      sharedSecretWords := array REG_SHARED_SECRET 8 r.sharedSecretWords
      transcriptHashWords := array REG_TRANSCRIPT_HASH 8 r.transcriptHashWords
      inputDataWords := array REG_INPUT_DATA_BASE 16 r.inputDataWords
      inputTagWords := array REG_INPUT_TAG_BASE 4 r.inputTagWords }

/-- The request in the registers. -/
def Registers.request (r : Registers) (decrypt : Bool) : PortRequest :=
  ⟨decrypt, r.dataLenReg, r.counterReg, TrafficFrontend.packWords 16 r.inputDataWords,
    TrafficFrontend.packWords 4 r.inputTagWords⟩

/-- The operands of a derivation in the registers. -/
def Registers.kdfOperands (r : Registers) : KdfIn :=
  ⟨TrafficFrontend.packWords 8 r.sharedSecretWords, TrafficFrontend.packWords 8 r.transcriptHashWords⟩

/-- The configuration a finished derivation brings: TX is ZB to PC, RX is PC to ZB. -/
def Registers.kdfConfig (r : Registers) (material : BitVec 576) : Config 4 :=
  { slot := r.requestSlotReg, valid := true, sessionId := r.cfgSessionIdReg
    txKey := SessionKdf.zbToPcKey material, rxKey := SessionKdf.pcToZbKey material
    txPrefix := SessionKdf.zbToPcPrefix material, rxPrefix := SessionKdf.pcToZbPrefix material }

/-- The configuration a `REG_CFG_CONTROL` write of `data` brings. -/
def Registers.directConfig (r : Registers) (data : BitVec 32) : Config 4 :=
  { slot := slice data 0 2, valid := data.getLsbD 8, sessionId := r.cfgSessionIdReg
    txKey := TrafficFrontend.packWords 8 r.txKeyWords, rxKey := TrafficFrontend.packWords 8 r.rxKeyWords
    txPrefix := r.txPrefixReg, rxPrefix := r.rxPrefixReg }

variable {E P}

/-- Word `k` of `k < count` array words, or what the other arrays give. -/
def readArray (base : BitVec 10) (count : ℕ) (word : ℕ → BitVec 32) (araddr : BitVec 10)
    (other : BitVec 32) : BitVec 32 :=
  match (List.range count).find? fun k => araddr = wordReg base k with
  | some k => word k
  | none => other

/-- `read_data_mux` -/
def readDataMux (s : State E P) (araddr : BitVec 10) : BitVec 32 :=
  let x := s.exchange
  let r := s.regs
  if araddr = REG_VERSION then 0x00010000
  else if araddr = REG_STATUS then
    BitVec.ofNat 32 (x.reqInflight.toNat + 2 * x.responseDone.toNat + 4 * x.response.authOk.toNat +
      8 * x.response.error.toNat + 16 * s.latch.cfgPending.toNat + 32 * x.reqIssuePending.toNat +
      64 * (SessionKdf.busy s.kdf).toNat)
  else if araddr = REG_REQUEST_SLOT then r.requestSlotReg.setWidth 32
  else if araddr = REG_DATA_LEN then r.dataLenReg.setWidth 32
  else if araddr = REG_COUNTER_LO then slice r.counterReg 0 32
  else if araddr = REG_COUNTER_HI then slice r.counterReg 32 32
  else if araddr = REG_RSP_COUNTER_LO then slice x.response.counter 0 32
  else if araddr = REG_RSP_COUNTER_HI then slice x.response.counter 32 32
  else if araddr = REG_CFG_SESSION_ID then r.cfgSessionIdReg
  else if araddr = REG_TX_PREFIX then r.txPrefixReg
  else if araddr = REG_RX_PREFIX then r.rxPrefixReg
  else
    readArray REG_TX_KEY_BASE 8 r.txKeyWords araddr <|
    readArray REG_RX_KEY_BASE 8 r.rxKeyWords araddr <|
    readArray REG_SHARED_SECRET 8 r.sharedSecretWords araddr <|
    readArray REG_TRANSCRIPT_HASH 8 r.transcriptHashWords araddr <|
    readArray REG_INPUT_DATA_BASE 16 r.inputDataWords araddr <|
    readArray REG_OUTPUT_DATA_BASE 16 (fun k => slice x.response.data (32 * k) 32) araddr <|
    readArray REG_INPUT_TAG_BASE 4 r.inputTagWords araddr <|
    readArray REG_OUTPUT_TAG_BASE 4 (fun k => slice x.response.tag (32 * k) 32) araddr 0

/-- A write to `addr` takes effect in this cycle. -/
def writes (s : State E P) (addr : BitVec 10) : Bool := s.channel.writeCommit && s.channel.awaddrHeld == addr

/-- The pins of `u_arbiter`: every request and response goes through the latched slot's port. -/
def arbiterIn (s : State E P) (engine : κ) : SessionArbiter.In κ :=
  let x := s.exchange
  { cfgWrite := s.latch.cfgPending, cfg := s.latch.cfgLatched
    reqValid := fun p => x.reqIssuePending && p = x.reqSlotLatched
    req := fun p => if x.reqIssuePending && p = x.reqSlotLatched then x.reqLatched else ⟨false, 0, 0, 0, 0⟩
    rspReady := fun p => x.reqInflight && p = x.reqSlotLatched, engine := engine }

/-- The arbiter takes the pending configuration at this edge. -/
def takesConfig (s : State E P) : Bool := s.latch.cfgPending && SessionArbiter.cfgReady s.arbiter

/-- A direct command is accepted. -/
def acceptsDirect (s : State E P) : Bool :=
  writes s REG_CFG_CONTROL && s.channel.bit 31 && !s.latch.cfgPending

/-- The start of a derivation is accepted. -/
def acceptsKdf (s : State E P) : Bool :=
  writes s REG_KDF_CONTROL && s.channel.bit 0 && !SessionKdf.busy s.kdf && !s.latch.cfgPending

/-- A request is accepted. -/
def acceptsRequest (s : State E P) : Bool :=
  writes s REG_CONTROL && s.channel.bit 0 && !s.exchange.reqInflight && !s.exchange.reqIssuePending

/-- The assignments to the latch, the later ones over the earlier. -/
def nextLatch (s : State E P) : Latch :=
  let f := { s.latch with kdfStart := false }
  let f := if takesConfig s then { f with cfgPending := false } else f
  let f := if s.kdf.done then { f with cfgLatched := s.regs.kdfConfig s.kdf.material, cfgPending := true } else f
  let f := if acceptsDirect s then
    { f with cfgLatched := s.regs.directConfig s.channel.wdataHeld, cfgPending := true } else f
  if acceptsKdf s then { f with kdfIn := s.regs.kdfOperands, kdfStart := true } else f

/-- The assignments to the request and its response. -/
def nextExchange (s : State E P) : Exchange :=
  let x := s.exchange
  let f := x
  let f := if x.reqIssuePending && SessionArbiter.reqReady s.arbiter x.reqSlotLatched then
    { f with reqIssuePending := false } else f
  let f := if x.reqInflight && s.arbiter.rspValid x.reqSlotLatched then
    { f with response := s.arbiter.rsp x.reqSlotLatched, responseDone := true, reqInflight := false } else f
  let f := if writes s REG_CONTROL && s.channel.bit 8 then { f with responseDone := false } else f
  if acceptsRequest s then
    { f with
      reqSlotLatched := s.regs.requestSlotReg, reqLatched := s.regs.request (s.channel.wdataHeld.getLsbD 1)
      reqIssuePending := true, reqInflight := true, responseDone := false
      response := { f.response with authOk := false, error := false } }
  else f

/-- One clock edge: the right-hand sides read `s`, the registers before it. -/
def next (s : State E P) (i : In κ κp) : State E P :=
  { channel := s.channel.next i.axi (readDataMux s i.axi.araddr)
    regs := if s.channel.writeCommit then s.regs.write s.channel else s.regs
    exchange := nextExchange s
    latch := nextLatch s
    arbiter := SessionArbiter.next s.arbiter (arbiterIn s i.engine)
    kdf := SessionKdf.next s.kdf (if s.latch.kdfStart then some s.latch.kdfIn else none) i.permutation }

variable (E P)

def design : Design (State E P) (In κ κp) := ⟨fun _ => .init E P, next⟩

end AxiLiteWrapper

end ZedSecure
