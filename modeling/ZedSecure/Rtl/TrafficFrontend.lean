import ZedSecure.Rtl.DecapsFrontend
import ZedSecure.Rtl.SessionManager

/-! `aead_traffic_indexed_axi_lite_frontend`: the AXI4-Lite port that hands one packet at a
time to the session table and keeps its answer for the PS. -/

namespace ZedSecure

open Clocked

namespace TrafficFrontend

def REG_VERSION : BitVec 9 := 0x000
def REG_CONTROL : BitVec 9 := 0x004
def REG_STATUS : BitVec 9 := 0x008
def REG_SLOT : BitVec 9 := 0x00c
def REG_LENGTH : BitVec 9 := 0x010
def REG_COUNTER_LO : BitVec 9 := 0x014
def REG_COUNTER_HI : BitVec 9 := 0x018
def REG_RSP_COUNTER_LO : BitVec 9 := 0x01c
def REG_RSP_COUNTER_HI : BitVec 9 := 0x020
def REG_FAULT : BitVec 9 := 0x024
def REG_RSP_SLOT : BitVec 9 := 0x028
def REG_INPUT_DATA : BitVec 9 := 0x100
def REG_INPUT_TAG : BitVec 9 := 0x140
def REG_OUTPUT_DATA : BitVec 9 := 0x180
def REG_OUTPUT_TAG : BitVec 9 := 0x1c0

structure State (n : ℕ) where
  awHold : Bool
  wHold : Bool
  writeCommit : Bool
  awaddrQ : BitVec 9
  wdataQ : BitVec 32
  wstrbQ : BitVec 4
  bvalid : Bool
  rvalid : Bool
  rdata : BitVec 32
  slotReg : BitVec (slotWidth n)
  lengthReg : BitVec 8
  counterReg : BitVec 64
  inputData : ℕ → BitVec 32
  inputTag : ℕ → BitVec 32
  /-- The latched operands, driven to the session table. -/
  reqQ : Request n
  pending : Bool
  inflight : Bool
  doneQ : Bool
  authQ : Bool
  errorQ : Bool
  rspSlotQ : BitVec (slotWidth n)
  rspCounterQ : BitVec 64
  rspDataQ : BitVec 512
  rspTagQ : BitVec 128

/-- What the core drives in one cycle. -/
structure CoreOut (n : ℕ) where
  reqReady : Bool
  rspValid : Bool
  rsp : Response n
  faultDetected : Bool
  faultCode : BitVec 8

variable {n : ℕ}

/-- The synchronous reset; the held address, data and strobe have none. -/
def reset (s : State n) : State n :=
  { awHold := false, wHold := false, writeCommit := false, awaddrQ := s.awaddrQ, wdataQ := s.wdataQ
    wstrbQ := s.wstrbQ, bvalid := false, rvalid := false, rdata := 0, slotReg := 0, lengthReg := 0
    counterReg := 0, inputData := fun _ => 0, inputTag := fun _ => 0, reqQ := ⟨0, false, 0, 0, 0, 0⟩
    pending := false, inflight := false, doneQ := false, authQ := false, errorQ := false
    rspSlotQ := 0, rspCounterQ := 0, rspDataQ := 0, rspTagQ := 0 }

def awready (s : State n) : Bool := !s.awHold && !s.bvalid

def wready (s : State n) : Bool := !s.wHold && !s.bvalid

def arready (s : State n) : Bool := !s.rvalid

/-- The address of word `k` of a register array. -/
def wordReg (base : BitVec 9) (k : ℕ) : BitVec 9 := base + BitVec.ofNat 9 (4 * k)

/-- Word `k` of `k < count` array words, or 0, as the `default` branch of the read mux. -/
def readArray (base : BitVec 9) (count : ℕ) (word : ℕ → BitVec 32) (araddr : BitVec 9)
    (other : BitVec 32) : BitVec 32 :=
  match (List.range count).find? fun k => araddr = wordReg base k with
  | some k => word k
  | none => other

/-- `read_mux` -/
def readMux (s : State n) (c : CoreOut n) (araddr : BitVec 9) : BitVec 32 :=
  if araddr = REG_VERSION then BitVec.ofNat 32 (0x40000 + 256 * (n % 256) + slotWidth n % 256)
  else if araddr = REG_STATUS then
    BitVec.ofNat 32 (s.inflight.toNat + 2 * s.doneQ.toNat + 4 * s.authQ.toNat + 8 * s.errorQ.toNat +
      32 * s.pending.toNat + 64 * c.faultDetected.toNat)
  else if araddr = REG_SLOT then s.slotReg.setWidth 32
  else if araddr = REG_LENGTH then s.lengthReg.setWidth 32
  else if araddr = REG_COUNTER_LO then slice s.counterReg 0 32
  else if araddr = REG_COUNTER_HI then slice s.counterReg 32 32
  else if araddr = REG_RSP_COUNTER_LO then slice s.rspCounterQ 0 32
  else if araddr = REG_RSP_COUNTER_HI then slice s.rspCounterQ 32 32
  else if araddr = REG_FAULT then BitVec.ofNat 32 (256 * c.faultDetected.toNat + c.faultCode.toNat)
  else if araddr = REG_RSP_SLOT then s.rspSlotQ.setWidth 32
  else
    readArray REG_INPUT_DATA 16 s.inputData araddr <|
    readArray REG_OUTPUT_DATA 16 (fun k => slice s.rspDataQ (32 * k) 32) araddr <|
    readArray REG_INPUT_TAG 4 s.inputTag araddr <|
    readArray REG_OUTPUT_TAG 4 (fun k => slice s.rspTagQ (32 * k) 32) araddr 0

/-- `count` words as one vector, word 0 lowest. -/
def packWords (count : ℕ) (word : ℕ → BitVec 32) : BitVec (32 * count) :=
  (List.range count).foldl (fun x k => patch x (32 * k) (word k)) 0

/-- START is taken: no request is pending or in flight. -/
def startsRequest (s : State n) : Bool :=
  s.writeCommit && (s.awaddrQ == REG_CONTROL) && s.wstrbQ.getLsbD 0 && s.wdataQ.getLsbD 0 &&
    !s.pending && !s.inflight

/-- The register write of a commit, over the assignments `f` made before it. -/
def commit (s f : State n) : State n :=
  let merged (old : BitVec 32) : BitVec 32 := mergeBytes old s.wdataQ s.wstrbQ
  if s.awaddrQ = REG_CONTROL then
    let f := if s.wstrbQ.getLsbD 1 && s.wdataQ.getLsbD 8 then { f with doneQ := false } else f
    if s.wstrbQ.getLsbD 0 && s.wdataQ.getLsbD 0 && !s.pending && !s.inflight then
      { f with
        reqQ := ⟨s.slotReg, s.wdataQ.getLsbD 1, s.lengthReg, s.counterReg, packWords 16 s.inputData,
          packWords 4 s.inputTag⟩
        pending := true, inflight := true, doneQ := false, authQ := false, errorQ := false }
    else f
  else if s.awaddrQ = REG_SLOT then
    { f with slotReg := (merged (s.slotReg.setWidth 32)).setWidth _ }
  else if s.awaddrQ = REG_LENGTH then
    { f with lengthReg := (merged (s.lengthReg.setWidth 32)).setWidth 8 }
  else if s.awaddrQ = REG_COUNTER_LO then
    { f with counterReg := patch s.counterReg 0 (merged (slice s.counterReg 0 32)) }
  else if s.awaddrQ = REG_COUNTER_HI then
    { f with counterReg := patch s.counterReg 32 (merged (slice s.counterReg 32 32)) }
  else
    { f with
      inputData := fun k => if k < 16 ∧ s.awaddrQ = wordReg REG_INPUT_DATA k then
        merged (s.inputData k) else s.inputData k
      inputTag := fun k => if k < 4 ∧ s.awaddrQ = wordReg REG_INPUT_TAG k then
        merged (s.inputTag k) else s.inputTag k }

/-- One clock edge with the reset released. -/
def next (s : State n) (i : AxiIn 9) (c : CoreOut n) : State n :=
  let f := { s with writeCommit := false }
  let f := if i.awvalid && awready s then { f with awaddrQ := i.awaddr, awHold := true } else f
  let f := if i.wvalid && wready s then
    { f with wdataQ := i.wdata, wstrbQ := i.wstrb, wHold := true } else f
  let f := if s.awHold && s.wHold && !s.bvalid then
      { f with writeCommit := true, awHold := false, wHold := false, bvalid := true }
    else if s.bvalid && i.bready then { f with bvalid := false }
    else f
  let f := if i.arvalid && arready s then { f with rdata := readMux s c i.araddr, rvalid := true }
    else if s.rvalid && i.rready then { f with rvalid := false }
    else f
  let f := if s.pending && c.reqReady then { f with pending := false } else f
  let f := if s.inflight && c.rspValid then
      { f with rspSlotQ := c.rsp.slot, rspCounterQ := c.rsp.counter, rspDataQ := c.rsp.data
               rspTagQ := c.rsp.tag, authQ := c.rsp.authOk, errorQ := c.rsp.error, doneQ := true
               inflight := false }
    else f
  if s.writeCommit then commit s f else f

end TrafficFrontend

end ZedSecure
