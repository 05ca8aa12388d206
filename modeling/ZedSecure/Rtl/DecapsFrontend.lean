import ZedSecure.Clocked.Words
import Mathlib.Logic.Function.Basic

/-! `mlkem_decaps_memory` and `mlkem_decaps_axi_lite_frontend`: the storage of a
decapsulation and the AXI4-Lite port that loads it, starts a run and reads its status. -/

namespace ZedSecure

open Clocked

namespace DecapsMemory

/-- The host port of one cycle. -/
structure Host where
  valid : Bool
  we : Bool
  region : BitVec 2
  addr : BitVec 12
  wdata : BitVec 32

/-- The engine ports of one cycle. -/
structure Ports where
  skWe : Bool
  skAddr : BitVec 9
  skWdata : BitVec 32
  ctWe : Bool
  ctAddr : BitVec 8
  ctWdata : BitVec 32
  polyWe : Bool
  polyAddr : BitVec 12
  polyWdata : BitVec 16

/-- Three memories and the read registers of their ports; there is no reset. -/
structure State where
  skMem : BitVec 9 → BitVec 32
  ctMem : BitVec 8 → BitVec 32
  polyMem : BitVec 12 → BitVec 16
  hostSkQ : BitVec 32
  hostCtQ : BitVec 32
  hostPolyQ : BitVec 16
  hostRegionQ : BitVec 2
  hostValidQ : Bool
  skRdata : BitVec 32
  ctRdata : BitVec 32
  polyRdata : BitVec 16

def hostWrites (h : Host) (region : BitVec 2) : Bool := h.valid && h.we && h.region == region

/-- An array after a write port's edge. -/
def write {a d : ℕ} (mem : BitVec a → BitVec d) (we : Bool) (addr : BitVec a) (x : BitVec d) :
    BitVec a → BitVec d :=
  if we then Function.update mem addr x else mem

def next (s : State) (h : Host) (p : Ports) : State :=
  { skMem := write (write s.skMem (hostWrites h 0) (h.addr.setWidth 9) h.wdata) p.skWe p.skAddr
      p.skWdata
    ctMem := write (write s.ctMem (hostWrites h 1) (h.addr.setWidth 8) h.wdata) p.ctWe p.ctAddr
      p.ctWdata
    -- the array has 3072 words; a write above them goes nowhere
    polyMem := write (write s.polyMem (hostWrites h 2 && h.addr.toNat < 3072) h.addr
      (h.wdata.setWidth 16)) (p.polyWe && p.polyAddr.toNat < 3072) p.polyAddr p.polyWdata
    hostSkQ := s.skMem (h.addr.setWidth 9)
    hostCtQ := s.ctMem (h.addr.setWidth 8)
    hostPolyQ := s.polyMem h.addr
    hostRegionQ := h.region
    hostValidQ := h.valid
    skRdata := s.skMem p.skAddr
    ctRdata := s.ctMem p.ctAddr
    polyRdata := s.polyMem p.polyAddr }

def hostRdata (s : State) : BitVec 32 :=
  if s.hostRegionQ = 0 then s.hostSkQ
  else if s.hostRegionQ = 1 then s.hostCtQ
  else if s.hostRegionQ = 2 then s.hostPolyQ.setWidth 32
  else 0#32

end DecapsMemory

/-- The master's side of an AXI4-Lite port with `aw` address bits. -/
structure AxiIn (aw : ℕ) where
  awaddr : BitVec aw
  awvalid : Bool
  wdata : BitVec 32
  wstrb : BitVec 4
  wvalid : Bool
  bready : Bool
  araddr : BitVec aw
  arvalid : Bool
  rready : Bool
  deriving DecidableEq

/-- Byte lanes with their strobe low keep the old value. -/
def mergeBytes (old new : BitVec 32) (strobe : BitVec 4) : BitVec 32 :=
  (List.range 4).foldl (fun merged lane =>
    if strobe.getLsbD lane then patch merged (8 * lane) (slice new (8 * lane) 8) else merged) old

namespace DecapsFrontend

def REG_VERSION : BitVec 8 := 0
def REG_CONTROL : BitVec 8 := 4
def REG_STATUS : BitVec 8 := 8
def REG_SLOT : BitVec 8 := 12
def REG_SESSION : BitVec 8 := 16
def REG_MEM_REGION : BitVec 8 := 32
def REG_MEM_ADDR : BitVec 8 := 36
def REG_MEM_DATA : BitVec 8 := 40

def RESP_OKAY : BitVec 2 := 0
def RESP_SLVERR : BitVec 2 := 2

/-- `w` is `SLOT_WIDTH`. -/
structure State (w : ℕ) where
  awHold : Bool
  wHold : Bool
  awaddrQ : BitVec 8
  wdataQ : BitVec 32
  wstrbQ : BitVec 4
  region : BitVec 2
  memAddr : BitVec 12
  memAccessAddr : BitVec 12
  memValid : Bool
  memWe : Bool
  readMemPending : Bool
  bvalid : Bool
  bresp : BitVec 2
  rvalid : Bool
  rdata : BitVec 32
  decapStart : Bool
  decapSlot : BitVec w
  decapSessionId : BitVec 32
  doneLatched : Bool
  failLatched : Bool

variable {w : ℕ}

/-- Every register the reset reaches, which is all of them. -/
def reset : State w :=
  ⟨false, false, 0, 0, 0, 0, 0, 0, false, false, false, false, RESP_OKAY, false, 0, false, 0, 0,
    false, false⟩

def awready (s : State w) : Bool := !s.awHold && !s.bvalid

def wready (s : State w) : Bool := !s.wHold && !s.bvalid

def arready (s : State w) : Bool := !s.rvalid && !s.readMemPending

/-- Address and data are both held and the write takes effect at this edge. -/
def commits (s : State w) : Bool := s.awHold && s.wHold && !s.bvalid

/-- What the frontend sees of the handshake: `decap_busy_i`, `decap_done_i`, `decap_fail_i`. -/
structure Status where
  busy : Bool
  done : Bool
  fail : Bool

/-- The register write of a commit, over the assignments `f` made before it. -/
def commit (s f : State w) (busy : Bool) : State w :=
  let f := { f with bresp := RESP_OKAY }
  if s.awaddrQ = REG_CONTROL then
    let f := if s.wstrbQ.getLsbD 1 && s.wdataQ.getLsbD 8 then
      { f with doneLatched := false, failLatched := false } else f
    if s.wstrbQ.getLsbD 0 && s.wdataQ.getLsbD 0 && !busy then { f with decapStart := true } else f
  else if s.awaddrQ = REG_SLOT then
    if s.wstrbQ.getLsbD 0 then { f with decapSlot := s.wdataQ.setWidth w } else f
  else if s.awaddrQ = REG_SESSION then
    { f with decapSessionId := mergeBytes s.decapSessionId s.wdataQ s.wstrbQ }
  else if s.awaddrQ = REG_MEM_REGION then
    if s.wstrbQ.getLsbD 0 then { f with region := slice s.wdataQ 0 2 } else f
  else if s.awaddrQ = REG_MEM_ADDR then
    let f := if s.wstrbQ.getLsbD 0 then
      { f with memAddr := patch f.memAddr 0 (slice s.wdataQ 0 8) } else f
    if s.wstrbQ.getLsbD 1 then { f with memAddr := patch f.memAddr 8 (slice s.wdataQ 8 4) } else f
  else if s.awaddrQ = REG_MEM_DATA then
    if s.wstrbQ = 15 then
      { f with memAccessAddr := s.memAddr, memValid := true, memWe := true,
               memAddr := s.memAddr + 1 }
    else if s.wstrbQ ≠ 0 then { f with bresp := RESP_SLVERR } else f
  else f

/-- The value a read of a register other than `REG_MEM_DATA` returns. -/
def readReg (s : State w) (busy : Bool) (araddr : BitVec 8) : BitVec 32 :=
  if araddr = REG_VERSION then 0x00020000
  else if araddr = REG_STATUS then
    BitVec.ofNat 32 (8 * s.failLatched.toNat + 4 * s.doneLatched.toNat + 2 * busy.toNat +
      s.readMemPending.toNat)
  else if araddr = REG_SLOT then s.decapSlot.setWidth 32
  else if araddr = REG_SESSION then s.decapSessionId
  else if araddr = REG_MEM_REGION then s.region.setWidth 32
  else if araddr = REG_MEM_ADDR then s.memAddr.setWidth 32
  else 0

/-- The write channels. -/
def nextWrite (s f : State w) (i : AxiIn 8) (busy : Bool) : State w :=
  let f := if i.awvalid && awready s then { f with awaddrQ := i.awaddr, awHold := true } else f
  let f := if i.wvalid && wready s then
    { f with wdataQ := i.wdata, wstrbQ := i.wstrb, wHold := true } else f
  if commits s then
    { commit s f busy with awHold := false, wHold := false, bvalid := true }
  else if s.bvalid && i.bready then { f with bvalid := false }
  else f

/-- The read channels, over the assignments of the write channels. -/
def nextRead (s f : State w) (i : AxiIn 8) (busy : Bool) (m : DecapsMemory.State) : State w :=
  let f := if i.arvalid && arready s then
      if i.araddr = REG_MEM_DATA then
        { f with memAccessAddr := s.memAddr, memValid := true, memWe := false,
                 readMemPending := true }
      else { f with rdata := readReg s busy i.araddr, rvalid := true }
    else f
  let f := if s.readMemPending && m.hostValidQ then
      { f with rdata := DecapsMemory.hostRdata m, rvalid := true, readMemPending := false,
               memAddr := s.memAddr + 1 }
    else f
  if s.rvalid && i.rready then { f with rvalid := false } else f

def next (s : State w) (i : AxiIn 8) (st : Status) (m : DecapsMemory.State) : State w :=
  let f := { s with memValid := false, memWe := false, decapStart := false }
  let f := if st.done then { f with doneLatched := true, failLatched := st.fail } else f
  nextRead s (nextWrite s f i st.busy) i st.busy m

/-- The host port the frontend drives. -/
def hostPort (s : State w) : DecapsMemory.Host :=
  ⟨s.memValid, s.memWe, s.region, s.memAccessAddr, s.wdataQ⟩

end DecapsFrontend

end ZedSecure
