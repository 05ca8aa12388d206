import ZedSecure.Clocked.Handshakes
import ZedSecure.Proofs.TrafficEdges
import ZedSecure.Proofs.WindowRuns
import ZedSecure.Rtl.CompleteTop

/-! The two AXI4-Lite ports of the complete top as ports that take beats, do register writes and answer, and
what it means that no transfer is lost or done twice on them. -/

namespace ZedSecure

open Clocked

namespace DecapsFrontend

variable {w : ℕ}

/-- What the words of the port hold. `REG_MEM_DATA` is no register but a window. -/
def registers (f : State w) (a : BitVec 8) : BitVec 32 :=
  if a = REG_SLOT then f.decapSlot.setWidth 32
  else if a = REG_SESSION then f.decapSessionId
  else if a = REG_MEM_REGION then f.region.setWidth 32
  else if a = REG_MEM_ADDR then f.memAddr.setWidth 32
  else 0

def mask (w : ℕ) (a : BitVec 8) : BitVec 32 :=
  if a = REG_SLOT then (BitVec.allOnes w).setWidth 32
  else if a = REG_SESSION then BitVec.allOnes 32
  else if a = REG_MEM_REGION then (BitVec.allOnes 2).setWidth 32
  else if a = REG_MEM_ADDR then (BitVec.allOnes 12).setWidth 32
  else 0

/-- What changes the words: a register write, and a word of the window that has been read. -/
inductive Change where
  | write (beat : BitVec 8 × BitVec 32 × BitVec 4)
  | loaded

/-- The address of the window goes on. -/
def advance (F : BitVec 8 → BitVec 32) : BitVec 8 → BitVec 32 :=
  Function.update F REG_MEM_ADDR ((F REG_MEM_ADDR + 1) &&& (BitVec.allOnes 12).setWidth 32)

/-- The window takes whole words only, and goes on with each. -/
def Change.apply (w : ℕ) (F : BitVec 8 → BitVec 32) : Change → BitVec 8 → BitVec 32
  | .write (a, x, strobe) =>
    if a = REG_MEM_DATA then if strobe = 15 then advance F else F else putWord (mask w) F (a, x, strobe)
  | .loaded => advance F

end DecapsFrontend

namespace CompleteTop

variable {n : ℕ} {aead : EngineIn → EngineOut} {κ : Type} {dp : Datapath} {H : HashUnit} {E : StartDone aead κ}

section Ports

/-- The traffic port. Its ready outputs do not look at the reset. -/
def trafficPort : Port (State n dp H E) (In κ) (BitVec 9) (BitVec 32 × BitVec 4) where
  aw s i := beat i.a.awvalid (TrafficFrontend.awready s.traffic) i.a.awaddr
  w s i := beat i.a.wvalid (TrafficFrontend.wready s.traffic) (i.a.wdata, i.a.wstrb)
  write s _ := beat (rstSync s) s.traffic.writeCommit (s.traffic.awaddrQ, s.traffic.wdataQ, s.traffic.wstrbQ)
  bvalid s := s.traffic.bvalid
  b s i := beat s.traffic.bvalid i.a.bready ()
  ar s i := beat i.a.arvalid (TrafficFrontend.arready s.traffic) ()
  rvalid s := s.traffic.rvalid
  r s i := beat s.traffic.rvalid i.a.rready ()

/-- The ML-KEM port. Its ready outputs are low during the core's reset. -/
def kemPort : Port (State n dp H E) (In κ) (BitVec 8) (BitVec 32 × BitVec 4) where
  aw s i := beat i.m.awvalid (rstSync s && DecapsFrontend.awready s.core.front) i.m.awaddr
  w s i := beat i.m.wvalid (rstSync s && DecapsFrontend.wready s.core.front) (i.m.wdata, i.m.wstrb)
  write s _ := beat (rstSync s) (DecapsFrontend.commits s.core.front)
    (s.core.front.awaddrQ, s.core.front.wdataQ, s.core.front.wstrbQ)
  bvalid s := s.core.front.bvalid
  b s i := beat s.core.front.bvalid i.m.bready ()
  ar s i := beat i.m.arvalid (rstSync s && DecapsFrontend.arready s.core.front) ()
  rvalid s := s.core.front.rvalid
  r s i := beat s.core.front.rvalid i.m.rready ()

/-- The changes of the ML-KEM registers: the writes, and the words of the window that are read. -/
def changes (s : State n dp H E) (i : In κ) : List DecapsFrontend.Change :=
  (kemPort.write s i).map .write ++
    if rstSync s && DecapsFrontend.answersRead s.core.front s.core.mem then [.loaded] else []

/-- Whole words written to the window, with their region and address. -/
def stored (s : State n dp H E) (_ : In κ) : List (BitVec 2 × BitVec 12 × BitVec 32) :=
  if rstSync s && DecapsFrontend.stores s.core.front then
    [(s.core.front.region, s.core.front.memAddr, s.core.front.wdataQ)] else []

/-- The word on its way to the memory. -/
def storing (s : State n dp H E) : List (BitVec 2 × BitVec 12 × BitVec 32) :=
  if s.core.front.memValid && s.core.front.memWe then
    [(s.core.front.region, s.core.front.memAccessAddr, s.core.front.wdataQ)] else []

end Ports

section Transfers

/-- The reset is low and the clock has run: the core holds its reset values, and so does the traffic port. -/
def released (s : State n dp H E) : State n dp H E := { rst s with traffic := TrafficFrontend.reset s.traffic }

/-- All that is accepted on the two ports is used once, in order, and answered once. -/
structure Transfers (D : Design (State n dp H E) (In κ)) (s : State n dp H E) (is : List (In κ)) : Prop where
  traffic : trafficPort.Exact D s is
  kem : kemPort.Exact D s is
  trafficRegisters : TrafficFrontend.registers (D.after s is).traffic =
    (D.ticks trafficPort.write s is).foldl (putWord (TrafficFrontend.mask n)) 0
  kemRegisters : DecapsFrontend.registers (D.after s is).core.front =
    (D.ticks changes s is).foldl (DecapsFrontend.Change.apply (slotWidth n)) 0
  /-- Each stored word is written to the memory, in the cycle after. -/
  window : D.ticks stored s is = D.ticks (fun s _ => storing s) s is ++ storing (D.after s is)

/-- The masters of the traffic port wait for the core's reset, and on the ML-KEM port no write to the window or
its address falls on the edges at which a read of the window begins or ends. -/
def Apart (s : State n dp H E) (i : In κ) : Prop :=
  (rstSync s = false → trafficPort.aw s i = [] ∧ trafficPort.w s i = [] ∧ trafficPort.ar s i = []) ∧
    (DecapsFrontend.loads s.core.front i.m = true → DecapsFrontend.stores s.core.front = false) ∧
    (DecapsFrontend.answersRead s.core.front s.core.mem = true →
      DecapsFrontend.stores s.core.front = false ∧ MemoryWindow.moves s.core.front = false)

instance decidableApart (s : State n dp H E) (i : In κ) : Decidable (Apart s i) := by
  unfold Apart
  infer_instance

end Transfers

end CompleteTop

end ZedSecure
