import ZedSecure.Rtl.CompleteTop
import ZedSecure.Rtl.TrafficPort

/-! The ports of the complete top as the PS drives them, with the fault inputs at zero. An access is
the edge at which it takes effect. -/

namespace ZedSecure

open Clocked

/-- A write of a whole word is about to take effect; the answer to the one before has been taken. -/
def DecapsFrontend.held {w : ℕ} (f : State w) (offset : BitVec 8) (value : BitVec 32) : State w :=
  { f with awHold := true, wHold := true, awaddrQ := offset, wdataQ := value, wstrbQ := 0xf, bvalid := false }

namespace CompletePort

/-- The pins the driver of the traffic port does not hold. -/
structure Pins (κ : Type) where
  m : AxiIn 8
  engine : κ

variable {n : ℕ} {aead : EngineIn → EngineOut} {κ : Type} {dp : Datapath} {H : HashUnit}
  {E : StartDone aead κ}

def pins (k : Pins κ) : CompleteTop.In κ := ⟨k.m, TrafficPort.rest, .none, k.engine⟩

/-- A clock edge without an access. -/
def tick (maxStage : ℕ) (s : CompleteTop.State n dp H E) (k : Pins κ) : CompleteTop.State n dp H E :=
  CompleteTop.next maxStage s (pins k)

/-- A write of a whole word is about to take effect. -/
def hold (s : CompleteTop.State n dp H E) (offset : BitVec 9) (value : BitVec 32) :
    CompleteTop.State n dp H E :=
  { s with traffic := { s.traffic with
    awaddrQ := offset, wdataQ := value, wstrbQ := 0xf, writeCommit := true } }

/-- The word a read at this edge brings. -/
def read (s : CompleteTop.State n dp H E) (offset : BitVec 9) (k : Pins κ) : BitVec 32 :=
  TrafficFrontend.readMux s.traffic (CompleteTop.coreOut s (pins k)) offset

/-- The ML-KEM port at rest. -/
def restKem : AxiIn 8 := ⟨0, false, 0, 0, false, true, 0, false, true⟩

/-- A write to the ML-KEM port is about to take effect. -/
def holdKem (s : CompleteTop.State n dp H E) (offset : BitVec 8) (value : BitVec 32) :
    CompleteTop.State n dp H E :=
  { s with core := { s.core with front := DecapsFrontend.held s.core.front offset value } }

/-- The word a read of the ML-KEM port brings. -/
def readKem (s : CompleteTop.State n dp H E) (offset : BitVec 8) : BitVec 32 :=
  DecapsFrontend.readReg s.core.front (s.core.state ≠ .idle) offset

end CompletePort

end ZedSecure
