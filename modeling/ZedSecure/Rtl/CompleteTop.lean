import ZedSecure.Rtl.ProtectedTop
import ZedSecure.Rtl.TrafficFrontend

/-! `mlkem_secure_channel_complete_axi_top`: the protected top with the traffic port on its
request channel. The core's reset falls with the reset pin and is released two edges after
it; the traffic port samples that reset at the clock edge. -/

namespace ZedSecure

open Clocked

namespace CompleteTop

/-- The pins of one cycle, and the AEAD engine's timing. -/
structure In (κ : Type) where
  m : AxiIn 8
  a : AxiIn 9
  fault : ProtectedTop.FaultInject
  engine : κ

variable {n : ℕ} {aead : EngineIn → EngineOut} {κ : Type}

structure State (n : ℕ) (dp : Datapath) (H : HashUnit) {aead : EngineIn → EngineOut} {κ : Type}
    (E : StartDone aead κ) where
  rstSyncQ : BitVec 2
  core : ProtectedTop.State n dp H E
  traffic : TrafficFrontend.State n

variable {dp : Datapath} {H : HashUnit} {E : StartDone aead κ}

/-- `rst_sync_n` -/
def rstSync (s : State n dp H E) : Bool := s.rstSyncQ.getLsbD 1

def rst (s : State n dp H E) : State n dp H E :=
  { s with rstSyncQ := 0, core := ProtectedTop.rst s.core }

/-- The pins of the core. -/
def coreIn (s : State n dp H E) (i : In κ) : ProtectedTop.In n κ :=
  { axi := i.m, fault := i.fault, reqValid := s.traffic.pending, req := s.traffic.reqQ
    rspReady := s.traffic.inflight, engine := i.engine }

/-- What the traffic port sees of the core. -/
def coreOut (s : State n dp H E) (i : In κ) : TrafficFrontend.CoreOut n :=
  let c := coreIn s i
  { reqReady := ProtectedTop.reqReady s.core c, rspValid := (ProtectedTop.rspOut s.core c).1
    rsp := (ProtectedTop.rspOut s.core c).2, faultDetected := s.core.faultDetected
    faultCode := s.core.faultCode }

/-- An edge with the reset pin high. Until the synchroniser has filled, the registers stay at
their reset values and only the memories see the edge. -/
def next (maxStage : ℕ) (s : State n dp H E) (i : In κ) : State n dp H E :=
  let core := ProtectedTop.next maxStage s.core (coreIn s i)
  { rstSyncQ := BitVec.ofBool (s.rstSyncQ.getLsbD 0) ++ 1#1
    core := if rstSync s then core else ProtectedTop.rst core
    traffic := if rstSync s then TrafficFrontend.next s.traffic i.a (coreOut s i)
      else TrafficFrontend.reset s.traffic }

def design (n maxStage : ℕ) (dp : Datapath) (H : HashUnit) (E : StartDone aead κ) :
    Design (State n dp H E) (In κ) := ⟨rst, next maxStage⟩

end CompleteTop

end ZedSecure
