import ZedSecure.Rtl.PolyAccelerator
import ZedSecure.Rtl.PolyRam

/-! `mlkem_poly_bridge_controller`: polynomials go from their slots into the arithmetic unit and back. One command
computes while the result before it is stored and the operands after it are loaded. -/

namespace ZedSecure

open Clocked

namespace PolyBridge

inductive St where
  | idle | ldA | ldADrain | ldB | ldBDrain | ldDone | go | coreGo | ovWait | st | stDrain | flip | done
  deriving DecidableEq

structure State where
  state : St
  index : ℕ
  pipeIndex : ℕ
  pipeValid : Bool
  set : Bool
  pend : Bool
  pendCmd : BitVec 2
  pendSa : BitVec 4
  pendSb : BitVec 4
  pendSd : BitVec 4
  ld : Bool
  ldCmd : BitVec 2
  ldSd : BitVec 4
  run : Bool
  coreFin : Bool
  cmd : BitVec 2
  sd : BitVec 4
  stq : Bool
  stCmd : BitVec 2
  stSd : BitVec 4

structure In where
  start : Bool
  command : BitVec 2
  srcASlot : BitVec 4
  srcBSlot : BitVec 4
  dstSlot : BitVec 4

def reset : State := ⟨.idle, 0, 0, false, false, false, 0, 0, 0, 0, false, 0, 0, false, false, 0, 0, false, 0, 0⟩

def loading (s : State) : Bool := s.state = .ldA || s.state = .ldADrain || s.state = .ldB || s.state = .ldBDrain

def storing (s : State) : Bool := s.state = .st || s.state = .stDrain

def busy (s : State) : Bool := s.state ≠ .idle || s.pend

/-- Room for one more command; not once the last one in the unit is done, for then the flush is on its way. -/
def ready (s : State) (coreDone : Bool) : Bool :=
  !s.pend && !s.ld && (s.state = .idle || (s.run && !s.coreFin && !coreDone && s.state ≠ .flip))

def done (s : State) : Bool := s.state = .done

/-- `core_bank` -/
def coreBank (s : State) : BitVec 2 :=
  if s.state = .ldB || s.state = .ldBDrain then 1
  else if storing s then if s.stCmd = 2 then 2 else 0
  else 0

/-- The pins of the unit. -/
def coreIn (s : State) (rdata : BitVec 16) : PolyAccelerator.In where
  start := s.state = .coreGo
  command := s.cmd
  set := s.set
  hostWe := s.pipeValid && loading s
  hostBank := coreBank s
  hostAddr := BitVec.ofNat 8 (if storing s then s.index else s.pipeIndex)
  hostWdata := rdata

def polyPort (s : State) (coreR : BitVec 16) : PolyPort where
  we := s.pipeValid && storing s
  addr :=
    if s.state = .ldA then PolyRam.slotAddr s.pendSa s.index
    else if s.state = .ldB then PolyRam.slotAddr s.pendSb s.index
    else if storing s then PolyRam.slotAddr s.stSd s.pipeIndex
    else 0
  wdata := coreR

def next (s : State) (i : In) (coreDone : Bool) : State :=
  let f :=
    if i.start && ready s coreDone then
      { s with
        pend := true, pendCmd := i.command, pendSa := i.srcASlot, pendSb := i.srcBSlot, pendSd := i.dstSlot }
    else s
  let f := if coreDone then { f with coreFin := true } else f
  match s.state with
  | .idle => if s.pend then { f with index := 0, pipeIndex := 0, pipeValid := false, state := .ldA } else f
  | .ldA =>
    let f := { f with pipeValid := true, pipeIndex := s.index }
    if s.index = 255 then { f with state := .ldADrain } else { f with index := s.index + 1 }
  | .ldADrain => { f with pipeValid := false, index := 0, state := if s.pendCmd = 2 then .ldB else .ldDone }
  | .ldB =>
    let f := { f with pipeValid := true, pipeIndex := s.index }
    if s.index = 255 then { f with state := .ldBDrain } else { f with index := s.index + 1 }
  | .ldBDrain => { f with pipeValid := false, index := 0, state := .ldDone }
  | .ldDone =>
    { f with
      ld := true, ldCmd := s.pendCmd, ldSd := s.pendSd, pend := false, state := if s.run then .ovWait else .go }
  | .go =>
    { f with
      set := !s.set, cmd := s.ldCmd, sd := s.ldSd, run := true, ld := false, coreFin := false, stq := s.run
      stCmd := s.cmd, stSd := s.sd, index := 0, pipeIndex := 0, pipeValid := false, state := .coreGo }
  | .coreGo => { f with state := if s.stq then .st else .ovWait }
  | .st =>
    let f := { f with pipeValid := true, pipeIndex := s.index }
    if s.index = 255 then { f with state := .stDrain } else { f with index := s.index + 1 }
  | .stDrain => { f with pipeValid := false, index := 0, stq := false, state := if s.run then .ovWait else .done }
  | .ovWait =>
    if s.pend && !s.ld then { f with index := 0, pipeIndex := 0, pipeValid := false, state := .ldA }
    else if s.coreFin then { f with state := if s.ld then .go else .flip }
    else f
  | .flip =>
    { f with
      set := !s.set, stq := true, stCmd := s.cmd, stSd := s.sd, run := false, index := 0, pipeIndex := 0
      pipeValid := false, state := .st }
  | .done => { f with state := .idle }

/-- The controller with its unit and the memory. -/
structure System where
  ctrl : State
  core : PolyAccelerator.State
  ram : PolyRam

namespace System

def rst (p : System) : System := ⟨reset, PolyAccelerator.rst p.core, p.ram⟩

def next (p : System) (i : In) : System where
  ctrl := PolyBridge.next p.ctrl i p.core.ctrl.done
  core := PolyAccelerator.next p.core (coreIn p.ctrl p.ram.rdata)
  ram := p.ram.next (polyPort p.ctrl (PolyAccelerator.hostRdata p.core (coreBank p.ctrl)))

end System

def design : Design System In := ⟨System.rst, System.next⟩

end PolyBridge

end ZedSecure
