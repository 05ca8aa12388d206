import ZedSecure.Rtl.DecapsEngine
import ZedSecure.Rtl.PolyBridge

/-! The arithmetic of `mlkem512_kpke_decrypt_engine` and `mlkem512_kpke_reencrypt_shared_engine`: a control takes its
operations one after the other and may give the bridge a second command while the first one is computed. The other units
are inputs: their done pulses, and the port to the polynomials while the bridge is not in use. -/

namespace ZedSecure

open Clocked

namespace PolyBridge

/-- The bridge under a control that gives the memory to one unit at a time. -/
def System.shared (p : System) (mine : Bool) (x : In) (port : PolyPort) : System :=
  if mine then p.next x else { p.next x with ram := p.ram.next port }

end PolyBridge

namespace Reencrypt

structure Engine where
  st : St
  poly : PolyBridge.System

structure EngineIn where
  start : Bool
  frommsg : Bool
  hash : Bool
  addsub : Bool
  compare : Bool
  port : PolyPort

def bridgeOp (st : St) : Bool :=
  match st.op with
  | some o => o.resource = .bridge
  | none => false

/-- `bs` -/
def bridgeStart : St → Bool
  | .start o => o.resource = .bridge
  | _ => false

def bridgeIn (st : St) : PolyBridge.In :=
  let job := bridgeJob st.op
  ⟨bridgeStart st, job.cmd, job.a, job.b, job.d⟩

namespace Engine

def dones (e : Engine) (i : EngineIn) : Dones where
  frommsg := i.frommsg
  hash := i.hash
  bridgeReady := PolyBridge.ready e.poly.ctrl e.poly.core.ctrl.done
  bridge := PolyBridge.done e.poly.ctrl
  addsub := i.addsub
  compare := i.compare

def rst (e : Engine) : Engine := ⟨.idle, e.poly.rst⟩

def next (e : Engine) (i : EngineIn) : Engine where
  st := e.st.next i.start (e.dones i)
  poly := e.poly.shared (bridgeOp e.st) (bridgeIn e.st) i.port

def design : Design Engine EngineIn := ⟨rst, next⟩

end Engine

end Reencrypt

namespace Decrypt

/-- The operations in the order they run, each with a start state and a wait state. -/
inductive Op where
  | U | N0 | N1 | B0 | B1 | A | I | S | M
  deriving DecidableEq

def Op.next : Op → Option Op
  | .U => some .N0 | .N0 => some .N1 | .N1 => some .B0 | .B0 => some .B1 | .B1 => some .A | .A => some .I
  | .I => some .S | .S => some .M | .M => none

def Op.onBridge : Op → Bool
  | .N0 | .N1 | .B0 | .B1 | .I => true
  | .U | .A | .S | .M => false

/-- The next command is issued as soon as the bridge has room; only the last of the run waits for everything to be
stored. -/
def Op.overlapped (o : Op) : Bool := o = .N0 || o = .N1 || o = .B0

inductive St where
  | idle | start (o : Op) | wait (o : Op) | done
  deriving DecidableEq

def St.op : St → Option Op
  | .start o | .wait o => some o
  | _ => none

def bridgeJob : Option Op → Reencrypt.BridgeJob
  | some .N0 => ⟨0, 0, 0, 5⟩
  | some .N1 => ⟨0, 1, 0, 6⟩
  | some .B0 => ⟨2, 3, 5, 7⟩
  | some .B1 => ⟨2, 4, 6, 8⟩
  | some .I => ⟨1, 9, 0, 10⟩
  | _ => ⟨0, 0, 0, 0⟩

structure Dones where
  unpack : Bool
  bridgeReady : Bool
  bridge : Bool
  addsub : Bool
  tomsg : Bool

def Op.finished (o : Op) (d : Dones) : Bool :=
  match o with
  | .U => d.unpack
  | .N0 | .N1 | .B0 => d.bridgeReady
  | .B1 | .I => d.bridge
  | .A | .S => d.addsub
  | .M => d.tomsg

def St.next (st : St) (start : Bool) (d : Dones) : St :=
  match st with
  | .idle => if start then .start .U else .idle
  | .start o => .wait o
  | .wait o => if o.finished d then (match o.next with | some o' => .start o' | none => .done) else .wait o
  | .done => .idle

structure Engine where
  st : St
  forwardCount : BitVec 2
  multiplyCount : BitVec 2
  inverseSeen : Bool
  poly : PolyBridge.System

structure EngineIn where
  start : Bool
  unpack : Bool
  addsub : Bool
  tomsg : Bool
  port : PolyPort

def bridgeOp (st : St) : Bool :=
  match st.op with
  | some o => o.onBridge
  | none => false

/-- `bstart` -/
def bridgeStart : St → Bool
  | .start o => o.onBridge
  | _ => false

def bridgeIn (st : St) : PolyBridge.In :=
  let job := bridgeJob st.op
  ⟨bridgeStart st, job.cmd, job.a, job.b, job.d⟩

namespace Engine

def dones (e : Engine) (i : EngineIn) : Dones where
  unpack := i.unpack
  bridgeReady := PolyBridge.ready e.poly.ctrl e.poly.core.ctrl.done
  bridge := PolyBridge.done e.poly.ctrl
  addsub := i.addsub
  tomsg := i.tomsg

def operationFault (e : Engine) : Bool := e.forwardCount ≠ 2 || e.multiplyCount ≠ 2 || !e.inverseSeen

/-- `message_o`, which is withheld on a fault. -/
def message (e : Engine) (msg : BitVec 256) : BitVec 256 := if e.operationFault then 0 else msg

def rst (e : Engine) : Engine := ⟨.idle, 0, 0, false, e.poly.rst⟩

def next (e : Engine) (i : EngineIn) : Engine where
  st := e.st.next i.start (e.dones i)
  forwardCount :=
    if e.st = .idle ∧ i.start then 0
    else if e.st = .start .N0 ∨ e.st = .start .N1 then e.forwardCount + 1
    else e.forwardCount
  multiplyCount :=
    if e.st = .idle ∧ i.start then 0
    else if e.st = .start .B0 ∨ e.st = .start .B1 then e.multiplyCount + 1
    else e.multiplyCount
  inverseSeen := if e.st = .idle ∧ i.start then false else if e.st = .start .I then true else e.inverseSeen
  poly := e.poly.shared (bridgeOp e.st) (bridgeIn e.st) i.port

def design : Design Engine EngineIn := ⟨rst, next⟩

end Engine

end Decrypt

end ZedSecure
