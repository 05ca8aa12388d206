import ZedSecure.Rtl.KpkeEngines
import ZedSecure.Spec.PolyJobs

/-! How a control uses the bridge: a list of operations, some of them commands of the bridge, and which of them wait for
room only. -/

namespace ZedSecure

open Clocked

namespace PolyBridge

/-- The memory when the bridge was last handed to the control, and the commands accepted since. -/
def Log.shared (p : System) (mine : Bool) (x : In) (port : PolyPort) (l : Log) : Log :=
  if mine then Log.record p (.tick x) l else ⟨(p.shared mine x port).ram.mem, []⟩

/-- `before` is what is issued before an operation since another unit was at work. -/
structure Script (Op : Type) where
  next : Op → Option Op
  mine : Op → Bool
  overlapped : Op → Bool
  command : Op → In
  before : Op → List Job

/-- Where a control is in its list. -/
inductive Place (Op : Type) where
  | free | start (o : Op) | wait (o : Op)

namespace Script

variable {Op : Type} (c : Script Op)

def job (o : Op) : Job := Job.ofIn (c.command o)

/-- The commands up to an operation since another unit was at work. -/
def phase (o : Op) : List Job := c.before o ++ [c.job o]

def follow (o : Op) : Place Op :=
  match c.next o with
  | some o' => .start o'
  | none => .free

/-- What ends the wait for a command. -/
def finishes (p : System) (o : Op) : Bool :=
  if c.overlapped o then PolyBridge.ready p.ctrl p.core.ctrl.done else PolyBridge.done p.ctrl

/-- Commands that are not waited for are followed by one that does not read their result; others by another unit. -/
structure Sound : Prop where
  starts : ∀ o, (c.command o).start = c.mine o
  slot : ∀ o, (c.job o).sd.toNat < 12
  apart : ∀ o, ∀ j ∈ (c.before o).getLast?, ¬(c.job o).Reads j.sd
  chained : ∀ o, c.overlapped o = true → c.mine o = true ∧
    ∃ o', c.next o = some o' ∧ c.mine o' = true ∧ c.before o' = c.phase o
  handed : ∀ o o', c.overlapped o = false → c.next o = some o' → c.mine o' = true → c.mine o = false ∧ c.before o' = []

end Script

end PolyBridge

namespace Reencrypt

open PolyBridge (Script Place Log Job)

def job (o : Op) : Job := Job.ofIn (bridgeIn (.start o))

def script : Script Op where
  next := Op.next
  mine := fun o => o.resource = .bridge
  overlapped := Op.overlapped
  command := fun o => bridgeIn (.start o)
  before
    | .NT1 => [job .NT0]
    | .VP1 => [job .VP0]
    | _ => []

def St.place : St → Place Op
  | .start o => .start o
  | .wait o => .wait o
  | _ => .free

def recorded : Design (Engine × Log) EngineIn :=
  Engine.design.withLog fun
    | e, .reset, _ => ⟨e.poly.ram.mem, []⟩
    | e, .tick i, l => l.shared e.poly (bridgeOp e.st) (bridgeIn e.st) i.port

end Reencrypt

namespace Decrypt

open PolyBridge (Script Place Log Job)

def job (o : Op) : Job := Job.ofIn (bridgeIn (.start o))

def script : Script Op where
  next := Op.next
  mine := Op.onBridge
  overlapped := Op.overlapped
  command := fun o => bridgeIn (.start o)
  before
    | .N1 => [job .N0]
    | .B0 => [job .N0, job .N1]
    | .B1 => [job .N0, job .N1, job .B0]
    | _ => []

def St.place : St → Place Op
  | .start o => .start o
  | .wait o => .wait o
  | _ => .free

def recorded : Design (Engine × Log) EngineIn :=
  Engine.design.withLog fun
    | e, .reset, _ => ⟨e.poly.ram.mem, []⟩
    | e, .tick i, l => l.shared e.poly (bridgeOp e.st) (bridgeIn e.st) i.port

end Decrypt

end ZedSecure
