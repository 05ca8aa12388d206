import ZedSecure.Rtl.PolyBridge
import ZedSecure.Spec.PolyLoops

/-! What the bridge is for: commands on the slots of the polynomial memory, one after the other. -/

namespace ZedSecure

open Clocked

namespace PolyBridge

open PolyLoops

/-- A command with its slots. -/
structure Job where
  cmd : BitVec 2
  sa : BitVec 4
  sb : BitVec 4
  sd : BitVec 4

namespace Job

def ofIn (i : In) : Job := ⟨i.command, i.srcASlot, i.srcBSlot, i.dstSlot⟩

/-- The polynomial in a slot. -/
def slotPoly (mem : BitVec 12 → BitVec 16) (slot : BitVec 4) : Coeffs := fun x => mem (PolyRam.slotAddr slot x.toNat)

/-- Command 3 brings its operand back unchanged: the unit multiplies, but the other bank is stored. -/
def result (j : Job) (mem : BitVec 12 → BitVec 16) : Coeffs :=
  if j.cmd = 0 then ntt (slotPoly mem j.sa)
  else if j.cmd = 1 then intt (slotPoly mem j.sa)
  else if j.cmd = 2 then basemul (slotPoly mem j.sa) (slotPoly mem j.sb) fun _ => 0
  else slotPoly mem j.sa

/-- Load, compute, store. -/
def exec (mem : BitVec 12 → BitVec 16) (j : Job) : BitVec 12 → BitVec 16 :=
  PolyRam.fillSlot mem j.sd 256 fun i => j.result mem (BitVec.ofNat 8 i)

def Reads (j : Job) (slot : BitVec 4) : Prop := j.sa = slot ∨ (j.cmd = 2 ∧ j.sb = slot)

instance (j : Job) (slot : BitVec 4) : Decidable (j.Reads slot) :=
  inferInstanceAs (Decidable (j.sa = slot ∨ (j.cmd = 2 ∧ j.sb = slot)))

end Job

/-- The memory at the last reset and the commands accepted since. -/
structure Log where
  mem : BitVec 12 → BitVec 16
  jobs : List Job

namespace Log

def serial (l : Log) : BitVec 12 → BitVec 16 := l.jobs.foldl Job.exec l.mem

/-- The command an edge accepts. -/
def accepted (p : System) (i : In) : Option Job :=
  if i.start && ready p.ctrl p.core.ctrl.done then some (Job.ofIn i) else none

def record (p : System) : Act In → Log → Log
  | .reset, _ => ⟨p.ram.mem, []⟩
  | .tick i, l => ⟨l.mem, l.jobs ++ (accepted p i).toList⟩

/-- A command may come at any moment, if it does not read what the command before it is still to write. -/
def Fits (p : System × Log) (i : In) : Prop :=
  ∀ j ∈ accepted p.1 i, j.sd.toNat < 12 ∧ (p.1.ctrl.state ≠ .idle → ∀ j' ∈ p.2.jobs.getLast?, ¬j.Reads j'.sd)

end Log

/-- The bridge beside its log. -/
def logged : Design (System × Log) In := design.withLog Log.record

end PolyBridge

end ZedSecure
