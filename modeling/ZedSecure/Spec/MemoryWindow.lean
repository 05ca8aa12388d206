import ZedSecure.Clocked.Atomic
import ZedSecure.Rtl.DecapsFrontend

/-! The ML-KEM port alone: the frontend with its memory. What its memory window is for is an atomic
object, in which every transaction takes effect at one point between its handshakes. -/

namespace ZedSecure

open Clocked

namespace DecapsPort

structure State (w : ℕ) where
  front : DecapsFrontend.State w
  mem : DecapsMemory.State

/-- The pins of one cycle: the master, the handshake, and the engine's side of the memory. -/
structure In where
  axi : AxiIn 8
  status : DecapsFrontend.Status
  ports : DecapsMemory.Ports

variable {w : ℕ}

/-- The memory has no reset. -/
def rst (s : State w) : State w := ⟨DecapsFrontend.reset, s.mem⟩

def next (s : State w) (i : In) : State w :=
  ⟨DecapsFrontend.next s.front i.axi i.status s.mem,
    DecapsMemory.next s.mem (DecapsFrontend.hostPort s.front) i.ports⟩

def design (w : ℕ) : Design (State w) In := ⟨rst, next⟩

end DecapsPort

namespace MemoryWindow

open DecapsFrontend (REG_MEM_REGION REG_MEM_ADDR REG_MEM_DATA RESP_OKAY RESP_SLVERR)
open DecapsMemory (write)

/-- The memories, and the current region and address. -/
structure Window where
  sk : BitVec 9 → BitVec 32
  ct : BitVec 8 → BitVec 32
  poly : BitVec 12 → BitVec 16
  region : BitVec 2
  addr : BitVec 12

namespace Window

/-- The word at the current region and address. -/
def load (W : Window) : BitVec 32 :=
  if W.region = 0 then W.sk (W.addr.setWidth 9)
  else if W.region = 1 then W.ct (W.addr.setWidth 8)
  else if W.region = 2 then (W.poly W.addr).setWidth 32
  else 0#32

/-- A word goes to the current region and address; a polynomial has 16 bits and 3072 places. -/
def store (W : Window) (x : BitVec 32) : Window :=
  { W with
    sk := write W.sk (W.region == 0) (W.addr.setWidth 9) x
    ct := write W.ct (W.region == 1) (W.addr.setWidth 8) x
    poly := write W.poly (W.region == 2 && W.addr.toNat < 3072) W.addr (x.setWidth 16) }

def advance (W : Window) : Window := { W with addr := W.addr + 1 }

/-- The byte lanes of the address register. -/
def seek (W : Window) (x : BitVec 32) (strobe : BitVec 4) : Window :=
  let low := if strobe.getLsbD 0 then patch W.addr 0 (slice x 0 8) else W.addr
  { W with addr := if strobe.getLsbD 1 then patch low 8 (slice x 8 4) else low }

/-- The engine's writes. -/
def engine (W : Window) (p : DecapsMemory.Ports) : Window :=
  { W with
    sk := write W.sk p.skWe p.skAddr p.skWdata
    ct := write W.ct p.ctWe p.ctAddr p.ctWdata
    poly := write W.poly (p.polyWe && p.polyAddr.toNat < 3072) p.polyAddr p.polyWdata }

end Window

/-- A transaction. -/
inductive Request where
  | write (addr : BitVec 8) (data : BitVec 32) (strobe : BitVec 4)
  | read (addr : BitVec 8)

inductive Answer where
  | written (resp : BitVec 2)
  | read (data : BitVec 32)
  deriving DecidableEq

/-- The engine writes, or the port is reset. -/
inductive Own where
  | engine (p : DecapsMemory.Ports)
  | reset

/-- Each transaction at one point. Reads of other registers are not about the window. -/
def apply (W : Window) : Request → Window × Option Answer
  | .write addr x strobe =>
    if addr = REG_MEM_DATA then
      if strobe = 15 then ((W.store x).advance, some (.written RESP_OKAY))
      else (W, some (.written RESP_SLVERR))
    else if addr = REG_MEM_REGION then
      (if strobe.getLsbD 0 then { W with region := slice x 0 2 } else W, some (.written RESP_OKAY))
    else if addr = REG_MEM_ADDR then (W.seek x strobe, some (.written RESP_OKAY))
    else (W, some (.written RESP_OKAY))
  | .read addr => if addr = REG_MEM_DATA then (W.advance, some (.read W.load)) else (W, none)

def own (W : Window) : Own → Window
  | .engine p => W.engine p
  | .reset => { W with region := 0, addr := 0 }

/-- The two sides of an AXI4-Lite port. -/
inductive Side where
  | write
  | read
  deriving DecidableEq

def object : Atomic Window Request Answer Own := ⟨apply, own⟩

end MemoryWindow

end ZedSecure
