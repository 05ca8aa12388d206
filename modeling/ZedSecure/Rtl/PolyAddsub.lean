import ZedSecure.Clocked.Leads
import ZedSecure.Rtl.PolyRam

/-! `mlkem_coeff_addsub` and `mlkem_poly_addsub_controller`: the sum or difference of two polynomials. -/

namespace ZedSecure

open Clocked

/-- The registers of `mlkem_coeff_addsub`. -/
structure CoeffAddsub where
  sumReg : BitVec 18
  sumDelayReg : BitVec 18
  quotientReg : BitVec 8
  remainderReg : BitVec 20

namespace CoeffAddsub

/-- `sum_reg` is loaded with this. -/
def sum (a b : BitVec 16) (subtract : Bool) : BitVec 18 :=
  if subtract then a.signExtend 18 - b.signExtend 18 else a.signExtend 18 + b.signExtend 18

/-- `quotient_reg`: the sum over 3329, rounded. -/
def quotient (sum : BitVec 18) : BitVec 8 :=
  ((20159#34 * sum.signExtend 34 + 33554432#34).sshiftRight 26).setWidth 8

def remainder (sum : BitVec 18) (quotient : BitVec 8) : BitVec 20 :=
  sum.signExtend 20 - quotient.signExtend 20 * 3329#20

def next (u : CoeffAddsub) (a b : BitVec 16) (subtract : Bool) : CoeffAddsub :=
  { sumReg := sum a b subtract
    sumDelayReg := u.sumReg
    quotientReg := quotient u.sumReg
    remainderReg := remainder u.sumDelayReg u.quotientReg }

/-- `canonical_o` -/
def canonical (u : CoeffAddsub) : BitVec 16 :=
  let x := u.remainderReg
  (if x.slt 0 then x + 3329#20 else x).setWidth 16

end CoeffAddsub

namespace PolyAddsub

inductive St where
  | idle | readA | readB | issueWrite | drain0 | drain1 | finalWrite | done
  deriving DecidableEq

structure State where
  state : St
  index : BitVec 8
  sa : BitVec 4
  sb : BitVec 4
  sd : BitVec 4
  sub : Bool
  left : BitVec 16
  unit : CoeffAddsub

structure In where
  start : Bool
  subtract : Bool
  srcASlot : BitVec 4
  srcBSlot : BitVec 4
  dstSlot : BitVec 4

def busy (s : State) : Bool := s.state ≠ .idle

def done (s : State) : Bool := s.state = .done

def reset : State := ⟨.idle, 0, 0, 0, 0, false, 0, ⟨0, 0, 0, 0⟩⟩

def writeOffset (s : State) : BitVec 8 := if s.index = 0 then 0 else s.index - 1

def polyPort (s : State) : PolyPort where
  we := (s.state = .issueWrite && s.index ≠ 0) || s.state = .finalWrite
  addr := match s.state with
    | .readA => s.sa ++ s.index
    | .readB => s.sb ++ s.index
    | .issueWrite => s.sd ++ writeOffset s
    | _ => s.sd ++ 0xff#8
  wdata := s.unit.canonical

/-- One clock edge; `rdata` is `poly_rdata_i`. -/
def next (s : State) (i : In) (rdata : BitVec 16) : State :=
  let f := { s with unit := s.unit.next s.left rdata s.sub }
  match s.state with
  | .idle =>
    if i.start then
      { f with
        sa := i.srcASlot, sb := i.srcBSlot, sd := i.dstSlot, sub := i.subtract, index := 0, state := .readA }
    else f
  | .readA => { f with state := .readB }
  | .readB => { f with left := rdata, state := .issueWrite }
  | .issueWrite =>
    if s.index = 0xff then { f with state := .drain0 } else { f with index := s.index + 1, state := .readA }
  | .drain0 => { f with state := .drain1 }
  | .drain1 => { f with state := .finalWrite }
  | .finalWrite => { f with state := .done }
  | .done => { f with state := .idle }

/-- The controller and the memory it works on; the memory has no reset. -/
def design : Design (State × PolyRam) In where
  rst p := (reset, p.2)
  next p i := (next p.1 i p.2.rdata, p.2.next (polyPort p.1))

end PolyAddsub

end ZedSecure
