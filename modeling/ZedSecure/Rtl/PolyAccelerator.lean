import ZedSecure.Clocked.Design
import Mathlib.Logic.Function.Basic

/-! `mlkem_poly_accelerator`: the transforms and the base multiplication of 256 coefficients, over two banks of
each kind. The arithmetic works in one half of the banks, the host port in the other. -/

namespace ZedSecure

open Clocked

/-- Coefficients under their addresses. -/
abbrev Coeffs := BitVec 8 → BitVec 16

namespace PolyAccelerator

inductive St where
  | idle | nttRun | nttDrain | inttScaleRun | inttScaleDrain | inttRun | inttDrain | basemulRun | basemulDrain
  deriving DecidableEq

def zetaTable : List ℤ :=
  [-1044, -758, -359, -1517, 1493, 1422, 287, 202, -171, 622, 1577, 182, 962, -1202, -1474, 1468,
   573, -1325, 264, 383, -829, 1458, -1602, -130, -681, 1017, 732, 608, -1542, 411, -205, -1571,
   1223, 652, -552, 1015, -1293, 1491, -282, -1544, 516, -8, -320, -666, -1618, -1162, 126, 1469,
   -853, -90, -271, 830, 107, -1421, -247, -951, -398, 961, -1508, -725, 448, -1065, 677, -1275,
   -1103, 430, 555, 843, -1251, 871, 1550, 105, 422, 587, 177, -235, -291, -460, 1574, 1653,
   -246, 778, 1159, -147, -777, 1483, -602, 1119, -1590, 644, -872, 349, 418, 329, -156, -75,
   817, 1097, 603, 610, 1322, -1285, -1465, 384, -1215, -136, 1218, -1335, -874, 220, -1187, -1659,
   -1185, -1530, -1278, 794, -1510, -854, -870, 478, -108, -308, 996, 991, 958, -1460, 1522, 1628]

def zetas (k : ℕ) : BitVec 16 := BitVec.ofInt 16 (zetaTable.getD k 0)

/-! The arithmetic of one pipeline stage each. -/

def product (x y : BitVec 16) : BitVec 32 := x.signExtend 32 * y.signExtend 32

def montMultiplier (p : BitVec 32) : BitVec 16 := p.setWidth 16 * 62209#16

def fqResult (p : BitVec 32) (m : BitVec 16) : BitVec 16 :=
  ((p - m.signExtend 32 * 3329#32).sshiftRight 16).setWidth 16

def barrettAccum (sum : BitVec 16) : BitVec 32 := 20159#32 * sum.signExtend 32 + 33554432#32

def barrettTemp (accum : BitVec 32) : BitVec 32 := accum.sshiftRight 26

def barrettResult (sum : BitVec 16) (temp : BitVec 32) : BitVec 16 :=
  (sum.signExtend 32 - temp * 3329#32).setWidth 16

/-- `^addr` -/
def parity (x : BitVec 8) : Bool := (List.range 8).foldl (fun p i => p ^^ x.getLsbD i) false

/-- `addr[7:1]` -/
def index (x : BitVec 8) : BitVec 7 := x.extractLsb' 1 7

/-- One half of the banks with its read registers. -/
structure Half where
  bankA0 : BitVec 7 → BitVec 16
  bankA1 : BitVec 7 → BitVec 16
  bankB : BitVec 8 → BitVec 16
  bankR : BitVec 8 → BitVec 16
  a0Dout : BitVec 16
  a1Dout : BitVec 16
  bDout0 : BitVec 16
  bDout1 : BitVec 16
  rDout0 : BitVec 16

/-- What the arithmetic asks of its half. -/
structure Port where
  aRaddr0 : BitVec 8 := 0
  aRaddr1 : BitVec 8 := 0
  aWe0 : Bool := false
  aWe1 : Bool := false
  aWaddr0 : BitVec 8 := 0
  aWaddr1 : BitVec 8 := 0
  aWdin0 : BitVec 16 := 0
  aWdin1 : BitVec 16 := 0
  bAddr0 : BitVec 8 := 0
  bAddr1 : BitVec 8 := 0
  rWe0 : Bool := false
  rWe1 : Bool := false
  rAddr0 : BitVec 8 := 0
  rAddr1 : BitVec 8 := 0
  rDin0 : BitVec 16 := 0
  rDin1 : BitVec 16 := 0

structure In where
  start : Bool
  command : BitVec 2
  set : Bool
  hostWe : Bool
  hostBank : BitVec 2
  hostAddr : BitVec 8
  hostWdata : BitVec 16

namespace Half

def store {α β : Type*} [DecidableEq α] (mem : α → β) (we : Bool) (a : α) (v : β) : α → β :=
  if we then Function.update mem a v else mem

/-- An edge of the half the arithmetic works in. -/
def compute (h : Half) (p : Port) : Half :=
  let rsel := parity p.aRaddr0
  let wsel := parity p.aWaddr0
  { bankA0 := store h.bankA0 (if wsel then p.aWe1 else p.aWe0) (index (if wsel then p.aWaddr1 else p.aWaddr0))
      (if wsel then p.aWdin1 else p.aWdin0)
    bankA1 := store h.bankA1 (if wsel then p.aWe0 else p.aWe1) (index (if wsel then p.aWaddr0 else p.aWaddr1))
      (if wsel then p.aWdin0 else p.aWdin1)
    bankB := h.bankB
    bankR := store (store h.bankR p.rWe0 p.rAddr0 p.rDin0) p.rWe1 p.rAddr1 p.rDin1
    a0Dout := h.bankA0 (index (if rsel then p.aRaddr1 else p.aRaddr0))
    a1Dout := h.bankA1 (index (if rsel then p.aRaddr0 else p.aRaddr1))
    bDout0 := h.bankB p.bAddr0
    bDout1 := h.bankB p.bAddr1
    rDout0 := h.bankR p.rAddr0 }

/-- An edge of the half the host has; the second read port of bank b stays with the arithmetic. -/
def host (h : Half) (p : Port) (i : In) : Half :=
  let sel := parity i.hostAddr
  { bankA0 := store h.bankA0 (i.hostWe && i.hostBank = 0 && !sel) (index i.hostAddr) i.hostWdata
    bankA1 := store h.bankA1 (i.hostWe && i.hostBank = 0 && sel) (index i.hostAddr) i.hostWdata
    bankB := store h.bankB (i.hostWe && i.hostBank = 1) i.hostAddr i.hostWdata
    bankR := store h.bankR (i.hostWe && 2 ≤ i.hostBank) i.hostAddr i.hostWdata
    a0Dout := h.bankA0 (index i.hostAddr)
    a1Dout := h.bankA1 (index i.hostAddr)
    bDout0 := h.bankB i.hostAddr
    bDout1 := h.bankB p.bAddr1
    rDout0 := h.bankR i.hostAddr }

end Half

/-- The sequencer. -/
structure Ctrl where
  state : St
  busy : Bool
  done : Bool
  layer : ℕ
  span : ℕ
  blockStart : ℕ
  butterfly : ℕ
  zetaIndex : ℕ
  drain : BitVec 3
  bmPtr : BitVec 7

/-- The pipeline of the transforms; the vectors are indexed from 1. -/
structure Flow where
  bfD : ℕ → BitVec 8
  vldD : ℕ → Bool
  zetaD1 : BitVec 16
  zetaD2 : BitVec 16
  butterflyAReg : BitVec 16
  butterflyAD1 : BitVec 16
  butterflyAD2 : BitVec 16
  inttSumReg : BitVec 16
  inttDiffReg : BitVec 16
  inttSumD1 : BitVec 16
  inttSumD2 : BitVec 16
  fqProductReg : BitVec 32
  fqProductD1 : BitVec 32
  montMultiplierReg : BitVec 16
  fqResultReg : BitVec 16
  barrettAccumReg : BitVec 32
  barrettTempReg : BitVec 32
  barrettResultReg : BitVec 16

/-- One of the four products of a base multiplication on its way through the reduction. -/
structure Reduction where
  prodReg : BitVec 32
  prodD1 : BitVec 32
  multReg : BitVec 16
  pReg : BitVec 16

/-- The pipeline of the base multiplication. -/
structure Basemul where
  idxD : ℕ → BitVec 7
  vldD : ℕ → Bool
  a0Reg : BitVec 16
  a1Reg : BitVec 16
  b0Reg : BitVec 16
  b1Reg : BitVec 16
  p11 : Reduction
  p00 : Reduction
  p01 : Reduction
  p10 : Reduction
  p00D1 : BitVec 16
  p00D2 : BitVec 16
  p00D3 : BitVec 16
  p01D1 : BitVec 16
  p01D2 : BitVec 16
  p01D3 : BitVec 16
  p10D1 : BitVec 16
  p10D2 : BitVec 16
  p10D3 : BitVec 16
  zetaReg : BitVec 16
  zetaD1 : BitVec 16
  zetaD2 : BitVec 16
  zprodReg : BitVec 32
  zprodD1 : BitVec 32
  zmultReg : BitVec 16
  p11zReg : BitVec 16

structure State where
  half : Bool → Half
  aRselQ : Bool
  haSelQ : Bool
  setQ : Bool
  ctrl : Ctrl
  flow : Flow
  bm : Basemul

def aDout0 (s : State) : BitVec 16 := if s.aRselQ then (s.half s.setQ).a1Dout else (s.half s.setQ).a0Dout

def aDout1 (s : State) : BitVec 16 := if s.aRselQ then (s.half s.setQ).a0Dout else (s.half s.setQ).a1Dout

/-- `host_rdata_o`; the bank is the one named now, the address the one of the edge before. -/
def hostRdata (s : State) (bank : BitVec 2) : BitVec 16 :=
  if bank = 0 then if s.haSelQ then (s.half !s.setQ).a1Dout else (s.half !s.setQ).a0Dout
  else if bank = 1 then (s.half !s.setQ).bDout0
  else (s.half !s.setQ).rDout0

/-- The reads belong to the pair being issued. -/
def reads (c : Ctrl) : Port :=
  match c.state with
  | .nttRun | .inttRun =>
    { aRaddr0 := BitVec.ofNat 8 c.butterfly, aRaddr1 := BitVec.ofNat 8 (c.butterfly + c.span) }
  | .inttScaleRun => { aRaddr0 := BitVec.ofNat 8 c.butterfly }
  | .basemulRun =>
    { aRaddr0 := 2#8 * c.bmPtr.setWidth 8, aRaddr1 := 2#8 * c.bmPtr.setWidth 8 + 1#8
      bAddr0 := 2#8 * c.bmPtr.setWidth 8, bAddr1 := 2#8 * c.bmPtr.setWidth 8 + 1#8 }
  | _ => {}

/-- The coefficient writes belong to the butterfly that leaves the pipeline. -/
def retire (c : Ctrl) (f : Flow) (p : Port) : Port :=
  match c.state with
  | .inttScaleRun | .inttScaleDrain =>
    if f.vldD 4 then { p with aWaddr0 := f.bfD 4, aWe0 := true, aWdin0 := f.fqResultReg } else p
  | .nttRun | .nttDrain =>
    if f.vldD 4 then
      { p with
        aWaddr0 := f.bfD 4, aWaddr1 := f.bfD 4 + BitVec.ofNat 8 c.span, aWe0 := true, aWe1 := true
        aWdin0 := f.butterflyAD2 + f.fqResultReg, aWdin1 := f.butterflyAD2 - f.fqResultReg }
    else p
  | .inttRun | .inttDrain =>
    if f.vldD 5 then
      { p with
        aWaddr0 := f.bfD 5, aWaddr1 := f.bfD 5 + BitVec.ofNat 8 c.span, aWe0 := true, aWe1 := true
        aWdin0 := f.barrettResultReg, aWdin1 := f.fqResultReg }
    else p
  | _ => p

/-- The result writes hang on the valid bit alone. -/
def retireR (m : Basemul) (p : Port) : Port :=
  if m.vldD 8 then
    { p with
      rAddr0 := 2#8 * (m.idxD 8).setWidth 8, rAddr1 := 2#8 * (m.idxD 8).setWidth 8 + 1#8, rWe0 := true, rWe1 := true
      rDin0 := m.p11zReg + m.p00D3, rDin1 := m.p01D3 + m.p10D3 }
  else p

def port (s : State) : Port := retireR s.bm (retire s.ctrl s.flow (reads s.ctrl))

/-- Whether a base multiplication sees its last result leave. -/
def lastResult (m : Basemul) : Bool := m.vldD 8 && m.idxD 8 = 127

namespace Ctrl

def reset : Ctrl := ⟨.idle, false, false, 0, 0, 0, 0, 0, 0, 0⟩

def stop (c : Ctrl) : Ctrl := { c with state := .idle, busy := false, done := true }

def next (c : Ctrl) (start : Bool) (command : BitVec 2) (last : Bool) : Ctrl :=
  let c := { c with done := false }
  match c.state with
  | .idle =>
    if start then
      let c := { c with busy := true }
      if command = 0 then
        { c with layer := 1, span := 128, blockStart := 0, butterfly := 0, zetaIndex := 1, state := .nttRun }
      else if command = 1 then { c with butterfly := 0, state := .inttScaleRun }
      else { c with bmPtr := 0, state := .basemulRun }
    else c
  | .nttRun =>
    if c.butterfly = c.blockStart + c.span - 1 then
      if 256 ≤ c.blockStart + 2 * c.span then { c with drain := 3, state := .nttDrain }
      else
        { c with
          blockStart := c.blockStart + 2 * c.span, butterfly := c.blockStart + 2 * c.span
          zetaIndex := c.zetaIndex + 1 }
    else { c with butterfly := c.butterfly + 1 }
  | .nttDrain =>
    if c.drain = 0 then
      if c.layer = 7 then c.stop
      else
        { c with
          layer := c.layer + 1, span := c.span / 2, blockStart := 0, butterfly := 0, zetaIndex := c.zetaIndex + 1
          state := .nttRun }
    else { c with drain := c.drain - 1 }
  | .inttScaleRun =>
    if c.butterfly = 255 then { c with drain := 3, state := .inttScaleDrain }
    else { c with butterfly := c.butterfly + 1 }
  | .inttScaleDrain =>
    if c.drain = 0 then
      { c with layer := 7, span := 2, blockStart := 0, butterfly := 0, zetaIndex := 127, state := .inttRun }
    else { c with drain := c.drain - 1 }
  | .inttRun =>
    if c.butterfly = c.blockStart + c.span - 1 then
      if 256 ≤ c.blockStart + 2 * c.span then { c with drain := 4, state := .inttDrain }
      else
        { c with
          blockStart := c.blockStart + 2 * c.span, butterfly := c.blockStart + 2 * c.span
          zetaIndex := c.zetaIndex - 1 }
    else { c with butterfly := c.butterfly + 1 }
  | .inttDrain =>
    if c.drain = 0 then
      if c.layer = 1 then c.stop
      else
        { c with
          layer := c.layer - 1, span := c.span * 2, blockStart := 0, butterfly := 0
          zetaIndex := (1 <<< (c.layer - 1)) - 1, state := .inttRun }
    else { c with drain := c.drain - 1 }
  | .basemulRun =>
    if c.bmPtr = 127 then { c with state := .basemulDrain } else { c with bmPtr := c.bmPtr + 1 }
  | .basemulDrain => if last then c.stop else c

end Ctrl

namespace Flow

def reset : Flow where
  bfD _ := 0
  vldD _ := false
  zetaD1 := 0
  zetaD2 := 0
  butterflyAReg := 0
  butterflyAD1 := 0
  butterflyAD2 := 0
  inttSumReg := 0
  inttDiffReg := 0
  inttSumD1 := 0
  inttSumD2 := 0
  fqProductReg := 0
  fqProductD1 := 0
  montMultiplierReg := 0
  fqResultReg := 0
  barrettAccumReg := 0
  barrettTempReg := 0
  barrettResultReg := 0

/-- Index and valid bit go on by one stage, up to stage `depth`. -/
def shift {α : Type*} (depth : ℕ) (v : ℕ → α) (x : α) : ℕ → α :=
  fun k => if k = 1 then x else if 2 ≤ k ∧ k ≤ depth then v (k - 1) else v k

/-- The reduction that every pass shares. -/
def reduce (f : Flow) : Flow :=
  { f with
    montMultiplierReg := montMultiplier f.fqProductReg
    fqProductD1 := f.fqProductReg
    fqResultReg := fqResult f.fqProductD1 f.montMultiplierReg }

def next (f : Flow) (c : Ctrl) (start : Bool) (aDout0 aDout1 : BitVec 16) : Flow :=
  match c.state with
  | .idle => if start then { f with vldD := fun _ => false } else f
  | .nttRun | .nttDrain =>
    { f.reduce with
      butterflyAReg := aDout0
      fqProductReg := product aDout1 f.zetaD1
      butterflyAD1 := f.butterflyAReg
      butterflyAD2 := f.butterflyAD1
      zetaD1 := zetas c.zetaIndex
      bfD := shift 4 f.bfD (BitVec.ofNat 8 c.butterfly)
      vldD := shift 4 f.vldD (c.state = .nttRun) }
  | .inttScaleRun | .inttScaleDrain =>
    { f.reduce with
      fqProductReg := product aDout0 1441#16
      bfD := shift 4 f.bfD (BitVec.ofNat 8 c.butterfly)
      vldD := if c.state = .inttScaleDrain ∧ c.drain = 0 then fun _ => false
        else shift 4 f.vldD (c.state = .inttScaleRun) }
  | .inttRun | .inttDrain =>
    { f.reduce with
      inttSumReg := aDout0 + aDout1
      inttDiffReg := aDout1 - aDout0
      fqProductReg := product f.inttDiffReg f.zetaD2
      barrettAccumReg := barrettAccum f.inttSumReg
      inttSumD1 := f.inttSumReg
      barrettTempReg := barrettTemp f.barrettAccumReg
      inttSumD2 := f.inttSumD1
      barrettResultReg := barrettResult f.inttSumD2 f.barrettTempReg
      zetaD1 := zetas c.zetaIndex
      zetaD2 := f.zetaD1
      bfD := shift 5 f.bfD (BitVec.ofNat 8 c.butterfly)
      vldD := shift 5 f.vldD (c.state = .inttRun) }
  | .basemulRun | .basemulDrain => f

end Flow

namespace Reduction

def reset : Reduction := ⟨0, 0, 0, 0⟩

def next (r : Reduction) (x y : BitVec 16) : Reduction where
  prodReg := product x y
  prodD1 := r.prodReg
  multReg := montMultiplier r.prodReg
  pReg := fqResult r.prodD1 r.multReg

end Reduction

namespace Basemul

def reset : Basemul where
  idxD _ := 0
  vldD _ := false
  a0Reg := 0
  a1Reg := 0
  b0Reg := 0
  b1Reg := 0
  p11 := .reset
  p00 := .reset
  p01 := .reset
  p10 := .reset
  p00D1 := 0
  p00D2 := 0
  p00D3 := 0
  p01D1 := 0
  p01D2 := 0
  p01D3 := 0
  p10D1 := 0
  p10D2 := 0
  p10D3 := 0
  zetaReg := 0
  zetaD1 := 0
  zetaD2 := 0
  zprodReg := 0
  zprodD1 := 0
  zmultReg := 0
  p11zReg := 0

/-- The factor of a pair; the roots of neighbouring pairs are opposite. -/
def pairZeta (idx : BitVec 7) : BitVec 16 :=
  if idx.getLsbD 0 then -zetas (64 + (idx >>> 1).toNat) else zetas (64 + (idx >>> 1).toNat)

def next (m : Basemul) (c : Ctrl) (aDout0 aDout1 bDout0 bDout1 : BitVec 16) : Basemul :=
  match c.state with
  | .basemulRun | .basemulDrain =>
    { idxD := Flow.shift 8 m.idxD c.bmPtr
      vldD := Flow.shift 8 m.vldD (c.state = .basemulRun)
      a0Reg := aDout0
      a1Reg := aDout1
      b0Reg := bDout0
      b1Reg := bDout1
      p11 := m.p11.next m.a1Reg m.b1Reg
      p00 := m.p00.next m.a0Reg m.b0Reg
      p01 := m.p01.next m.a0Reg m.b1Reg
      p10 := m.p10.next m.a1Reg m.b0Reg
      p00D1 := m.p00.pReg
      p00D2 := m.p00D1
      p00D3 := m.p00D2
      p01D1 := m.p01.pReg
      p01D2 := m.p01D1
      p01D3 := m.p01D2
      p10D1 := m.p10.pReg
      p10D2 := m.p10D1
      p10D3 := m.p10D2
      zetaReg := pairZeta (m.idxD 2)
      zetaD1 := m.zetaReg
      zetaD2 := m.zetaD1
      zprodReg := product m.p11.pReg m.zetaD2
      zprodD1 := m.zprodReg
      zmultReg := montMultiplier m.zprodReg
      p11zReg := fqResult m.zprodD1 m.zmultReg }
  | _ => m

end Basemul

/-- Memories, read registers and selectors have no reset. -/
def rst (s : State) : State := { s with ctrl := .reset, flow := .reset, bm := .reset }

def next (s : State) (i : In) : State :=
  let p := port s
  { half := fun h => if h = i.set then (s.half h).compute p else (s.half h).host p i
    aRselQ := parity p.aRaddr0
    haSelQ := parity i.hostAddr
    setQ := i.set
    ctrl := s.ctrl.next i.start i.command (lastResult s.bm)
    flow := s.flow.next s.ctrl i.start (aDout0 s) (aDout1 s)
    bm := s.bm.next s.ctrl (aDout0 s) (aDout1 s) (s.half s.setQ).bDout0 (s.half s.setQ).bDout1 }

def design : Design State In := ⟨rst, next⟩

end PolyAccelerator

end ZedSecure
