import ZedSecure.Clocked.Leads
import ZedSecure.Rtl.PolyRam

/-! The codec primitives, `mlkem512_unpack_controller` and `mlkem512_pack_compare_controller`: a ciphertext
becomes polynomials, and polynomials are compared with a ciphertext. -/

namespace ZedSecure

open Clocked

/-- One coefficient of `mlkem_decompress_d10_group`. -/
def decompressD10 (x : BitVec 10) : BitVec 16 :=
  let x := x.setWidth 22
  let p : BitVec 22 := (x <<< 11) + (x <<< 10) + (x <<< 8) + x + 512#22
  (slice p 10 12).setWidth 16

/-- `mlkem_decompress_d10_group` -/
def decompressD10Group (bytes : BitVec 40) (i : ℕ) : BitVec 16 :=
  let t0 := (slice bytes 0 16 &&& 0x3ff#16).setWidth 10
  let t1 := (slice bytes 8 16 >>> 2).setWidth 10
  let t2 := (slice bytes 16 16 >>> 4).setWidth 10
  let t3 := (slice bytes 24 16 >>> 6).setWidth 10
  decompressD10 (if i = 0 then t0 else if i = 1 then t1 else if i = 2 then t2 else t3)

/-- One coefficient of `mlkem_compress_d10_group`. -/
def compressD10 (x : BitVec 16) : BitVec 10 :=
  let p : BitVec 34 := x.setWidth 34 * 2580335#34
  (((p + 0x400000#34) >>> 23) &&& 0x3ff#34).setWidth 10

/-- `mlkem_compress_d10_group` -/
def compressD10Group (coeffs : BitVec 64) : BitVec 40 :=
  let t0 := compressD10 (slice coeffs 0 16)
  let t1 := compressD10 (slice coeffs 16 16)
  let t2 := compressD10 (slice coeffs 32 16)
  let t3 := compressD10 (slice coeffs 48 16)
  slice t3 2 8 ++ (slice t3 0 2 ++ slice t2 4 6) ++ (slice t2 0 4 ++ slice t1 6 4) ++
    (slice t1 0 6 ++ slice t0 8 2) ++ slice t0 0 8

/-- One coefficient of `mlkem_decompress_d4_group`. -/
def decompressD4 (x : BitVec 4) : BitVec 16 := (x.setWidth 16 * 3329#16 + 8#16) >>> 4

/-- `mlkem_decompress_d4_group` -/
def decompressD4Group (byte : BitVec 8) (i : ℕ) : BitVec 16 := decompressD4 (slice byte (4 * i) 4)

/-- One coefficient of `mlkem_compress_d4_group`. -/
def compressD4 (x : BitVec 16) : BitVec 4 :=
  let p : BitVec 21 := x.setWidth 21 * 315#21
  ((p + 0x8000#21) >>> 16).setWidth 4

/-- `mlkem_compress_d4_group` -/
def compressD4Group (coeffs : BitVec 32) : BitVec 8 :=
  compressD4 (slice coeffs 16 16) ++ compressD4 (slice coeffs 0 16)

/-- `mlkem_decode12_group` -/
def decode12Group (bytes : BitVec 24) (i : ℕ) : BitVec 16 :=
  if i = 0 then (slice bytes 8 4 ++ slice bytes 0 8).setWidth 16 else (slice bytes 16 8 ++ slice bytes 12 4).setWidth 16

/-- A word memory that is only read, with its read register. -/
structure WordRam (a : ℕ) where
  mem : BitVec a → BitVec 32
  rdata : BitVec 32

def WordRam.next {a : ℕ} (m : WordRam a) (addr : BitVec a) : WordRam a := { m with rdata := m.mem addr }

/-- Byte `n` of a word memory. -/
def WordRam.byte {a : ℕ} (mem : BitVec a → BitVec 32) (n : ℕ) : BitVec 8 :=
  slice (mem (BitVec.ofNat a (n / 4))) (8 * (n % 4)) 8

namespace Unpack

inductive St where
  | idle | readReq | readWait | writeCoeff | nextPhase | done
  deriving DecidableEq

/-- `P_D10`, `P_D4` and `P_SK12` -/
inductive Phase where
  | d10 | d4 | sk12
  deriving DecidableEq

structure State where
  state : St
  phase : Phase
  byteIndex : ℕ
  groupCount : ℕ
  groupIndex : ℕ
  writeIndex : ℕ
  groupBytes : BitVec 40

def reset : State := ⟨.idle, .d10, 0, 0, 0, 0, 0⟩

def busy (s : State) : Bool := s.state ≠ .idle

def done (s : State) : Bool := s.state = .done

def groupSize : Phase → ℕ
  | .d10 => 5
  | .d4 => 1
  | .sk12 => 3

def coeffCount : Phase → ℕ
  | .d10 => 4
  | _ => 2

def ctWordAddr (s : State) : BitVec 8 := BitVec.ofNat 8 (s.byteIndex / 4)

def skWordAddr (s : State) : BitVec 9 := BitVec.ofNat 9 (s.byteIndex / 4)

def selectedByte (s : State) (ctWord skWord : BitVec 32) : BitVec 8 :=
  slice (if s.phase = .sk12 then skWord else ctWord) (8 * (s.byteIndex % 4)) 8

def polyPort (s : State) : PolyPort where
  we := s.state = .writeCoeff
  addr := match s.phase with
    | .d10 => BitVec.ofNat 12 (s.groupIndex * 4 + s.writeIndex)
    | .d4 => BitVec.ofNat 12 (512 + s.groupIndex * 2 + s.writeIndex)
    | .sk12 => BitVec.ofNat 12 (768 + s.groupIndex * 2 + s.writeIndex)
  wdata := match s.phase with
    | .d10 => decompressD10Group s.groupBytes s.writeIndex
    | .d4 => decompressD4Group (slice s.groupBytes 0 8) s.writeIndex
    | .sk12 => decode12Group (slice s.groupBytes 0 24) s.writeIndex

def lastByte : Phase → ℕ
  | .d10 => 640
  | _ => 768

/-- One clock edge. -/
def next (s : State) (start : Bool) (ctWord skWord : BitVec 32) : State :=
  match s.state with
  | .idle =>
    if start then
      { s with phase := .d10, byteIndex := 0, groupCount := 0, groupIndex := 0, groupBytes := 0, state := .readReq }
    else s
  | .readReq => { s with state := .readWait }
  | .readWait =>
    let f := { s with
      groupBytes := patch s.groupBytes (8 * s.groupCount) (selectedByte s ctWord skWord)
      byteIndex := s.byteIndex + 1 }
    if s.groupCount = groupSize s.phase - 1 then { f with groupCount := 0, writeIndex := 0, state := .writeCoeff }
    else { f with groupCount := s.groupCount + 1, state := .readReq }
  | .writeCoeff =>
    if s.writeIndex = coeffCount s.phase - 1 then
      let f := { s with writeIndex := 0, groupIndex := s.groupIndex + 1 }
      if s.byteIndex = lastByte s.phase then { f with state := .nextPhase } else { f with state := .readReq }
    else { s with writeIndex := s.writeIndex + 1 }
  | .nextPhase =>
    let f := { s with groupBytes := 0, groupIndex := 0, groupCount := 0, byteIndex := 0 }
    match s.phase with
    | .d10 => { f with phase := .d4, byteIndex := 640, state := .readReq }
    | .d4 => { f with phase := .sk12, state := .readReq }
    | .sk12 => { f with state := .done }
  | .done => { s with state := .idle }

/-- The controller with its three memories. -/
structure Sys where
  ctl : State
  ct : WordRam 8
  sk : WordRam 9
  poly : PolyRam

/-- The input is `start_i`. -/
def design : Design Sys Bool where
  rst p := { p with ctl := reset }
  next p start :=
    { ctl := next p.ctl start p.ct.rdata p.sk.rdata
      ct := p.ct.next (ctWordAddr p.ctl)
      sk := p.sk.next (skWordAddr p.ctl)
      poly := p.poly.next (polyPort p.ctl) }

end Unpack

namespace PackCompare

inductive St where
  | idle | pReq | pWait | cPrep | cReq | cWait | nextGroup | done
  deriving DecidableEq

structure State where
  state : St
  groupIndex : ℕ
  coeffIndex : ℕ
  byteIndex : ℕ
  mode : Bool
  slot : BitVec 4
  base : BitVec 10
  coeffs : BitVec 64
  mismatch : Bool
  mismatchBar : Bool

/-- A command; `mode` is `mode_d4_i`. -/
structure Command where
  clear : Bool
  mode : Bool
  srcSlot : BitVec 4
  ctBase : BitVec 10

def reset : State := ⟨.idle, 0, 0, 0, false, 0, 0, 0, false, true⟩

def busy (s : State) : Bool := s.state ≠ .idle

def done (s : State) : Bool := s.state = .done

/-- Coefficients and bytes of a group. -/
def groupCoeffs (mode : Bool) : ℕ := if mode then 2 else 4

def groupBytes (mode : Bool) : ℕ := if mode then 1 else 5

def polyAddr (s : State) : BitVec 12 :=
  BitVec.ofNat 12 (s.slot.toNat * 256 + s.groupIndex * groupCoeffs s.mode + s.coeffIndex)

/-- The ciphertext byte to compare with. -/
def ctByte (s : State) : ℕ := s.base.toNat + s.groupIndex * groupBytes s.mode + s.byteIndex

def ctAddr (s : State) : BitVec 8 := BitVec.ofNat 8 (ctByte s / 4)

def expected (s : State) (ctRdata : BitVec 32) : BitVec 8 := slice ctRdata (8 * (ctByte s % 4)) 8

def generated (s : State) : BitVec 8 :=
  if s.mode then compressD4Group (slice s.coeffs 0 32) else slice (compressD10Group s.coeffs) (8 * s.byteIndex) 8

/-- `mismatch_o`: a disagreement or a fault of the two rails. -/
def mismatchOut (s : State) : Bool := s.mismatch || !s.mismatchBar || s.mismatch == s.mismatchBar

/-- One clock edge. -/
def next (s : State) (c : Option Command) (polyRdata : BitVec 16) (ctRdata : BitVec 32) : State :=
  match s.state with
  | .idle =>
    match c with
    | some c =>
      let f := { s with
        groupIndex := 0, coeffIndex := 0, byteIndex := 0, mode := c.mode, slot := c.srcSlot, base := c.ctBase
        coeffs := 0, state := .pReq }
      if c.clear then { f with mismatch := false, mismatchBar := true } else f
    | none => s
  | .pReq => { s with state := .pWait }
  | .pWait =>
    let f := { s with coeffs := patch s.coeffs (16 * s.coeffIndex) polyRdata }
    if s.coeffIndex = groupCoeffs s.mode - 1 then { f with coeffIndex := 0, state := .cPrep }
    else { f with coeffIndex := s.coeffIndex + 1, state := .pReq }
  | .cPrep => { s with byteIndex := 0, state := .cReq }
  | .cReq => { s with state := .cWait }
  | .cWait =>
    let equal := expected s ctRdata == generated s
    let f := { s with mismatch := s.mismatch || !equal, mismatchBar := s.mismatchBar && equal }
    if s.byteIndex = groupBytes s.mode - 1 then { f with state := .nextGroup }
    else { f with byteIndex := s.byteIndex + 1, state := .cReq }
  | .nextGroup =>
    if s.groupIndex = (if s.mode then 127 else 63) then { s with state := .done }
    else { s with groupIndex := s.groupIndex + 1, coeffs := 0, state := .pReq }
  | .done => { s with state := .idle }

/-- The controller with its two memories. -/
structure Sys where
  ctl : State
  ct : WordRam 8
  poly : PolyRam

/-- A command or none, and what the other controllers do at the polynomial memory while it is not this one's. -/
structure In where
  start : Option Command
  other : PolyPort

def design : Design Sys In where
  rst p := { p with ctl := reset }
  next p i :=
    { ctl := next p.ctl i.start p.poly.rdata p.ct.rdata
      ct := p.ct.next (ctAddr p.ctl)
      poly := p.poly.next (if busy p.ctl || i.start.isSome then ⟨false, polyAddr p.ctl, 0⟩ else i.other) }

end PackCompare

end ZedSecure
