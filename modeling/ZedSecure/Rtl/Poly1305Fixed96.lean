import ZedSecure.Rtl.AeadEngine
import Mathlib.Logic.Function.Basic

/-! `poly1305_fixed96`: the Poly1305 tag of six blocks in five limbs of 26 bits, with one
multiplier for the 25 products of a block, one carry step per clock, and a final reduction. -/

namespace ZedSecure

open Clocked

namespace Poly1305Fixed96

def R_CLAMP_MASK : BitVec 128 := 0x0ffffffc0ffffffc0ffffffc0fffffff#128

def P130 : BitVec 131 := (1#131 <<< 130) - 5#131

def LIMB_MASK : BitVec 64 := 0x0000000003ffffff#64

inductive St where
  | idle | loadBlock | select | multiply | accumulate | norm0 | norm1 | norm2 | norm3 | norm4
  | norm5 | pack | reduce | final
  deriving DecidableEq

/-- The limb arrays have five entries. -/
structure State where
  state : St
  messageReg : BitVec 768
  sReg : BitVec 128
  rLimb : ℕ → BitVec 26
  r5Limb : ℕ → BitVec 29
  hLimb : ℕ → BitVec 27
  aLimb : ℕ → BitVec 28
  dAcc : ℕ → BitVec 64
  accReg : BitVec 64
  mulAReg : BitVec 28
  mulBReg : BitVec 29
  productReg : BitVec 57
  hValueReg : BitVec 131
  canonicalReg : BitVec 131
  blockIndex : BitVec 3
  outputIndex : BitVec 3
  termIndex : BitVec 3
  busy : Bool
  done : Bool
  tag : BitVec 128

def State.init : State :=
  { state := .idle, messageReg := 0, sReg := 0, rLimb := fun _ => 0, r5Limb := fun _ => 0
    hLimb := fun _ => 0, aLimb := fun _ => 0, dAcc := fun _ => 0, accReg := 0, mulAReg := 0
    mulBReg := 0, productReg := 0, hValueReg := 0, canonicalReg := 0, blockIndex := 0
    outputIndex := 0, termIndex := 0, busy := false, done := false, tag := 0 }

/-- The limbs of the clamped `r`. -/
def keyLimb (oneTimeKey : BitVec 256) (i : ℕ) : BitVec 26 :=
  let clamped := slice oneTimeKey 0 128 &&& R_CLAMP_MASK
  if i < 4 then slice clamped (26 * i) 26 else (slice clamped 104 24).setWidth 26

def currentBlock (s : State) : BitVec 128 := slice s.messageReg (128 * s.blockIndex.toNat) 128

/-- The limbs of the block, with the 1 bit above its 16 bytes. -/
def messageLimb (s : State) (i : ℕ) : BitVec 26 :=
  if i < 4 then slice (currentBlock s) (26 * i) 26
  else (1#1 ++ slice (currentBlock s) 104 24).setWidth 26

def multiplyA (s : State) : BitVec 28 := s.aLimb s.termIndex.toNat

/-- A product that wraps modulo 2^130 uses the multiple of `r` by five. -/
def multiplyB (s : State) : BitVec 29 :=
  if s.termIndex ≤ s.outputIndex then
    (s.rLimb (s.outputIndex.toNat - s.termIndex.toNat)).setWidth 29
  else s.r5Limb (s.outputIndex.toNat + 5 - s.termIndex.toNat)

def packedLimb2 (s : State) : BitVec 27 := s.hLimb 2 + (slice (s.hLimb 1) 26 1).setWidth 27

def packedLimb3 (s : State) : BitVec 27 := s.hLimb 3 + (slice (packedLimb2 s) 26 1).setWidth 27

def packedLimb4 (s : State) : BitVec 27 := s.hLimb 4 + (slice (packedLimb3 s) 26 1).setWidth 27

/-- `S_NORM0` to `S_NORM3`: the carry of limb `i` into the next one. -/
def carry (s : State) (i : ℕ) : ℕ → BitVec 64 :=
  Function.update (Function.update s.dAcc i (s.dAcc i &&& LIMB_MASK)) (i + 1)
    (s.dAcc (i + 1) + (s.dAcc i >>> 26))

def next (s0 : State) (start : Option PolyIn) : State :=
  let s := { s0 with done := false }
  match s.state with
  | .idle =>
    match start with
    | none => s
    | some x =>
      { s with
        rLimb := keyLimb x.oneTimeKey
        r5Limb := fun i => (keyLimb x.oneTimeKey i).setWidth 29 * 5#29
        hLimb := fun _ => 0
        sReg := slice x.oneTimeKey 128 128
        messageReg := x.message
        blockIndex := 0
        busy := true
        state := .loadBlock }
  | .loadBlock =>
    { s with
      aLimb := fun i => (s.hLimb i).setWidth 28 + (messageLimb s0 i).setWidth 28
      accReg := 0, outputIndex := 0, termIndex := 0, state := .select }
  | .select => { s with mulAReg := multiplyA s0, mulBReg := multiplyB s0, state := .multiply }
  | .multiply =>
    { s with productReg := s.mulAReg.setWidth 57 * s.mulBReg.setWidth 57, state := .accumulate }
  | .accumulate =>
    let sum := s.accReg + s.productReg.setWidth 64
    if s.termIndex = 4#3 then
      let s := { s with dAcc := Function.update s.dAcc s.outputIndex.toNat sum, accReg := 0, termIndex := 0 }
      if s.outputIndex = 4#3 then { s with state := .norm0 }
      else { s with outputIndex := s.outputIndex + 1#3, state := .select }
    else { s with accReg := sum, termIndex := s.termIndex + 1#3, state := .select }
  | .norm0 => { s with dAcc := carry s 0, state := .norm1 }
  | .norm1 => { s with dAcc := carry s 1, state := .norm2 }
  | .norm2 => { s with dAcc := carry s 2, state := .norm3 }
  | .norm3 => { s with dAcc := carry s 3, state := .norm4 }
  | .norm4 =>
    { s with
      dAcc := Function.update (Function.update s.dAcc 4 (s.dAcc 4 &&& LIMB_MASK)) 0
        (s.dAcc 0 + (s.dAcc 4 >>> 26) * 5#64)
      state := .norm5 }
  | .norm5 =>
    let s := { s with
      hLimb := fun i =>
        if i = 0 then (slice (s.dAcc 0) 0 26).setWidth 27
        else if i = 1 then (s.dAcc 1 + (s.dAcc 0 >>> 26)).setWidth 27
        else slice (s.dAcc i) 0 27 }
    if s.blockIndex = 5#3 then { s with state := .pack }
    else { s with blockIndex := s.blockIndex + 1#3, state := .loadBlock }
  | .pack =>
    { s with
      hValueReg := packedLimb4 s0 ++ slice (packedLimb3 s0) 0 26 ++ slice (packedLimb2 s0) 0 26 ++
        slice (s.hLimb 1) 0 26 ++ slice (s.hLimb 0) 0 26
      state := .reduce }
  | .reduce =>
    { s with
      canonicalReg := if P130 ≤ s.hValueReg then s.hValueReg - P130 else s.hValueReg
      state := .final }
  | .final =>
    { s with
      tag := slice s.canonicalReg 0 128 + s.sReg
      busy := false, done := true, state := .idle }

end Poly1305Fixed96

end ZedSecure
