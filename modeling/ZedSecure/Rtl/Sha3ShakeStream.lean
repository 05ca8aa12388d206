import ZedSecure.Clocked.StartDone
import ZedSecure.Clocked.Words
import ZedSecure.Crypto.Fips202

/-! `sha3_shake_stream`: the byte-wide sponge. A message comes in byte by byte, the padding goes
in over two clocks, and the output goes out byte by byte. The permutation is any start/done
unit over Keccak-f. -/

namespace ZedSecure

open Clocked

namespace Sha3ShakeStream

inductive St where
  | idle | absorb | padFinal | permAbsorb | permFinal | squeeze | permSqueeze
  deriving DecidableEq

/-- The pins of one cycle, and the permutation's timing. -/
structure In (κ : Type) where
  start : Bool
  mode : BitVec 2
  outputLength : BitVec 16
  inputByte : BitVec 8
  inputValid : Bool
  finalize : Bool
  outputReady : Bool
  permutation : κ

variable {κ : Type} (P : StartDone Fips202.keccakF κ)

structure State where
  controlState : St
  spongeState : BitVec 1600
  permutationStart : Bool
  absorbPosition : BitVec 8
  squeezePosition : BitVec 8
  outputLength : BitVec 16
  outputCount : BitVec 16
  rateLast : BitVec 8
  suffix : BitVec 8
  done : Bool
  permutation : P.σ

def State.init : State P := ⟨.idle, 0, false, 0, 0, 0, 0, 135, 0x06, false, P.init⟩

variable {P}

def selectedRateBytes (mode : BitVec 2) : BitVec 8 :=
  if mode = 0 then 136 else if mode = 1 then 72 else if mode = 2 then 168 else 136

def selectedSuffix (mode : BitVec 2) : BitVec 8 :=
  if mode = 0 then 0x06 else if mode = 1 then 0x06 else 0x1f

/-- The one byte-wide XOR into the sponge: the second pad byte, a message byte or the suffix. -/
def spongeXored (s : State P) (i : In κ) : BitVec 1600 :=
  let position := if s.controlState = .padFinal then s.rateLast else s.absorbPosition
  let byte := if s.controlState = .padFinal then 0x80 else if i.inputValid then i.inputByte else s.suffix
  patch s.spongeState (8 * position.toNat) (slice s.spongeState (8 * position.toNat) 8 ^^^ byte)

def inputReady (s : State P) : Bool := s.controlState = .absorb

def outputValid (s : State P) : Bool := s.controlState = .squeeze

def outputByte (s : State P) : BitVec 8 := slice s.spongeState (8 * s.squeezePosition.toNat) 8

/-- The registers after the edge, the permutation apart. -/
def fsm (s0 : State P) (i : In κ) : State P :=
  let s := { s0 with permutationStart := false, done := false }
  match s.controlState with
  | .idle =>
    if i.start then
      { s with
        spongeState := 0, absorbPosition := 0, squeezePosition := 0, outputCount := 0
        outputLength := i.outputLength, rateLast := selectedRateBytes i.mode - 1
        suffix := selectedSuffix i.mode, controlState := .absorb }
    else s
  | .absorb =>
    if i.inputValid then
      let s := { s with spongeState := spongeXored s0 i }
      if s.absorbPosition = s.rateLast then
        { s with permutationStart := true, absorbPosition := 0, controlState := .permAbsorb }
      else { s with absorbPosition := s.absorbPosition + 1 }
    else if i.finalize then { s with spongeState := spongeXored s0 i, controlState := .padFinal }
    else s
  | .padFinal =>
    { s with spongeState := spongeXored s0 i, permutationStart := true, controlState := .permFinal }
  | .permAbsorb =>
    if P.done s.permutation then
      { s with spongeState := P.result s.permutation, controlState := .absorb }
    else s
  | .permFinal =>
    if P.done s.permutation then
      let s := { s with spongeState := P.result s.permutation, squeezePosition := 0, outputCount := 0 }
      if s.outputLength = 0 then { s with done := true, controlState := .idle }
      else { s with controlState := .squeeze }
    else s
  | .squeeze =>
    if i.outputReady then
      if s.outputCount + 1 = s.outputLength then { s with done := true, controlState := .idle }
      else if s.squeezePosition = s.rateLast then
        { s with
          permutationStart := true, squeezePosition := 0, outputCount := s.outputCount + 1
          controlState := .permSqueeze }
      else { s with squeezePosition := s.squeezePosition + 1, outputCount := s.outputCount + 1 }
    else s
  | .permSqueeze =>
    if P.done s.permutation then
      { s with spongeState := P.result s.permutation, controlState := .squeeze }
    else s

def next (s : State P) (i : In κ) : State P :=
  { fsm s i with
    permutation := P.next s.permutation (if s.permutationStart then some s.spongeState else none)
      i.permutation }

variable (P)

def design : Design (State P) (In κ) := ⟨fun _ => .init P, next⟩

end Sha3ShakeStream

end ZedSecure
