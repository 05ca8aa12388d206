import ZedSecure.Rtl.Sha3ShakeStream

/-! `mlkem_session_kdf`: the label, the shared secret and the transcript hash go through SHAKE256, and
72 bytes of output become the keys and nonce prefixes of both directions. -/

namespace ZedSecure

open Clocked

/-- The operand pins of the derivation. -/
structure KdfIn where
  sharedSecret : BitVec 256
  transcriptHash : BitVec 256
  deriving DecidableEq

namespace SessionKdf

inductive St where
  | idle | start | feed | final | collect
  deriving DecidableEq

variable {κ : Type} (P : StartDone Fips202.keccakF κ)

structure State where
  state : St
  index : BitVec 7
  material : BitVec 576
  secretReg : BitVec 256
  hashReg : BitVec 256
  hashStart : Bool
  hashFinalize : Bool
  done : Bool
  hash : Sha3ShakeStream.State P

def State.init : State P := ⟨.idle, 0, 0, 0, 0, false, false, false, .init P⟩

variable {P}

/-- The first eleven indices spell "ZYNQ-PQC-v1". -/
def hashInputByte (s : State P) : BitVec 8 :=
  match s.index.toNat with
  | 0 => 0x5a | 1 => 0x59 | 2 => 0x4e | 3 => 0x51 | 4 => 0x2d | 5 => 0x50 | 6 => 0x51 | 7 => 0x43
  | 8 => 0x2d | 9 => 0x76 | 10 => 0x31
  | n => if n < 43 then slice s.secretReg (8 * (n - 11)) 8 else slice s.hashReg (8 * (n - 43)) 8

def busy (s : State P) : Bool := s.state ≠ .idle

/-- The pins of `u_hash`. -/
def hashPins (s : State P) (k : κ) : Sha3ShakeStream.In κ :=
  { start := s.hashStart, mode := 3, outputLength := 72, inputByte := hashInputByte s
    inputValid := s.state = .feed, finalize := s.hashFinalize, outputReady := true, permutation := k }

def next (s0 : State P) (start : Option KdfIn) (k : κ) : State P :=
  let s := { s0 with
    hashStart := false, hashFinalize := false, done := false, hash := Sha3ShakeStream.next s0.hash (hashPins s0 k) }
  match s0.state with
  | .idle =>
    match start with
    | some x =>
      { s with secretReg := x.sharedSecret, hashReg := x.transcriptHash, material := 0, index := 0, state := .start }
    | none => s
  | .start => { s with hashStart := true, state := .feed }
  | .feed =>
    if Sha3ShakeStream.inputReady s0.hash then
      if s0.index = 74#7 then { s with state := .final } else { s with index := s0.index + 1#7 }
    else s
  | .final => { s with hashFinalize := true, index := 0, state := .collect }
  | .collect =>
    let s :=
      if Sha3ShakeStream.outputValid s0.hash then
        { s with
          material := patch s0.material (8 * s0.index.toNat) (Sha3ShakeStream.outputByte s0.hash)
          index := if s0.index < 71#7 then s0.index + 1#7 else s0.index }
      else s
    if s0.hash.done then { s with state := .idle, done := true } else s

/-- `pc_to_zb_key_o` and the three outputs after it. -/
def pcToZbKey (material : BitVec 576) : BitVec 256 := slice material 0 256

def pcToZbPrefix (material : BitVec 576) : BitVec 32 := slice material 256 32

def zbToPcKey (material : BitVec 576) : BitVec 256 := slice material 288 256

def zbToPcPrefix (material : BitVec 576) : BitVec 32 := slice material 544 32

end SessionKdf

end ZedSecure
