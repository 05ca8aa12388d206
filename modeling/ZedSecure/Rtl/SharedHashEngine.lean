import ZedSecure.Rtl.ProtectedTop
import ZedSecure.Rtl.Sha3ShakeStream

/-! `mlkem_shared_hash_engine`: one sponge for all hashes of a handshake. A two-word queue runs
ahead of the byte that is fed, and the output is collected as a digest or sampled into
coefficients of a polynomial. -/

namespace ZedSecure

open Clocked

/-- `mlkem_cbd_eta2_group`: coefficient `i` of four bytes. -/
def cbdEta2 (bytes : BitVec 32) (i : ℕ) : BitVec 16 :=
  let d := (bytes &&& 0x55555555) + ((bytes >>> 1) &&& 0x55555555)
  (slice d (4 * i) 2).setWidth 16 - (slice d (4 * i + 2) 2).setWidth 16

/-- `mlkem_cbd_eta3_group`: coefficient `i` of three bytes. -/
def cbdEta3 (bytes : BitVec 24) (i : ℕ) : BitVec 16 :=
  let d := (bytes &&& 0x249249) + ((bytes >>> 1) &&& 0x249249) + ((bytes >>> 2) &&& 0x249249)
  (slice d (6 * i) 3).setWidth 16 - (slice d (6 * i + 3) 3).setWidth 16

/-- `mlkem_rejection_pair` -/
def rejectionPair (bytes : BitVec 24) : (BitVec 12 × Bool) × (BitVec 12 × Bool) :=
  let value0 := slice bytes 0 12
  let value1 := slice bytes 12 12
  ((value0, value0 < 3329), (value1, value1 < 3329))

namespace SharedHashEngine

def C_HPK : BitVec 3 := 0
def C_G : BitVec 3 := 1
def C_J : BitVec 3 := 2
def C_MATRIX : BitVec 3 := 3
def C_NOISE : BitVec 3 := 4
def C_TRANSCRIPT : BitVec 3 := 5
def C_KDF : BitVec 3 := 6

inductive St where
  | idle | hstart | feed | final | out | check | w0 | w1 | nwrite | drain | done
  deriving DecidableEq

variable {κ : Type} (P : StartDone Fips202.keccakF κ)

structure State where
  state : St
  cmd : BitVec 3
  d0 : BitVec 256
  d1 : BitVec 256
  sid : BitVec 32
  x : BitVec 8
  y : BitVec 8
  nonce : BitVec 8
  eta : Bool
  slot : BitVec 4
  inIndex : BitVec 11
  inputLen : BitVec 11
  fetchIndex : BitVec 11
  outIndex : BitVec 7
  byteCount : BitVec 2
  coeffCount : BitVec 8
  writeIndex : BitVec 3
  group : BitVec 32
  wordCur : BitVec 32
  wordNxt : BitVec 32
  curVal : Bool
  nxtVal : Bool
  fetchWait : Bool
  feedValid : Bool
  feedByte : BitVec 8
  hashFinished : Bool
  error : Bool
  digest : BitVec 576
  hash : Sha3ShakeStream.State P

def State.init : State P :=
  { state := .idle, cmd := 0, d0 := 0, d1 := 0, sid := 0, x := 0, y := 0, nonce := 0, eta := false
    slot := 0, inIndex := 0, inputLen := 0, fetchIndex := 0, outIndex := 0, byteCount := 0
    coeffCount := 0, writeIndex := 0, group := 0, wordCur := 0, wordNxt := 0, curVal := false
    nxtVal := false, fetchWait := false, feedValid := false, feedByte := 0, hashFinished := false
    error := false, digest := 0, hash := .init P }

variable {P}

def memoryInput (c : BitVec 3) (n : BitVec 11) : Bool :=
  c = C_HPK || (c = C_J && 32 ≤ n) || (c = C_TRANSCRIPT && n < 1568)

/-- The bytes of "ZYNQ-PQC-v1". -/
def domainByte (n : ℕ) : BitVec 8 :=
  match n with
  | 0 => 0x5a | 1 => 0x59 | 2 => 0x4e | 3 => 0x51 | 4 => 0x2d | 5 => 0x50 | 6 => 0x51 | 7 => 0x43
  | 8 => 0x2d | 9 => 0x76 | _ => 0x31

def mode (c : BitVec 3) : BitVec 2 :=
  if c = C_G then 1 else if c = C_J then 3 else if c = C_MATRIX then 2 else if c = C_NOISE then 3
  else if c = C_KDF then 3 else 0

def outLen (c : BitVec 3) (eta : Bool) : BitVec 16 :=
  if c = C_G then 64 else if c = C_J then 32 else if c = C_MATRIX then 1024
  else if c = C_NOISE then if eta then 192 else 128 else if c = C_KDF then 72 else 32

def inputLenOf (c : BitVec 3) : BitVec 11 :=
  if c = C_HPK then 800 else if c = C_G then 64 else if c = C_J then 800 else if c = C_MATRIX then 34
  else if c = C_NOISE then 33 else if c = C_TRANSCRIPT then 1572 else 75

/-- The word at `fetch_index` is in the CT memory. -/
def fetchesCt (s : State P) : Bool :=
  s.cmd = C_J || (s.cmd = C_TRANSCRIPT && 800 ≤ s.fetchIndex && s.fetchIndex < 1568)

def skAddr (s : State P) : BitVec 9 :=
  if s.cmd = C_HPK || (s.cmd = C_TRANSCRIPT && s.fetchIndex < 800) then
    ((768 + s.fetchIndex.setWidth 32) >>> 2).setWidth 9
  else 0

def ctAddr (s : State P) : BitVec 8 :=
  if s.cmd = C_J then ((s.fetchIndex.setWidth 32 - 32) >>> 2).setWidth 8
  else if fetchesCt s then ((s.fetchIndex.setWidth 32 - 800) >>> 2).setWidth 8
  else 0

def fetchWord (s : State P) (i : HashIn) : BitVec 32 := if fetchesCt s then i.ctRdata else i.skRdata

/-- The operand byte at `in_index`. -/
def operandByte (s : State P) : BitVec 8 :=
  let n := s.inIndex.toNat
  let low := slice s.d0 (8 * (n % 32)) 8
  if s.cmd = C_G then if n < 32 then low else slice s.d1 (8 * (n % 32)) 8
  else if s.cmd = C_J then low
  else if s.cmd = C_MATRIX then if n < 32 then low else if n = 32 then s.x else s.y
  else if s.cmd = C_NOISE then if n < 32 then low else s.nonce
  else if s.cmd = C_TRANSCRIPT then
    if n = 1568 then slice s.sid 24 8 else if n = 1569 then slice s.sid 16 8
    else if n = 1570 then slice s.sid 8 8 else slice s.sid 0 8
  else if n < 11 then domainByte n
  else if n < 43 then slice s.d0 (8 * (n - 11)) 8
  else slice s.d1 (8 * (n - 43)) 8

def inbyte (s : State P) : BitVec 8 :=
  if memoryInput s.cmd s.inIndex then slice s.wordCur (8 * (s.inIndex.toNat % 4)) 8 else operandByte s

def avail (s : State P) : Bool :=
  s.inIndex < s.inputLen && (!memoryInput s.cmd s.inIndex || s.curVal)

def iready (s : State P) : Bool := Sha3ShakeStream.inputReady s.hash

def load (s : State P) : Bool := s.state = .feed && (!s.feedValid || iready s)

def take (s : State P) : Bool := load s && avail s

def wordShift (s : State P) : Bool :=
  take s && memoryInput s.cmd s.inIndex && s.inIndex.toNat % 4 = 3

def fetchEn (s : State P) : Bool :=
  s.state = .feed && !s.fetchWait && memoryInput s.cmd s.fetchIndex && s.fetchIndex < s.inputLen &&
    (!s.curVal || !s.nxtVal || wordShift s)

def oready (s : State P) : Bool := s.state = .out || s.state = .drain

def hdone (s : State P) : Bool := s.hash.done

/-- The pins of the sponge. -/
def hashPins (s : State P) (k : κ) : Sha3ShakeStream.In κ :=
  { start := s.state = .hstart, mode := mode s.cmd, outputLength := outLen s.cmd s.eta
    inputByte := s.feedByte, inputValid := s.feedValid, finalize := s.state = .final
    outputReady := oready s, permutation := k }

def polyPort (s : State P) : PolyPort where
  we := s.state = .w0 || s.state = .w1 || s.state = .nwrite
  addr := BitVec.ofNat 12 (s.slot.toNat * 256 + s.coeffCount.toNat)
  wdata :=
    let r := rejectionPair (slice s.group 0 24)
    if s.state = .w0 then r.1.1.setWidth 16
    else if s.state = .w1 then r.2.1.setWidth 16
    else if s.eta then cbdEta3 (slice s.group 0 24) s.writeIndex.toNat
    else cbdEta2 s.group s.writeIndex.toNat

def output (s : State P) : HashOut :=
  { busy := s.state ≠ .idle, done := s.state = .done, error := s.error, digest := s.digest
    skAddr := skAddr s, ctAddr := ctAddr s, poly := polyPort s }

/-- The registers after a start. -/
def loaded (f : State P) (i : HashIn) : State P :=
  { f with
    cmd := i.job.command, d0 := i.job.data0, d1 := i.job.data1, sid := i.sessionId, x := i.job.x
    y := i.job.y, nonce := i.job.nonce, eta := i.job.eta3, slot := i.job.dstSlot, inIndex := 0
    outIndex := 0, byteCount := 0, coeffCount := 0, writeIndex := 0, group := 0, digest := 0
    error := false, hashFinished := false, fetchIndex := if i.job.command = C_J then 32 else 0
    curVal := false, nxtVal := false, fetchWait := false, feedValid := false
    inputLen := inputLenOf i.job.command, state := .hstart }

/-- The next word read is the one in front. -/
def frontFree (s : State P) : Bool := !s.curVal || (wordShift s && !s.nxtVal)

/-- The word queue: a used word leaves it, a word read comes in. -/
def queueNext (s f : State P) (i : HashIn) : State P :=
  let f := { f with fetchWait := fetchEn s }
  let f := if fetchEn s then { f with fetchIndex := s.fetchIndex + 4 } else f
  let f := if wordShift s then
    { f with wordCur := s.wordNxt, curVal := s.nxtVal, nxtVal := false } else f
  if fetchEn s then
    if frontFree s then { f with wordCur := fetchWord s i, curVal := true }
    else { f with wordNxt := fetchWord s i, nxtVal := true }
  else f

/-- The byte in front of the sponge. -/
def byteNext (s f : State P) : State P :=
  if take s then { f with feedByte := inbyte s, feedValid := true, inIndex := s.inIndex + 1 }
  else if load s then { f with feedValid := false }
  else f

/-- `FEED` -/
def feedNext (s f : State P) (i : HashIn) : State P :=
  let f := byteNext s (queueNext s f i)
  if s.inIndex = s.inputLen && !s.feedValid then { f with state := .final } else f

/-- `OUT`: a byte into the digest, or into the group that is sampled from. -/
def outNext (s f : State P) : State P :=
  if Sha3ShakeStream.outputValid s.hash then
    let obyte := Sha3ShakeStream.outputByte s.hash
    if s.cmd = C_MATRIX || s.cmd = C_NOISE then
      let f := { f with group := patch s.group (8 * s.byteCount.toNat) obyte }
      let last : BitVec 2 := if s.cmd = C_MATRIX then 2 else if s.eta then 2 else 3
      if s.byteCount = last then
        { f with byteCount := 0, writeIndex := 0, state := if s.cmd = C_MATRIX then .check else .nwrite }
      else { f with byteCount := s.byteCount + 1 }
    else
      let f := { f with digest := patch s.digest (8 * s.outIndex.toNat) obyte }
      let f := if s.outIndex < 71 then { f with outIndex := s.outIndex + 1 } else f
      if hdone s then { f with state := .done } else f
  else if hdone s then { f with error := s.error || s.cmd = C_MATRIX, state := .done }
  else f

/-- One clock edge. -/
def next (s : State P) (i : HashIn) (k : κ) : State P :=
  let f := { s with
    hashFinished := s.hashFinished || hdone s, hash := Sha3ShakeStream.next s.hash (hashPins s k) }
  let (r0, r1) := rejectionPair (slice s.group 0 24)
  match s.state with
  | .idle =>
    if i.start then loaded f i else f
  | .hstart => { f with state := .feed }
  | .feed => feedNext s f i
  | .final => { f with outIndex := 0, byteCount := 0, group := 0, state := .out }
  | .out => outNext s f
  | .check => { f with state := if r0.2 then .w0 else if r1.2 then .w1 else .out }
  | .w0 =>
    if s.coeffCount = 255 then { f with state := .drain }
    else { f with coeffCount := s.coeffCount + 1, state := if r1.2 then .w1 else .out }
  | .w1 =>
    if s.coeffCount = 255 then { f with state := .drain }
    else { f with coeffCount := s.coeffCount + 1, state := .out }
  | .nwrite =>
    if s.coeffCount = 255 then { f with state := .drain }
    else
      let f := { f with coeffCount := s.coeffCount + 1 }
      let last : BitVec 3 := if s.eta then 3 else 7
      if s.writeIndex = last then { f with writeIndex := 0, state := .out }
      else { f with writeIndex := s.writeIndex + 1 }
  | .drain => if hdone s || s.hashFinished then { f with state := .done } else f
  | .done => { f with state := .idle }

variable (P)

def design : Design (State P) (HashIn × κ) := ⟨fun _ => .init P, fun s i => next s i.1 i.2⟩

/-- The engine in the top, with the permutation's timing given for all cycles. -/
def unit (timing : ℕ → κ) : HashUnit where
  σ := State P × ℕ
  rst s := (.init P, s.2)
  next s i := (next s.1 i (timing s.2), s.2 + 1)
  out s := output s.1

end SharedHashEngine

end ZedSecure
