import ZedSecure.Crypto.LittleEndian
import ZedSecure.Rtl.TrafficPort

/-! `aead_hw.c`: the driver of the traffic port. Every access to the device comes after any number
of clock edges, and every poll loop ends at its limit. -/

namespace ZedSecure

open Clocked LittleEndian

namespace AeadHw

def REG_CONTROL : BitVec 9 := 0x004
def REG_STATUS : BitVec 9 := 0x008
def REG_REQUEST_SLOT : BitVec 9 := 0x00c
def REG_DATA_LEN : BitVec 9 := 0x010
def REG_COUNTER_LO : BitVec 9 := 0x014
def REG_COUNTER_HI : BitVec 9 := 0x018
def REG_RSP_COUNTER_LO : BitVec 9 := 0x01c
def REG_RSP_COUNTER_HI : BitVec 9 := 0x020
def REG_INPUT_DATA_BASE : BitVec 9 := 0x100
def REG_INPUT_TAG_BASE : BitVec 9 := 0x140
def REG_OUTPUT_DATA_BASE : BitVec 9 := 0x180
def REG_OUTPUT_TAG_BASE : BitVec 9 := 0x1c0

def CONTROL_START : BitVec 32 := 1
def CONTROL_DECRYPT : BitVec 32 := 2
def CONTROL_CLEAR_DONE : BitVec 32 := 0x100

def STATUS_BUSY : BitVec 32 := 0x01
def STATUS_DONE : BitVec 32 := 0x02
def STATUS_AUTH_OK : BitVec 32 := 0x04
def STATUS_ERROR : BitVec 32 := 0x08
def STATUS_CFG_PENDING : BitVec 32 := 0x10
def STATUS_REQ_PENDING : BitVec 32 := 0x20

def AEAD_HW_MAX_SESSIONS : ℕ := 64
def AEAD_HW_PACKET_BYTES : ℕ := 64
def AEAD_HW_TAG_BYTES : ℕ := 16

/-- The codes below `AEAD_HW_OK` that the two packet functions return. -/
inductive Err where
  | timeout | auth | argument
  deriving DecidableEq

/-- A device with the registers of the traffic port: a clock edge, an edge at which a write takes
effect, and the word a read at an edge brings. -/
class Device (σ : Type) (κ : outParam Type) where
  tick : σ → κ → σ
  write : σ → BitVec 9 → BitVec 32 → κ → σ
  read : σ → BitVec 9 → κ → BitVec 32

/-- The edges before an access and the pins at it. -/
structure Access (κ : Type) where
  before : List κ
  edge : κ

/-- The device and the number of accesses made to it. -/
structure BusOf (σ : Type) where
  port : σ
  accesses : ℕ

instance {n : ℕ} {aead : EngineIn → EngineOut} {κ : Type} {E : StartDone aead κ} :
    Device (TrafficPort.State n E) κ := ⟨TrafficPort.tick, TrafficPort.write, TrafficPort.read⟩

abbrev Bus (n : ℕ) {aead : EngineIn → EngineOut} {κ : Type} (E : StartDone aead κ) : Type :=
  BusOf (TrafficPort.State n E)

section Driver

variable {σ κ : Type} [Device σ κ] (time : ℕ → Access κ)

/-- The device when the next access takes effect. -/
def BusOf.waited (b : BusOf σ) : σ := (time b.accesses).before.foldl Device.tick b.port

def mmioWrite (b : BusOf σ) (offset : BitVec 9) (value : BitVec 32) : BusOf σ :=
  ⟨Device.write (b.waited time) offset value (time b.accesses).edge, b.accesses + 1⟩

def mmioRead (b : BusOf σ) (offset : BitVec 9) : BusOf σ × BitVec 32 :=
  let k := (time b.accesses).edge
  (⟨Device.tick (b.waited time) k, b.accesses + 1⟩, Device.read (b.waited time) offset k)

def load32Le (bs : Bytes) : BitVec 32 :=
  let byte j := (bs.getD j 0).toBitVec.setWidth 32
  byte 0 ||| byte 1 <<< 8 ||| byte 2 <<< 16 ||| byte 3 <<< 24

def store32Le (value : BitVec 32) : Bytes :=
  [⟨value.setWidth 8⟩, ⟨(value >>> 8).setWidth 8⟩, ⟨(value >>> 16).setWidth 8⟩, ⟨(value >>> 24).setWidth 8⟩]

/-- The status that ended the loop, or nothing at the limit. -/
def waitStatus (setMask clearMask : BitVec 32) : ℕ → BusOf σ → BusOf σ × Option (BitVec 32)
  | 0, b => (b, none)
  | limit + 1, b =>
    let (b, status) := mmioRead time b REG_STATUS
    if status &&& setMask = setMask ∧ status &&& clearMask = 0 then (b, some status)
    else waitStatus setMask clearMask limit b

def waitRequestIdle (limit : ℕ) (b : BusOf σ) : BusOf σ × Option (BitVec 32) :=
  waitStatus time 0 (STATUS_BUSY ||| STATUS_REQ_PENDING ||| STATUS_CFG_PENDING) limit b

/-- Word `i` of the packet, zero behind the message. -/
def packetWord (message : Bytes) (messageLength i : ℕ) : BitVec 32 :=
  load32Le <| (List.range 4).map fun j =>
    if 4 * i + j < messageLength then message.getD (4 * i + j) 0 else 0

def writePacket (b : BusOf σ) (message : Bytes) (messageLength : ℕ) : BusOf σ :=
  (List.range 16).foldl (fun b i =>
    mmioWrite time b (TrafficFrontend.wordReg REG_INPUT_DATA_BASE i) (packetWord message messageLength i)) b

def writeTag (b : BusOf σ) (tag : Bytes) : BusOf σ :=
  (List.range 4).foldl (fun b i =>
    mmioWrite time b (TrafficFrontend.wordReg REG_INPUT_TAG_BASE i) (load32Le (tag.drop (4 * i)))) b

/-- The loop over `count` words from `base` on. -/
def readWords (base : BitVec 9) (count : ℕ) (b : BusOf σ) : BusOf σ × Bytes :=
  (List.range count).foldl (fun (b, out) i =>
    let (b, word) := mmioRead time b (TrafficFrontend.wordReg base i)
    (b, out ++ store32Le word)) (b, [])

def readPacket (b : BusOf σ) : BusOf σ × Bytes := readWords time REG_OUTPUT_DATA_BASE 16 b

/-- The registers every request begins with. -/
def writeHead (b : BusOf σ) (slot messageLength : ℕ) : BusOf σ :=
  let b := mmioWrite time b REG_CONTROL CONTROL_CLEAR_DONE
  let b := mmioWrite time b REG_REQUEST_SLOT (BitVec.ofNat 32 slot)
  mmioWrite time b REG_DATA_LEN (BitVec.ofNat 32 messageLength)

/-- The wait after START: nothing, or the error it ends with. -/
def waitDone (limit : ℕ) (b : BusOf σ) : BusOf σ × Option Err :=
  match waitStatus time STATUS_DONE 0 limit b with
  | (b, none) => (b, some .timeout)
  | (b, some status) =>
    if status &&& STATUS_AUTH_OK = 0 ∨ status &&& STATUS_ERROR ≠ 0 then (b, some .auth) else (b, none)

/-- `aead_hw_encrypt`: ciphertext, tag and packet counter. -/
def encrypt (limit : ℕ) (b : BusOf σ) (slot : ℕ) (message : Bytes) (messageLength : ℕ) :
    BusOf σ × Except Err (Bytes × Bytes × BitVec 64) :=
  if AEAD_HW_MAX_SESSIONS ≤ slot ∨ 64 < messageLength then (b, .error .argument)
  else
    match waitRequestIdle time limit b with
    | (b, none) => (b, .error .timeout)
    | (b, some _) =>
      let b := writeHead time b slot messageLength
      let b := writePacket time b message messageLength
      let b := mmioWrite time b REG_CONTROL CONTROL_START
      match waitDone time limit b with
      | (b, some e) => (b, .error e)
      | (b, none) =>
        let (b, ciphertext) := readPacket time b
        let (b, tag) := readWords time REG_OUTPUT_TAG_BASE 4 b
        let (b, lo) := mmioRead time b REG_RSP_COUNTER_LO
        let (b, hi) := mmioRead time b REG_RSP_COUNTER_HI
        (b, .ok (ciphertext, tag, lo.setWidth 64 ||| hi.setWidth 64 <<< 32))

/-- `aead_hw_decrypt`: the plaintext. -/
def decrypt (limit : ℕ) (b : BusOf σ) (slot : ℕ) (packetCounter : BitVec 64) (messageLength : ℕ)
    (ciphertext tag : Bytes) : BusOf σ × Except Err Bytes :=
  if AEAD_HW_MAX_SESSIONS ≤ slot ∨ 64 < messageLength then (b, .error .argument)
  else
    match waitRequestIdle time limit b with
    | (b, none) => (b, .error .timeout)
    | (b, some _) =>
      let b := writeHead time b slot messageLength
      let b := mmioWrite time b REG_COUNTER_LO (packetCounter.setWidth 32)
      let b := mmioWrite time b REG_COUNTER_HI ((packetCounter >>> 32).setWidth 32)
      let b := writePacket time b ciphertext 64
      let b := writeTag time b tag
      let b := mmioWrite time b REG_CONTROL (CONTROL_START ||| CONTROL_DECRYPT)
      match waitDone time limit b with
      | (b, some e) => (b, .error e)
      | (b, none) =>
        let (b, plaintext) := readPacket time b
        (b, .ok plaintext)

/-- The arguments of a call. A buffer given as NULL is `none`, and `out` says that none of the output
buffers is NULL. -/
inductive Call where
  | encrypt (slot : ℕ) (message : Option Bytes) (messageLength : ℕ) (out : Bool)
  | decrypt (slot : ℕ) (packetCounter : BitVec 64) (messageLength : ℕ) (ciphertext tag : Option Bytes) (out : Bool)

/-- What a call leaves in the output buffers. -/
inductive Output where
  | sealed (ciphertext tag : Bytes) (packetCounter : BitVec 64)
  | opened (plaintext : Bytes)
  deriving DecidableEq

def Call.run (limit : ℕ) (b : BusOf σ) : Call → BusOf σ × Except Err Output
  | .encrypt slot (some message) messageLength true =>
    let (b, result) := AeadHw.encrypt time limit b slot message messageLength
    (b, result.map fun out => .sealed out.1 out.2.1 out.2.2)
  | .decrypt slot packetCounter messageLength (some ciphertext) (some tag) true =>
    let (b, result) := AeadHw.decrypt time limit b slot packetCounter messageLength ciphertext tag
    (b, result.map .opened)
  | _ => (b, .error .argument)

end Driver

end AeadHw

end ZedSecure
