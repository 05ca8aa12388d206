import Mathlib.Logic.Function.Basic
import ZedSecure.Firmware.AeadHw
import ZedSecure.Text.Ascii

/-! `uart_secure_demo.c`: the command lines the board answers over UART. The secure channel under it
is a parameter, and so are the measured times. A byte of a line is a character. -/

namespace ZedSecure

open Ascii LittleEndian
open AeadHw (AEAD_HW_PACKET_BYTES AEAD_HW_TAG_BYTES)

namespace UartDemo

def UART_DEMO_SESSIONS : ℕ := AeadHw.AEAD_HW_MAX_SESSIONS
def UART_DEMO_LINE_BYTES : ℕ := 256

/-- `hex_nibble`; nothing is -1. -/
def hexNibble (value : Char) : Option ℕ :=
  if '0' ≤ value ∧ value ≤ '9' then some (value.toNat - '0'.toNat)
  else if 'a' ≤ value ∧ value ≤ 'f' then some (value.toNat - 'a'.toNat + 10)
  else if 'A' ≤ value ∧ value ≤ 'F' then some (value.toNat - 'A'.toNat + 10)
  else none

/-- The loop of `decode_hex_exact` over pairs of digits. -/
def decodePairs : Text → Option Bytes
  | high :: low :: rest =>
    match hexNibble high, hexNibble low, decodePairs rest with
    | some high, some low, some bs => some (UInt8.ofNat (high * 16 + low) :: bs)
    | _, _, _ => none
  | _ => some []

def decodeHexExact (text : Option Text) (bytes : ℕ) : Option Bytes :=
  match text with
  | none => none
  | some text => if text.length ≠ 2 * bytes then none else decodePairs text

def parseU64Hex (text : Option Text) : Option (BitVec 64) :=
  match text with
  | none => none
  | some text =>
    if text.length ≠ 16 then none
    else text.foldlM (fun result c => (hexNibble c).map fun nibble => result <<< 4 ||| BitVec.ofNat 64 nibble) 0

def parseDecimal (text : Option Text) (maximum : ℕ) : Option ℕ :=
  match text with
  | none => none
  | some [] => none
  | some text => text.foldlM (fun result c =>
      if c < '0' ∨ '9' < c then none
      else
        let result := 10 * result + (c.toNat - '0'.toNat)
        if maximum < result then none else some result) 0

def parseLength (text : Option Text) : Option ℕ := parseDecimal text AEAD_HW_PACKET_BYTES

def parseSlot (text : Option Text) : Option ℕ := parseDecimal text (UART_DEMO_SESSIONS - 1)

/-- `read_line`: the line as a C string, or nothing when it does not fit. -/
def readLine (received : Text) : Option Text :=
  if received.length < UART_DEMO_LINE_BYTES then some (received.takeWhile fun c => c.toNat ≠ 0) else none

/-- The results of `strtok(_, " ")`, one call after the other. -/
def tokens (line : Text) : List Text := words (fun c => c = ' ') line

/-- `write_u32_hex` and `write_u64_hex`: the bytes of a number, highest first. -/
def writeHex {k : ℕ} (value : BitVec (8 * k)) : Text :=
  hexBytes <| (List.range k).map fun index => ⟨(value >>> (8 * (k - 1 - index))).setWidth 8⟩

/-- `%d` -/
def signed (z : ℤ) : Text := if z < 0 then '-' :: decimal z.natAbs else decimal z.natAbs

/-- The codes of `aead_hw.h`. -/
def code : AeadHw.Err → ℤ
  | .timeout => -1
  | .auth => -2
  | .argument => -3

/-- A printed line. -/
def printed (ws : List Text) : Text := unwords ws ++ ['\r', '\n']

def makeSessionId (slot : ℕ) (generation : BitVec 32) : BitVec 32 :=
  0x60000000 ||| ((generation &&& 0x003fffff) <<< 6) ||| BitVec.ofNat 32 slot

/-- `secure_channel_hw_*` on a device. -/
structure Channel (σ : Type) where
  /-- The fixed KEM ciphertext; 0 is `MLKEM_HW_OK`. -/
  establish : σ → (slot : ℕ) → (sessionId : BitVec 32) → σ × ℤ
  decrypt : σ → (slot : ℕ) → (counter : BitVec 64) → (length : ℕ) → (ciphertext tag : Bytes) →
    σ × Except AeadHw.Err Bytes
  encrypt : σ → (slot : ℕ) → (message : Bytes) → (length : ℕ) →
    σ × Except AeadHw.Err (Bytes × Bytes × BitVec 64)

/-- `ticks_to_us` of the operations of one command. -/
structure Times where
  kem : BitVec 32
  rx : BitVec 32
  tx : BitVec 32

structure State (σ : Type) where
  device : σ
  active : ℕ → Bool
  generation : ℕ → BitVec 32
  sessionId : ℕ → BitVec 32
  stopped : Bool

variable {σ : Type} (D : Channel σ)

/-- `OPEN`, with `establish_demo_session`. -/
def handleOpen (s : State σ) (slot : ℕ) (t : Times) : State σ × Text :=
  let newId := makeSessionId slot (s.generation slot)
  let (device, result) := D.establish s.device slot newId
  let s := { s with device := device }
  if result ≠ 0 then (s, printed ["ERR".toList, "KEM".toList, decimal slot, signed result])
  else
    ({ s with
        active := Function.update s.active slot true
        sessionId := Function.update s.sessionId slot newId
        generation := Function.update s.generation slot (s.generation slot + 1) },
      printed ["READY".toList, decimal slot, writeHex (k := 4) newId, decimal t.kem.toNat])

def handleLeave (s : State σ) (slot : ℕ) : State σ × Text :=
  if !s.active slot then (s, printed ["ERR".toList, "NOSESSION".toList, decimal slot])
  else
    ({ s with active := Function.update s.active slot false, sessionId := Function.update s.sessionId slot 0 },
      printed ["LEFT".toList, decimal slot, writeHex (k := 4) (s.sessionId slot)])

/-- `DATA` after its fields are read: the echo of the packet. -/
def echo (s : State σ) (slot : ℕ) (counter : BitVec 64) (length : ℕ) (ciphertext tag : Bytes) (t : Times) :
    State σ × Text :=
  let (device, result) := D.decrypt s.device slot counter length ciphertext tag
  let s := { s with device := device }
  match result with
  | .error .auth => (s, printed ["ERR".toList, "AUTH".toList, decimal slot, decimal t.rx.toNat])
  | .error e => (s, printed ["ERR".toList, "RX".toList, decimal slot, signed (code e)])
  | .ok plaintext =>
    let (device, result) := D.encrypt s.device slot plaintext length
    let s := { s with device := device }
    match result with
    | .error e => (s, printed ["ERR".toList, "TX".toList, decimal slot, signed (code e)])
    | .ok (ciphertext, tag, counter) =>
      (s, printed ["RESP".toList, decimal slot, writeHex (k := 8) counter, decimal length, decimal t.rx.toNat,
        decimal t.tx.toNat, hexBytes ciphertext, hexBytes tag])

def handleData (s : State σ) (slot : ℕ) (fields : List Text) (t : Times) : State σ × Text :=
  if !s.active slot then (s, printed ["ERR".toList, "NOSESSION".toList, decimal slot])
  else
    match parseU64Hex fields[0]?, parseLength fields[1]?, decodeHexExact fields[2]? AEAD_HW_PACKET_BYTES,
      decodeHexExact fields[3]? AEAD_HW_TAG_BYTES with
    | some counter, some length, some ciphertext, some tag => echo D s slot counter length ciphertext tag t
    | _, _, _, _ => (s, printed ["ERR".toList, "FORMAT".toList])

/-- `write_status` -/
def writeStatus (active : ℕ → Bool) : Text :=
  let slots := (List.range UART_DEMO_SESSIONS).filter active
  let bitmap (from_ : ℕ) : BitVec 32 := slots.foldl (fun x slot =>
    if from_ ≤ slot ∧ slot < from_ + 32 then x ||| 1 <<< (slot - from_) else x) 0
  printed ["STATUS".toList, decimal slots.length, writeHex (k := 4) (bitmap 32), writeHex (k := 4) (bitmap 0)]

/-- One line of the loop of `uart_secure_demo_run`. -/
def command (s : State σ) (received : Text) (t : Times) : State σ × Text :=
  match readLine received with
  | none => (s, printed ["ERR".toList, "LINE".toList])
  | some line =>
    match tokens line with
    | [] => (s, [])
    | command :: rest =>
      if command = "QUIT".toList then ({ s with stopped := true }, printed ["BYE".toList])
      else if command = "STATUS".toList then (s, writeStatus s.active)
      else
        match parseSlot rest[0]? with
        | none => (s, printed ["ERR".toList, "SLOT".toList])
        | some slot =>
          if command = "OPEN".toList then handleOpen D s slot t
          else if command = "LEAVE".toList then handleLeave s slot
          else if command = "DATA".toList then handleData D s slot rest.tail t
          else (s, printed ["ERR".toList, "CMD".toList])

end UartDemo

end ZedSecure
