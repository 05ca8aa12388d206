import Mathlib.Logic.Function.Basic
import ZedSecure.Python.Text

/-! The PC side of the board link: `pqc_crypto.seal` and `open_response`, and
`SerialBoardLink.send_data` over a UART that delivers any bytes or none. The AEAD
package is a parameter. -/

namespace ZedSecure

open Python

/-- `ChaCha20Poly1305(key).encrypt` and `.decrypt`; `none` is `InvalidTag`. -/
structure Aead where
  encrypt : (key nonce data aad : Bytes) → Bytes
  decrypt : (key nonce data aad : Bytes) → Option Bytes
  encrypt_length : ∀ key nonce data aad, (encrypt key nonce data aad).length = data.length + 16

namespace Pc

def PACKET_BYTES : ℕ := 64

structure SessionKeys where
  sid : ℕ
  pcToBoardKey : Bytes
  pcToBoardPrefix : Bytes
  boardToPcKey : Bytes
  boardToPcPrefix : Bytes
  txCounter : ℕ
  rxCounter : ℕ
  deriving DecidableEq

/-- `_nonce` -/
def nonce (pre : Bytes) (counter : ℕ) : Except Exn Bytes :=
  if pre.length ≠ 4 ∨ 2 ^ 64 ≤ counter then .error (.valueError "Invalid nonce prefix/counter")
  else .ok (pre ++ toBytesBig 8 counter)

/-- `_aad` -/
def aad (sid counter length : ℕ) : Bytes :=
  toBytesBig 4 sid ++ toBytesBig 8 counter ++ [UInt8.ofNat length, 0, 0, 0]

/-- `seal`: length, ciphertext and tag of the next PC to board packet; the counters stay. -/
def sealPacket (aead : Aead) (keys : SessionKeys) (plaintext : Bytes) :
    Except Exn (ℕ × Bytes × Bytes) := do
  if PACKET_BYTES < plaintext.length then
    throw (.valueError "Demo payload may be at most 64 bytes")
  let length := plaintext.length
  let padded := plaintext ++ List.replicate (PACKET_BYTES - length) 0
  let nonce ← nonce keys.pcToBoardPrefix keys.txCounter
  let frame := aead.encrypt keys.pcToBoardKey nonce padded (aad keys.sid keys.txCounter length)
  return (length, frame.take (frame.length - 16), frame.drop (frame.length - 16))

def openResponse (aead : Aead) (keys : SessionKeys) (counter : ℕ) (length : ℤ)
    (ciphertext tag : Bytes) : Except Exn Bytes := do
  if ¬ (0 ≤ length ∧ length ≤ PACKET_BYTES) then
    throw (.valueError "Invalid response length")
  if ciphertext.length ≠ PACKET_BYTES ∨ tag.length ≠ 16 then
    throw (.valueError "Invalid response ciphertext/tag length")
  let nonce ← nonce keys.boardToPcPrefix counter
  let plain ← orRaise .invalidTag <| aead.decrypt keys.boardToPcKey nonce (ciphertext ++ tag)
    (aad keys.sid counter length.toNat)
  return plain.take length.toNat

def RESPONSE_PREFIXES : List Text :=
  ["HELLO ", "RESET ", "READY ", "RESP ", "ERR ", "BYE", "LEFT ", "STATUS ", "SWKEM "].map
    String.toList

/-- `_read_protocol_line`: `uart` is the non-empty reads before the deadline. -/
def readProtocolLine (uart : List Bytes) : Option Text :=
  (uart.map fun raw => strip (decodeAscii raw)).find? fun line =>
    RESPONSE_PREFIXES.any (·.isPrefixOf line)

/-- One call, with what the UART delivers while it waits. -/
structure Call where
  slot : ℕ
  payload : Bytes
  tamper : Bool
  uart : List Bytes

/-- The result, less the measured round trip time. -/
structure SendResult where
  ok : Bool
  blocked : Bool
  detail : Text
  rxUs : ℤ
  txUs : ℤ
  deriving DecidableEq

/-- `corrupt[0] ^= 0x01` -/
def corrupt : Bytes → Bytes
  | [] => []
  | b :: bs => (b ^^^ 1) :: bs

/-- The answer to a tampered frame: `ERR AUTH slot us` means it was blocked. -/
def tamperResult (line : Text) : Except Exn SendResult := do
  let fields := split line
  let blocked := fields.length = 4 && fields.take 2 = ["ERR".toList, "AUTH".toList]
  let rxUs ← if blocked then orRaise .invalidLiteral (int 10 (fields.getD 3 [])) else pure 0
  return ⟨false, blocked, line, rxUs, 0⟩

/-- The checks from `_reject_error` to the echo comparison; the fields of a good `RESP`. -/
def verifyEcho (aead : Aead) (keys : SessionKeys) (slot : ℕ) (payload : Bytes) (line : Text) :
    Except Exn (List Text) := do
  let malformed : Exn := .runtimeError ("Malformed RESP: " ++ String.ofList line)
  if "ERR ".toList.isPrefixOf line then throw (.runtimeError (String.ofList line))
  let fields := split line
  if fields.length ≠ 8 ∨ fields.getD 0 [] ≠ "RESP".toList then throw malformed
  let slotField ← orRaise .invalidLiteral (int 10 (fields.getD 1 []))
  if slotField ≠ slot then throw malformed
  let responseCounter ← orRaise .invalidLiteral (int 16 (fields.getD 2 []))
  if responseCounter ≠ keys.rxCounter then
    throw (.runtimeError "Board response counter mismatch")
  let length ← orRaise .invalidLiteral (int 10 (fields.getD 3 []))
  let ciphertext ← orRaise .invalidLiteral (fromHex (fields.getD 6 []))
  let tag ← orRaise .invalidLiteral (fromHex (fields.getD 7 []))
  let response ← openResponse aead keys keys.rxCounter length ciphertext tag
  if response ≠ payload then
    throw (.runtimeError "authenticated echo plaintext mismatch")
  return fields

/-- The result after the counters have moved; the two times are read last. -/
def echoResult (fields : List Text) : Except Exn SendResult := do
  let rxUs ← orRaise .invalidLiteral (int 10 (fields.getD 4 []))
  let txUs ← orRaise .invalidLiteral (int 10 (fields.getD 5 []))
  return ⟨true, false, "secure echo verified".toList, rxUs, txUs⟩

def SessionKeys.advance (keys : SessionKeys) : SessionKeys :=
  { keys with txCounter := keys.txCounter + 1, rxCounter := keys.rxCounter + 1 }

end Pc

end ZedSecure
