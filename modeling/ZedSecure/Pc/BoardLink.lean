import ZedSecure.Pc.SerialLink
import ZedSecure.Text.Ascii

/-! `board_link.SerialBoardLink.send_data`: the first link class, which builds its packets itself and
finds its counters in the session. -/

namespace ZedSecure

open Python
open Ascii hiding Text

namespace BoardLink

/-- `Session`, less the vehicle and the measured time that `send_data` does not read. -/
structure Session where
  sid : ℕ
  txKey : Bytes
  txPrefix : Bytes
  rxKey : Bytes
  rxPrefix : Bytes
  txCounter : ℕ
  rxCounter : ℕ
  deriving DecidableEq

/-- What a call ends with instead of a result. -/
inductive Raised where
  /-- `int.to_bytes` of a number that is too big. -/
  | overflow
  | exn (e : Exn)
  deriving DecidableEq

/-- `x.to_bytes(k, "big")` -/
def toBytes (k x : ℕ) : Except Raised Bytes :=
  if x < 256 ^ k then .ok (toBytesBig k x) else .error .overflow

def nonce (pre : Bytes) (counter : ℕ) : Except Raised Bytes := do
  return pre ++ (← toBytes 8 counter)

/-- `_aad`; `bytes` refuses a length that is not a byte. -/
def aad (sid counter : ℕ) (length : ℤ) : Except Raised Bytes := do
  let sid ← toBytes 4 sid
  let counter ← toBytes 8 counter
  if length < 0 ∨ 255 < length then throw (.exn (.valueError "bytes must be in range(0, 256)"))
  return sid ++ counter ++ [UInt8.ofNat length.toNat, 0, 0, 0]

def raise {α : Type} (e : Exn) : Except Raised α := .error (.exn e)

/-- An optional value, or the exception for its absence. -/
def orRaise {α : Type} (e : Exn) : Option α → Except Raised α
  | some a => .ok a
  | none => raise e

def RESPONSE_PREFIXES : List Text :=
  ["READY ", "RESP ", "ERR ", "BYE", "LEFT ", "STATUS "].map String.toList

/-- `_read_protocol_line`: `uart` is the non-empty reads before the deadline. -/
def readProtocolLine (uart : List Bytes) : Option Text :=
  (uart.map fun raw => strip (decodeAscii raw)).find? fun line =>
    RESPONSE_PREFIXES.any (·.isPrefixOf line)

section Call

variable (aead : Aead)

/-- The `DATA` line of a call, or what it raises before it sends. -/
def request (session : Session) (slot : ℕ) (payload : Bytes) (tamper : Bool) : Except Raised Text := do
  if Pc.PACKET_BYTES < payload.length then raise (.valueError "payload exceeds 64 bytes")
  let padded := payload ++ List.replicate (Pc.PACKET_BYTES - payload.length) 0
  let nonce ← nonce session.txPrefix session.txCounter
  let aad ← aad session.sid session.txCounter payload.length
  let frame := aead.encrypt session.txKey nonce padded aad
  let ciphertext := frame.take (frame.length - 16)
  let ciphertext := if tamper then Pc.corrupt ciphertext else ciphertext
  return unwords ["DATA".toList, decimal slot, hexPadded 16 session.txCounter, decimal payload.length,
    hexBytes ciphertext, hexBytes (frame.drop (frame.length - 16))]

/-- The result of a tampered frame. -/
def tamperResult (line : Text) : Except Raised Pc.SendResult := do
  let fields := split line
  let blocked := fields.take 2 = ["ERR".toList, "AUTH".toList]
  let rxUs ← if blocked ∧ 4 ≤ fields.length then orRaise .invalidLiteral (int 10 (fields.getD 3 [])) else pure 0
  return ⟨false, blocked, line, rxUs, 0⟩

/-- The checks before the counters move; the fields of a good `RESP`. -/
def verifyEcho (session : Session) (slot : ℕ) (payload : Bytes) (line : Text) : Except Raised (List Text) := do
  if "ERR ".toList.isPrefixOf line then raise (.runtimeError (String.ofList line))
  let fields := split line
  if fields.length ≠ 8 ∨ fields.getD 0 [] ≠ "RESP".toList then
    raise (.runtimeError ("malformed RESP: " ++ String.ofList line))
  let responseSlot ← orRaise .invalidLiteral (int 10 (fields.getD 1 []))
  let responseCounter ← orRaise .invalidLiteral (int 16 (fields.getD 2 []))
  let responseLength ← orRaise .invalidLiteral (int 10 (fields.getD 3 []))
  if responseSlot ≠ slot ∨ responseCounter ≠ session.rxCounter then
    raise (.runtimeError "response slot/counter mismatch")
  let nonce ← nonce session.rxPrefix session.rxCounter
  let ciphertext ← orRaise .invalidLiteral (fromHex (fields.getD 6 []))
  let tag ← orRaise .invalidLiteral (fromHex (fields.getD 7 []))
  let aad ← aad session.sid session.rxCounter responseLength
  let response ← orRaise .invalidTag (aead.decrypt session.rxKey nonce (ciphertext ++ tag) aad)
  if response.take responseLength.toNat ≠ payload then
    raise (.runtimeError "secure echo plaintext mismatch")
  return fields

/-- The result, whose two times are read after the counters have moved. -/
def echoResult (fields : List Text) : Except Raised Pc.SendResult := do
  let rxUs ← orRaise .invalidLiteral (int 10 (fields.getD 4 []))
  let txUs ← orRaise .invalidLiteral (int 10 (fields.getD 5 []))
  return ⟨true, false, "secure echo verified".toList, rxUs, txUs⟩

def Session.advance (session : Session) : Session :=
  { session with txCounter := session.txCounter + 1, rxCounter := session.rxCounter + 1 }

/-- What a call does with the reads that came before its deadline. -/
def receive (name : String) (session : Session) (slot : ℕ) (payload : Bytes) (tamper : Bool) (uart : List Bytes) :
    Session × Except Raised Pc.SendResult :=
  match readProtocolLine uart with
  | none => (session, raise (.timeoutError s!"Board {name} response timeout"))
  | some line =>
    if tamper then (session, tamperResult line)
    else
      match verifyEcho aead session slot payload line with
      | .error e => (session, .error e)
      | .ok fields => (session.advance, echoResult fields)

end Call

end BoardLink

end ZedSecure
