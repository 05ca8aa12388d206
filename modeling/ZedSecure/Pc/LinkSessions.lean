import Mathlib.Data.Int.Bitwise
import ZedSecure.Pc.DataLoop
import ZedSecure.Pc.KeySchedule

/-! The other calls of `board_link.SerialBoardLink`, `open_session`, `leave_session` and `status`, and runs of all four
against `uart_secure_demo.c`. -/

namespace ZedSecure

open Python Fips202
open Ascii hiding Text

namespace BoardLink

/-- The two files a link reads. -/
structure Vectors where
  publicKey : Bytes
  kemCiphertext : Bytes

def SHARED_SECRET : Bytes :=
  [0xee, 0x5f, 0x8f, 0x90, 0xfb, 0x6f, 0x15, 0xa5, 0x93, 0x45, 0x04, 0xe1, 0xf6, 0x5c, 0x23, 0xad,
    0x2d, 0x60, 0x96, 0x41, 0x04, 0xbf, 0x42, 0x46, 0x38, 0x76, 0x36, 0x3a, 0x79, 0x9d, 0xee, 0x4f]

section Replies

variable (v : Vectors) (name : String)

/-- `_derive`; `to_bytes` refuses a negative number as well. -/
def derive (sid : ℤ) : Except Raised Session := do
  let id ← if sid < 0 then throw .overflow else toBytes 4 sid.toNat
  let transcript := hash .sha3_256 (v.publicKey ++ v.kemCiphertext ++ id) 32
  let material := hash .shake256 (Pc.KDF_DOMAIN ++ SHARED_SECRET ++ transcript) 72
  return {
    sid := sid.toNat
    txKey := Pc.part material 0 32
    txPrefix := Pc.part material 32 36
    rxKey := Pc.part material 36 68
    rxPrefix := Pc.part material 68 72
    txCounter := 0
    rxCounter := 0 }

/-- The line `_send` returns. -/
def reply (uart : List Bytes) : Except Raised Text :=
  orRaise (.timeoutError s!"Board {name} response timeout") (readProtocolLine uart)

/-- `open_session` once its line is sent. -/
def openSession (slot : ℕ) (uart : List Bytes) : Except Raised Session := do
  let line ← reply name uart
  if "ERR ".toList.isPrefixOf line then raise (.runtimeError (String.ofList line))
  let fields := split line
  let malformed : Exn := .runtimeError ("malformed READY: " ++ String.ofList line)
  if fields.length ≠ 4 ∨ fields.getD 0 [] ≠ "READY".toList then raise malformed
  let readySlot ← orRaise .invalidLiteral (int 10 (fields.getD 1 []))
  if readySlot ≠ slot then raise malformed
  let sid ← orRaise .invalidLiteral (int 16 (fields.getD 2 []))
  let _kemUs ← orRaise .invalidLiteral (int 10 (fields.getD 3 []))
  derive v sid

/-- `leave_session` once its line is sent. -/
def leaveSession (old : Session) (slot : ℕ) (uart : List Bytes) : Except Raised Unit := do
  let line ← reply name uart
  let fields := split line
  let refused : Exn := .runtimeError (String.ofList line)
  if fields.length ≠ 3 ∨ fields.getD 0 [] ≠ "LEFT".toList then raise refused
  let leftSlot ← orRaise .invalidLiteral (int 10 (fields.getD 1 []))
  if leftSlot ≠ slot then raise refused
  let sid ← orRaise .invalidLiteral (int 16 (fields.getD 2 []))
  if sid ≠ old.sid then raise refused

/-- `status` once its line is sent: how many sessions, and a bit for each. -/
def status (uart : List Bytes) : Except Raised (ℤ × ℤ) := do
  let line ← reply name uart
  let fields := split line
  if fields.length ≠ 4 ∨ fields.getD 0 [] ≠ "STATUS".toList then raise (.runtimeError (String.ofList line))
  let count ← orRaise .invalidLiteral (int 10 (fields.getD 1 []))
  let high ← orRaise .invalidLiteral (int 16 (fields.getD 2 []))
  let low ← orRaise .invalidLiteral (int 16 (fields.getD 3 []))
  return (count, Int.lor (high * 2 ^ 32) low)

end Replies

end BoardLink

namespace LinkLoop

open BoardLink DataLoop

inductive Op where
  | «open» (slot : ℕ)
  | leave (slot : ℕ)
  | status
  | data (slot : ℕ) (payload : Bytes) (tamper : Bool)

/-- One call, what the board will measure, and whether its answer reaches the PC before the deadline. -/
structure Call where
  op : Op
  times : UartDemo.Times
  delivered : Bool

/-- What a call returns. -/
inductive Answer where
  | session (session : BoardLink.Session)
  | status (count mask : ℤ)
  | sent (result : Pc.SendResult)
  deriving DecidableEq

variable {σ : Type} (aead : Aead) (v : Vectors) (name : String) (D : UartDemo.Channel σ)

/-- The board reads a line; the bytes that reach the PC. -/
def answered (p : Peers σ) (c : Call) (line : Text) : UartDemo.State σ × List Bytes :=
  let (board, reply) := UartDemo.command D p.board line c.times
  (board, if c.delivered then [ascii reply] else [])

def call (p : Peers σ) (c : Call) : Peers σ × Except Raised Answer :=
  match c.op with
  | .open slot =>
    let (board, uart) := answered D p c (unwords ["OPEN".toList, decimal slot])
    match openSession v name slot uart with
    | .error e => (⟨p.sessions, board⟩, .error e)
    | .ok session => (⟨Function.update p.sessions slot (some session), board⟩, .ok (.session session))
  | .leave slot =>
    match p.sessions slot with
    | none => (p, raise (.runtimeError s!"no local session for slot {slot}"))
    | some old =>
      let (board, uart) := answered D p c (unwords ["LEAVE".toList, decimal slot])
      match leaveSession name old slot uart with
      | .error e => (⟨p.sessions, board⟩, .error e)
      | .ok () => (⟨Function.update p.sessions slot none, board⟩, .ok (.session old))
  | .status =>
    let (board, uart) := answered D p c "STATUS".toList
    (⟨p.sessions, board⟩, (BoardLink.status name uart).map fun x => .status x.1 x.2)
  | .data slot payload tamper =>
    let (p, result) := exchange aead name D p ⟨slot, payload, tamper, c.times, c.delivered⟩
    (p, result.map .sent)

/-- The peers after some calls. -/
def run (p : Peers σ) : List Call → Peers σ
  | [] => p
  | c :: calls => run (call aead v name D p c).1 calls

/-- The link is new and the board has just started. -/
def start (device : σ) : Peers σ where
  sessions _ := none
  board := ⟨device, fun _ => false, fun _ => 0, fun _ => 0, false⟩

end LinkLoop

end ZedSecure
