import ZedSecure.Proofs.UartText

/-! A PC with the link of `board_link.py` and a board with `uart_secure_demo.c`, joined by a UART: one `send_data` after
the other, each with the line the board reads and the line it answers. -/

namespace ZedSecure

open Ascii BoardLink

namespace DataLoop

/-- `self._sessions` of the PC and the state of the board. -/
structure Peers (σ : Type) where
  sessions : ℕ → Option BoardLink.Session
  board : UartDemo.State σ

/-- The arguments of a `send_data`, what the board will measure, and whether its answer reaches the PC before the
deadline. -/
structure Call where
  slot : ℕ
  payload : Python.Bytes
  tamper : Bool
  times : UartDemo.Times
  delivered : Bool

variable {σ : Type} (aead : Aead) (name : String) (D : UartDemo.Channel σ)

/-- `send_data` with the board at the other end. -/
def exchange (p : Peers σ) (c : Call) : Peers σ × Except Raised Pc.SendResult :=
  if Pc.PACKET_BYTES < c.payload.length then (p, raise (.valueError "payload exceeds 64 bytes"))
  else
    match p.sessions c.slot with
    | none =>
      let slot := c.slot
      (p, raise (.runtimeError s!"no local session for slot {slot}"))
    | some session =>
      match request aead session c.slot c.payload c.tamper with
      | .error e => (p, .error e)
      | .ok line =>
        let (board, reply) := UartDemo.command D p.board line c.times
        let uart := if c.delivered then [ascii reply] else []
        let (session, result) := receive aead name session c.slot c.payload c.tamper uart
        (⟨Function.update p.sessions c.slot (some session), board⟩, result)

/-- The peers after some calls. -/
def run (p : Peers σ) : List Call → Peers σ
  | [] => p
  | c :: calls => run (exchange aead name D p c).1 calls

/-- What the callers get, one after the other. -/
def results (p : Peers σ) : List Call → List (Except Raised Pc.SendResult)
  | [] => []
  | c :: calls => (exchange aead name D p c).2 :: results (exchange aead name D p c).1 calls

end DataLoop

end ZedSecure
