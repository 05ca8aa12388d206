import ZedSecure.Clocked.Design
import ZedSecure.Pc.SerialLink

/-! Which frames of one session go out under which key and nonce. The counter of the nonce
moves only when a call has verified its echo, and the frame is on the wire before that. -/

namespace ZedSecure

open Clocked Python Pc

/-- Key, nonce and plaintext of a frame that was sealed and sent. -/
structure Sealed where
  key : Bytes
  nonce : Bytes
  plaintext : Bytes

variable (aead : Aead) (name : String) (slot : ℕ)

variable {aead name slot}

end ZedSecure
