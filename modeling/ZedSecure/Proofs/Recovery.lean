import ZedSecure.Proofs.HandshakeIsolation
import ZedSecure.Proofs.NoFalseAlarms

/-! Recovery after a fault. The watchdog sends the handshake back to idle, but not the unit it was
waiting for: as long as no unit is given up at work, every handshake begins with all units at rest,
and its outcome is the one of a handshake after a reset. -/

namespace ZedSecure

open Clocked

namespace ProtectedTop

open SessionManager SessionTable

variable {n : ℕ} {aead : EngineIn → EngineOut} {κ : Type} {dp : Datapath}
  {kdf : BitVec 256 → BitVec 256 → BitVec 576} {H : SharedHash kdf} {E : StartDone aead κ} {N : ℕ}
  {s : State n dp H.toHashUnit E} {i : In n κ}

/-- The decapsulation engine, the hash engine and the install handshake are idle. -/
structure Resting (s : State n dp H.toHashUnit E) : Prop where
  dec : s.dec.state = .idle
  hash : (hashOut s).busy = false
  pending : s.channel.pending = false
  accepted : s.channel.accepted = false

/-- The unit that the reported stage was waiting for has finished, or does so at this edge. -/
def Finished (s : State n dp H.toHashUnit E) : Prop :=
  s.state = .report →
    (s.prevState = .dWait → s.dec.state = .idle ∨ DecapsEngine.done s.dec = true) ∧
    (s.prevState = .tWait ∨ s.prevState = .kWait → (hashOut s).busy = false ∨ (hashOut s).done = true) ∧
    (s.prevState = .cWait →
      s.channel.pending = false ∧ (s.channel.accepted = true → s.channel.sessions.cfgDone = true))

instance (s : State n dp H.toHashUnit E) : Decidable (Finished s) := by
  unfold Finished
  infer_instance

/-- The handshake is in `st` or reports from it. -/
def Within (s : State n dp H.toHashUnit E) (st : St) : Prop :=
  s.state = st ∨ (s.state = .report ∧ s.prevState = st)

/-- A unit is at work only for the stage that waits for it, faults or not. -/
structure Attended (s : State n dp H.toHashUnit E) : Prop where
  phased : DecapsEngine.Phased s.dec
  dec : ¬ Within s .dWait → s.dec.state = .idle
  hash : (hashOut s).busy = true → (∃ a k, H.working a k s.hash) ∧
    (DecapsEngine.awaitsHash s.dec ∨ Within s .tWait ∨ Within s .kWait)
  channel : ¬ Within s .cWait → s.channel.pending = false ∧ s.channel.accepted = false
  launched : s.state = .dStart → s.faultDetected = false ∧ s.hashIndex = 0
  due : ∃ t, Rel s.channel.sessions t ∧ (t.pending ≠ none → s.outstanding = true)

/-- The states that wait for a unit. -/
def St.waits : St → Bool
  | .dWait | .tWait | .kWait | .cWait => true
  | _ => false

end ProtectedTop

end ZedSecure
