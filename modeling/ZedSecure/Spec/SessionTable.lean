import ZedSecure.Rtl.SessionManager

/-! What the session manager is for: a table from slots to sessions, in which every
command takes effect at once. An install replaces one entry and starts both counters
at zero, and a request is answered against the entry it finds. -/

namespace ZedSecure

open Clocked SessionManager

def Session.fresh {n : ℕ} (c : Config n) : Session :=
  ⟨c.sessionId, c.txKey, c.rxKey, c.txPrefix, c.rxPrefix, 0#64, 0#64⟩

/-- The counter a request in the given direction is bound to. -/
def Session.counter (e : Session) (decrypt : Bool) : BitVec 64 :=
  if decrypt then e.rxCounter else e.txCounter

def Session.advance (e : Session) (decrypt : Bool) : Session :=
  if decrypt then { e with rxCounter := e.rxCounter + 1#64 }
  else { e with txCounter := e.txCounter + 1#64 }

namespace SessionTable

abbrev Slots (n : ℕ) := BitVec (slotWidth n) → Option Session

structure Table (n : ℕ) where
  slots : Slots n
  pending : Option (Response n)

inductive Cmd (n : ℕ) where
  | configure (c : Config n)
  | request (q : Request n)
  | take
  | reset

variable {n : ℕ} (aead : EngineIn → EngineOut)

def Table.empty : Table n := ⟨fun _ => none, none⟩

def configure (t : Slots n) (c : Config n) : Slots n :=
  if c.slot.toNat < n then
    Function.update t c.slot (if c.valid then some (.fresh c) else none)
  else t

/-- The answer that shows nothing of a session. -/
def refusal (q : Request n) : Response n :=
  ⟨false, true, q.slot, if q.decrypt then q.counter else 0#64, 0#512, 0#128⟩

/-- The request is outside what the session allows, before any key is used. -/
def Refused (e : Session) (q : Request n) : Prop :=
  64#8 < q.dataLen ∨ (q.decrypt = true ∧ q.counter ≠ e.rxCounter)

instance (e : Session) (q : Request n) : Decidable (Refused e q) := by
  unfold Refused; infer_instance

/-- The answer the engine's result `out` is turned into. -/
def answer (e : Session) (q : Request n) (out : EngineOut) : Response n :=
  ⟨out.authOk, !out.authOk, q.slot, e.counter q.decrypt, if out.authOk then out.data else 0#512,
    out.tag⟩

def serve (t : Slots n) (q : Request n) : Slots n × Response n :=
  match t q.slot with
  | none => (t, refusal q)
  | some e =>
    if Refused e q then (t, refusal q)
    else
      let out := aead (engineOperands e q)
      (if out.authOk then Function.update t q.slot (some (e.advance q.decrypt)) else t,
        answer e q out)

/-- The table as a machine: a request leaves its answer pending until it is taken. -/
def machine : Server (Table n) (Cmd n) (Response n) where
  step t
    | .configure c => (⟨configure t.slots c, t.pending⟩, [])
    | .request q => (⟨(serve aead t.slots q).1, some (serve aead t.slots q).2⟩, [])
    | .take => (⟨t.slots, none⟩, t.pending.toList)
    | .reset => (.empty, [])

end SessionTable

end ZedSecure
