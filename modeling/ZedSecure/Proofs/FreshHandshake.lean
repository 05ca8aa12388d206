import ZedSecure.Proofs.Recovery

/-! A handshake that begins with its units at rest and is left alone: what it shows is a function of
the words loaded for it, as after a reset. -/

namespace ZedSecure

open Clocked

namespace ProtectedTop

open SessionManager SessionTable

variable {n : ℕ} {aead : EngineIn → EngineOut} {κ : Type} {dp : Datapath}
  {kdf : BitVec 256 → BitVec 256 → BitVec 576} {H : SharedHash kdf} {E : StartDone aead κ} {N : ℕ}
  {s : State n dp H.toHashUnit E} {i : In n κ}

/-- An edge without an injected fault, an expired stage or a failed hash, whose host leaves alone what
the handshake still uses. -/
structure LeftAlone (N : ℕ) (s : State n dp H.toHashUnit E) (i : In n κ) : Prop where
  quiet : i.fault = .none
  time : expires N s = false
  hash : hashFails s = false
  host : Undisturbed s

instance : Decidable (LeftAlone N s i) :=
  decidable_of_iff (i.fault = .none ∧ expires N s = false ∧ hashFails s = false ∧ Undisturbed s)
    ⟨fun h => ⟨h.1, h.2.1, h.2.2.1, h.2.2.2⟩, fun h => ⟨h.quiet, h.time, h.hash, h.host⟩⟩

/-- From `s0` on, through states in `P` only, and left alone. -/
inductive Since (N : ℕ) (P : St → Prop) (s0 : State n dp H.toHashUnit E) : State n dp H.toHashUnit E → Prop
  | start : Since N P s0 s0
  | step {s : State n dp H.toHashUnit E} {i : In n κ} (h : Since N P s0 s) (hP : P s.state)
      (hi : LeftAlone N s i) : Since N P s0 (next N s i)

/-- What the units give: a decapsulation that is started at rest the secret or a rejection, by key and
ciphertext, and a transcript job the hash of key, ciphertext and session id. -/
structure Answers (n N : ℕ) (dp : Datapath) (H : SharedHash kdf) (E : StartDone aead κ) where
  secret : (BitVec 9 → BitVec 32) → (BitVec 8 → BitVec 32) → BitVec 256
  rejects : (BitVec 9 → BitVec 32) → (BitVec 8 → BitVec 32) → Bool
  transcript : (BitVec 9 → BitVec 32) → (BitVec 8 → BitVec 32) → BitVec 32 → BitVec 256
  decapsulates : ∀ s t : State n dp H.toHashUnit E, (design n N dp H.toHashUnit E).Reachable s →
    s.state = .dStart → Resting s → Since N (fun st => st = .dStart ∨ st = .dWait) s t →
    t.state = .dWait → DecapsEngine.done t.dec = true →
    t.dec.sharedSecret = secret s.mem.skMem s.mem.ctMem ∧
      DecapsEngine.fail t.dec = rejects s.mem.skMem s.mem.ctMem
  transcribes : ∀ s t : State n dp H.toHashUnit E, (design n N dp H.toHashUnit E).Reachable s →
    s.state = .tStart → hsReq s = true → Resting s → Since N (fun st => st = .tStart ∨ st = .tWait) s t →
    t.state = .tWait → (hashOut t).done = true →
    slice (hashOut t).digest 0 256 = transcript s.mem.skMem s.mem.ctMem s.front.decapSessionId

namespace Answers

variable (A : Answers n N dp H E) (s0 : State n dp H.toHashUnit E)

def secretOf : BitVec 256 := A.secret s0.mem.skMem s0.mem.ctMem

def rejectsOf : Bool := A.rejects s0.mem.skMem s0.mem.ctMem

def transcriptOf : BitVec 256 := A.transcript s0.mem.skMem s0.mem.ctMem s0.front.decapSessionId

/-- The session that the loaded words give. -/
def session : Config n :=
  MaterialCore.materialConfig s0.front.decapSlot s0.front.decapSessionId (kdf (A.secretOf s0) (A.transcriptOf s0))

/-- What the handshake launched before `s0` shows. -/
def expected : List (Outcome n) :=
  if A.rejectsOf s0 then [.report true] else [.install (A.session s0), .report false]

end Answers

/-- The ciphertext was accepted, and the secret is in its register. -/
structure Accepted (A : Answers n N dp H E) (s0 s : State n dp H.toHashUnit E) : Prop where
  accepts : A.rejectsOf s0 = false
  ok : DecapsEngine.fail s.dec = false
  secret : s.ssA = A.secretOf s0

/-- How far the handshake launched before `s0` has come, and what it has shown. -/
def Progress (A : Answers n N dp H E) (s0 s : State n dp H.toHashUnit E) (log : List (Outcome n)) : Prop :=
  match s.state with
  | .idle => log = A.expected s0
  | .dStart | .dWait => log = [] ∧ Since N (fun st => st = .dStart ∨ st = .dWait) s0 s
  | .tGuard | .tStart => log = [] ∧ Accepted A s0 s
  | .tWait => log = [] ∧ Accepted A s0 s ∧ ∃ s1 : State n dp H.toHashUnit E,
      (design n N dp H.toHashUnit E).Reachable s1 ∧ s1.state = .tStart ∧ hsReq s1 = true ∧ Resting s1 ∧
      Held s0 s1 ∧ Since N (fun st => st = .tStart ∨ st = .tWait) s1 s
  | .kGuard | .kStart => log = [] ∧ Accepted A s0 s ∧ s.transcriptA = A.transcriptOf s0
  | .kWait => log = [] ∧ Accepted A s0 s ∧ ∃ a k, H.working a k s.hash ∧ a.command = 6 ∧
      a.data0 = A.secretOf s0 ∧ a.data1 = A.transcriptOf s0
  | .cGuard | .cStart => log = [] ∧ Accepted A s0 s ∧
      s.materialA = kdf (A.secretOf s0) (A.transcriptOf s0)
  | .cWait => log = [.install (A.session s0)] ∧ Accepted A s0 s
  | .report => log ++ [.report (finalFail s)] = A.expected s0

/-- What the run keeps until it is idle again. -/
structure Fresh (A : Answers n N dp H E) (s0 s : State n dp H.toHashUnit E) (log : List (Outcome n)) : Prop where
  reached : (design n N dp H.toHashUnit E).Reachable s
  attended : s.state ≠ .idle → Attended s
  plan : s.state ≠ .idle → ∃ w, OnPlan s w
  held : Held s0 s
  progress : Progress A s0 s log

section Steps

variable {A : Answers n N dp H E} {s0 : State n dp H.toHashUnit E} {log : List (Outcome n)}

theorem ssA_next (hst : s.state ≠ .dWait) : (next N s i).ssA = s.ssA := by
  unfold next machine
  cases hs : s.state
  case dWait => exact absurd hs hst
  all_goals simp only [apply_ite State.ssA, watch_ssA, ite_self]

/-- The verdict of an idle decapsulation engine stays. -/
theorem fail_next (hdec : s.dec.state = .idle) (hst : s.state ≠ .dStart) :
    DecapsEngine.fail (next N s i).dec = DecapsEngine.fail s.dec := by
  rw [dec_next]
  simp [DecapsEngine.fail, DecapsEngine.next, DecapsEngine.control, hdec, decIn, hst]

theorem Accepted.next (h : Accepted A s0 s) (hdec : s.dec.state = .idle) (hd : s.state ≠ .dStart)
    (hw : s.state ≠ .dWait) : Accepted A s0 (next N s i) :=
  ⟨h.accepts, (fail_next hdec hd).trans h.ok, (ssA_next hw).trans h.secret⟩

/-- No response comes that was not asked for. -/
theorem Attended.asked (h : Attended s) (hq : i.fault = .none) : unexpectedRsp s i = false := by
  obtain ⟨t, hrel, hdue⟩ := h.due
  simp only [unexpectedRsp, monRspValid, hq, FaultInject.none, Bool.or_false]
  cases hraw : rawRspValid s
  · rfl
  · have hpend := hrel.pending_of_rspValid hraw
    rw [hdue (by simp [hpend])]
    rfl

/-- The states between the decapsulation and the report. -/
def St.derives : St → Bool
  | .tGuard | .tStart | .tWait | .kGuard | .kStart | .kWait | .cGuard | .cStart | .cWait => true
  | _ => false

theorem Attended.dec_idle (h : Attended s) (hs : s.state.derives = true) : s.dec.state = .idle := by
  refine h.dec ?_
  rintro (hw | ⟨hw, -⟩) <;> simp [hw, St.derives] at hs

end Steps

section Sample

/-- The decapsulation engine waits for `H(ek)` from an idle hash engine, with `k` on the stage timer. -/
structure Stalled (s : State n dp H.toHashUnit E) (k : ℕ) : Prop where
  state : s.state = .dWait
  prev : s.prevState = .dWait
  dec : s.dec.state = .H_W
  hash : (hashOut s).busy = false
  timer : s.stageTimer.toNat = k

theorem Stalled.stays {k : ℕ} (h : Stalled s k) : hdoneCtl s i = false ∧ (next N s i).dec.state = .H_W ∧
    (hashOut (next N s i)).busy = false := by
  have hdone : (hashOut s).done = false := H.idle_done _ h.hash
  have hctl : hdoneCtl s i = false := by simp [hdoneCtl, hdone]
  have hreq : hsReq s = false := by simp [hsReq, h.state, DecapsEngine.hashStart, h.dec]
  refine ⟨hctl, ?_, H.idle_wait s.hash (hashIn s i) h.hash hreq⟩
  rw [dec_next, DecapsEngine.state_next_control]
  simp [DecapsEngine.control, h.dec, decIn, hctl]

theorem Stalled.next {k : ℕ} (h : Stalled s k) (hk : k + 1 < N) (hN : N ≤ 2 ^ 20) :
    Stalled (next N s i) (k + 1) := by
  obtain ⟨-, hdec, hhash⟩ := h.stays (N := N) (i := i)
  have hstate := state_next N s i
  have hexp : expires N s = false := by
    rw [expires, h.timer, decide_eq_false_iff_not]
    omega
  have hdone : DecapsEngine.done s.dec = false := by simp [DecapsEngine.done, h.dec]
  simp only [h.state, hdone, hexp, Bool.false_eq_true, if_false] at hstate
  refine ⟨hstate, (prevState_next N s i).trans h.state, hdec, hhash, ?_⟩
  rw [stageTimer_next (by simp [h.state]), if_neg (by simp [h.state, h.prev]), if_pos (by simp [h.state]),
    BitVec.toNat_add, h.timer]
  exact Nat.mod_eq_of_lt (by simp; omega)

theorem Stalled.run {k : ℕ} (h : Stalled s k) (hN : N ≤ 2 ^ 20) (is : List (In n κ)) (hk : k + is.length < N) :
    Stalled ((design n N dp H.toHashUnit E).run s (is.map .tick)) (k + is.length) := by
  induction is generalizing s k with
  | nil => exact h
  | cons i is ih =>
    rw [List.length_cons] at hk ⊢
    have hrest := ih (h.next (i := i) (N := N) (by omega) hN) (by omega)
    rwa [Nat.add_assoc, Nat.add_comm 1] at hrest

/-- The watchdog ends the stage, and the engine waits on. -/
theorem Stalled.idle {k : ℕ} (h : Stalled s k) (hk : k + 1 = N) (i j : In n κ) :
    (ProtectedTop.next N (ProtectedTop.next N s i) j).state = .idle ∧
      (ProtectedTop.next N (ProtectedTop.next N s i) j).dec.state = .H_W := by
  obtain ⟨-, hdec, hhash⟩ := h.stays (N := N) (i := i)
  have hstate := state_next N s i
  have hexp : expires N s = true := by
    rw [expires, h.timer, decide_eq_true_eq]
    omega
  have hdone : DecapsEngine.done s.dec = false := by simp [DecapsEngine.done, h.dec]
  simp only [h.state, hdone, hexp, Bool.false_eq_true, if_false, if_true] at hstate
  constructor
  · rw [state_next, hstate]
  · have hlate : (hashOut (ProtectedTop.next N s i)).done = false := H.idle_done _ hhash
    rw [dec_next, DecapsEngine.state_next_control]
    simp [DecapsEngine.control, hdec, decIn, hdoneCtl, hlate]

end Sample

end ProtectedTop

end ZedSecure
