import ZedSecure.Rtl.CompleteTop
import ZedSecure.Proofs.InstallChecked

/-! Which handshake a table write belongs to. The report of a handshake and the write of its
session are apart: the install request waits in the material core until the table is free.
A ledger beside a run names each write and each report by its handshake. -/

namespace ZedSecure

open Clocked

variable {n : ℕ} {aead : EngineIn → EngineOut} {κ : Type} {dp : Datapath} {H : HashUnit}
  {E : StartDone aead κ}

section Manager

namespace SessionManager

variable {s : State n E} {i : In n κ}

/-- A free manager takes a valid configuration in range and starts to write it. -/
theorem next_takes (hst : s.state = .idle) (hw : i.cfgWrite = true) (hv : i.cfg.valid = true)
    (hr : i.cfg.slot.toNat < n) :
    (next s i).state = .cfgWrite ∧ (next s i).cfgQ = i.cfg ∧ (next s i).cfgDone = false := by
  simp [next, hst, hw, hv, slotInRange, hr, frame]

/-- A busy manager takes nothing; without a configuration nothing is written. -/
theorem next_apart (h : s.state ≠ .cfgWrite) (hw : s.state = .idle → i.cfgWrite = false) :
    (next s i).state ≠ .cfgWrite ∧ (next s i).cfgDone = false := by
  have hf : (frame s i).state = s.state := rfl
  have hc : (frame s i).cfgDone = false := rfl
  rcases hst : s.state with _ | _ | _ | _ | _ | _ | _ | _ | _ <;> simp only [next, hst]
  case idle =>
    rw [hw hst]
    simp only [Bool.false_eq_true, if_false]
    split_ifs <;> simp [hf, hc, hst]
  case cfgWrite => exact absurd hst h
  all_goals
    try split_ifs
    all_goals simp [hf, hc, hst]

theorem next_writes (hst : s.state = .cfgWrite) :
    if s.cfgWordQ = 23#5 then (next s i).state = .idle ∧ (next s i).cfgDone = true
    else (next s i).state = .cfgWrite ∧ (next s i).cfgQ = s.cfgQ ∧ (next s i).cfgDone = false := by
  split_ifs with h23 <;> simp [next, hst, h23, frame]

end SessionManager

end Manager

namespace ProtectedTop

/-- The table takes up a configuration, or has it complete; a handshake is reported, with the
slot it was launched for and the material of its KDF. -/
inductive Event (n : ℕ) where
  | written (k : ℕ) (c : Config n)
  | finished (k : ℕ) (c : Config n)
  | reported (k : ℕ) (failed : Bool) (slot : BitVec (slotWidth n)) (material : BitVec 576)
  deriving DecidableEq

def Event.handshake : Event n → ℕ
  | .written k _ | .finished k _ | .reported k _ _ _ => k

/-- The handshakes launched so far, slot and material of the last one, and the handshake whose
install the material core holds. -/
structure Ledger (n : ℕ) where
  count : ℕ
  slot : BitVec (slotWidth n)
  material : BitVec 576
  owner : ℕ
  log : List (Event n)

def Ledger.empty : Ledger n := ⟨0, 0, 0, 0, []⟩

/-- The configuration the table takes up at this edge. -/
def takesUp (s : State n dp H E) : Option (Config n) :=
  let c := MaterialCore.materialConfig s.channel.slotQ s.channel.sessionQ s.channel.materialQ
  if s.channel.pending && SessionManager.cfgReady s.channel.sessions &&
    SessionManager.slotInRange c.slot then some c else none

/-- The configuration whose last word is written at this edge. -/
def completes (s : State n dp H E) : Option (Config n) :=
  if s.channel.sessions.state = .cfgWrite ∧ s.channel.sessions.cfgWordQ = 23#5 then
    some s.channel.sessions.cfgQ
  else none

/-- The report is a failure when it says so or when the watchdog fires with it. -/
def reportsFailure (maxStage : ℕ) (s : State n dp H E) : Bool := finalFail s || expires maxStage s

def events (maxStage : ℕ) (s : State n dp H E) (g : Ledger n) : List (Event n) :=
  (if finalDone s then [.reported g.count (reportsFailure maxStage s) g.slot g.material] else []) ++
    (takesUp s).toList.map (.written g.owner) ++ (completes s).toList.map (.finished g.owner)

def ledger (maxStage : ℕ) (s : State n dp H E) : Act (In n κ) → Ledger n → Ledger n
  | .reset, g => g
  | .tick i, g =>
    { count := if launches s then g.count + 1 else g.count
      slot := if launches s then s.front.decapSlot else g.slot
      material := if s.state = .kWait ∧ hdoneCtl s i = true then (hashOut s).digest else g.material
      owner := if MaterialCore.latches s.channel (channelIn s i) then g.count else g.owner
      log := g.log ++ events maxStage s g }

/-- No handshake reported as failed is ever written to the table, and one reported as done has
its own material complete in its own slot before the report. -/
structure Sound (log : List (Event n)) : Prop where
  failed : ∀ k slot m, .reported k true slot m ∈ log → ∀ c, .written k c ∉ log
  done : ∀ pre post k slot m, log = pre ++ .reported k false slot m :: post →
    ∃ id, .finished k (MaterialCore.materialConfig slot id m) ∈ pre

section Sound

variable {log : List (Event n)} {k : ℕ} {c : Config n} {slot : BitVec (slotWidth n)}
  {m : BitVec 576}

theorem sound_nil : Sound ([] : List (Event n)) :=
  ⟨fun _ _ _ h => absurd h List.not_mem_nil, fun pre post k slot m h => by simp at h⟩

/-- An event that is no success leaves what was before each success. -/
theorem Sound.done_snoc (h : Sound log) {e : Event n}
    (he : ∀ slot m, e = .reported k false slot m →
      ∃ id, .finished k (MaterialCore.materialConfig slot id m) ∈ log)
    {pre post : List (Event n)} {slot : BitVec (slotWidth n)} {m : BitVec 576}
    (heq : log ++ [e] = pre ++ .reported k false slot m :: post) :
    ∃ id, .finished k (MaterialCore.materialConfig slot id m) ∈ pre := by
  rcases List.eq_nil_or_concat post with rfl | ⟨post, e', rfl⟩
  · obtain ⟨rfl, he'⟩ := List.append_inj' heq rfl
    exact he slot m (List.cons.inj he').1
  · rw [List.concat_eq_append, ← List.cons_append, ← List.append_assoc] at heq
    obtain ⟨hlog, -⟩ := List.append_inj' heq rfl
    exact h.done pre post k slot m hlog

theorem Sound.written (h : Sound log) (hk : ∀ slot m, .reported k true slot m ∉ log) :
    Sound (log ++ [.written k c]) := by
  refine ⟨fun k' slot m hr c' hw => ?_, fun pre post k' slot m heq => ?_⟩
  · have hr : Event.reported k' true slot m ∈ log := by simpa using hr
    rw [List.mem_append, List.mem_singleton] at hw
    rcases hw with hw | hw
    · exact h.failed k' slot m hr c' hw
    · cases hw
      exact hk slot m hr
  · exact h.done_snoc (fun _ _ he => by cases he) heq

theorem Sound.finished (h : Sound log) : Sound (log ++ [.finished k c]) := by
  refine ⟨fun k' slot m hr c' hw => ?_, fun pre post k' slot m heq => ?_⟩
  · exact h.failed k' slot m (by simpa using hr) c' (by simpa using hw)
  · exact h.done_snoc (fun _ _ he => by cases he) heq

theorem Sound.reported (h : Sound log) {failed : Bool}
    (hw : failed = true → ∀ c, .written k c ∉ log)
    (hd : failed = false → ∃ id, .finished k (MaterialCore.materialConfig slot id m) ∈ log) :
    Sound (log ++ [.reported k failed slot m]) := by
  refine ⟨fun k' slot' m' hr c' hwr => ?_, fun pre post k' slot' m' heq => ?_⟩
  · have hin : Event.written k' c' ∈ log := by simpa using hwr
    rw [List.mem_append, List.mem_singleton] at hr
    rcases hr with hr | hr
    · exact h.failed k' slot' m' hr c' hin
    · cases hr
      exact hw rfl c' hin
  · refine h.done_snoc (fun slot m he => ?_) heq
    cases he
    exact hd rfl

end Sound

/-- The condition on one edge: from the cycle of the install request to the report no monitor
raises a fault (and the watchdog does not fire with the report), and the slot register still
holds at the request what it held at the launch, a slot of the table. -/
def InstallsCalmly (maxStage : ℕ) (s : State n dp H E) (g : Ledger n) (i : In n κ) : Prop :=
  (installReq s = true ∨ s.state = .cWait → raises maxStage s i = false) ∧
  (s.state = .report ∧ s.prevState = .cWait → expires maxStage s = false) ∧
  (installReq s = true → s.front.decapSlot = g.slot ∧ g.slot.toNat < n)

instance (maxStage : ℕ) (s : State n dp H E) (g : Ledger n) (i : In n κ) :
    Decidable (InstallsCalmly maxStage s g i) := by
  unfold InstallsCalmly
  infer_instance

/-- No install is under way. -/
structure Clear (s : State n dp H E) : Prop where
  pending : s.channel.pending = false
  accepted : s.channel.accepted = false
  installDone : s.channel.installDone = false
  cfgDone : s.channel.sessions.cfgDone = false
  apart : s.channel.sessions.state ≠ .cfgWrite

/-- The decapsulation has ended without a failure. -/
def Parked (s : State n dp H E) : Prop := s.dec.state = .idle ∧ s.dec.failQ = false

def Unwritten (g : Ledger n) : Prop := ∀ c, .written g.count c ∉ g.log

def Completed (g : Ledger n) : Prop :=
  ∃ id, .finished g.count (MaterialCore.materialConfig g.slot id g.material) ∈ g.log

/-- The four stages of an install: waiting for the table, being written, written, and
acknowledged. -/
inductive Installing (s : State n dp H E) (g : Ledger n) : Prop
  | waits (hp : s.channel.pending = true) (ha : s.channel.accepted = false)
      (hd : s.channel.installDone = false) (hc : s.channel.sessions.cfgDone = false)
      (hm : s.channel.sessions.state ≠ .cfgWrite) (ho : g.owner = g.count)
      (hs : s.channel.slotQ = g.slot) (hr : g.slot.toNat < n) (hk : s.channel.materialQ = g.material)
  | writes (hp : s.channel.pending = false) (ha : s.channel.accepted = true)
      (hd : s.channel.installDone = false) (hc : s.channel.sessions.cfgDone = false)
      (hm : s.channel.sessions.state = .cfgWrite) (ho : g.owner = g.count)
      (hk : ∃ id, s.channel.sessions.cfgQ = MaterialCore.materialConfig g.slot id g.material)
  | written (hp : s.channel.pending = false) (ha : s.channel.accepted = true)
      (hd : s.channel.installDone = false) (hc : s.channel.sessions.cfgDone = true)
      (hm : s.channel.sessions.state ≠ .cfgWrite) (hk : Completed g)
  | acked (hp : s.channel.pending = false) (ha : s.channel.accepted = false)
      (hd : s.channel.installDone = true) (hc : s.channel.sessions.cfgDone = false)
      (hm : s.channel.sessions.state ≠ .cfgWrite) (hk : Completed g)

/-- How far the current handshake is. -/
def Stage (s : State n dp H E) (g : Ledger n) : Prop :=
  match s.state with
  | .idle => Clear s ∧ s.stageTimer = 0
  | .dStart | .dWait => Clear s ∧ Unwritten g
  | .tGuard | .tStart | .tWait | .kGuard | .kStart | .kWait => Clear s ∧ Unwritten g ∧ Parked s
  | .cGuard => Clear s ∧ Unwritten g ∧ Parked s ∧ s.materialB = ~~~g.material
  | .cStart => Clear s ∧ Unwritten g ∧ Parked s ∧ s.materialB = ~~~g.material ∧
      s.materialMatch = (s.materialA == ~~~s.materialB)
  | .cWait => Parked s ∧ s.faultDetected = false ∧ Installing s g
  | .report => Clear s ∧ s.prevState ≠ .report ∧
      ((s.prevState = .cWait ∧ finalFail s = false ∧ Completed g) ∨
        (finalFail s = true ∧ Unwritten g))

/-- What a run whose edges meet the condition keeps. -/
structure Accounted (s : State n dp H E) (g : Ledger n) : Prop where
  sound : Sound g.log
  known : ∀ e ∈ g.log, e.handshake ≤ g.count
  unreported : s.state ≠ .idle → ∀ failed slot m, .reported g.count failed slot m ∉ g.log
  stage : Stage s g

section Channel

variable {s : State n dp H E} {g : Ledger n} {i : In n κ} {N : ℕ}

theorem channel_next : (next N s i).channel = MaterialCore.next s.channel (channelIn s i) := rfl

theorem sessions_next : (next N s i).channel.sessions =
    SessionManager.next s.channel.sessions (MaterialCore.sessionsIn s.channel (channelIn s i)) := by
  rw [channel_next]
  simp only [MaterialCore.next, apply_ite MaterialCore.State.sessions, ite_self]

/-- The material core without an install request and with nothing to do. -/
theorem Clear.next (h : Clear s) (hreq : installReq s = false) : Clear (next N s i) := by
  obtain ⟨hp, ha, hd, hc, hm⟩ := h
  have hl : MaterialCore.latches s.channel (channelIn s i) = false := by
    simp [MaterialCore.latches, channelIn, hreq]
  have hap := SessionManager.next_apart (i := MaterialCore.sessionsIn s.channel (channelIn s i)) hm
    (fun _ => hp)
  rw [← sessions_next (N := N)] at hap
  refine ⟨?_, ?_, ?_, hap.2, hap.1⟩ <;> rw [channel_next] <;>
    simp [MaterialCore.next, hl, hp, ha]

theorem Clear.events (h : Clear s) : events N s g =
    if finalDone s then [.reported g.count (reportsFailure N s) g.slot g.material] else [] := by
  have hm := h.apart
  simp [ProtectedTop.events, takesUp, completes, h.pending, hm]

theorem Clear.log (h : Clear s) (hst : s.state ≠ .report) :
    (ledger N s (.tick i) g).log = g.log := by
  simp [ledger, h.events, finalDone, hst]

/-- An install request that finds the core free is taken. -/
theorem Clear.latches (h : Clear s) (hreq : installReq s = true) :
    (ProtectedTop.next N s i).channel.pending = true ∧
      (ProtectedTop.next N s i).channel.accepted = false ∧
      (ProtectedTop.next N s i).channel.installDone = false ∧
      (ProtectedTop.next N s i).channel.slotQ = s.front.decapSlot ∧
      (ProtectedTop.next N s i).channel.materialQ = s.materialA ∧
      (ledger N s (.tick i) g).owner = g.count := by
  obtain ⟨hp, ha, hd, -, -⟩ := h
  have hl : MaterialCore.latches s.channel (channelIn s i) = true := by
    simp [MaterialCore.latches, channelIn, hreq, hp, ha]
  have hs : (channelIn s i).slot = s.front.decapSlot := rfl
  have hm : (channelIn s i).material = s.materialA := rfl
  rw [channel_next]
  simp [MaterialCore.next, hl, hp, ha, hs, hm, ledger]

theorem takesUp_none (hp : s.channel.pending = false) : takesUp s = none := by simp [takesUp, hp]

theorem completes_none (hm : s.channel.sessions.state ≠ .cfgWrite) : completes s = none := by
  simp [completes, hm]

/-- In `C_WAIT` only the table adds to the log. -/
theorem ledger_cWait (hst : s.state = .cWait) : ledger N s (.tick i) g =
    { g with log := g.log ++ ((takesUp s).toList.map (.written g.owner) ++
      (completes s).toList.map (.finished g.owner)) } := by
  simp [ledger, launches, hst, MaterialCore.latches, channelIn, installReq, ProtectedTop.events,
    finalDone]

theorem materialCore_cWait (hst : s.state = .cWait) :
    let c := (ProtectedTop.next N s i).channel
    let takes := s.channel.pending && SessionManager.cfgReady s.channel.sessions
    let acks := s.channel.accepted && s.channel.sessions.cfgDone
    c.pending = (s.channel.pending && !takes) ∧
      c.accepted = ((s.channel.accepted || takes) && !acks) ∧ c.installDone = acks ∧
      c.slotQ = s.channel.slotQ ∧ c.materialQ = s.channel.materialQ := by
  have hl : MaterialCore.latches s.channel (channelIn s i) = false := by
    simp [MaterialCore.latches, channelIn, installReq, hst]
  intro c takes acks
  have ht : takes = (s.channel.pending && SessionManager.cfgReady s.channel.sessions) := rfl
  have ha : acks = (s.channel.accepted && s.channel.sessions.cfgDone) := rfl
  simp only [c, channel_next, MaterialCore.next, hl, ← ht, ← ha, Bool.false_eq_true, if_false]
  cases takes <;> cases acks <;> simp

/-- The table takes up a waiting install as soon as it is free. -/
theorem Installing.next_waits (hst : s.state = .cWait) (hp : s.channel.pending = true)
    (ha : s.channel.accepted = false) (hc : s.channel.sessions.cfgDone = false)
    (hm : s.channel.sessions.state ≠ .cfgWrite) (ho : g.owner = g.count)
    (hs : s.channel.slotQ = g.slot) (hr : g.slot.toNat < n) (hk : s.channel.materialQ = g.material) :
    Installing (next N s i) (ledger N s (.tick i) g) ∧
      ((ledger N s (.tick i) g).log = g.log ∨
        ∃ c, (ledger N s (.tick i) g).log = g.log ++ [.written g.count c]) := by
  obtain ⟨hp', ha', hd', hs', hk'⟩ := materialCore_cWait (i := i) (N := N) hst
  rw [ledger_cWait hst, completes_none hm]
  by_cases hidle : s.channel.sessions.state = .idle
  · have hready : SessionManager.cfgReady s.channel.sessions = true := by
      simp [SessionManager.cfgReady, hidle]
    have htake := SessionManager.next_takes
      (i := MaterialCore.sessionsIn s.channel (channelIn s i)) hidle hp rfl
      (show s.channel.slotQ.toNat < n by rwa [hs])
    rw [← sessions_next (N := N)] at htake
    have hup : takesUp s = some (MaterialCore.materialConfig g.slot s.channel.sessionQ g.material) := by
      simp [takesUp, hp, hready, SessionManager.slotInRange, MaterialCore.materialConfig, hs, hk, hr]
    rw [hp, hready] at hp'
    rw [hp, ha, hc, hready] at ha'
    rw [ha, hc] at hd'
    refine ⟨.writes hp' ha' hd' htake.2.2 htake.1 ho ⟨s.channel.sessionQ, ?_⟩, Or.inr ?_⟩
    · rw [htake.2.1]
      change MaterialCore.materialConfig s.channel.slotQ s.channel.sessionQ s.channel.materialQ = _
      rw [hs, hk]
    · exact ⟨MaterialCore.materialConfig g.slot s.channel.sessionQ g.material, by simp [hup, ho]⟩
  · have hready : SessionManager.cfgReady s.channel.sessions = false := by
      simp [SessionManager.cfgReady, hidle]
    have hap := SessionManager.next_apart (i := MaterialCore.sessionsIn s.channel (channelIn s i)) hm
      (fun h => absurd h hidle)
    rw [← sessions_next (N := N)] at hap
    have hup : takesUp s = none := by simp [takesUp, hready]
    rw [hp, hready] at hp'
    rw [hp, ha, hc, hready] at ha'
    rw [ha, hc] at hd'
    exact ⟨.waits hp' ha' hd' hap.2 hap.1 ho (hs'.trans hs) hr (hk'.trans hk),
      Or.inl (by simp [hup])⟩

/-- The write ends with its last word. -/
theorem Installing.next_writes (hst : s.state = .cWait) (hp : s.channel.pending = false)
    (ha : s.channel.accepted = true) (hc : s.channel.sessions.cfgDone = false)
    (hm : s.channel.sessions.state = .cfgWrite) (ho : g.owner = g.count)
    (hk : ∃ id, s.channel.sessions.cfgQ = MaterialCore.materialConfig g.slot id g.material) :
    Installing (next N s i) (ledger N s (.tick i) g) ∧
      ((ledger N s (.tick i) g).log = g.log ∨
        ∃ c, (ledger N s (.tick i) g).log = g.log ++ [.finished g.count c]) := by
  obtain ⟨hp', ha', hd', -, -⟩ := materialCore_cWait (i := i) (N := N) hst
  have hwr := SessionManager.next_writes (i := MaterialCore.sessionsIn s.channel (channelIn s i)) hm
  rw [← sessions_next (N := N)] at hwr
  rw [ledger_cWait hst, takesUp_none hp]
  rw [hp] at hp'
  rw [hp, ha, hc] at ha'
  rw [ha, hc] at hd'
  by_cases h23 : s.channel.sessions.cfgWordQ = 23#5
  · rw [if_pos h23] at hwr
    have hcomp : completes s = some s.channel.sessions.cfgQ := by simp [completes, hm, h23]
    obtain ⟨id, hid⟩ := hk
    refine ⟨.written hp' ha' hd' hwr.2 (by simp [hwr.1]) ⟨id, ?_⟩, 
      Or.inr ⟨s.channel.sessions.cfgQ, by simp [hcomp, ho]⟩⟩
    simp [hcomp, hid, ho]
  · rw [if_neg h23] at hwr
    have hcomp : completes s = none := by simp [completes, h23]
    refine ⟨.writes hp' ha' hd' hwr.2.2 hwr.1 ho ?_, Or.inl (by simp [hcomp])⟩
    rw [hwr.2.1]
    exact hk

/-- An edge in `C_WAIT`: the install goes on, and the end of the write comes before the
acknowledgement. -/
theorem Installing.next (hst : s.state = .cWait) (h : Installing s g) :
    (if s.channel.installDone = true then
        Clear (next N s i) ∧ Completed (ledger N s (.tick i) g)
      else Installing (next N s i) (ledger N s (.tick i) g)) ∧
      ((ledger N s (.tick i) g).log = g.log ∨
        (∃ c, (ledger N s (.tick i) g).log = g.log ++ [.written g.count c]) ∨
        ∃ c, (ledger N s (.tick i) g).log = g.log ++ [.finished g.count c]) := by
  rcases h with ⟨hp, ha, hd, hc, hm, ho, hs, hr, hk⟩ | ⟨hp, ha, hd, hc, hm, ho, hk⟩ |
    ⟨hp, ha, hd, hc, hm, hk⟩ | ⟨hp, ha, hd, hc, hm, hk⟩
  · have hn := Installing.next_waits (i := i) (N := N) hst hp ha hc hm ho hs hr hk
    rw [if_neg (by simp [hd])]
    exact ⟨hn.1, hn.2.imp_right Or.inl⟩
  · have hn := Installing.next_writes (i := i) (N := N) hst hp ha hc hm ho hk
    rw [if_neg (by simp [hd])]
    exact ⟨hn.1, hn.2.imp_right Or.inr⟩
  all_goals
    obtain ⟨hp', ha', hd', -, -⟩ := materialCore_cWait (i := i) (N := N) hst
    have hap := SessionManager.next_apart (i := MaterialCore.sessionsIn s.channel (channelIn s i)) hm
      (fun _ => hp)
    rw [← sessions_next (N := N)] at hap
    rw [ledger_cWait hst, takesUp_none hp, completes_none hm]
    rw [hp] at hp'
    rw [hp, ha, hc] at ha'
    rw [ha, hc] at hd'
    refine ⟨?_, Or.inl (by simp)⟩
  · rw [if_neg (by simp [hd])]
    exact .acked hp' ha' hd' hap.2 hap.1 (by simpa [Completed] using hk)
  · rw [if_pos hd]
    exact ⟨⟨hp', ha', hd', hap.2, hap.1⟩, by simpa [Completed] using hk⟩

end Channel

section Accounts

variable {s : State n dp H E} {g : Ledger n} {i : In n κ} {N : ℕ}

theorem parked_next (hst : s.state ≠ .dStart) (h : Parked s) : Parked (next N s i) := by
  obtain ⟨hd, hf⟩ := h
  have hin : (decIn s i).start = false := by simp [decIn, hst]
  have hdec : (next N s i).dec = DecapsEngine.next s.dec (decIn s i) := rfl
  unfold Parked
  rw [hdec]
  simp [DecapsEngine.next, DecapsEngine.control, hd, hin, hf]

theorem parked_of_done (hd : DecapsEngine.done s.dec = true) (hf : DecapsEngine.fail s.dec = false) :
    Parked (next N s i) := by
  simp only [DecapsEngine.done, decide_eq_true_eq] at hd
  have hdec : (next N s i).dec = DecapsEngine.next s.dec (decIn s i) := rfl
  unfold Parked
  rw [hdec]
  simpa [DecapsEngine.next, DecapsEngine.control, hd, DecapsEngine.fail] using hf

theorem launches_of_ne (hst : s.state ≠ .idle) : launches s = false := by simp [launches, hst]

/-- An edge that adds nothing to the log, outside a launch. -/
theorem ledger_quiet (h : Clear s) (hst : s.state ≠ .idle) (hrep : s.state ≠ .report) :
    (ledger N s (.tick i) g).log = g.log ∧ (ledger N s (.tick i) g).count = g.count ∧
      (ledger N s (.tick i) g).slot = g.slot := by
  refine ⟨h.log hrep, ?_, ?_⟩ <;> simp [ledger, launches_of_ne hst]

theorem Accounted.of_same_log {s' : State n dp H E} {g' : Ledger n} (h : Accounted s g)
    (hst : s.state ≠ .idle) (hl : g'.log = g.log) (hc : g'.count = g.count) (hs : Stage s' g') :
    Accounted s' g' :=
  ⟨hl ▸ h.sound, by rw [hl, hc]; exact h.known, fun _ => by rw [hl, hc]; exact h.unreported hst, hs⟩

/-- A handshake that ends with a fault has written nothing. -/
theorem stage_fails {g' : Ledger n} (hcl : Clear (next N s i)) (hun : Unwritten g')
    (hst : s.state ≠ .report) (hrep : (next N s i).state = .report)
    (hfail : finalFail (next N s i) = true) : Stage (next N s i) g' := by
  unfold Stage
  rw [hrep, prevState_next]
  exact ⟨hcl, hst, Or.inr ⟨hfail, hun⟩⟩

theorem finalFail_of_fault (h : s.faultDetected = true) : finalFail s = true := by
  simp [finalFail, h]

/-- The wait states: the stage goes on, or the watchdog ends it. -/
theorem stage_expires {g' : Ledger n} (hidle : s.state ≠ .idle) (hcl : Clear (next N s i))
    (hun : Unwritten g') (hst : s.state ≠ .report) (hexp : expires N s = true)
    (hrep : (next N s i).state = .report) : Stage (next N s i) g' :=
  stage_fails hcl hun hst hrep (finalFail_of_fault (by
    simp [faultDetected_next hidle, raises, hexp]))

theorem accounted_idle (hmax : 2 ≤ N) (h : Accounted s g) (hst : s.state = .idle) :
    Accounted (next N s i) (ledger N s (.tick i) g) := by
  obtain ⟨hcl, htimer⟩ : Clear s ∧ s.stageTimer = 0 := by simpa [Stage, hst] using h.stage
  have hexp : expires N s = false := by
    simp only [expires, htimer, decide_eq_false_iff_not]
    simp
    omega
  have hlog := hcl.log (N := N) (g := g) (i := i) (by simp [hst])
  have hcl' := hcl.next (i := i) (N := N) (by simp [installReq, hst])
  have hst' := state_next N s i
  simp only [hst, hexp, Bool.false_eq_true, if_false] at hst'
  rcases hl : s.front.decapStart with _ | _
  · have hcount : (ledger N s (.tick i) g).count = g.count := by
      simp [ledger, launches, hst, hl]
    rw [hl] at hst'
    refine ⟨hlog ▸ h.sound, by rw [hlog, hcount]; exact h.known, fun hne => absurd hst' hne, ?_⟩
    unfold Stage
    rw [hst']
    refine ⟨hcl', ?_⟩
    simp [next, machine, hst, hl, htimer]
  · have hcount : (ledger N s (.tick i) g).count = g.count + 1 := by
      simp [ledger, launches, hst, hl]
    rw [hl] at hst'
    have hnew : ∀ e ∈ g.log, e.handshake ≠ g.count + 1 := fun e he => by
      have := h.known e he
      omega
    refine ⟨hlog ▸ h.sound, ?_, ?_, ?_⟩
    · rw [hlog, hcount]
      exact fun e he => Nat.le_succ_of_le (h.known e he)
    · rw [hlog, hcount]
      exact fun _ failed slot m he => hnew _ he rfl
    · unfold Stage
      rw [hst']
      refine ⟨hcl', fun c he => ?_⟩
      rw [hlog, hcount] at he
      exact hnew _ he rfl

theorem clear_of_stage (h : Stage s g) (hw : s.state ≠ .cWait) : Clear s := by
  unfold Stage at h
  rcases hst : s.state with _ | _ | _ | _ | _ | _ | _ | _ | _ | _ | _ | _ | _ <;>
    simp only [hst] at h
  case cWait => exact absurd hst hw
  all_goals exact h.1

/-- The edges of a handshake before its install request. -/
theorem stage_before (h : Stage s g) (hreq : installReq s = false) (hidle : s.state ≠ .idle)
    (hw : s.state ≠ .cWait) (hr : s.state ≠ .report) :
    Stage (next N s i) (ledger N s (.tick i) g) := by
  have hcl : Clear s ∧ Unwritten g := by
    unfold Stage at h
    rcases hst : s.state with _ | _ | _ | _ | _ | _ | _ | _ | _ | _ | _ | _ | _ <;>
      simp only [hst] at h
    case idle => exact absurd hst hidle
    case cWait => exact absurd hst hw
    case report => exact absurd hst hr
    all_goals simp [h]
  have hcl' := hcl.1.next (i := i) (N := N) hreq
  obtain ⟨hlog, hcount, hslot⟩ := ledger_quiet (i := i) (N := N) (g := g) hcl.1 hidle hr
  have hun : Unwritten (ledger N s (.tick i) g) := by
    unfold Unwritten
    rw [hlog, hcount]
    exact hcl.2
  have hst' := state_next N s i
  have hfault := faultDetected_next (N := N) (i := i) hidle
  have hstop : (next N s i).state = .report → (next N s i).faultDetected = true →
      Stage (next N s i) (ledger N s (.tick i) g) := fun hrep hf =>
    stage_fails hcl' hun hr hrep (finalFail_of_fault hf)
  have hlate : expires N s = true → (next N s i).faultDetected = true := fun he => by
    simp [hfault, raises, he]
  unfold Stage at h
  rcases hst : s.state with _ | _ | _ | _ | _ | _ | _ | _ | _ | _ | _ | _ | _ <;>
    simp only [hst] at h hst'
  case idle => exact absurd hst hidle
  case cWait => exact absurd hst hw
  case report => exact absurd hst hr
  case dStart =>
    unfold Stage
    rw [hst']
    exact ⟨hcl', hun⟩
  case dWait =>
    rcases hd : DecapsEngine.done s.dec with _ | _
    · rcases hexp : expires N s with _ | _ <;> simp only [hd, hexp] at hst'
      · unfold Stage
        rw [hst']
        exact ⟨hcl', hun⟩
      · exact hstop hst' (hlate hexp)
    · rcases hf : DecapsEngine.fail s.dec with _ | _ <;> simp only [hd, hf] at hst'
      · unfold Stage
        rw [hst']
        exact ⟨hcl', hun, parked_of_done hd hf⟩
      · refine stage_fails hcl' hun hr hst' ?_
        -- the engine goes idle with its failure flag kept
        simp only [DecapsEngine.done, decide_eq_true_eq] at hd
        have hq : (DecapsEngine.next s.dec (decIn s i)).failQ = true := by
          simpa [DecapsEngine.next, DecapsEngine.control, hd, DecapsEngine.fail] using hf
        simp [finalFail, DecapsEngine.fail, next, hq]
  case tGuard | kGuard =>
    unfold Stage
    rw [hst']
    exact ⟨hcl', hun, parked_next (by simp [hst]) h.2.2⟩
  case tStart | kStart =>
    split_ifs at hst' with hc
    · refine hstop hst' ?_
      simp only [hfault, checkFails, hst]
      simp only [Bool.or_eq_true] at hc ⊢
      tauto
    · unfold Stage
      rw [hst']
      exact ⟨hcl', hun, parked_next (by simp [hst]) h.2.2⟩
  case tWait =>
    rcases hd : hdoneCtl s i with _ | _ <;> simp only [hd] at hst'
    · rcases hexp : expires N s with _ | _ <;> simp only [hexp] at hst'
      · unfold Stage
        rw [hst']
        exact ⟨hcl', hun, parked_next (by simp [hst]) h.2.2⟩
      · exact hstop hst' (hlate hexp)
    · unfold Stage
      rw [hst']
      exact ⟨hcl', hun, parked_next (by simp [hst]) h.2.2⟩
  case kWait =>
    rcases hd : hdoneCtl s i with _ | _ <;> simp only [hd] at hst'
    · rcases hexp : expires N s with _ | _ <;> simp only [hexp] at hst'
      · unfold Stage
        rw [hst']
        exact ⟨hcl', hun, parked_next (by simp [hst]) h.2.2⟩
      · exact hstop hst' (hlate hexp)
    · unfold Stage
      rw [hst']
      refine ⟨hcl', hun, parked_next (by simp [hst]) h.2.2, ?_⟩
      simp [next, machine, hst, hd, ledger]
  case cGuard =>
    unfold Stage
    rw [hst']
    refine ⟨hcl', hun, parked_next (by simp [hst]) h.2.2.1, ?_, ?_⟩
    · simpa [next, machine, hst, ledger] using h.2.2.2
    · simp [next, machine, hst]
  case cStart =>
    split_ifs at hst' with hc
    · refine hstop hst' ?_
      simp only [hfault, checkFails, hst]
      simp only [Bool.or_eq_true] at hc ⊢
      tauto
    · simp [installReq, hst] at hreq
      simp only [Bool.or_eq_true, not_or] at hc
      simp_all

/-- The install request itself. -/
theorem stage_requests (h : Stage s g) (hreq : installReq s = true)
    (hC : InstallsCalmly N s g i) :
    Stage (next N s i) (ledger N s (.tick i) g) := by
  have hraise := hC.1 (Or.inl hreq)
  obtain ⟨hslot, hrange⟩ := hC.2.2 hreq
  have hst : s.state = .cStart := by
    simp only [installReq, Bool.and_eq_true, decide_eq_true_eq] at hreq
    exact hreq.1.1.1
  have hidle : s.state ≠ .idle := by simp [hst]
  simp only [Stage, hst] at h
  obtain ⟨hcl, hun, hpark, hB, hm⟩ := h
  have hcond : (s.faultDetected || !s.materialMatch || s.hashIndex != 14) = false := by
    have hr := hreq
    simp only [installReq, Bool.and_eq_true, Bool.not_eq_true'] at hr
    obtain ⟨⟨⟨-, hf⟩, hmt⟩, hi⟩ := hr
    simp only [hf, hmt, bne, hi]
    rfl
  have hst' := state_next N s i
  simp only [hst, hcond, Bool.false_eq_true, if_false] at hst'
  have hfault := faultDetected_next (N := N) (i := i) hidle
  obtain ⟨hp', ha', hd', hs', hk', ho'⟩ := hcl.latches (g := g) (i := i) (N := N) hreq
  obtain ⟨-, hcount, hgslot⟩ := ledger_quiet (i := i) (N := N) (g := g) hcl hidle
    (by simp [hst])
  have hgm : (ledger N s (.tick i) g).material = g.material := by simp [ledger, hst]
  have hap := SessionManager.next_apart (i := MaterialCore.sessionsIn s.channel (channelIn s i))
    hcl.apart (fun _ => hcl.pending)
  rw [← sessions_next (N := N)] at hap
  have hA : s.materialA = g.material := by
    simp only [Bool.or_eq_false_iff, Bool.not_eq_false'] at hcond
    rw [hcond.1.2, hB, BitVec.not_not] at hm
    exact eq_of_beq hm.symm
  unfold Stage
  rw [hst']
  refine ⟨parked_next (by simp [hst]) hpark, ?_, .waits hp' ha' hd' hap.2 hap.1 ?_ ?_ ?_ ?_⟩
  · simp only [Bool.or_eq_false_iff] at hcond
    obtain ⟨⟨hf, hmt⟩, hi⟩ := hcond
    simp only [hfault, hraise, checkFails, hst, hf, hmt, hi, Bool.or_false]
  · rw [ho', hcount]
  · rw [hs', hslot, hgslot]
  · rw [hgslot]
    exact hrange
  · rw [hk', hA, hgm]

/-- An edge in `C_WAIT` without a fault. -/
theorem accounted_waits (h : Accounted s g) (hst : s.state = .cWait)
    (hC : InstallsCalmly N s g i) :
    Accounted (next N s i) (ledger N s (.tick i) g) := by
  have hidle : s.state ≠ .idle := by simp [hst]
  have hraise := hC.1 (Or.inr hst)
  have hexp : expires N s = false := by
    simp only [raises, Bool.or_eq_false_iff] at hraise
    exact hraise.1.1.1
  have hstage := h.stage
  simp only [Stage, hst] at hstage
  obtain ⟨hpark, hf, hinst⟩ := hstage
  have hun := h.unreported hidle
  obtain ⟨hnext, hlog⟩ := hinst.next (i := i) (N := N) hst
  have hpark' := parked_next (N := N) (i := i) (by simp [hst]) hpark
  have hf' : (next N s i).faultDetected = false := by
    simp [faultDetected_next hidle, hf, hraise, checkFails, hst]
  have hcount : (ledger N s (.tick i) g).count = g.count := by rw [ledger_cWait hst]
  have hst' := state_next N s i
  simp only [hst, hexp, Bool.false_eq_true, if_false] at hst'
  refine ⟨?_, ?_, fun _ failed slot m => ?_, ?_⟩
  · rcases hlog with hl | ⟨c, hl⟩ | ⟨c, hl⟩ <;> rw [hl]
    · exact h.sound
    · exact h.sound.written fun slot m => hun true slot m
    · exact h.sound.finished
  · rw [hcount]
    rcases hlog with hl | ⟨c, hl⟩ | ⟨c, hl⟩ <;> rw [hl]
    · exact h.known
    all_goals
      intro e he
      rw [List.mem_append, List.mem_singleton] at he
      rcases he with he | rfl
      · exact h.known e he
      · exact le_rfl
  · rw [hcount]
    rcases hlog with hl | ⟨c, hl⟩ | ⟨c, hl⟩ <;> rw [hl]
    · exact hun failed slot m
    all_goals simpa using hun failed slot m
  · unfold Stage
    rcases hd : s.channel.installDone with _ | _ <;>
      simp only [hd, Bool.false_eq_true, if_false, if_true] at hst' hnext
    · rw [hst']
      exact ⟨hpark', hf', hnext⟩
    · rw [hst', prevState_next]
      refine ⟨hnext.1, by simp [hst], Or.inl ⟨hst, ?_, hnext.2⟩⟩
      simp [finalFail, DecapsEngine.fail, hf', hpark'.2]

/-- The report. -/
theorem accounted_reports (h : Accounted s g) (hst : s.state = .report)
    (hC : InstallsCalmly N s g i) :
    Accounted (next N s i) (ledger N s (.tick i) g) := by
  have hidle : s.state ≠ .idle := by simp [hst]
  have hstage := h.stage
  simp only [Stage, hst] at hstage
  obtain ⟨hcl, hprev, hres⟩ := hstage
  have hcount : (ledger N s (.tick i) g).count = g.count := by
    simp [ledger, launches_of_ne hidle]
  have hlog : (ledger N s (.tick i) g).log =
      g.log ++ [.reported g.count (reportsFailure N s) g.slot g.material] := by
    simp [ledger, hcl.events, finalDone, hst]
  have hst' := state_next N s i
  simp only [hst] at hst'
  refine ⟨?_, ?_, fun hne => absurd hst' hne, ?_⟩
  · rw [hlog]
    rcases hres with ⟨hp, hf, hcomp⟩ | ⟨hf, hun⟩
    · have hexp := hC.2.1 ⟨hst, hp⟩
      refine h.sound.reported (fun ht => ?_) fun _ => hcomp
      simp [reportsFailure, hf, hexp] at ht
    · refine h.sound.reported (fun _ => hun) fun ht => ?_
      simp [reportsFailure, hf] at ht
  · rw [hlog, hcount]
    intro e he
    rw [List.mem_append, List.mem_singleton] at he
    rcases he with he | rfl
    · exact h.known e he
    · exact le_rfl
  · unfold Stage
    rw [hst']
    refine ⟨hcl.next (by simp [installReq, hst]), ?_⟩
    simp [next, machine, hst, Ne.symm hprev]

theorem accounted_next (hmax : 2 ≤ N) (h : Accounted s g) (hC : InstallsCalmly N s g i) :
    Accounted (next N s i) (ledger N s (.tick i) g) := by
  by_cases hidle : s.state = .idle
  · exact accounted_idle hmax h hidle
  by_cases hw : s.state = .cWait
  · exact accounted_waits h hw hC
  by_cases hr : s.state = .report
  · exact accounted_reports h hr hC
  rcases hreq : installReq s with _ | _
  · have hs := stage_before (i := i) (N := N) h.stage hreq hidle hw hr
    have hcl := clear_of_stage h.stage hw
    obtain ⟨hlog, hcount, -⟩ := ledger_quiet (i := i) (N := N) (g := g) hcl hidle hr
    exact h.of_same_log hidle hlog hcount hs
  · have hs := stage_requests h.stage hreq hC
    have hcl := clear_of_stage h.stage hw
    obtain ⟨hlog, hcount, -⟩ := ledger_quiet (i := i) (N := N) (g := g) hcl hidle hr
    exact h.of_same_log hidle hlog hcount hs

theorem accounted_rst {s' : State n dp H E} (hs : Sound g.log)
    (hk : ∀ e ∈ g.log, e.handshake ≤ g.count) : Accounted (rst s') g :=
  ⟨hs, hk, fun hne => absurd rfl hne, ⟨⟨rfl, rfl, rfl, rfl, fun h => by cases h⟩, rfl⟩⟩

end Accounts

end ProtectedTop

namespace CompleteTop

open ProtectedTop (Ledger Sound Accounted)

/-- The ledger of the core; while the synchroniser holds the reset nothing happens in it. -/
def ledger (maxStage : ℕ) (s : State n dp H E) : Act (In κ) → Ledger n → Ledger n
  | .reset, g => g
  | .tick i, g =>
    if rstSync s then ProtectedTop.ledger maxStage s.core (.tick (coreIn s i)) g else g

variable (n dp H E) in
def ledgered (maxStage : ℕ) : Design (State n dp H E × Ledger n) (In κ) :=
  (design n maxStage dp H E).withLog (ledger maxStage)

def InstallsCalmly (maxStage : ℕ) (p : State n dp H E × Ledger n) (i : In κ) : Prop :=
  rstSync p.1 = true → ProtectedTop.InstallsCalmly maxStage p.1.core p.2 (coreIn p.1 i)

instance (maxStage : ℕ) (p : State n dp H E × Ledger n) (i : In κ) :
    Decidable (InstallsCalmly maxStage p i) := by
  unfold InstallsCalmly
  infer_instance

/-- In every run whose edges meet the condition, no handshake reported as failed is ever
written to the table, and every one reported as done had its own material complete in its
own slot. -/
theorem installs_sound {maxStage : ℕ} (hmax : 2 ≤ maxStage) (s0 : State n dp H E)
    (acts : List (Act (In κ)))
    (hC : (ledgered n dp H E maxStage).AllSteps (InstallsCalmly maxStage)
      ((ledgered n dp H E maxStage).rst (s0, .empty)) acts) :
    Sound ((ledgered n dp H E maxStage).run ((ledgered n dp H E maxStage).rst (s0, .empty)) acts).2.log := by
  have hinit : Accounted (ProtectedTop.rst s0.core) .empty :=
    ProtectedTop.accounted_rst ProtectedTop.sound_nil fun e he => absurd he List.not_mem_nil
  refine (Design.run_induct_of _ (P := fun p => Accounted p.1.core p.2) ?_ ?_ hinit hC).sound
  · rintro ⟨s, g⟩ h
    exact ProtectedTop.accounted_rst h.sound h.known
  · rintro ⟨s, g⟩ i h hc
    change Accounted (next maxStage s i).core (ledger maxStage s (.tick i) g)
    unfold next ledger
    rcases hr : rstSync s with _ | _
    · exact ProtectedTop.accounted_rst h.sound h.known
    · exact ProtectedTop.accounted_next hmax h (hc hr)

section Sample

abbrev SampleState : Type :=
  State 64 ProtectedTop.sampleDatapath ProtectedTop.sampleHash.toHashUnit sampleEngine

def sampleTop : SampleState :=
  { rstSyncQ := 0, core := ProtectedTop.sampleTop
    traffic := { awHold := false, wHold := false, writeCommit := false, awaddrQ := 0, wdataQ := 0
                 wstrbQ := 0, bvalid := false, rvalid := false, rdata := 0, slotReg := 0
                 lengthReg := 0, counterReg := 0, inputData := fun _ => 0, inputTag := fun _ => 0
                 reqQ := default, pending := false, inflight := false, doneQ := false, authQ := false
                 errorQ := false, rspSlotQ := 0, rspCounterQ := 0, rspDataQ := 0, rspTagQ := 0 } }

abbrev sampleLedgered : Design (SampleState × Ledger 64) (In Bool) :=
  ledgered 64 ProtectedTop.sampleDatapath ProtectedTop.sampleHash.toHashUnit sampleEngine 300000

/-- Both ports at rest. -/
def sampleQuiet : In Bool :=
  ⟨⟨0, false, 0, 0, false, true, 0, false, true⟩, ⟨0, false, 0, 0, false, true, 0, false, true⟩, .none,
    true⟩

/-- The reset is released, START is written, and `pins` lie on the rest of the handshake. -/
def sampleHandshake (pins : List (In Bool)) : List (Act (In Bool)) :=
  List.replicate 2 (.tick sampleQuiet) ++
    .tick { sampleQuiet with m := ⟨4, true, 1, 15, true, true, 0, false, true⟩ } ::
    pins.map .tick

/-- A handshake without faults meets the condition and is reported as done. -/
theorem installs_sound_quiet :
    let log := (sampleLedgered.run (sampleLedgered.rst (sampleTop, .empty))
      (sampleHandshake (List.replicate 120 sampleQuiet))).2.log
    .reported 1 false 0 0 ∈ log ∧ Sound log :=
  ⟨by decide +kernel, installs_sound (by decide) sampleTop
    (sampleHandshake (List.replicate 120 sampleQuiet)) (by decide +kernel)⟩

/-- A spurious response valid while the install waits for the table: the handshake is
reported as failed and its session is written. -/
theorem installs_unsound :
    ¬ Sound (sampleLedgered.run (sampleLedgered.rst (sampleTop, .empty))
      (sampleHandshake (List.replicate 90 sampleQuiet ++
        { sampleQuiet with fault := { ProtectedTop.FaultInject.none with rspValid := true } } ::
          List.replicate 30 sampleQuiet))).2.log := by
  intro h
  refine h.failed 1 0 0 ?_ (MaterialCore.materialConfig 0 0 0) ?_ <;> decide +kernel

end Sample

end CompleteTop

end ZedSecure
