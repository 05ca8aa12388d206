import ZedSecure.Proofs.HandshakeSteps
import ZedSecure.Proofs.HashSchedule
import ZedSecure.Proofs.SessionCounters
import ZedSecure.Spec.SharedHash

/-! A session is installed only after a complete and untouched handshake: whatever faults
were injected, an install request means that the hash engine ran the fourteen commands and
that the material is the KDF of the secret and the transcript as their units gave them. -/

namespace ZedSecure

open Clocked

namespace ProtectedTop

variable {n : ℕ} {aead : EngineIn → EngineOut} {κ : Type} {dp : Datapath}
  {kdf : BitVec 256 → BitVec 256 → BitVec 576} {H : SharedHash kdf} {E : StartDone aead κ}

/-- The commands of a decapsulation, the transcript and the KDF. -/
def schedule : List (BitVec 3) := DecapsEngine.schedule ++ [5, 6]

/-- The hash engine takes a job at this edge. -/
def startsHash (s : State n dp H.toHashUnit E) : Bool := hsReq s && !(hashOut s).busy

/-- A record of one handshake: the jobs the hash engine took, each with the command the
control asked for and the command at the engine, the last of these jobs, and what the units
gave since the launch. -/
structure Handshake where
  started : List (BitVec 3 × BitVec 3)
  job : HashJob
  secret : Option (BitVec 256)
  transcript : Option (BitVec 256)

def Handshake.fresh : Handshake := ⟨[], .zero, none, none⟩

def record (s : State n dp H.toHashUnit E) : Act (In n κ) → Handshake → Handshake
  | .reset, _ => .fresh
  | .tick i, g =>
    if launches s then .fresh
    else
      { started := if startsHash s then g.started ++ [((hashReq s i).command, (hashJob s i).command)]
          else g.started
        job := if startsHash s then hashJob s i else g.job
        secret := if DecapsEngine.done s.dec then some s.dec.sharedSecret else g.secret
        transcript := if (hashOut s).done && g.job.command == 5 then
            some (slice (hashOut s).digest 0 256)
          else g.transcript }

/-- The states after the decapsulation. -/
def St.late : St → Bool
  | .idle | .dStart | .dWait | .report => false
  | _ => true

/-- The cycles since the state was entered. -/
def Age (s : State n dp H.toHashUnit E) (k : ℕ) : Prop :=
  if s.prevState = s.state then s.stageTimer.toNat + 1 = k else s.stageTimer = 0 ∧ k = 0

/-- The blocks are where the handshake expects them, faults or not: the hash engine is busy
only for someone who waits for it. -/
structure Ready (s : State n dp H.toHashUnit E) (g : Handshake) : Prop where
  phased : DecapsEngine.Phased s.dec
  parked : s.state.late = true → s.dec.state = .idle
  entered : s.state = .tStart ∨ s.state = .kStart → s.prevState ≠ s.state
  busy : (hashOut s).busy = true → ∃ a k, H.working a k s.hash ∧
    (DecapsEngine.awaitsHash s.dec ∨
      ((s.state = .tWait ∨ s.state = .kWait) ∧ a = g.job ∧ Age s k))

/-- The first `k` commands, and no others, have been started, unflipped. -/
def Ran (s : State n dp H.toHashUnit E) (g : Handshake) (k : ℕ) : Prop :=
  s.hashIndex.toNat = k ∧ g.started = (schedule.take k).map fun c => (c, c)

/-- During the decapsulation: the engine got the right commands so far, and either the engine's
own commands are the schedule or there are too few of them. -/
structure Running (starting : Bool) (s : State n dp H.toHashUnit E) (g : Handshake) : Prop where
  index : s.hashIndex.toNat = g.started.length
  bound : g.started.length ≤ 14
  sent : g.started.map Prod.snd = schedule.take g.started.length
  plan : g.started.map Prod.fst ++ DecapsEngine.left starting s.dec = DecapsEngine.schedule ∨
    g.started.length + (DecapsEngine.left starting s.dec).length < 12

/-- What no fault so far means in each state. -/
def Checked (s : State n dp H.toHashUnit E) (g : Handshake) : Prop :=
  match s.state with
  | .idle | .cWait | .report => True
  | .dStart => Running true s g
  | .dWait => Running false s g
  | .tGuard => Ran s g 12 ∧ ∃ ss, g.secret = some ss ∧ s.ssB = ~~~ss
  | .tStart => Ran s g 12 ∧ s.ssMatch = (s.ssA == ~~~s.ssB) ∧
      ∃ ss, g.secret = some ss ∧ s.ssB = ~~~ss
  | .tWait => Ran s g 13 ∧ g.secret = some s.ssA ∧ g.job.command = 5
  | .kGuard => Ran s g 13 ∧ g.secret = some s.ssA ∧
      ∃ tr, g.transcript = some tr ∧ s.transcriptB = ~~~tr
  | .kStart => Ran s g 13 ∧ g.secret = some s.ssA ∧
      s.transcriptMatch = (s.transcriptA == ~~~s.transcriptB) ∧
      ∃ tr, g.transcript = some tr ∧ s.transcriptB = ~~~tr
  | .kWait => Ran s g 14 ∧ g.secret = some s.ssA ∧ g.transcript = some s.transcriptA ∧
      g.job.command = 6 ∧ g.job.data0 = s.ssA ∧ g.job.data1 = s.transcriptA
  | .cGuard => Ran s g 14 ∧ ∃ ss tr, g.secret = some ss ∧ g.transcript = some tr ∧
      s.materialB = ~~~(kdf ss tr)
  | .cStart => Ran s g 14 ∧ s.materialMatch = (s.materialA == ~~~s.materialB) ∧
      ∃ ss tr, g.secret = some ss ∧ g.transcript = some tr ∧ s.materialB = ~~~(kdf ss tr)

section Commands

/-- A command that passes the check is the next of the schedule. -/
theorem expectedHash_eq {k : BitVec 5} (h : ¬ 14 ≤ k) :
    schedule.take (k.toNat + 1) = schedule.take k.toNat ++ [expectedHash k] := by
  revert h
  revert k
  decide

theorem length_take_schedule {k : ℕ} (h : k ≤ 14) : (schedule.take k).length = k := by
  rw [List.length_take]
  exact min_eq_left h

end Commands

section Quiet

variable {s : State n dp H.toHashUnit E} {g : Handshake} {i : In n κ} {maxStage : ℕ}

theorem hsReq_late (h : Ready s g) (hl : s.state.late = true) (ht : s.state ≠ .tStart)
    (hk : s.state ≠ .kStart) : hsReq s = false := by
  have hd := (DecapsEngine.idle_of_phased h.phased (h.parked hl)).1
  unfold hsReq
  rcases hs : s.state with _ | _ | _ | _ | _ | _ | _ | _ | _ | _ | _ | _ | _ <;>
    simp_all [St.late]

/-- The hash engine is free whenever a job is asked for. -/
theorem not_busy_of_hsReq (h : Ready s g) (hr : hsReq s = true) : (hashOut s).busy = false := by
  by_contra hb
  obtain ⟨a, k, -, hw | ⟨hst | hst, -⟩⟩ := h.busy (by simpa using hb)
  · by_cases hl : s.state.late = true
    · exact (DecapsEngine.idle_of_phased h.phased (h.parked hl)).2.1 hw
    · refine DecapsEngine.not_awaitsHash_of_hashStart h.phased ?_ hw
      unfold hsReq at hr
      rcases hs : s.state with _ | _ | _ | _ | _ | _ | _ | _ | _ | _ | _ | _ | _ <;>
        simp_all [St.late]
  · rw [hsReq_late h (by simp [hst, St.late]) (by simp [hst]) (by simp [hst])] at hr
    exact absurd hr Bool.false_ne_true
  · rw [hsReq_late h (by simp [hst, St.late]) (by simp [hst]) (by simp [hst])] at hr
    exact absurd hr Bool.false_ne_true

theorem startsHash_eq (h : Ready s g) : startsHash s = hsReq s := by
  unfold startsHash
  rcases hr : hsReq s with _ | _
  · rfl
  · simp [not_busy_of_hsReq h hr]

/-- Asking for a job means that someone waits for its answer at the next edge. -/
theorem waits_of_hsReq (h : Ready s g) (hr : hsReq s = true) :
    DecapsEngine.awaitsHash (next maxStage s i).dec ∨
      ((s.state = .tStart ∨ s.state = .kStart) ∧
        ((next maxStage s i).state = .tWait ∨ (next maxStage s i).state = .kWait) ∧
        Age (next maxStage s i) 0) := by
  by_cases ht : s.state = .tStart
  · have hp := h.entered (Or.inl ht)
    simp only [hsReq, ht, Bool.not_eq_true'] at hr
    rw [ht] at hp
    refine Or.inr ⟨Or.inl ht, Or.inl ?_, ?_⟩
    · simp [next, machine, ht, hr]
    · simp [Age, next, machine, ht, hr, hp.symm]
  · by_cases hk : s.state = .kStart
    · have hp := h.entered (Or.inr hk)
      simp only [hsReq, hk, Bool.not_eq_true'] at hr
      rw [hk] at hp
      refine Or.inr ⟨Or.inr hk, Or.inr ?_, ?_⟩
      · simp [next, machine, hk, hr]
      · simp [Age, next, machine, hk, hr, hp.symm]
    · left
      refine DecapsEngine.awaitsHash_of_hashStart ?_ _
      unfold hsReq at hr
      rcases hs : s.state with _ | _ | _ | _ | _ | _ | _ | _ | _ | _ | _ | _ | _ <;> simp_all

/-- A job that is not yet answered keeps its waiting state within the stage's time. -/
theorem keeps_waiting (hH : H.latency < 300000) (hst : s.state = .tWait ∨ s.state = .kWait)
    {k : ℕ} (ha : Age s k) (hk : k ≤ H.latency) (hd : (hashOut s).done = false) :
    (next 300000 s i).state = s.state ∧ Age (next 300000 s i) (k + 1) := by
  have htimer : s.stageTimer.toNat < 299999 := by
    unfold Age at ha
    split_ifs at ha with hp
    · omega
    · rw [ha.1]
      decide
  have hexp : expires 300000 s = false := by
    simp only [expires, decide_eq_false_iff_not]
    omega
  have hctl : hdoneCtl s i = false := by simp [hdoneCtl, hd]
  have hinc : (s.stageTimer + 1).toNat = s.stageTimer.toNat + 1 := by
    rw [BitVec.toNat_add]
    exact Nat.mod_eq_of_lt (by simp; omega)
  unfold Age at ha ⊢
  rcases hst with hst | hst
  all_goals
    rw [hst] at ha
    by_cases hp : s.prevState = s.state
    · rw [hst] at hp
      rw [if_pos hp] at ha
      simp only [next, machine, hst, hctl, watch_state, watch_prevState, watch_stageTimer, hexp, hp,
        Bool.false_eq_true, if_false, if_true, ne_eq, not_true_eq_false, reduceCtorEq,
        not_false_eq_true, and_self, true_and, hinc]
      omega
    · rw [hst] at hp
      rw [if_neg hp] at ha
      simp only [next, machine, hst, hctl, watch_state, watch_prevState, watch_stageTimer, hexp,
        Bool.false_eq_true, if_false, if_true, ne_eq, Ne.symm hp, not_false_eq_true, true_and]
      simp [ha.2]

theorem ready_busy_next (hH : H.latency < 300000) (h : Ready s g)
    (hb : (hashOut (next 300000 s i)).busy = true) :
    ∃ a k, H.working a k (next 300000 s i).hash ∧
      (DecapsEngine.awaitsHash (next 300000 s i).dec ∨
        (((next 300000 s i).state = .tWait ∨ (next 300000 s i).state = .kWait) ∧
          a = (record s (.tick i) g).job ∧ Age (next 300000 s i) k)) := by
  rcases hbusy : (hashOut s).busy with _ | _
  · rcases hr : hsReq s with _ | _
    · have hidle := H.idle_wait s.hash (hashIn s i) hbusy hr
      exact absurd (hb.symm.trans hidle) (by simp)
    · refine ⟨hashJob s i, 0, H.idle_start s.hash (hashIn s i) hbusy hr, ?_⟩
      rcases waits_of_hsReq h hr with hw | ⟨hst, hst', hage⟩
      · exact Or.inl hw
      · refine Or.inr ⟨hst', ?_, hage⟩
        have hl : launches s = false := by
          rcases hst with hst | hst <;> simp [launches, hst]
        simp [record, hl, startsHash_eq h, hr]
  · obtain ⟨a, k, hwork, hwait⟩ := h.busy hbusy
    rcases hdone : (hashOut s).done with _ | _
    · refine ⟨a, k + 1, H.working_next a k s.hash (hashIn s i) hwork hdone, ?_⟩
      rcases hwait with hw | ⟨hst, ha, hage⟩
      · exact Or.inl (DecapsEngine.awaitsHash_next hw (by simp [decIn, hdoneCtl, hdone]))
      · obtain ⟨hst', hage'⟩ := keeps_waiting (i := i) hH hst hage (H.working_le a k s.hash hwork) hdone
        refine Or.inr ⟨hst' ▸ hst, ?_, hage'⟩
        have hl : launches s = false := by
          rcases hst with hst | hst <;> simp [launches, hst]
        simp [record, hl, startsHash, hbusy, ha]
    · have hidle := H.working_done a k s.hash (hashIn s i) hwork hdone
      exact absurd (hb.symm.trans hidle) (by simp)

theorem late_next (h : (next maxStage s i).state.late = true) :
    s.state.late = true ∨ (s.state = .dWait ∧ DecapsEngine.done s.dec = true) := by
  rw [state_next] at h
  rcases hs : s.state with _ | _ | _ | _ | _ | _ | _ | _ | _ | _ | _ | _ | _ <;>
    simp only [hs] at h
  case dWait =>
    split_ifs at h with hd hf he <;> first | exact Or.inr ⟨rfl, hd⟩ | cases h
  case idle => split_ifs at h <;> cases h
  case dStart | report => cases h
  all_goals exact Or.inl rfl

theorem entered_next
    (h : (next maxStage s i).state = .tStart ∨ (next maxStage s i).state = .kStart) :
    (next maxStage s i).prevState ≠ (next maxStage s i).state := by
  rw [prevState_next]
  rw [state_next] at h ⊢
  rcases hs : s.state with _ | _ | _ | _ | _ | _ | _ | _ | _ | _ | _ | _ | _ <;>
    simp only [hs] at h ⊢
  case tGuard | kGuard => simp
  all_goals
    revert h
    try split_ifs
    all_goals simp

theorem ready_next (hH : H.latency < 300000) (h : Ready s g) (i : In n κ) :
    Ready (next 300000 s i) (record s (.tick i) g) where
  phased := DecapsEngine.phased_next h.phased (decIn s i)
  parked hl := by
    rcases late_next hl with hl | ⟨-, hd⟩
    · refine DecapsEngine.next_idle (h.parked hl) ?_
      have hne : s.state ≠ .dStart := by
        intro hst
        simp [hst, St.late] at hl
      simp [decIn, hne]
    · exact DecapsEngine.next_done hd (decIn s i)
  entered := entered_next
  busy := ready_busy_next hH h

end Quiet

section Record

variable {s : State n dp H.toHashUnit E} {g : Handshake} {i : In n κ}

theorem not_launches (hst : s.state ≠ .idle) : launches s = false := by simp [launches, hst]

theorem not_idle_of_late (hl : s.state.late = true) : s.state ≠ .idle := by
  intro hst
  simp [hst, St.late] at hl

theorem record_secret (h : Ready s g) (hl : s.state.late = true) :
    (record s (.tick i) g).secret = g.secret := by
  have hd := (DecapsEngine.idle_of_phased h.phased (h.parked hl)).2.2
  simp [record, not_launches (not_idle_of_late hl), hd]

/-- After the decapsulation the hash engine works for the two wait states only. -/
theorem not_done_of_late (h : Ready s g) (hl : s.state.late = true) (ht : s.state ≠ .tWait)
    (hk : s.state ≠ .kWait) : (hashOut s).done = false := by
  refine H.idle_done s.hash ?_
  by_contra hb
  obtain ⟨a, k, -, hw | ⟨hst | hst, -⟩⟩ := h.busy (by simpa [hashOut] using hb)
  · exact (DecapsEngine.idle_of_phased h.phased (h.parked hl)).2.1 hw
  · exact ht hst
  · exact hk hst

theorem record_transcript (hl : s.state.late = true)
    (hd : (hashOut s).done = false ∨ g.job.command = 6) :
    (record s (.tick i) g).transcript = g.transcript := by
  rcases hd with hd | hd <;> simp [record, not_launches (not_idle_of_late hl), hd]

theorem record_of_not_hsReq (hst : s.state ≠ .idle) (hr : hsReq s = false) :
    (record s (.tick i) g).started = g.started ∧ (record s (.tick i) g).job = g.job := by
  simp [record, not_launches hst, startsHash, hr]

theorem record_of_hsReq (h : Ready s g) (hst : s.state ≠ .idle) (hr : hsReq s = true) :
    (record s (.tick i) g).started = g.started ++ [((hashReq s i).command, (hashJob s i).command)] ∧
      (record s (.tick i) g).job = hashJob s i := by
  simp [record, not_launches hst, startsHash_eq h, hr]

/-- A start in sequence. -/
theorem command_of_hsReq (hr : hsReq s = true) (ho : outOfSequence s i = false) :
    ¬ 14 ≤ s.hashIndex ∧ (hashJob s i).command = expectedHash s.hashIndex := by
  simpa [outOfSequence, hr] using ho

end Record

section Started

variable {s s' : State n dp H.toHashUnit E} {g : Handshake} {i : In n κ}

theorem pairs_of_maps {l : List (BitVec 3 × BitVec 3)} {a : List (BitVec 3)}
    (h1 : l.map Prod.fst = a) (h2 : l.map Prod.snd = a) : l = a.map fun c => (c, c) := by
  subst h1
  rw [List.map_map]
  refine (List.map_id l).symm.trans (List.map_congr_left fun p hp => ?_)
  have hs := List.map_inj_left.mp h2 p hp
  exact Prod.ext rfl hs

theorem Ran.keep {k : ℕ} (h : Ran s g k) (hst : s.state ≠ .idle) (hr : hsReq s = false)
    (hi : s'.hashIndex = if hsReq s then s.hashIndex + 1 else s.hashIndex) :
    Ran s' (record s (.tick i) g) k := by
  unfold Ran
  rw [(record_of_not_hsReq hst hr).1, hi, hr]
  exact h

/-- A start in sequence, for the command the control means, is one more command of the schedule. -/
theorem Ran.snoc {k : ℕ} (h : Ran s g k) (hR : Ready s g) (hst : s.state ≠ .idle)
    (hr : hsReq s = true) (ho : outOfSequence s i = false)
    (hc : (hashReq s i).command = expectedHash (BitVec.ofNat 5 k))
    (hi : s'.hashIndex = if hsReq s then s.hashIndex + 1 else s.hashIndex) :
    Ran s' (record s (.tick i) g) (k + 1) := by
  obtain ⟨rfl, hg⟩ := h
  obtain ⟨hlt, hcmd⟩ := command_of_hsReq hr ho
  rw [BitVec.ofNat_toNat, BitVec.setWidth_eq] at hc
  have hlt' : s.hashIndex.toNat < 14 := by
    simpa [BitVec.le_def] using hlt
  refine ⟨?_, ?_⟩
  · rw [hi, hr, if_pos rfl, BitVec.toNat_add]
    exact Nat.mod_eq_of_lt (by simp; omega)
  · rw [(record_of_hsReq hR hst hr).1, expectedHash_eq hlt, hg, hc, hcmd, List.map_append]
    rfl

theorem Running.next {b : Bool} (h : Running b s g) (hR : Ready s g) (hst : s.state ≠ .idle)
    (hr : hsReq s = DecapsEngine.hashStart s.dec)
    (hj : hashReq s i = DecapsEngine.hashJob s.dec (decOut s i)) (hb : (decIn s i).start = b)
    (ho : outOfSequence s i = false)
    (hi : s'.hashIndex = if hsReq s then s.hashIndex + 1 else s.hashIndex)
    (hdec : s'.dec = DecapsEngine.next s.dec (decIn s i)) :
    Running false s' (record s (.tick i) g) := by
  obtain ⟨hidx, hle, hsent, hplan⟩ := h
  have hleft := DecapsEngine.left_next hR.phased (decIn s i)
  rw [hb, ← hr, ← hdec] at hleft
  rcases hreq : hsReq s with _ | _
  · rw [hreq] at hi hleft
    have hg := (record_of_not_hsReq (g := g) (i := i) hst hreq).1
    simp only [Bool.false_eq_true, if_false, List.nil_append] at hi hleft
    refine ⟨?_, ?_, ?_, ?_⟩ <;> rw [hg]
    · rw [hi, hidx]
    · exact hle
    · exact hsent
    · rw [hleft]
      exact hplan
  · rw [hreq] at hi hleft
    obtain ⟨hlt, hcmd⟩ := command_of_hsReq hreq ho
    have hlt' : s.hashIndex.toNat < 14 := by
      simpa [BitVec.le_def] using hlt
    have hg := (record_of_hsReq (i := i) hR hst hreq).1
    have hlen : (record s (.tick i) g).started.length = g.started.length + 1 := by
      rw [hg, List.length_append, List.length_singleton]
    simp only [if_true] at hi hleft
    refine ⟨?_, ?_, ?_, ?_⟩
    · rw [hi, hlen, ← hidx, BitVec.toNat_add]
      exact Nat.mod_eq_of_lt (by simp; omega)
    · omega
    · rw [hlen, ← hidx, expectedHash_eq hlt, hidx, hg, List.map_append, hsent, hcmd]
      rfl
    · rw [hlen, hg, List.map_append, hj]
      rw [← hleft] at hplan
      rcases hplan with hp | hp
      · left
        rw [← hp, List.append_assoc]
        rfl
      · right
        rw [List.length_append, List.length_singleton] at hp
        omega

/-- A decapsulation that ends with twelve commands counted has run its whole schedule. -/
theorem Running.complete (h : Running false s g) (hd : DecapsEngine.done s.dec = true)
    (hi : s.hashIndex = 12) : Ran s g 12 := by
  obtain ⟨hidx, -, hsent, hplan⟩ := h
  rw [DecapsEngine.left_done hd, List.append_nil] at hplan
  rw [hi] at hidx
  have hlen : g.started.length = 12 := hidx.symm
  rw [hlen] at hsent hplan
  rcases hplan with hp | hp
  · exact ⟨by rw [hi]; rfl, pairs_of_maps hp hsent⟩
  · simp at hp

end Started

section Steps

variable {s : State n dp H.toHashUnit E} {g : Handshake} {i : In n κ}

/-- A value that passed its complement check is the value the complement was made from. -/
theorem eq_of_match {w : ℕ} {a b x : BitVec w} (hm : (a == ~~~b) = true) (hb : b = ~~~x) : a = x := by
  rw [hb, BitVec.not_not] at hm
  exact eq_of_beq hm

/-- The answer of the KDF command is the KDF of its operands. -/
theorem kdf_of_done (h : Ready s g) (hs : s.state = .kWait) (hd : (hashOut s).done = true)
    (hj : g.job.command = 6) : (hashOut s).digest = kdf g.job.data0 g.job.data1 := by
  have hl : s.state.late = true := by simp [hs, St.late]
  have hb : (hashOut s).busy = true := by
    by_contra hb
    have hn := H.idle_done s.hash (by simpa [hashOut] using hb)
    exact absurd (hd.symm.trans hn) (by simp)
  obtain ⟨a, k, hw, hwait | ⟨-, rfl, -⟩⟩ := h.busy hb
  · exact absurd hwait (DecapsEngine.idle_of_phased h.phased (h.parked hl)).2.1
  · exact H.kdf_digest _ k s.hash hw hd hj

theorem checked_next (hR : Ready s g) (hC : s.faultDetected = false → Checked s g)
    (hq : (next 300000 s i).faultDetected = false) :
    Checked (next 300000 s i) (record s (.tick i) g) := by
  by_cases hidle : s.state = .idle
  · unfold Checked
    rcases hl : s.front.decapStart with _ | _
    · rw [state_next]
      simp only [hidle, hl, Bool.false_eq_true, if_false]
      rcases expires 300000 s with _ | _ <;> simp
    · rw [state_next]
      simp only [hidle, hl, if_true]
      have hg : record s (.tick i) g = .fresh := by simp [record, launches, hidle, hl]
      rw [hg]
      refine ⟨?_, Nat.zero_le _, rfl, ?_⟩
      · simp [next, machine, hidle, hl, Handshake.fresh]
      · simpa [Handshake.fresh] using DecapsEngine.left_eq_or_length_lt true (next 300000 s i).dec
  · obtain ⟨hf, hraise, hcheck⟩ := quiet_of_next hidle hq
    have hC := hC hf
    have hI := hashIndex_next (N := 300000) (i := i) hidle
    simp only [raises, Bool.or_eq_false_iff] at hraise
    obtain ⟨⟨⟨hexp, hseq⟩, -⟩, -⟩ := hraise
    have hsame := hsReq_late hR
    unfold Checked at hC ⊢
    rw [state_next]
    rcases hs : s.state with _ | _ | _ | _ | _ | _ | _ | _ | _ | _ | _ | _ | _ <;>
      simp only [hs, hf, hexp, Bool.false_or, Bool.false_eq_true, if_false] at hC ⊢
    case idle => exact absurd hs hidle
    case dStart =>
      refine hC.next hR hidle ?_ ?_ ?_ hseq hI rfl
      all_goals simp [hsReq, hashReq, decIn, hs]
    case dWait =>
      have hr : hsReq s = DecapsEngine.hashStart s.dec := by simp [hsReq, hs]
      rcases hd : DecapsEngine.done s.dec with _ | _
      · simp only [Bool.false_eq_true, if_false]
        refine hC.next hR hidle hr ?_ ?_ hseq hI rfl
        all_goals simp [hashReq, decIn, hs]
      · simp only [if_true]
        rcases DecapsEngine.fail s.dec with _ | _
        · have h12 : s.hashIndex = 12 := by simpa [checkFails, hs, hd] using hcheck
          have hreq : hsReq s = false := by
            simp only [DecapsEngine.done, decide_eq_true_eq] at hd
            simp [hr, DecapsEngine.hashStart, hd]
          refine ⟨(hC.complete hd h12).keep hidle hreq hI, s.dec.sharedSecret, ?_, ?_⟩
          · simp [record, not_launches hidle, hd]
          · simp [next, machine, hs, hd, h12]
        · trivial
    case tGuard =>
      have hl : s.state.late = true := by simp [hs, St.late]
      obtain ⟨hran, ss, hss, hb⟩ := hC
      have hreq := hsame hl (by simp [hs]) (by simp [hs])
      refine ⟨hran.keep hidle hreq hI, ?_, ss, (record_secret hR hl).trans hss, ?_⟩
      all_goals simp [next, machine, hs, hb]
    case tStart =>
      have hl : s.state.late = true := by simp [hs, St.late]
      obtain ⟨hran, hm, ss, hss, hb⟩ := hC
      have hmt : s.ssMatch = true := by simpa [checkFails, hs] using hcheck
      have hreq : hsReq s = true := by simp [hsReq, hs, hf, hmt]
      have hA : s.ssA = ss := eq_of_match (hm.symm.trans hmt) hb
      have hjob := (record_of_hsReq (i := i) hR hidle hreq)
      simp only [hmt, Bool.not_true, Bool.false_eq_true, if_false]
      refine ⟨hran.snoc hR hidle hreq hseq ?_ hI, ?_, ?_⟩
      · simp [hashReq, hs]
        rfl
      · rw [record_secret hR hl, hss, ← hA]
        simp [next, machine, hs, hf, hmt]
      · rw [hjob.2, (command_of_hsReq hreq hseq).2]
        have hidx : s.hashIndex = 12 := BitVec.eq_of_toNat_eq hran.1
        rw [hidx]
        rfl
    case tWait =>
      have hl : s.state.late = true := by simp [hs, St.late]
      obtain ⟨hran, hss, hj⟩ := hC
      have hreq := hsame hl (by simp [hs]) (by simp [hs])
      have hran' : Ran (next 300000 s i) (record s (.tick i) g) 13 := hran.keep hidle hreq hI
      rcases hd : hdoneCtl s i with _ | _
      · simp only [Bool.false_eq_true, if_false]
        refine ⟨hran', ?_, ?_⟩
        · rw [record_secret hR hl, hss]
          simp [next, machine, hs, hd]
        · rw [(record_of_not_hsReq hidle hreq).2, hj]
      · have hdone : (hashOut s).done = true := by
          simp only [hdoneCtl, Bool.and_eq_true] at hd
          exact hd.1
        simp only [if_true]
        refine ⟨hran', ?_, slice (hashOut s).digest 0 256, ?_, ?_⟩
        · rw [record_secret hR hl, hss]
          simp [next, machine, hs, hd]
        · simp [record, not_launches hidle, hdone, hj]
        · simp [next, machine, hs, hd]
    case kGuard =>
      have hl : s.state.late = true := by simp [hs, St.late]
      obtain ⟨hran, hss, tr, htr, hb⟩ := hC
      have hreq := hsame hl (by simp [hs]) (by simp [hs])
      have hnd := not_done_of_late hR hl (by simp [hs]) (by simp [hs])
      refine ⟨hran.keep hidle hreq hI, ?_, ?_, tr, (record_transcript hl (Or.inl hnd)).trans htr, ?_⟩
      · rw [record_secret hR hl, hss]
        simp [next, machine, hs]
      all_goals simp [next, machine, hs, hb]
    case kStart =>
      have hl : s.state.late = true := by simp [hs, St.late]
      obtain ⟨hran, hss, hm, tr, htr, hb⟩ := hC
      have hmt : s.transcriptMatch = true := by simpa [checkFails, hs] using hcheck
      have hreq : hsReq s = true := by simp [hsReq, hs, hf, hmt]
      have hA : s.transcriptA = tr := eq_of_match (hm.symm.trans hmt) hb
      have hjob := (record_of_hsReq (i := i) hR hidle hreq).2
      have hnd := not_done_of_late hR hl (by simp [hs]) (by simp [hs])
      simp only [hmt, Bool.not_true, Bool.false_eq_true, if_false]
      refine ⟨hran.snoc hR hidle hreq hseq ?_ hI, ?_, ?_, ?_, ?_, ?_⟩
      · simp [hashReq, hs]
        rfl
      · rw [record_secret hR hl, hss]
        simp [next, machine, hs, hf, hmt]
      · rw [record_transcript hl (Or.inl hnd), htr, ← hA]
        simp [next, machine, hs, hf, hmt]
      · rw [hjob, (command_of_hsReq hreq hseq).2]
        have hidx : s.hashIndex = 13 := BitVec.eq_of_toNat_eq hran.1
        rw [hidx]
        rfl
      all_goals
        rw [hjob]
        simp [hashJob, hashReq, next, machine, hs, hf, hmt]
    case kWait =>
      have hl : s.state.late = true := by simp [hs, St.late]
      obtain ⟨hran, hss, htr, hj, hj0, hj1⟩ := hC
      have hreq := hsame hl (by simp [hs]) (by simp [hs])
      have hran' : Ran (next 300000 s i) (record s (.tick i) g) 14 := hran.keep hidle hreq hI
      rcases hd : hdoneCtl s i with _ | _
      · simp only [Bool.false_eq_true, if_false]
        rw [record_secret hR hl, record_transcript hl (Or.inr hj), (record_of_not_hsReq hidle hreq).2]
        refine ⟨hran', ?_, ?_, hj, ?_, ?_⟩
        all_goals simp [next, machine, hs, hd, hss, htr, hj0, hj1]
      · have hdone : (hashOut s).done = true := by
          simp only [hdoneCtl, Bool.and_eq_true] at hd
          exact hd.1
        have hkdf := kdf_of_done hR hs hdone hj
        simp only [if_true]
        refine ⟨hran', s.ssA, s.transcriptA, ?_, ?_, ?_⟩
        · rw [record_secret hR hl, hss]
        · rw [record_transcript hl (Or.inr hj), htr]
        · rw [← hj0, ← hj1, ← hkdf]
          simp [next, machine, hs, hd]
    case cGuard =>
      have hl : s.state.late = true := by simp [hs, St.late]
      obtain ⟨hran, ss, tr, hss, htr, hb⟩ := hC
      have hreq := hsame hl (by simp [hs]) (by simp [hs])
      have hnd := not_done_of_late hR hl (by simp [hs]) (by simp [hs])
      refine ⟨hran.keep hidle hreq hI, ?_, ss, tr, (record_secret hR hl).trans hss,
        (record_transcript hl (Or.inl hnd)).trans htr, ?_⟩
      all_goals simp [next, machine, hs, hb]
    case cStart =>
      split_ifs <;> trivial
    case cWait =>
      rcases s.channel.installDone with _ | _ <;> trivial

end Steps

section Installs

variable (n dp) (H) (E)

/-- The top with its default watchdog, and the record of its last handshake. -/
def recorded : Design (State n dp H.toHashUnit E × Handshake) (In n κ) :=
  (design n 300000 dp H.toHashUnit E).withLog record

variable {n dp H E}

theorem recorded_invariant (hH : H.latency < 300000)
    {p : State n dp H.toHashUnit E × Handshake} (hp : (recorded n dp H E).Reachable p) :
    Ready p.1 p.2 ∧ (p.1.faultDetected = false → Checked p.1 p.2) := by
  refine Design.reachable_induct _ (P := fun p => Ready p.1 p.2 ∧
    (p.1.faultDetected = false → Checked p.1 p.2)) ?_ ?_ hp
  · rintro ⟨s, g⟩
    refine ⟨⟨DecapsEngine.phased_rst s.dec, fun _ => rfl, ?_, fun hb => ?_⟩, fun _ => trivial⟩
    · rintro (h | h) <;> cases h
    · exact absurd (hb.symm.trans (H.rst_idle s.hash)) (by simp)
  · rintro ⟨s, g⟩ i ⟨hR, hC⟩
    exact ⟨ready_next hH hR i, checked_next hR hC⟩

/-- Whenever an install is requested, the hash engine was started in this handshake with the
fourteen commands, each as the control asked for it, and the material is the KDF of the
secret and of the transcript digest the units gave. -/
theorem install_checked (hH : H.latency < 300000)
    {p : State n dp H.toHashUnit E × Handshake} (hp : (recorded n dp H E).Reachable p)
    (hreq : installReq p.1 = true) :
    p.2.started = schedule.map (fun c => (c, c)) ∧
      ∃ ss tr, p.2.secret = some ss ∧ p.2.transcript = some tr ∧ p.1.materialA = kdf ss tr := by
  obtain ⟨-, hC⟩ := recorded_invariant hH hp
  obtain ⟨s, g⟩ := p
  simp only [installReq, Bool.and_eq_true, decide_eq_true_eq, Bool.not_eq_true'] at hreq
  obtain ⟨⟨⟨hst, hf⟩, hm⟩, -⟩ := hreq
  have hC := hC hf
  simp only [Checked, hst] at hC
  obtain ⟨hran, hmatch, ss, tr, hss, htr, hb⟩ := hC
  exact ⟨hran.2, ss, tr, hss, htr, eq_of_match (hmatch.symm.trans hm) hb⟩

end Installs

section Sample

/-- A datapath whose units all answer at once, with zeros. -/
def sampleDatapath : Datapath where
  σ := Unit
  rst _ := ()
  next _ _ := ()
  out _ _ := ⟨true, 0, false, 0, 0, ⟨false, 0, 0⟩, true, 0, 0, 0, 0, ⟨false, 0, 0⟩, true, ⟨false, 0, 0⟩,
    true, true, ⟨false, 0, 0⟩, true, ⟨false, 0, 0⟩, true, false, 0, 0⟩

/-- A hash engine that answers at once, the KDF with its second operand. -/
def sampleHash : SharedHash fun _ d1 => d1.setWidth 576 :=
  SharedHash.prompt fun a => a.data1.setWidth 576

abbrev SampleState : Type := State 64 sampleDatapath sampleHash.toHashUnit sampleEngine

def sampleTop : SampleState :=
  { state := .idle, prevState := .idle, ssA := 0, ssB := 0, transcriptA := 0, transcriptB := 0
    materialA := 0, materialB := 0, faultDetected := false, faultCode := 0, hashIndex := 0
    stageTimer := 0, outstanding := false, ssMatch := false, transcriptMatch := false
    materialMatch := false, front := DecapsFrontend.reset
    mem := ⟨fun _ => 0, fun _ => 0, fun _ => 0, 0, 0, 0, 0, false, 0, 0, 0⟩
    dec := ⟨.idle, .idle, false, false, 0, 0, 0, ()⟩, hash := none
    channel := ⟨false, false, false, 0, 0, 0, samplePower⟩ }

/-- A cycle without an AXI transfer, a fault or a request. -/
def sampleQuiet : In 64 Bool :=
  ⟨⟨0, false, 0, 0, false, true, 0, false, true⟩, .none, false, default, true, true⟩

/-- A cycle that offers a register write. -/
def sampleWrite (addr : BitVec 8) (data : BitVec 32) : In 64 Bool :=
  { sampleQuiet with axi := ⟨addr, true, data, 15, true, true, 0, false, true⟩ }

/-- START is written and the handshake runs up to the install request. -/
def sampleHandshake : List (Act (In 64 Bool)) :=
  .tick (sampleWrite DecapsFrontend.REG_CONTROL 1) :: List.replicate 86 (.tick sampleQuiet)

theorem install_checked_handshake :
    let p := (recorded 64 sampleDatapath sampleHash sampleEngine).run
      ((recorded 64 sampleDatapath sampleHash sampleEngine).rst (sampleTop, .fresh)) sampleHandshake
    p.2.started = schedule.map (fun c => (c, c)) ∧
      ∃ ss tr, p.2.secret = some ss ∧ p.2.transcript = some tr ∧
        p.1.materialA = (fun _ d1 => d1.setWidth 576) ss tr :=
  install_checked (by decide) ⟨_, _, rfl⟩ (by decide +kernel)

end Sample

end ProtectedTop

end ZedSecure
