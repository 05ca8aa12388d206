import ZedSecure.Proofs.Exchanges
import ZedSecure.Rtl.SharedHashEngine

/-! No false alarms: with the fault inputs at zero none of the monitors and checks ever fires. The
invariant follows the schedule of the hash commands through every handshake, rejected or not, and
the watchdog through every stage. -/

namespace ZedSecure

open Clocked

namespace SharedHashEngine

variable {κ : Type} {P : StartDone Fips202.keccakF κ} {s : State P}

/-- Only a matrix job can end with an error. -/
def ErrorMatrix (s : State P) : Prop := s.error = true → s.cmd = C_MATRIX

theorem errorMatrix_init : ErrorMatrix (State.init P) := fun h => by cases h

theorem feedNext_error (s f : State P) (i : HashIn) :
    (feedNext s f i).error = f.error ∧ (feedNext s f i).cmd = f.cmd := by
  constructor
  · simp only [feedNext, byteNext, queueNext, apply_ite State.error, ite_self]
  · simp only [feedNext, byteNext, queueNext, apply_ite State.cmd, ite_self]

theorem errorMatrix_out {f : State P} (h : ErrorMatrix s) (herr : f.error = s.error) (hcmd : f.cmd = s.cmd) :
    ErrorMatrix (outNext s f) := by
  unfold ErrorMatrix at h ⊢
  have hsame : (outNext s f).cmd = f.cmd := by simp only [outNext, apply_ite State.cmd, ite_self]
  rw [hsame, hcmd]
  simp only [outNext, apply_ite State.error, ite_self, herr]
  split_ifs
  · exact h
  · rw [Bool.or_eq_true, decide_eq_true_eq]
    exact fun hor => hor.elim h id
  · exact h

theorem errorMatrix_next (h : ErrorMatrix s) (i : HashIn) (k : κ) : ErrorMatrix (next s i k) := by
  unfold next
  cases hst : s.state <;> simp only
  case feed =>
    unfold ErrorMatrix
    rw [(feedNext_error _ _ i).1, (feedNext_error _ _ i).2]
    exact h
  case out => exact errorMatrix_out h rfl rfl
  case idle =>
    split_ifs
    · intro herr
      cases herr
    · exact h
  all_goals
    try split_ifs
    all_goals exact h

end SharedHashEngine

namespace ProtectedTop

variable {n : ℕ} {aead : EngineIn → EngineOut} {κ : Type} {dp : Datapath} {H : HashUnit}
  {E : StartDone aead κ} {N : ℕ} {s : State n dp H E} {i : In n κ}

/-- The cycles the state machine has been in its state, and the hash commands started since the
launch. -/
structure Watch where
  age : ℕ
  commands : List (BitVec 3)

def Watch.fresh : Watch := ⟨0, []⟩

def Watch.next (N : ℕ) (s : State n dp H E) (i : In n κ) (w : Watch) : Watch where
  age := if (ProtectedTop.next N s i).state = s.state then w.age + 1 else 0
  commands :=
    if launches s then [] else if hsReq s then w.commands ++ [(hashJob s i).command] else w.commands

/-- The edge is in time and without an injected fault, a failed hash or a response nobody asked for. -/
structure Timely (N : ℕ) (s : State n dp H E) (i : In n κ) (w : Watch) : Prop where
  quiet : i.fault = .none
  age : s.state ≠ .idle → w.age + 1 < N
  hash : hashFails s = false
  rsp : unexpectedRsp s i = false

/-- The timer counts the cycles of a stage from its second cycle on. -/
structure Timed (N : ℕ) (s : State n dp H E) (w : Watch) : Prop where
  rest : s.state = .idle → s.stageTimer = 0
  once : s.state = .report → s.state ≠ s.prevState
  entered : s.state ≠ .idle → s.state ≠ s.prevState → s.stageTimer.toNat + 1 < N
  aged : s.state ≠ .idle → s.state = s.prevState → s.stageTimer.toNat + 1 ≤ w.age

/-- What each state can rely on. -/
def Sure (s : State n dp H E) (w : Watch) : Prop :=
  match s.state with
  | .idle | .report | .cWait => s.dec.state = .idle
  | .dStart => s.dec.state = .idle ∧ s.hashIndex = 0 ∧ w.commands = []
  | .dWait => s.dec.state ≠ .idle ∧ s.hashIndex.toNat = w.commands.length ∧
      w.commands ++ DecapsEngine.left false s.dec = DecapsEngine.schedule
  | .tGuard => s.dec.state = .idle ∧ s.hashIndex = 12 ∧ (s.ssA == ~~~s.ssB) = true
  | .tStart => s.dec.state = .idle ∧ s.hashIndex = 12 ∧ s.ssMatch = true
  | .tWait => s.dec.state = .idle ∧ s.hashIndex = 13
  | .kGuard => s.dec.state = .idle ∧ s.hashIndex = 13 ∧ (s.transcriptA == ~~~s.transcriptB) = true
  | .kStart => s.dec.state = .idle ∧ s.hashIndex = 13 ∧ s.transcriptMatch = true
  | .kWait => s.dec.state = .idle ∧ s.hashIndex = 14
  | .cGuard => s.dec.state = .idle ∧ s.hashIndex = 14 ∧ (s.materialA == ~~~s.materialB) = true
  | .cStart => s.dec.state = .idle ∧ s.hashIndex = 14 ∧ s.materialMatch = true

/-- No fault is flagged and the handshake is where its state says. -/
structure OnPlan (s : State n dp H E) (w : Watch) : Prop where
  calm : s.faultDetected = false
  phased : DecapsEngine.Phased s.dec
  sure : Sure s w

theorem Timed.in_time (h2 : 2 ≤ N) {w : Watch} (h : Timed N s w) (ht : Timely N s i w) : expires N s = false := by
  rw [expires, decide_eq_false_iff_not]
  by_cases hidle : s.state = .idle
  · rw [h.rest hidle]
    simp
    omega
  · have hage := ht.age hidle
    by_cases hprev : s.state = s.prevState
    · have := h.aged hidle hprev
      omega
    · have := h.entered hidle hprev
      omega

theorem Timed.next (h2 : 2 ≤ N) {w : Watch} (h : Timed N s w) (ht : Timely N s i w) :
    Timed N (next N s i) (w.next N s i) := by
  have hexp := h.in_time h2 ht
  have hprev := prevState_next N s i
  have hplus : (s.stageTimer + 1).toNat ≤ s.stageTimer.toNat + 1 := by
    rw [BitVec.toNat_add]
    exact Nat.mod_le _ _
  by_cases hidle : s.state = .idle
  · have htimer : (ProtectedTop.next N s i).stageTimer = 0 := by
      rw [stageTimer_idle hidle, h.rest hidle, ite_self, ite_self]
    refine ⟨fun _ => htimer, fun hr => ?_, fun _ _ => ?_, fun hne hsame => ?_⟩
    · rw [hprev, hidle, hr]
      decide
    · rw [htimer]
      exact h2
    · rw [hprev] at hsame
      exact absurd (hsame.trans hidle) hne
  · have htimer := stageTimer_next (N := N) (i := i) hidle
    refine ⟨fun hi => ?_, fun hr => ?_, fun _ hne => ?_, fun _ hsame => ?_⟩
    · -- only the report leads back to idle
      have hrep : s.state = .report := by
        by_contra hrep
        exact busy_next hidle hrep hi
      rw [htimer, if_pos (h.once hrep)]
    · rw [hprev, hr]
      intro hs
      rw [state_next, ← hs] at hr
      cases hr
    · rw [htimer]
      have hage := ht.age hidle
      split_ifs with hne' hrep
      · exact h2
      · have := h.aged hidle (not_not.mp hne')
        omega
      · have := h.aged hidle (not_not.mp hne')
        omega
    · rw [hprev] at hsame
      have hage : (w.next N s i).age = w.age + 1 := if_pos hsame
      rw [hage, htimer]
      split_ifs with hne' hrep
      · simp
      · have := h.aged hidle (not_not.mp hne')
        omega
      · have := h.aged hidle (not_not.mp hne')
        omega

theorem dec_next : (next N s i).dec = DecapsEngine.next s.dec (decIn s i) := rfl

/-- An idle decapsulation engine stays idle but at the launch. -/
theorem dec_idle (h : s.dec.state = .idle) (hst : s.state ≠ .dStart) : (next N s i).dec.state = .idle :=
  DecapsEngine.next_idle h (by simp [decIn, hst])

theorem hsReq_idle (hp : DecapsEngine.Phased s.dec) (h : s.dec.state = .idle) (ht : s.state ≠ .tStart)
    (hk : s.state ≠ .kStart) : hsReq s = false := by
  have hstart := (DecapsEngine.idle_of_phased hp h).1
  unfold hsReq
  cases hs : s.state <;> simp_all

/-- The command of a decapsulation is the next one of the schedule. -/
theorem command_next {w : Watch} (hp : DecapsEngine.Phased s.dec) (hst : s.state = .dWait) (ht : i.fault = .none)
    (hplan : w.commands ++ DecapsEngine.left false s.dec = DecapsEngine.schedule) :
    (w.next N s i).commands ++ DecapsEngine.left false (next N s i).dec = DecapsEngine.schedule ∧
      (hsReq s = true → w.commands.length < 12 ∧
        (hashJob s i).command = expectedHash (BitVec.ofNat 5 w.commands.length)) := by
  have hleft := DecapsEngine.left_next hp (decIn s i)
  have hstart : (decIn s i).start = false := by simp [decIn, hst]
  have hreq : hsReq s = DecapsEngine.hashStart s.dec := by simp [hsReq, hst]
  have hjob : (hashJob s i).command = (DecapsEngine.hashJob s.dec (decOut s i)).command := by
    simp [hashJob, hashReq, hst, ht, FaultInject.none]
  have hlaunch : launches s = false := by simp [launches, hst]
  rw [hstart, ← hreq, ← dec_next (N := N)] at hleft
  have hcmd : (w.next N s i).commands = w.commands ++ if hsReq s then [(hashJob s i).command] else [] := by
    simp only [Watch.next, hlaunch, Bool.false_eq_true, if_false]
    split_ifs <;> simp
  refine ⟨?_, fun hr => ?_⟩
  · rw [hcmd, List.append_assoc, hjob]
    exact (congrArg (w.commands ++ ·) hleft).trans hplan
  · rw [hr, if_pos rfl] at hleft
    rw [← hleft] at hplan
    have hlt : w.commands.length < 12 := by
      have hlen := congrArg List.length hplan
      simp [DecapsEngine.schedule] at hlen
      omega
    have hget : DecapsEngine.schedule[w.commands.length]? = some (hashJob s i).command := by
      rw [← hplan, hjob]
      simp
      rfl
    have htable : ∀ k < 12, DecapsEngine.schedule[k]? = some (expectedHash (BitVec.ofNat 5 k)) := by decide
    rw [htable _ hlt, Option.some.injEq] at hget
    exact ⟨hlt, hget.symm⟩

/-- No command is out of sequence. -/
theorem in_sequence {w : Watch} (h : OnPlan s w) (ht : i.fault = .none) : outOfSequence s i = false := by
  by_cases hreq : hsReq s = true
  · rw [outOfSequence, hreq, Bool.true_and]
    have hsure := h.sure
    by_cases hd : s.state = .dWait
    · simp only [Sure, hd] at hsure
      obtain ⟨hlt, hcmd⟩ := (command_next (N := 0) h.phased hd ht hsure.2.2).2 hreq
      have hidx : s.hashIndex = BitVec.ofNat 5 w.commands.length := by
        rw [← hsure.2.1, BitVec.ofNat_toNat, BitVec.setWidth_eq]
      rw [hcmd, hidx]
      simp
      omega
    · by_cases htr : s.state = .tStart
      · simp only [Sure, htr] at hsure
        simp [hashJob, hashReq, htr, ht, FaultInject.none, hsure.2.1, expectedHash]
      · by_cases hk : s.state = .kStart
        · simp only [Sure, hk] at hsure
          simp [hashJob, hashReq, hk, ht, FaultInject.none, hsure.2.1, expectedHash]
        · have hidle : s.dec.state = .idle := by
            cases hs : s.state <;> simp_all [Sure]
          rw [hsReq_idle h.phased hidle htr hk] at hreq
          cases hreq
  · simp [outOfSequence, hreq]

theorem matches_next : (next N s i).ssMatch = (s.ssA == ~~~s.ssB) ∧
    (next N s i).transcriptMatch = (s.transcriptA == ~~~s.transcriptB) ∧
    (next N s i).materialMatch = (s.materialA == ~~~s.materialB) := by
  unfold next machine
  cases hs : s.state
  all_goals
    refine ⟨?_, ?_, ?_⟩ <;>
      simp only [apply_ite State.ssMatch, apply_ite State.transcriptMatch, apply_ite State.materialMatch,
        watch_ssMatch, watch_transcriptMatch, watch_materialMatch, ite_self]

/-- The two copies are complementary when nothing is injected. -/
theorem secret_pair (hst : s.state = .dWait) (hd : DecapsEngine.done s.dec = true) (ht : i.fault = .none) :
    ((next N s i).ssA == ~~~(next N s i).ssB) = true := by
  simp [next, machine, hst, hd, ht, flip, FaultInject.none, apply_ite State.ssA, apply_ite State.ssB]

theorem transcript_pair (hst : s.state = .tWait) (hd : hdoneCtl s i = true) (ht : i.fault = .none) :
    ((next N s i).transcriptA == ~~~(next N s i).transcriptB) = true := by
  simp [next, machine, hst, hd, ht, flip, FaultInject.none]

theorem material_pair (hst : s.state = .kWait) (hd : hdoneCtl s i = true) (ht : i.fault = .none) :
    ((next N s i).materialA == ~~~(next N s i).materialB) = true := by
  simp [next, machine, hst, hd, ht, flip, FaultInject.none]

/-- A running engine that is not done runs on. -/
theorem dec_busy (h : s.dec.state ≠ .idle) (hd : DecapsEngine.done s.dec = false) :
    (next N s i).dec.state ≠ .idle := by
  rw [dec_next, DecapsEngine.state_next_control]
  unfold DecapsEngine.control
  cases hst : s.dec.state <;> simp only
  case idle => exact absurd hst h
  case done => simp [DecapsEngine.done, hst] at hd
  all_goals
    try split_ifs
    all_goals simp_all

/-- A finished decapsulation has started the whole schedule. -/
theorem complete {w : Watch} (h : Sure s w) (hst : s.state = .dWait) (hd : DecapsEngine.done s.dec = true) :
    w.commands = DecapsEngine.schedule ∧ s.hashIndex = 12 := by
  simp only [Sure, hst, DecapsEngine.left_done hd, List.append_nil] at h
  refine ⟨h.2.2, BitVec.eq_of_toNat_eq ?_⟩
  rw [h.2.1, h.2.2]
  rfl

theorem passes {w : Watch} (h : Sure s w) : checkFails s = false := by
  unfold checkFails
  cases hs : s.state <;> simp only
  case dWait =>
    cases hd : DecapsEngine.done s.dec
    · rfl
    · simp [(complete h hs hd).2]
  all_goals simp_all [Sure]

theorem calm_next {w : Watch} (h : OnPlan s w) (hraise : raises N s i = false) :
    (next N s i).faultDetected = false := by
  by_cases hidle : s.state = .idle
  · unfold next machine
    simp only [hidle, apply_ite State.faultDetected, watch_faultDetected, h.calm, hraise, Bool.or_false, ite_self]
  · rw [faultDetected_next hidle, h.calm, hraise, passes h.sure]
    rfl

theorem sure_next_idle {w : Watch} (h : Sure s w) (hs : s.state = .idle) (hexp : expires N s = false) :
    Sure (next N s i) (w.next N s i) := by
  have hstate := state_next N s i
  simp only [Sure, hs] at h
  have hdec := dec_idle (N := N) (i := i) h (by simp [hs])
  cases hl : s.front.decapStart
  · simp only [hs, hl, hexp, Bool.false_eq_true, if_false] at hstate
    simp only [Sure, hstate, hdec]
  · simp only [hs, hl, if_true] at hstate
    have hlaunch : launches s = true := by simp [launches, hs, hl]
    simp only [Sure, hstate, hdec, true_and]
    refine ⟨?_, ?_⟩
    · simp [next, machine, hs, hl]
    · simp [Watch.next, hlaunch]

theorem sure_next_dStart {w : Watch} (h : Sure s w) (hp : DecapsEngine.Phased s.dec) (hs : s.state = .dStart) :
    Sure (next N s i) (w.next N s i) := by
  have hstate := state_next N s i
  have hidx := hashIndex_next (N := N) (s := s) (i := i) (by simp [hs])
  simp only [hs] at hstate
  simp only [Sure, hs] at h
  obtain ⟨hdec, hzero, hcmds⟩ := h
  have hreq := hsReq_idle hp hdec (by simp [hs]) (by simp [hs])
  have hlaunch : launches s = false := by simp [launches, hs]
  have hdec' : (next N s i).dec.state = .D_S := by
    rw [dec_next, DecapsEngine.state_next_control]
    simp [DecapsEngine.control, hdec, decIn, hs]
  rw [hreq] at hidx
  simp [Sure, hstate, hdec', hidx, hzero, Watch.next, hlaunch, hreq, hcmds, DecapsEngine.left]

theorem sure_next_dWait {w : Watch} (h : Sure s w) (hp : DecapsEngine.Phased s.dec) (hs : s.state = .dWait)
    (hexp : expires N s = false) (ht : i.fault = .none) : Sure (next N s i) (w.next N s i) := by
  have hstate := state_next N s i
  have hidx := hashIndex_next (N := N) (s := s) (i := i) (by simp [hs])
  have hlaunch : launches s = false := by simp [launches, hs]
  cases hd : DecapsEngine.done s.dec
  · simp only [Sure, hs] at h
    obtain ⟨hbusy, hcount, hplan⟩ := h
    obtain ⟨hplan', hlow⟩ := command_next (N := N) hp hs ht hplan
    simp only [hs, hd, hexp, Bool.false_eq_true, if_false] at hstate
    simp only [Sure, hstate]
    refine ⟨dec_busy hbusy hd, ?_, hplan'⟩
    rw [hidx]
    simp only [Watch.next, hlaunch, Bool.false_eq_true, if_false]
    cases hreq : hsReq s
    · exact hcount
    · have hlt := (hlow hreq).1
      simp only [if_true, List.length_append, List.length_singleton, BitVec.toNat_add, hcount]
      exact Nat.mod_eq_of_lt (by simp; omega)
  · obtain ⟨-, htwelve⟩ := complete h hs hd
    have hdec : (next N s i).dec.state = .idle := DecapsEngine.next_done hd _
    have hfin : s.dec.state = .done := by simpa [DecapsEngine.done] using hd
    have hreq : hsReq s = false := by simp [hsReq, hs, DecapsEngine.hashStart, hfin]
    rw [hreq, htwelve] at hidx
    simp only [hs, hd, if_true] at hstate
    cases hf : DecapsEngine.fail s.dec
    · simp only [hf, Bool.false_eq_true, if_false] at hstate
      simp only [Sure, hstate]
      exact ⟨hdec, hidx, secret_pair hs hd ht⟩
    · simp only [hf, if_true] at hstate
      simp only [Sure, hstate, hdec]

/-- After the decapsulation its engine rests. -/
theorem sure_next_late {w : Watch} (h : OnPlan s w) (hi : s.state ≠ .idle) (hd : s.state ≠ .dStart)
    (hw : s.state ≠ .dWait) (hexp : expires N s = false) (ht : i.fault = .none) :
    Sure (next N s i) (w.next N s i) := by
  have hstate := state_next N s i
  have hidx := hashIndex_next (N := N) (i := i) hi
  have hsure := h.sure
  have hidle : s.dec.state = .idle := by
    unfold Sure at hsure
    cases hs : s.state <;> simp_all
  have hdec := dec_idle (N := N) (i := i) hidle hd
  obtain ⟨hss, htr, hmat⟩ := matches_next (N := N) (s := s) (i := i)
  simp only [hexp, h.calm, Bool.false_eq_true, if_false, Bool.false_or] at hstate
  by_cases hreq : s.state = .tStart ∨ s.state = .kStart
  · rcases hreq with hs | hs <;> simp only [Sure, hs] at hsure hstate
    · simp only [hsure.2.2, Bool.not_true, Bool.false_eq_true, if_false] at hstate
      have hr : hsReq s = true := by simp [hsReq, hs, h.calm, hsure.2.2]
      rw [hr, hsure.2.1] at hidx
      simp only [Sure, hstate]
      exact ⟨hdec, hidx⟩
    · simp only [hsure.2.2, Bool.not_true, Bool.false_eq_true, if_false] at hstate
      have hr : hsReq s = true := by simp [hsReq, hs, h.calm, hsure.2.2]
      rw [hr, hsure.2.1] at hidx
      simp only [Sure, hstate]
      exact ⟨hdec, hidx⟩
  · obtain ⟨hts, hks⟩ := not_or.mp hreq
    rw [hsReq_idle h.phased hidle hts hks] at hidx
    cases hs : s.state <;> simp only [Sure, hs] at hsure hstate
    case idle => exact absurd hs hi
    case dStart => exact absurd hs hd
    case dWait => exact absurd hs hw
    case tStart => exact absurd hs hts
    case kStart => exact absurd hs hks
    case tGuard =>
      simp only [Sure, hstate]
      exact ⟨hdec, hidx.trans hsure.2.1, hss.trans hsure.2.2⟩
    case tWait =>
      cases hdone : hdoneCtl s i <;> simp only [hdone, if_true, Bool.false_eq_true, if_false] at hstate <;>
        simp only [Sure, hstate]
      · exact ⟨hdec, hidx.trans hsure.2⟩
      · exact ⟨hdec, hidx.trans hsure.2, transcript_pair hs hdone ht⟩
    case kGuard =>
      simp only [Sure, hstate]
      exact ⟨hdec, hidx.trans hsure.2.1, htr.trans hsure.2.2⟩
    case kWait =>
      cases hdone : hdoneCtl s i <;> simp only [hdone, if_true, Bool.false_eq_true, if_false] at hstate <;>
        simp only [Sure, hstate]
      · exact ⟨hdec, hidx.trans hsure.2⟩
      · exact ⟨hdec, hidx.trans hsure.2, material_pair hs hdone ht⟩
    case cGuard =>
      simp only [Sure, hstate]
      exact ⟨hdec, hidx.trans hsure.2.1, hmat.trans hsure.2.2⟩
    case cStart =>
      simp only [hsure.2.1, hsure.2.2, Bool.not_true, bne_self_eq_false, Bool.or_false, Bool.false_eq_true,
        if_false] at hstate
      simp only [Sure, hstate, hdec]
    case cWait =>
      cases hdone : s.channel.installDone <;> simp only [hdone, if_true, Bool.false_eq_true, if_false] at hstate <;>
        simp only [Sure, hstate, hdec]
    case report => simp only [Sure, hstate, hdec]

theorem sure_next {w : Watch} (h : OnPlan s w) (hexp : expires N s = false) (ht : i.fault = .none) :
    Sure (next N s i) (w.next N s i) := by
  by_cases hi : s.state = .idle
  · exact sure_next_idle h.sure hi hexp
  · by_cases hd : s.state = .dStart
    · exact sure_next_dStart h.sure h.phased hd
    · by_cases hw : s.state = .dWait
      · exact sure_next_dWait h.sure h.phased hw hexp ht
      · exact sure_next_late h hi hd hw hexp ht

theorem OnPlan.next {w : Watch} (h : OnPlan s w) (hexp : expires N s = false) (ht : i.fault = .none)
    (hhash : hashFails s = false) (hrsp : unexpectedRsp s i = false) :
    OnPlan (next N s i) (w.next N s i) := by
  have hraise : raises N s i = false := by simp [raises, hexp, in_sequence h ht, hhash, hrsp]
  exact ⟨calm_next h hraise, DecapsEngine.phased_next h.phased _, sure_next h hexp ht⟩

structure Steady (N : ℕ) (s : State n dp H E) (w : Watch) : Prop where
  plan : OnPlan s w
  timed : Timed N s w

theorem Steady.next (h2 : 2 ≤ N) {w : Watch} (h : Steady N s w) (ht : Timely N s i w) :
    Steady N (next N s i) (w.next N s i) :=
  ⟨h.plan.next (h.timed.in_time h2 ht) ht.quiet ht.hash ht.rsp, h.timed.next h2 ht⟩

theorem steady_rst (s : State n dp H E) : Steady N (rst s) .fresh where
  plan := ⟨rfl, DecapsEngine.phased_rst _, rfl⟩
  timed := ⟨fun _ => rfl, fun h => (by cases h), fun h => absurd rfl h, fun h => absurd rfl h⟩

end ProtectedTop

namespace CompleteTop

open SessionManager SessionTable

open ProtectedTop (Watch)

variable {n : ℕ} {aead : EngineIn → EngineOut} {κ : Type} {dp : Datapath} {H : HashUnit}
  {E : StartDone aead κ} {N : ℕ}

/-- While the reset is held nothing is counted. -/
def watch (N : ℕ) (s : State n dp H E) : Act (In κ) → Watch → Watch
  | .reset, _ => .fresh
  | .tick i, w => if rstSync s then w.next N s.core (coreIn s i) else .fresh

variable (n dp H E) in
def watched (N : ℕ) : Design (State n dp H E × Watch) (In κ) := (design n N dp H E).withLog (watch N)

/-- Nothing is injected, `MAX_STAGE_CYCLES` is larger than what the stage has lasted, and no hash job
ends with an error. -/
def Production (N : ℕ) (p : State n dp H E × Watch) (i : In κ) : Prop :=
  i.fault = .none ∧ (rstSync p.1 = true → p.1.core.state ≠ .idle → p.2.age + 1 < N) ∧
    (rstSync p.1 = true → ProtectedTop.hashFails p.1.core = false)

instance (p : State n dp H E × Watch) (i : In κ) : Decidable (Production N p i) := by
  unfold Production
  infer_instance

/-- No fault is flagged, a response is due when it is valid, and the hash commands of a decapsulation
are those of the schedule, all of them when it is done. -/
structure NoAlarm (s : State n dp H E) (w : Watch) : Prop where
  calm : s.core.faultDetected = false
  due : ProtectedTop.rawRspValid s.core = true → s.core.outstanding = true
  ordered : s.core.state = .dWait → w.commands <+: DecapsEngine.schedule
  twelve : s.core.state = .dWait → DecapsEngine.done s.core.dec = true → w.commands = DecapsEngine.schedule

/-- A valid response is the one the port waits for. -/
theorem Paired.due {P : Served n → Recorded n → Prop} {s : State n dp H E} {g : Exchanges n}
    (h : Paired P s g) (hraw : ProtectedTop.rawRspValid s.core = true) : s.core.outstanding = true := by
  have htable := h.rel.pending_of_rspValid hraw
  cases hr : rstSync s with
  | false =>
    rw [(h.held hr).2] at htable
    cases htable
  | true =>
    cases h.stage hr with
    | rest _ _ _ hnone => rw [hnone] at htable; cases htable
    | asked _ _ _ hnone => rw [hnone] at htable; cases htable
    | taken _ _ hout => exact hout

/-- What every edge in production keeps. -/
structure Healthy (N : ℕ) (p : State n dp H E × Watch) : Prop where
  steady : ProtectedTop.Steady N p.1.core p.2
  paired : ∃ g, Paired (fun _ _ => True) p.1 g

theorem healthy_rst (p : State n dp H E × Watch) : Healthy N ((watched n dp H E N).rst p) :=
  ⟨ProtectedTop.steady_rst _, .empty, paired_rst _⟩

theorem healthy_next (h2 : 2 ≤ N) {p : State n dp H E × Watch} {i : In κ} (h : Healthy N p)
    (hc : Production N p i) : Healthy N ((watched n dp H E N).next p i) := by
  obtain ⟨s, w⟩ := p
  obtain ⟨hquiet, hage, hhash⟩ := hc
  obtain ⟨g, hg⟩ := h.paired
  have hspur : NotSpurious s i := fun _ hf => by rw [hquiet] at hf; cases hf
  refine ⟨?_, _, paired_next hg hspur fun _ _ _ _ => trivial⟩
  change ProtectedTop.Steady N (if rstSync s then _ else _) (if rstSync s then _ else _)
  cases hr : rstSync s with
  | false => exact ProtectedTop.steady_rst _
  | true =>
    refine h.steady.next h2 ⟨hquiet, hage hr, hhash hr, ?_⟩
    have hdue := hg.due
    simp only [ProtectedTop.unexpectedRsp, ProtectedTop.monRspValid, coreIn, hquiet, ProtectedTop.FaultInject.none,
      Bool.or_false]
    cases hraw : ProtectedTop.rawRspValid s.core
    · rfl
    · rw [hdue hraw]
      rfl

theorem Healthy.noAlarm {p : State n dp H E × Watch} (h : Healthy N p) : NoAlarm p.1 p.2 where
  calm := h.steady.plan.calm
  due := h.paired.elim fun _ hg => hg.due
  ordered hst := by
    have hsure := h.steady.plan.sure
    simp only [ProtectedTop.Sure, hst] at hsure
    exact ⟨_, hsure.2.2⟩
  twelve hst hd := (ProtectedTop.complete h.steady.plan.sure hst hd).1

/-- In production no fault is ever flagged, whatever the ciphertexts and the accesses on both ports. -/
theorem no_false_alarms (h2 : 2 ≤ N) (p0 : State n dp H E × Watch) (acts : List (Act (In κ)))
    (hC : (watched n dp H E N).AllSteps (Production N) ((watched n dp H E N).rst p0) acts) :
    NoAlarm ((watched n dp H E N).run ((watched n dp H E N).rst p0) acts).1
      ((watched n dp H E N).run ((watched n dp H E N).rst p0) acts).2 := by
  refine Healthy.noAlarm (Design.run_induct_of _ (P := Healthy N) ?_ ?_ (healthy_rst p0) hC)
  · exact fun p _ => healthy_rst p
  · exact fun p i h hc => healthy_next h2 h hc

/-- The matrix jobs give all their values: they end without an error. -/
def MatrixFull {κ' : Type} {P : StartDone Fips202.keccakF κ'} {timing : ℕ → κ'}
    (s : State n dp (SharedHashEngine.unit P timing) E) : Prop :=
  s.core.hash.1.cmd = SharedHashEngine.C_MATRIX → ProtectedTop.hashFails s.core = false

def MatrixHealthy {κ' : Type} {P : StartDone Fips202.keccakF κ'} {timing : ℕ → κ'} (N : ℕ)
    (p : State n dp (SharedHashEngine.unit P timing) E × Watch) : Prop :=
  Healthy N p ∧ SharedHashEngine.ErrorMatrix p.1.core.hash.1

/-- With the shared hash engine in the top only the matrix jobs matter. -/
theorem no_false_alarms_shared {κ' : Type} (P : StartDone Fips202.keccakF κ') (timing : ℕ → κ') (h2 : 2 ≤ N)
    (p0 : State n dp (SharedHashEngine.unit P timing) E × Watch) (acts : List (Act (In κ)))
    (hC : (watched n dp (SharedHashEngine.unit P timing) E N).AllSteps
      (fun p i => i.fault = .none ∧ (rstSync p.1 = true → p.1.core.state ≠ .idle → p.2.age + 1 < N) ∧
        (rstSync p.1 = true → MatrixFull p.1))
      ((watched n dp (SharedHashEngine.unit P timing) E N).rst p0) acts) :
    let p := (watched n dp (SharedHashEngine.unit P timing) E N).run
      ((watched n dp (SharedHashEngine.unit P timing) E N).rst p0) acts
    NoAlarm p.1 p.2 := by
  intro p
  have hrun := Design.run_induct_of _ (P := MatrixHealthy N) ?_ ?_ ?_ hC
  · exact hrun.1.noAlarm
  · exact fun p _ => ⟨healthy_rst p, SharedHashEngine.errorMatrix_init⟩
  · rintro ⟨s, w⟩ i ⟨h, herr⟩ ⟨hquiet, hage, hmatrix⟩
    have hprod : Production N (s, w) i := by
      refine ⟨hquiet, hage, fun hr => ?_⟩
      by_cases hcmd : s.core.hash.1.cmd = SharedHashEngine.C_MATRIX
      · exact hmatrix hr hcmd
      · have hclear : s.core.hash.1.error = false := by
          by_contra hset
          exact hcmd (herr (by simpa using hset))
        simp only [ProtectedTop.hashFails, ProtectedTop.hashOut]
        exact Bool.and_eq_false_iff.mpr (Or.inr hclear)
    refine ⟨healthy_next h2 h hprod, ?_⟩
    have hcore : ((watched n dp (SharedHashEngine.unit P timing) E N).next (s, w) i).1.core =
        if rstSync s then ProtectedTop.next N s.core (coreIn s i)
        else ProtectedTop.rst (ProtectedTop.next N s.core (coreIn s i)) := rfl
    rw [hcore]
    cases rstSync s with
    | false => exact SharedHashEngine.errorMatrix_init
    | true => exact SharedHashEngine.errorMatrix_next herr _ _
  · exact ⟨healthy_rst p0, SharedHashEngine.errorMatrix_init⟩

/-- A handshake through the sample engines, and a request after it. -/
theorem no_false_alarms_traffic :
    NoAlarm
      ((watched 64 ProtectedTop.sampleDatapath ProtectedTop.sampleHash.toHashUnit sampleEngine 300000).run
        ((watched 64 ProtectedTop.sampleDatapath ProtectedTop.sampleHash.toHashUnit sampleEngine 300000).rst
          (sampleTop, .fresh))
        (sampleHandshake (List.replicate 120 sampleQuiet ++ sampleStart :: List.replicate 70 sampleQuiet))).1
      ((watched 64 ProtectedTop.sampleDatapath ProtectedTop.sampleHash.toHashUnit sampleEngine 300000).run
        ((watched 64 ProtectedTop.sampleDatapath ProtectedTop.sampleHash.toHashUnit sampleEngine 300000).rst
          (sampleTop, .fresh))
        (sampleHandshake (List.replicate 120 sampleQuiet ++ sampleStart :: List.replicate 70 sampleQuiet))).2 :=
  no_false_alarms (by decide) _ _ (by decide +kernel)

end CompleteTop

end ZedSecure
