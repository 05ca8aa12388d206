import ZedSecure.Clocked.Sticky
import ZedSecure.Proofs.DecapsEdges
import ZedSecure.Proofs.TrafficEdges

/-! The done bits of the two frontends. A completion is shown by the status until a clear or a start, unless it
comes at the very edge of a clear. -/

namespace ZedSecure

open Clocked

namespace DecapsFrontend

variable {w : ℕ} (f : State w) (i : AxiIn 8) (st : Status) (m : DecapsMemory.State)

/-- CLEAR_DONE takes effect at this edge. -/
def clearsDone : Bool :=
  commits f && decide (f.awaddrQ = REG_CONTROL) && f.wstrbQ.getLsbD 1 && f.wdataQ.getLsbD 8

/-- START takes effect at this edge. -/
def startsDecap (busy : Bool) : Bool :=
  commits f && decide (f.awaddrQ = REG_CONTROL) && f.wstrbQ.getLsbD 0 && f.wdataQ.getLsbD 0 && !busy

theorem next_doneLatched : (next f i st m).doneLatched = (!clearsDone f && (st.done || f.doneLatched)) := by
  simp only [next, nextRead, nextWrite, commit, apply_ite State.doneLatched, ite_self, clearsDone]
  by_cases hc : commits f = true <;> by_cases hd : f.awaddrQ = REG_CONTROL <;> cases st.done <;> simp [hc, hd]

theorem next_failLatched : (next f i st m).failLatched =
    (!clearsDone f && if st.done then st.fail else f.failLatched) := by
  simp only [next, nextRead, nextWrite, commit, apply_ite State.failLatched, ite_self, clearsDone]
  by_cases hc : commits f = true <;> by_cases hd : f.awaddrQ = REG_CONTROL <;> cases st.done <;> simp [hc, hd]

/-- The pins of one cycle. -/
structure Pins where
  axi : AxiIn 8
  status : Status
  mem : DecapsMemory.State

def design (w : ℕ) : Design (State w) Pins := ⟨fun _ => reset, fun s i => next s i.axi i.status i.mem⟩

/-- DONE is bit 2 of the status word and FAIL bit 3. -/
def flags (w : ℕ) : Sticky (State w) Pins Bool where
  completes _ i := if i.status.done then some i.status.fail else none
  clears s _ := clearsDone s
  starts s i := startsDecap s i.status.busy
  shows s fail := ∀ busy, (readReg s busy REG_STATUS).getLsbD 2 = true ∧ (readReg s busy REG_STATUS).getLsbD 3 = fail

theorem status_bits (s : State w) (busy : Bool) : (readReg s busy REG_STATUS).getLsbD 2 = s.doneLatched ∧
    (readReg s busy REG_STATUS).getLsbD 3 = s.failLatched := by
  have hne : REG_STATUS ≠ REG_VERSION := by decide
  simp only [readReg, hne, if_false, if_true]
  cases s.failLatched <;> cases s.doneLatched <;> cases busy <;> cases s.readMemPending <;> decide

theorem shows_iff (s : State w) (fail : Bool) :
    (flags w).shows s fail ↔ s.doneLatched = true ∧ s.failLatched = fail := by
  refine ⟨fun h => ?_, fun h busy => ?_⟩
  · have hbits := status_bits s false
    exact ⟨hbits.1.symm.trans (h false).1, hbits.2.symm.trans (h false).2⟩
  · rw [(status_bits s busy).1, (status_bits s busy).2]
    exact h

theorem flags_kept {s : State w} {is : List Pins} (hC : (design w).AllSteps (flags w).Apart s (is.map .tick)) :
    (flags w).Kept (design w) s is := by
  apply Sticky.kept _ _ hC
  · intro s i fail hcomplete hclear
    have hdone : i.status.done = true ∧ i.status.fail = fail := by
      simpa [flags] using hcomplete
    rw [shows_iff]
    simp only [design, next_doneLatched, next_failLatched, show clearsDone s = false from hclear, hdone.1]
    simpa using hdone.2
  · intro s i fail hshows hquiet
    obtain ⟨hnone, hclear, -⟩ := hquiet
    have hdone : i.status.done = false := by
      simpa [flags] using hnone
    rw [shows_iff] at hshows ⊢
    simp only [design, next_doneLatched, next_failLatched, show clearsDone s = false from hclear, hdone]
    simpa using hshows

end DecapsFrontend

namespace TrafficFrontend

variable {n : ℕ} (s : State n) (i : AxiIn 9) (c : CoreOut n)

/-- CLEAR_DONE takes effect at this edge. -/
def clearsDone : Bool :=
  s.writeCommit && decide (s.awaddrQ = REG_CONTROL) && s.wstrbQ.getLsbD 1 && s.wdataQ.getLsbD 8

theorem next_doneQ : (next s i c).doneQ = (!clearsDone s && !startsRequest s && (takesRsp s c || s.doneQ)) := by
  simp only [next, commit, apply_ite State.doneQ, ite_self, clearsDone, startsRequest, takesRsp]
  by_cases hc : s.writeCommit = true <;> by_cases hd : s.awaddrQ = REG_CONTROL <;> simp [hc, hd]
  grind

theorem next_authQ : (next s i c).authQ = (!startsRequest s && if takesRsp s c then c.rsp.authOk else s.authQ) := by
  simp only [next, commit, apply_ite State.authQ, ite_self, startsRequest, takesRsp]
  by_cases hc : s.writeCommit = true <;> by_cases hd : s.awaddrQ = REG_CONTROL <;> simp [hc, hd]

theorem next_errorQ : (next s i c).errorQ = (!startsRequest s && if takesRsp s c then c.rsp.error else s.errorQ) := by
  simp only [next, commit, apply_ite State.errorQ, ite_self, startsRequest, takesRsp]
  by_cases hc : s.writeCommit = true <;> by_cases hd : s.awaddrQ = REG_CONTROL <;> simp [hc, hd]

/-- No request starts while one is in flight. -/
theorem takesRsp_not_starts (h : takesRsp s c = true) : startsRequest s = false := by
  simp only [takesRsp, Bool.and_eq_true] at h
  simp [startsRequest, h.1]

structure Pins (n : ℕ) where
  axi : AxiIn 9
  core : CoreOut n

def design (n : ℕ) : Design (State n) (Pins n) := ⟨reset, fun s i => next s i.axi i.core⟩

/-- DONE, AUTH and ERROR are bits 1 to 3 of the status word. -/
def flags (n : ℕ) : Sticky (State n) (Pins n) (Bool × Bool) where
  completes s i := if takesRsp s i.core then some (i.core.rsp.authOk, i.core.rsp.error) else none
  clears s _ := clearsDone s
  starts s _ := startsRequest s
  shows s r := ∀ c, (readMux s c REG_STATUS).getLsbD 1 = true ∧ (readMux s c REG_STATUS).getLsbD 2 = r.1 ∧
    (readMux s c REG_STATUS).getLsbD 3 = r.2

theorem status_bits (s : State n) (c : CoreOut n) : (readMux s c REG_STATUS).getLsbD 1 = s.doneQ ∧
    (readMux s c REG_STATUS).getLsbD 2 = s.authQ ∧ (readMux s c REG_STATUS).getLsbD 3 = s.errorQ := by
  have hne : REG_STATUS ≠ REG_VERSION := by decide
  simp only [readMux, hne, if_false, if_true]
  cases s.inflight <;> cases s.doneQ <;> cases s.authQ <;> cases s.errorQ <;> cases s.pending <;>
    cases c.faultDetected <;> decide

theorem shows_iff (s : State n) (r : Bool × Bool) :
    (flags n).shows s r ↔ s.doneQ = true ∧ s.authQ = r.1 ∧ s.errorQ = r.2 := by
  have hshow : (flags n).shows s r ↔ ∀ c : CoreOut n, s.doneQ = true ∧ s.authQ = r.1 ∧ s.errorQ = r.2 := by
    apply forall_congr'
    intro c
    rw [(status_bits s c).1, (status_bits s c).2.1, (status_bits s c).2.2]
  rw [hshow]
  exact ⟨fun h => h ⟨false, false, default, false, 0⟩, fun h _ => h⟩

theorem flags_kept {s : State n} {is : List (Pins n)} (hC : (design n).AllSteps (flags n).Apart s (is.map .tick)) :
    (flags n).Kept (design n) s is := by
  apply Sticky.kept _ _ hC
  · intro s i r hcomplete hclear
    have htaken : takesRsp s i.core = true ∧ (i.core.rsp.authOk, i.core.rsp.error) = r := by
      simpa [flags] using hcomplete
    obtain ⟨ht, rfl⟩ := htaken
    rw [shows_iff]
    simp [design, next_doneQ, next_authQ, next_errorQ, show clearsDone s = false from hclear, ht,
      takesRsp_not_starts s i.core ht]
  · intro s i r hshows hquiet
    obtain ⟨hnone, hclear, hstart⟩ := hquiet
    have ht : takesRsp s i.core = false := by
      simpa [flags] using hnone
    rw [shows_iff] at hshows ⊢
    simpa [design, next_doneQ, next_authQ, next_errorQ, show clearsDone s = false from hclear,
      show startsRequest s = false from hstart, ht] using hshows

end TrafficFrontend

/-- Both frontends keep their completions, in every run in which none comes at the edge of a clear. -/
theorem completions_kept {w n : ℕ} (f : DecapsFrontend.State w) (s : TrafficFrontend.State n)
    (is : List DecapsFrontend.Pins) (js : List (TrafficFrontend.Pins n))
    (hf : (DecapsFrontend.design w).AllSteps (DecapsFrontend.flags w).Apart f (is.map .tick))
    (hs : (TrafficFrontend.design n).AllSteps (TrafficFrontend.flags n).Apart s (js.map .tick)) :
    (DecapsFrontend.flags w).Kept (DecapsFrontend.design w) f is ∧
      (TrafficFrontend.flags n).Kept (TrafficFrontend.design n) s js :=
  ⟨DecapsFrontend.flags_kept hf, TrafficFrontend.flags_kept hs⟩

section Sample

def sampleMemory : DecapsMemory.State := ⟨fun _ => 0, fun _ => 0, fun _ => 0, 0, 0, 0, 0, false, 0, 0, 0⟩

/-- A cycle of the ML-KEM port: a write to `REG_CONTROL` or none, and a completion or none. -/
def decapCycle (write : Option (BitVec 32)) (done : Bool) : DecapsFrontend.Pins :=
  ⟨⟨DecapsFrontend.REG_CONTROL, write.isSome, write.getD 0, 15, write.isSome, true, 0, false, true⟩, ⟨true, done, false⟩,
    sampleMemory⟩

/-- The same at the traffic port, with an answer or none. -/
def packetCycle (write : Option (BitVec 32)) (rsp : Bool) : TrafficFrontend.Pins 64 :=
  ⟨⟨TrafficFrontend.REG_CONTROL, write.isSome, write.getD 0, 15, write.isSome, true, 0, false, true⟩,
    ⟨true, rsp, ⟨true, false, 0, 0, 0, 0⟩, false, 0⟩⟩

/-- A request is started and its answer comes; the done bits are cleared two cycles later. -/
def packetStart : List (TrafficFrontend.Pins 64) :=
  [packetCycle (some 1) false, packetCycle none false, packetCycle none false]

def sampleTraffic : TrafficFrontend.State 64 :=
  TrafficFrontend.reset ⟨false, false, false, 0, 0, 0, false, false, 0, 0, 0, 0, fun _ => 0, fun _ => 0, default, false,
    false, false, false, false, 0, 0, 0, 0⟩

theorem completions_kept_clear :
    (DecapsFrontend.flags 6).Kept (DecapsFrontend.design 6) DecapsFrontend.reset
        [decapCycle none true, decapCycle (some 0x100) false, decapCycle none false] ∧
      (TrafficFrontend.flags 64).Kept (TrafficFrontend.design 64) sampleTraffic
        (packetStart ++ [packetCycle none true, packetCycle (some 0x100) false, packetCycle none false,
          packetCycle none false]) :=
  completions_kept _ _ _ _ (by decide +kernel) (by decide +kernel)

/-- The done bit is set and cleared at one edge, and the clear has the last word. -/
theorem completion_lost :
    (¬ (DecapsFrontend.flags 6).Kept (DecapsFrontend.design 6) DecapsFrontend.reset
      [decapCycle (some 0x100) false, decapCycle none true, decapCycle none false]) ∧
    ¬ (TrafficFrontend.flags 64).Kept (TrafficFrontend.design 64) sampleTraffic
      (packetStart ++ [packetCycle (some 0x100) false, packetCycle none false, packetCycle none true,
        packetCycle none false]) := by
  refine ⟨fun h => ?_, fun h => ?_⟩
  · have hshown := h [decapCycle (some 0x100) false] (decapCycle none true) [decapCycle none false] false rfl
      (by decide +kernel) (by decide +kernel)
    rw [DecapsFrontend.shows_iff] at hshown
    exact absurd hshown (by decide +kernel)
  · have hshown := h (packetStart ++ [packetCycle (some 0x100) false, packetCycle none false]) (packetCycle none true)
      [packetCycle none false] (true, false) rfl (by decide +kernel) (by decide +kernel)
    rw [TrafficFrontend.shows_iff] at hshown
    exact absurd hshown (by decide +kernel)

end Sample

end ZedSecure
