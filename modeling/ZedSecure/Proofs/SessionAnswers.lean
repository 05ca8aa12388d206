import ZedSecure.Proofs.SessionRefinement

/-! The session manager against the table over whole runs: the same responses, and no
accepted request left without one. -/

namespace ZedSecure

open Clocked SessionManager SessionTable

variable {n : ℕ} {aead : EngineIn → EngineOut} {κ : Type} {E : StartDone aead κ}

/-- The cycle is spent waiting for the engine. -/
def waitsForEngine (s : State n E) : Bool := s.state = .engineWait && !E.done s.engine

/-- Work cycles left until the response shows. -/
def cyclesLeft (s : State n E) : ℕ :=
  match s.state with
  | .idle | .cfgWrite | .response => 0
  | .readIssue => 2 * (23 - s.readWordQ.toNat) + 6
  | .readCapture => 2 * (23 - s.readWordQ.toNat) + 5
  | .check => 4
  | .engineWait => 3
  | .countWriteLo => 2
  | .countWriteHi => 1

theorem cyclesLeft_le {s : State n E} : cyclesLeft s ≤ 52 := by
  unfold cyclesLeft
  split <;> omega

theorem cyclesLeft_next {s : State n E} {t : Table n} (i : In n κ) (h : Rel s t)
    (hpos : 0 < cyclesLeft s) :
    (if waitsForEngine s then 0 else 1) + cyclesLeft (next s i) ≤ cyclesLeft s := by
  cases hst : s.state <;> simp only [Rel, hst] at h <;>
    simp only [cyclesLeft, waitsForEngine, next, hst] at hpos ⊢
  case readIssue => simp [frame]; omega
  case readCapture =>
    obtain ⟨-, -, -, -, -, ⟨hlt, -⟩, -⟩ := h
    by_cases h23 : s.readWordQ = 23#5
    · simp [h23]
    · have hne : s.readWordQ.toNat ≠ 23 := fun hh => h23 (BitVec.eq_of_toNat_eq hh)
      have hadd : (s.readWordQ + 1#5).toNat = s.readWordQ.toNat + 1 := by
        simp only [BitVec.toNat_add, BitVec.toNat_ofNat]
        omega
      simp [h23, hadd]
      omega
  case check => split_ifs <;> simp
  case engineWait =>
    have hs : (frame s i).state = .engineWait := hst
    cases hd : E.done s.engine
    · simp [hs]
    · cases hok : (E.result s.engine).authOk <;> cases hdec : s.requestQ.decrypt <;> simp
  all_goals simp at hpos ⊢

section Box

variable {f : EngineIn → EngineOut}

/-- Cycles the boxed engine still takes when it is let answer at once. -/
def boxWait (s : State n (StartDone.box f)) : ℕ :=
  match s.state with
  | .readIssue | .readCapture | .check => 2
  | .engineWait => if s.engineStart then 2 else if s.engine.done then 0 else 1
  | _ => 0

/-- Cycles until the manager is idle or shows a response, with the engine let answer. -/
def settling (s : State n (StartDone.box f)) : ℕ :=
  match s.state with
  | .cfgWrite => 24 - s.cfgWordQ.toNat
  | _ => cyclesLeft s + boxWait s

theorem boxWait_next {s : State n (StartDone.box f)} {t : Table n} (i : In n Bool) (h : Rel s t)
    (hk : i.engine = true) (hpos : 0 < cyclesLeft s) :
    boxWait (next s i) + (if waitsForEngine s then 1 else 0) ≤ boxWait s := by
  cases hst : s.state <;> simp only [Rel, hst] at h <;> simp [cyclesLeft, hst] at hpos
  case engineWait =>
    obtain ⟨-, -, -, -, -, hiss⟩ := h
    have hf : (frame s i).state = .engineWait := hst
    have hdone : (StartDone.box f).done s.engine = s.engine.done := rfl
    rcases hiss with ⟨hes, -, hd⟩ | ⟨hes, hjob, hd⟩ | ⟨hes, -, hd, -⟩
    · rw [hdone] at hd
      simp [boxWait, waitsForEngine, next, hst, hes, hd, hdone, frame]
      split <;> omega
    · simp [boxWait, waitsForEngine, next, hst, hes, hd, frame, StartDone.box, hjob, hk]
    · rw [hdone] at hd
      cases hok : (StartDone.box f |>.result s.engine).authOk <;> cases hdec : s.requestQ.decrypt <;>
        simp [boxWait, waitsForEngine, next, hst, hes, hd, hdone, hok, hdec]
  all_goals simp only [boxWait, waitsForEngine, next, hst]
  case readIssue => simp
  case readCapture => by_cases h23 : s.readWordQ = 23#5 <;> simp [h23]
  case check =>
    by_cases hc : 64#8 < s.requestQ.dataLen ∨
      (s.requestQ.decrypt = true ∧ s.requestQ.counter ≠ s.active.rxCounter) <;> simp [hc]
  case countWriteLo => simp
  case countWriteHi => simp

theorem settling_next {s : State n (StartDone.box f)} {t : Table n} (i : In n Bool) (h : Rel s t)
    (hk : i.engine = true) (hidle : s.state ≠ .idle) (hresp : s.state ≠ .response) :
    settling (next s i) < settling s := by
  by_cases hst : s.state = .cfgWrite
  · simp only [Rel, hst] at h
    have hlt := h.2.2.2.word
    have hs : (frame s i).state = .cfgWrite := hst
    by_cases h23 : s.cfgWordQ = 23#5
    · simp [settling, next, hst, h23, cyclesLeft, boxWait]
    · have hadd : (s.cfgWordQ + 1#5).toNat = s.cfgWordQ.toNat + 1 := by
        simp only [BitVec.toNat_add, BitVec.toNat_ofNat]
        omega
      simp only [settling, next, hst, h23, if_false, hs, hadd]
      omega
  · have hpos : 0 < cyclesLeft s := by
      cases hs : s.state <;> simp_all [cyclesLeft]
    have hle := cyclesLeft_next i h hpos
    have hwait := boxWait_next i h hk hpos
    have hserv : s.state.serving = true := by
      cases hs : s.state <;> simp_all [cyclesLeft, St.serving]
    have hnext : (next s i).state ≠ .cfgWrite := by
      rcases (serving_next i hserv).2 with hn | hn <;> intro hc <;> rw [hc] at hn <;> cases hn
    have hs : ∀ u : State n (StartDone.box f), u.state ≠ .cfgWrite →
        settling u = cyclesLeft u + boxWait u := by
      intro u hu
      cases hc : u.state <;> simp_all [settling]
    rw [hs _ hst, hs _ hnext]
    split_ifs at hle hwait <;> omega

/-- Left alone, the manager comes to rest or to its response. -/
theorem settles {s : State n (StartDone.box f)} {t : Table n} (i : In n Bool) (h : Rel s t)
    (hk : i.engine = true) : ∃ is : List (In n Bool),
      (∀ pre, pre <+: is → pre ≠ is → ((design n _).run s (pre.map .tick)).rspValid = false) ∧
      Rel ((design n _).run s (is.map .tick)) t ∧
      (((design n _).run s (is.map .tick)).state = .idle ∨
        ((design n _).run s (is.map .tick)).state = .response) := by
  induction hm : settling s using Nat.strong_induction_on generalizing s with
  | _ m ih =>
    by_cases hidle : s.state = .idle
    · exact ⟨[], fun pre hpre hne => absurd (List.prefix_nil.mp hpre) hne, h, Or.inl hidle⟩
    by_cases hresp : s.state = .response
    · exact ⟨[], fun pre hpre hne => absurd (List.prefix_nil.mp hpre) hne, h, Or.inr hresp⟩
    have hv : s.rspValid = false := by simpa [hresp] using h.rspValid_iff
    have hrel : Rel (next s i) t := by
      have hstep : Rel (next s i) _ := rel_step s t (.tick i) h
      simpa [commands_busy i hidle, hv] using hstep
    obtain ⟨is, hquiet, hr, hend⟩ := ih _ (hm ▸ settling_next i h hk hidle hresp) hrel rfl
    refine ⟨i :: is, fun pre hpre hne => ?_, hr, hend⟩
    cases pre with
    | nil => exact hv
    | cons j pre =>
      obtain ⟨rfl, hpre'⟩ := List.cons_prefix_cons.mp hpre
      exact hquiet pre hpre' fun he => hne (by rw [he])

end Box

end ZedSecure
