import ZedSecure.Proofs.InstallChecked

/-! Every launch is reported once and in bounded time, whatever the engines do. The budget of the
remaining stages, each at most as long as the watchdog allows, shrinks in every cycle outside idle,
and a START that finds the core free is followed by one report before the next one. -/

namespace ZedSecure

open Clocked

namespace ProtectedTop

variable {n : ℕ} {aead : EngineIn → EngineOut} {κ : Type} {dp : Datapath} {H : HashUnit}
  {E : StartDone aead κ} {N : ℕ} {s : State n dp H E} {i : In n κ}

/-- The stages after this one. -/
def St.later : St → ℕ
  | .idle | .report => 0
  | .cWait => 1
  | .cStart => 2
  | .cGuard => 3
  | .kWait => 4
  | .kStart => 5
  | .kGuard => 6
  | .tWait => 7
  | .tStart => 8
  | .tGuard => 9
  | .dWait => 10
  | .dStart => 11

theorem St.later_le (st : St) : st.later ≤ 11 := by cases st <;> decide

/-- The cycles the present stage can still last. The timer starts in the stage's second cycle. -/
def stay (N : ℕ) (s : State n dp H E) : ℕ :=
  if s.state ≠ s.prevState then N + 1 else N - 1 - s.stageTimer.toNat + 1

/-- The cycles until idle, at most. -/
def budget (N : ℕ) (s : State n dp H E) : ℕ := s.state.later * (N + 1) + stay N s

theorem budget_le (hN : 1 ≤ N) : budget N s ≤ 12 * (N + 1) := by
  have hlater := Nat.mul_le_mul_right (N + 1) s.state.later_le
  have hstay : stay N s ≤ N + 1 := by
    unfold stay
    split_ifs <;> omega
  unfold budget
  omega

/-- A stage goes on, without the watchdog, or a later one comes. -/
theorem state_cases (hidle : s.state ≠ .idle) :
    (next N s i).state = .idle ∨ ((next N s i).state = s.state ∧ expires N s = false) ∨
      (next N s i).state.later < s.state.later := by
  rw [state_next]
  cases hst : s.state <;> simp only
  case idle => exact absurd hst hidle
  case report => exact Or.inl trivial
  all_goals
    try split_ifs
    all_goals simp_all [St.later]

/-- Outside idle the budget shrinks in every cycle. -/
theorem budget_next (hN : 1 ≤ N) (hmax : N ≤ 2 ^ 20) (hidle : s.state ≠ .idle)
    (hnext : (next N s i).state ≠ .idle) : budget N (next N s i) < budget N s := by
  have hprev := prevState_next N s i
  have hstay : 1 ≤ stay N s := by
    unfold stay
    split_ifs <;> omega
  rcases state_cases (N := N) (i := i) hidle with hback | ⟨hsame, hexp⟩ | hlater
  · exact absurd hback hnext
  · have hrep : s.state ≠ .report := by
      intro hrep
      rw [state_next, hrep] at hsame
      cases hsame
    have htimer := stageTimer_next (N := N) (i := i) hidle
    rw [if_pos hrep] at htimer
    have hnew : stay N (next N s i) = N - 1 - (next N s i).stageTimer.toNat + 1 := by
      rw [stay, hsame, hprev, if_neg (not_not.mpr rfl)]
    rw [budget, budget, hsame, hnew, htimer]
    by_cases hfirst : s.state ≠ s.prevState
    · rw [if_pos hfirst, stay, if_pos hfirst]
      simp only [BitVec.toNat_zero, BitVec.ofNat_eq_ofNat]
      omega
    · have hlow : s.stageTimer.toNat + 1 < N := by
        simpa [expires] using hexp
      rw [if_neg hfirst, stay, if_neg hfirst, BitVec.toNat_add]
      change _ + (N - 1 - (s.stageTimer.toNat + 1) % 2 ^ 20 + 1) < _
      rw [Nat.mod_eq_of_lt (by omega)]
      omega
  · have hmul := Nat.mul_le_mul_right (N + 1) (Nat.succ_le_of_lt hlater)
    rw [Nat.succ_mul] at hmul
    have hnew : stay N (next N s i) ≤ N + 1 := by
      unfold stay
      split_ifs <;> omega
    unfold budget
    omega

/-- No run of cycles outside idle is longer than the budget it begins with. -/
theorem busy_le (hN : 1 ≤ N) (hmax : N ≤ 2 ^ 20) (is : List (In n κ)) {s : State n dp H E}
    (h : ∀ k < is.length, ((design n N dp H E).run s ((is.take k).map .tick)).state ≠ .idle) :
    is.length ≤ budget N s := by
  induction is generalizing s with
  | nil => exact Nat.zero_le _
  | cons i is ih =>
    have hidle : s.state ≠ .idle := h 0 (Nat.succ_pos _)
    have hrest := ih (s := next N s i) fun k hk => h (k + 1) (by simpa using hk)
    rw [List.length_cons]
    cases is with
    | nil =>
      have : 1 ≤ stay N s := by
        unfold stay
        split_ifs <;> omega
      simp only [List.length_nil, budget]
      omega
    | cons j is =>
      have hnext : (next N s i).state ≠ .idle := h 1 (by simp)
      exact lt_of_le_of_lt hrest (budget_next hN hmax hidle hnext)

/-- A START is written while the core is free; a handshake is reported. -/
inductive Answer where
  | started | reported
  deriving DecidableEq

/-- `decap_start_o` is set at this edge. -/
def startsDecap (s : State n dp H E) : Bool :=
  DecapsFrontend.commits s.front && (s.front.awaddrQ == DecapsFrontend.REG_CONTROL) &&
    s.front.wstrbQ.getLsbD 0 && s.front.wdataQ.getLsbD 0 && s.state = .idle

/-- The STARTs taken and the reports made since the reset, in their order. -/
def answers (s : State n dp H E) : Act (In n κ) → List Answer → List Answer
  | .reset, _ => []
  | .tick _, log =>
    log ++ (if startsDecap s then [.started] else []) ++ (if finalDone s then [.reported] else [])

variable (n dp H E) in
def answered (N : ℕ) : Design (State n dp H E × List Answer) (In n κ) :=
  (design n N dp H E).withLog answers

def pairs (k : ℕ) : List Answer := (List.replicate k [Answer.started, .reported]).flatten

/-- Every START is reported. -/
def Closed (log : List Answer) : Prop := ∃ k, log = pairs k

/-- The last START is not reported yet. -/
def Pending (log : List Answer) : Prop := ∃ k, log = pairs k ++ [.started]

theorem Closed.started {log : List Answer} (h : Closed log) : Pending (log ++ [.started]) := by
  obtain ⟨k, rfl⟩ := h
  exact ⟨k, rfl⟩

theorem Pending.reported {log : List Answer} (h : Pending log) : Closed (log ++ [.reported]) := by
  obtain ⟨k, rfl⟩ := h
  exact ⟨k + 1, by simp [pairs, List.replicate_succ']⟩

theorem not_closed_of_pending {log : List Answer} (h : Pending log) : ¬ Closed log := by
  obtain ⟨k, rfl⟩ := h
  rintro ⟨m, hm⟩
  have hlen := congrArg List.length hm
  simp [pairs] at hlen
  omega

/-- The START and the report of a handshake take turns: no request is open, or START was taken, or the
handshake is under way. -/
structure Turns (s : State n dp H E) (log : List Answer) : Prop where
  timer : s.state = .idle → s.stageTimer = 0
  once : s.state = .report → s.prevState ≠ .report
  held : s.front.decapStart = true → s.front.bvalid = true
  free : s.state = .idle → s.front.decapStart = false → Closed log
  asked : s.front.decapStart = true → s.state = .idle ∧ Pending log
  busy : s.state ≠ .idle → Pending log

section Frontend

variable {w : ℕ} (f : DecapsFrontend.State w) (a : AxiIn 8) (st : DecapsFrontend.Status)
  (m : DecapsMemory.State)

theorem front_start : (DecapsFrontend.next f a st m).decapStart = (DecapsFrontend.commits f &&
    (f.awaddrQ == DecapsFrontend.REG_CONTROL) && f.wstrbQ.getLsbD 0 && f.wdataQ.getLsbD 0 && !st.busy) := by
  have hread : ∀ g b, (DecapsFrontend.nextRead f g a b m).decapStart = g.decapStart := by
    intro g b
    simp only [DecapsFrontend.nextRead, apply_ite DecapsFrontend.State.decapStart, ite_self]
  rw [DecapsFrontend.next, hread]
  cases hc : DecapsFrontend.commits f
  · simp only [DecapsFrontend.nextWrite, hc, Bool.false_eq_true, if_false, Bool.false_and,
      apply_ite DecapsFrontend.State.decapStart, ite_self]
  · simp only [DecapsFrontend.nextWrite, hc, if_true, DecapsFrontend.commit,
      apply_ite DecapsFrontend.State.decapStart, ite_self]
    by_cases hctl : f.awaddrQ = DecapsFrontend.REG_CONTROL
    · simp [hctl]
    · simp [hctl]

theorem front_bvalid (h : DecapsFrontend.commits f = true) : (DecapsFrontend.next f a st m).bvalid = true := by
  simp only [DecapsFrontend.next, DecapsFrontend.nextRead, DecapsFrontend.nextWrite, h, if_true,
    apply_ite DecapsFrontend.State.bvalid, ite_self]

end Frontend

theorem decapStart_next : (next N s i).front.decapStart = startsDecap s := by
  rw [show (next N s i).front = DecapsFrontend.next s.front i.axi _ s.mem from rfl, front_start, startsDecap]
  congr 1
  simp

theorem startsDecap_held (h : s.front.bvalid = true) : startsDecap s = false := by
  simp [startsDecap, DecapsFrontend.commits, h]

theorem not_startsDecap (h : s.state ≠ .idle) : startsDecap s = false := by
  simp [startsDecap, h]

theorem turns_rst (s0 : State n dp H E) : Turns (rst s0) [] :=
  ⟨fun _ => rfl, (fun h => by cases h), (fun h => by cases h), fun _ _ => ⟨0, rfl⟩, (fun h => by cases h),
    fun h => absurd rfl h⟩

theorem turns_next (h2 : 2 ≤ N) {log : List Answer} (h : Turns s log) :
    Turns (next N s i) (answers s (.tick i) log) := by
  have hstart := decapStart_next (N := N) (s := s) (i := i)
  have hheld : startsDecap s = true → (next N s i).front.bvalid = true := by
    intro hs
    refine front_bvalid _ _ _ _ ?_
    simp only [startsDecap, Bool.and_eq_true] at hs
    exact hs.1.1.1.1
  by_cases hidle : s.state = .idle
  · have hdone : finalDone s = false := by simp [finalDone, hidle]
    have hexp : expires N s = false := by
      simp [expires, h.timer hidle]
      omega
    have hst := state_next N s i
    have htimer : (next N s i).stageTimer = 0 := by
      rw [stageTimer_idle hidle, h.timer hidle, ite_self, ite_self]
    simp only [hidle, hexp, Bool.false_eq_true, if_false] at hst
    cases hl : s.front.decapStart with
    | false =>
      rw [hl, if_neg Bool.false_ne_true] at hst
      refine ⟨fun _ => htimer, fun hr => ?_, fun hs => hheld (hstart ▸ hs), fun _ hs => ?_, fun hs => ⟨hst, ?_⟩,
        fun hb => absurd hst hb⟩
      · rw [hst] at hr
        cases hr
      · rw [hstart] at hs
        simpa [answers, hs, hdone] using h.free hidle hl
      · rw [hstart] at hs
        simpa [answers, hs, hdone] using (h.free hidle hl).started
    | true =>
      rw [hl, if_pos rfl] at hst
      have hno := startsDecap_held (h.held hl)
      rw [hno] at hstart
      have hlog : answers s (.tick i) log = log := by simp [answers, hno, hdone]
      rw [hlog]
      refine ⟨fun hi => ?_, fun hr => ?_, fun hs => ?_, fun hi => ?_, fun hs => ?_, fun _ => (h.asked hl).2⟩
      · rw [hst] at hi
        cases hi
      · rw [hst] at hr
        cases hr
      · rw [hstart] at hs
        cases hs
      · rw [hst] at hi
        cases hi
      · rw [hstart] at hs
        cases hs
  · have hno := not_startsDecap hidle
    rw [hno] at hstart
    by_cases hrep : s.state = .report
    · have hst : (next N s i).state = .idle := by rw [state_next, hrep]
      have htimer : (next N s i).stageTimer = 0 := by
        rw [stageTimer_next hidle, if_pos]
        rw [hrep]
        exact (h.once hrep).symm
      have hlog : answers s (.tick i) log = log ++ [.reported] := by simp [answers, hno, finalDone, hrep]
      rw [hlog]
      refine ⟨fun _ => htimer, fun hr => ?_, fun hs => ?_, fun _ _ => (h.busy hidle).reported, fun hs => ?_,
        fun hb => absurd hst hb⟩
      · rw [hst] at hr
        cases hr
      · rw [hstart] at hs
        cases hs
      · rw [hstart] at hs
        cases hs
    · have hlog : answers s (.tick i) log = log := by simp [answers, hno, finalDone, hrep]
      have hst := busy_next (N := N) (i := i) hidle hrep
      rw [hlog]
      refine ⟨fun hi => absurd hi hst, fun _ => ?_, fun hs => ?_, fun hi => absurd hi hst, fun hs => ?_,
        fun _ => h.busy hidle⟩
      · rw [prevState_next]
        exact hrep
      · rw [hstart] at hs
        cases hs
      · rw [hstart] at hs
        cases hs

theorem turns_run (h2 : 2 ≤ N) (s0 : State n dp H E) (acts : List (Act (In n κ))) :
    Turns ((answered n dp H E N).run ((answered n dp H E N).rst (s0, [])) acts).1
      ((answered n dp H E N).run ((answered n dp H E N).rst (s0, [])) acts).2 := by
  refine Design.run_induct _ (P := fun p : State n dp H E × List Answer => Turns p.1 p.2) ?_ (turns_rst s0) acts
  rintro ⟨s, log⟩ x h
  cases x with
  | reset => exact turns_rst s
  | tick i => exact turns_next h2 h

/-- A handshake under way is reported before its budget is used up. -/
theorem busy_reported (h2 : 2 ≤ N) (hmax : N ≤ 2 ^ 20) (is : List (In n κ)) (log : List Answer) {s : State n dp H E}
    (hidle : s.state ≠ .idle) (hlen : budget N s ≤ is.length) :
    ∃ k ≤ is.length, ((answered n dp H E N).run (s, log) ((is.take k).map .tick)).2 = log ++ [.reported] := by
  induction is generalizing s with
  | nil =>
    have : 1 ≤ stay N s := by
      unfold stay
      split_ifs <;> omega
    simp only [List.length_nil, budget] at hlen
    omega
  | cons i is ih =>
    have hno := not_startsDecap hidle
    by_cases hrep : s.state = .report
    · refine ⟨1, by simp, ?_⟩
      change answers s (.tick i) log = _
      simp [answers, hno, finalDone, hrep]
    · have hnext := busy_next (N := N) (i := i) hidle hrep
      have hless := budget_next (by omega) hmax hidle hnext
      rw [List.length_cons] at hlen
      obtain ⟨k, hk, hlog⟩ := ih (s := next N s i) hnext (by omega)
      have hsame : answers s (.tick i) log = log := by simp [answers, hno, finalDone, hrep]
      refine ⟨k + 1, by simpa using hk, ?_⟩
      change ((answered n dp H E N).run (next N s i, answers s (.tick i) log) ((is.take k).map .tick)).2 = _
      rw [hsame, hlog]

/-- In every run no stretch of cycles outside idle is longer than twelve stages of the watchdog's length,
STARTs that find the core free and reports take turns, and an open START is reported. -/
theorem launches_reported (h2 : 2 ≤ N) (hmax : N ≤ 2 ^ 20) (s0 : State n dp H E) (acts : List (Act (In n κ))) :
    let p := (answered n dp H E N).run ((answered n dp H E N).rst (s0, [])) acts
    (∀ is : List (In n κ), (∀ k < is.length,
        ((design n N dp H E).run p.1 ((is.take k).map .tick)).state ≠ .idle) → is.length ≤ 12 * (N + 3)) ∧
      (Closed p.2 ∨ Pending p.2) ∧
      (Pending p.2 → ∀ is : List (In n κ), 12 * (N + 3) ≤ is.length →
        ∃ k ≤ is.length, ((answered n dp H E N).run p ((is.take k).map .tick)).2 = p.2 ++ [.reported]) := by
  intro p
  have hturns : Turns p.1 p.2 := turns_run h2 s0 acts
  clear_value p
  have hbudget : ∀ s : State n dp H E, budget N s ≤ 12 * (N + 1) := fun s => budget_le (by omega)
  refine ⟨fun is his => ?_, ?_, fun hopen is hlen => ?_⟩
  · have hle := busy_le (by omega) hmax is his
    have := hbudget p.1
    omega
  · by_cases hidle : p.1.state = .idle
    · cases hl : p.1.front.decapStart with
      | false => exact Or.inl (hturns.free hidle hl)
      | true => exact Or.inr (hturns.asked hl).2
    · exact Or.inr (hturns.busy hidle)
  · by_cases hidle : p.1.state = .idle
    · -- the launch pulse is out, the core leaves idle in this cycle
      have hl : p.1.front.decapStart = true := by
        by_contra hl
        exact not_closed_of_pending hopen (hturns.free hidle (Bool.eq_false_iff.mpr hl))
      cases is with
      | nil => simp at hlen
      | cons i is =>
        have hno := startsDecap_held (hturns.held hl)
        have hsame : answers p.1 (.tick i) p.2 = p.2 := by simp [answers, hno, finalDone, hidle]
        have hnext : (next N p.1 i).state ≠ .idle := by
          rw [state_next, hidle]
          simp [hl]
        have := hbudget (next N p.1 i)
        rw [List.length_cons] at hlen
        obtain ⟨k, hk, hlog⟩ := busy_reported h2 hmax is p.2 hnext (by omega)
        refine ⟨k + 1, by simpa using hk, ?_⟩
        change ((answered n dp H E N).run (next N p.1 i, answers p.1 (.tick i) p.2) ((is.take k).map .tick)).2 = _
        rw [hsame, hlog]
    · have := hbudget p.1
      exact busy_reported h2 hmax is _ hidle (by omega)

/-- The START of the sample handshake is reported. -/
theorem launches_reported_sample :
    let p := (answered 64 sampleDatapath sampleHash.toHashUnit sampleEngine 300000).run
      ((answered 64 sampleDatapath sampleHash.toHashUnit sampleEngine 300000).rst (sampleTop, [])) sampleHandshake
    ∃ k ≤ 12 * (300000 + 3), ((answered 64 sampleDatapath sampleHash.toHashUnit sampleEngine 300000).run p
      (((List.replicate (12 * (300000 + 3)) sampleQuiet).take k).map .tick)).2 = [.started, .reported] := by
  intro p
  have hlog : p.2 = [.started] := by decide +kernel
  obtain ⟨k, hk, hrun⟩ := (launches_reported (by omega) (by omega) sampleTop sampleHandshake).2.2 ⟨0, hlog⟩
    (List.replicate (12 * (300000 + 3)) sampleQuiet) (by rw [List.length_replicate])
  rw [List.length_replicate] at hk
  exact ⟨k, hk, hrun.trans (by rw [show _ = [Answer.started] from hlog]; rfl)⟩

end ProtectedTop

end ZedSecure
