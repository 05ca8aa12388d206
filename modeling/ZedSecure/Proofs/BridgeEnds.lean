import ZedSecure.Proofs.BridgeRuns

/-! The bridge comes to an end: once no more commands come, whatever it has accepted is stored. -/

namespace ZedSecure

open Clocked

namespace PolyBridge

open PolyAccelerator (AtRest Computing)
open PolyLoops

variable {B : BitVec 12 → BitVec 16} {F : Flight} {m host : Banks} {p : System} {i : In} {s s' : State} {d v : Bool}
  {q : System × Log} {k : ℕ}

section Unit

/-- The unit raises `done_o` within `k` edges, whatever the host does. -/
def DoneWithin (v : Bool) (k : ℕ) (c : PolyAccelerator.State) : Prop :=
  ∀ ins : ℕ → PolyAccelerator.In, (∀ n, (ins n).set = v) →
    ∃ n < k, (PolyAccelerator.design.stream c ins n).ctrl.done = true

theorem cycles_le (cmd : BitVec 2) : cycles cmd ≤ 1192 := by
  unfold cycles
  split_ifs <;> decide

theorem doneWithin_computing {cmd : BitVec 2} {c : PolyAccelerator.State} (h : Computing v m cmd host c) :
    DoneWithin v 1193 c := by
  obtain ⟨⟨s, ins0, t, hidle, hq, hm, hstart, rfl, hset, hpos, hle, rfl⟩, -⟩ := h
  intro ins hins
  -- the inputs so far, and then the ones to come
  let all : ℕ → PolyAccelerator.In := fun n => if n < t then ins0 n else ins (n - t)
  have hall : ∀ n, (all n).set = v := by
    intro n
    by_cases hn : n < t
    · simp only [all, if_pos hn, hset]
    · simp only [all, if_neg hn, hins]
  have h0 : all 0 = ins0 0 := if_pos hpos
  have hpast : PolyAccelerator.design.stream s all t = PolyAccelerator.design.stream s ins0 t :=
    Design.stream_congr fun n hn => if_pos hn
  have hrest : (fun n => all (t + n)) = ins := by
    funext n
    simp only [all, if_neg (Nat.not_lt.mpr (Nat.le_add_right t n)), Nat.add_sub_cancel_left]
  have hend := (PolyAccelerator.command_run hidle hq (by rw [h0]; exact hstart) fun n _ => hall n).2.1.2.2
  have hbound := cycles_le (ins0 0).command
  refine ⟨cycles (ins0 0).command - t, by omega, ?_⟩
  rw [h0] at hend
  rw [← hpast, ← hrest, ← Design.stream_add, Nat.add_sub_cancel' hle]
  exact hend

theorem DoneWithin.next {c : PolyAccelerator.State} {x : PolyAccelerator.In} (h : DoneWithin v (k + 1) c)
    (hx : x.set = v) (hdone : c.ctrl.done = false) : DoneWithin v k (PolyAccelerator.next c x) := by
  intro ins hins
  obtain ⟨n, hn, hfin⟩ := h (fun n => if n = 0 then x else ins (n - 1)) fun n => by
    by_cases h0 : n = 0
    · simp only [if_pos h0, hx]
    · simp only [if_neg h0, hins]
  cases n with
  | zero => exact absurd (hdone.symm.trans hfin) Bool.false_ne_true
  | succ n =>
    refine ⟨n, by omega, ?_⟩
    rw [Nat.add_comm, Design.stream_add] at hfin
    have hins' : (fun k => if 1 + k = 0 then x else ins (1 + k - 1)) = ins := by
      funext k
      rw [if_neg (by omega), Nat.add_sub_cancel_left]
    rwa [hins'] at hfin

end Unit

section Measure

/-- The commands under way, each by the stages it has before it. -/
def weight (s : State) : ℕ := 4 * s.pend.toNat + 3 * s.ld.toNat + 2 * s.run.toNat + s.stq.toNat

/-- The states until a command gets to its next stage. -/
def remaining (s : State) : ℕ :=
  match s.state with
  | .coreGo => 3000
  | .st => 2600 - s.index
  | .stDrain => 2300
  | .idle => if s.pend then 1000 else 0
  | .ovWait => if s.pend then 1000 else 20
  | .ldA => 900 - s.index
  | .ldADrain => 600
  | .ldB => 500 - s.index
  | .ldBDrain => 200
  | .ldDone => 100
  | .go => 10
  | .flip => 10
  | .done => 1

def togo (s : State) : ℕ := 5000 * weight s + remaining s

theorem remaining_lt (s : State) : remaining s < 5000 := by
  unfold remaining
  split
  all_goals first | omega | (split_ifs <;> omega)

theorem togo_lt (hw : weight s' = weight s) (hr : remaining s' < remaining s) : togo s' < togo s := by
  rw [togo, togo, hw]
  omega

theorem togo_lt_weight (hw : weight s' < weight s) : togo s' < togo s := by
  have hr := remaining_lt s'
  rw [togo, togo]
  omega

theorem latch_pend (h : i.start = false) : (latch s i d).pend = s.pend := by
  rw [latch, h, Bool.false_and]
  cases d <;> rfl

theorem Walks.weight (h : Walks s i d s') (hstart : i.start = false) :
    PolyBridge.weight s' = PolyBridge.weight s := by
  obtain ⟨y, ix, px, pv, rfl⟩ := h
  simp only [PolyBridge.weight, latch_pend hstart, latch_ld, latch_run, latch_stq]

/-- The bridge has nothing to do but wait for the unit. -/
def Waits (s : State) : Prop := s.state = .ovWait ∧ s.pend = false ∧ s.coreFin = false

theorem togo_turned {rdata : BitVec 16} {w src : Coeffs} {y : St} {c e : ℕ} (hf : Filling s rdata w src)
    (hstart : i.start = false) (hs' : s' = turned (latch s i d) s.index y) (hs : remaining s = c - s.index)
    (hsame : s'.state = s.state → remaining s' = c - s'.index) (hy : s'.state = y → remaining s' = e)
    (he : e + 255 < c) : togo s' < togo s := by
  have hle := hf.index
  refine togo_lt ((turned_walks hs').weight hstart) ?_
  rcases hf.turn hs' with ⟨hstate, -⟩ | ⟨hstate, hindex, -⟩
  · rw [hs, hy hstate]
    omega
  · rw [hs, hsame hstate, hindex]
    omega

theorem togo_next (h : Held B F host p.ctrl) (hstage : Stage B F host p) (hstart : i.start = false)
    (hbusy : busy p.ctrl = true) (hwait : ¬Waits p.ctrl) : togo (p.next i).ctrl < togo p.ctrl := by
  cases hs : p.ctrl.state <;> rw [Stage, hs] at hstage
  case idle =>
    have hp : p.ctrl.pend = true := by simpa [busy, hs] using hbusy
    have hctrl := idle_ctrl (i := i) hs
    rw [hp, if_pos rfl] at hctrl
    refine togo_lt (Walks.weight ⟨_, _, _, _, hctrl⟩ hstart) ?_
    rw [hctrl, remaining, remaining, hs]
    simp [hp]
  case ldA =>
    obtain ⟨j, -, hf⟩ := hstage
    refine togo_turned hf hstart (ldA_ctrl hs) (by rw [remaining, hs]) (fun hst => ?_) (fun hst => ?_)
      (show 600 + 255 < 900 by decide)
    · rw [remaining, hst, hs]
    · rw [remaining, hst]
  case ldADrain =>
    have hctrl := ldADrain_ctrl (i := i) hs
    refine togo_lt (Walks.weight ⟨_, _, _, _, hctrl⟩ hstart) ?_
    by_cases h2 : p.ctrl.pendCmd = 2
    · rw [if_pos h2] at hctrl
      rw [hctrl, remaining, remaining, hs]
      exact (by decide : 500 - 0 < 600)
    · rw [if_neg h2] at hctrl
      rw [hctrl, remaining, remaining, hs]
      exact (by decide : 100 < 600)
  case ldB =>
    obtain ⟨j, -, -, hf⟩ := hstage
    refine togo_turned hf hstart (ldB_ctrl hs) (by rw [remaining, hs]) (fun hst => ?_) (fun hst => ?_)
      (show 200 + 255 < 500 by decide)
    · rw [remaining, hst, hs]
    · rw [remaining, hst]
  case ldBDrain =>
    have hctrl := ldBDrain_ctrl (i := i) hs
    refine togo_lt (Walks.weight ⟨_, _, _, _, hctrl⟩ hstart) ?_
    rw [hctrl, remaining, remaining, hs]
    exact (by decide : 100 < 200)
  case ldDone =>
    obtain ⟨j, hl, -⟩ := hstage
    refine togo_lt_weight ?_
    rw [ldDone_ctrl (i := i) hs]
    simp [weight, (hl.pend h).1]
    omega
  case go =>
    obtain ⟨-, -, ⟨l, hl⟩, -⟩ := hstage
    have hld := h.load
    rw [hl] at hld
    refine togo_lt_weight ?_
    rw [go_ctrl (i := i) hs]
    simp [weight, latch_pend hstart, hld.1]
    omega
  case coreGo =>
    have hctrl := coreGo_ctrl (i := i) hs
    refine togo_lt (Walks.weight ⟨_, _, _, _, hctrl⟩ hstart) ?_
    rw [hctrl, remaining, remaining, hs]
    cases hq : p.ctrl.stq
    · simp only [Bool.false_eq_true, if_false]
      split_ifs <;> decide
    · simp only [if_true]
      omega
  case ovWait =>
    obtain ⟨-, -, hroom, -⟩ := hstage
    have hctrl := ovWait_ctrl (i := i) hs
    have hw : Walks p.ctrl i p.core.ctrl.done (p.next i).ctrl := by
      rw [hctrl]
      split_ifs
      all_goals exact ⟨_, _, _, _, rfl⟩
    refine togo_lt (hw.weight hstart) ?_
    cases hp : p.ctrl.pend
    · have hfin : p.ctrl.coreFin = true := by
        cases hfin : p.ctrl.coreFin
        · exact absurd ⟨hs, hp, hfin⟩ hwait
        · rfl
      rw [hctrl, remaining, remaining, hs, hp, hfin]
      cases p.ctrl.ld <;> simp
    · have hld : p.ctrl.ld = false := by
        cases hl : F.load with
        | none =>
          have hld := h.load
          rwa [hl] at hld
        | some l =>
          have hq := h.queue
          rw [hroom.resolve_left (by rw [hl]; exact Option.some_ne_none l)] at hq
          exact absurd (hq.symm.trans hp) Bool.false_ne_true
      rw [hctrl, remaining, remaining, hs, hp, hld]
      simp
  case st =>
    obtain ⟨t, -, hf, -⟩ := hstage
    refine togo_turned hf hstart (st_ctrl hs) (by rw [remaining, hs]) (fun hst => ?_) (fun hst => ?_)
      (show 2300 + 255 < 2600 by decide)
    · rw [remaining, hst, hs]
    · rw [remaining, hst]
  case stDrain =>
    obtain ⟨t, ht, -⟩ := hstage
    have hstore := h.store
    rw [ht.store] at hstore
    refine togo_lt_weight ?_
    rw [stDrain_ctrl (i := i) hs]
    simp [weight, latch_pend hstart, hstore.1]
  case flip =>
    obtain ⟨-, hunit, -, -, -, -, hcore⟩ := hstage
    obtain ⟨r, hr⟩ := Option.ne_none_iff_exists'.mp hunit
    rw [hr] at hcore
    refine togo_lt_weight ?_
    rw [flip_ctrl (i := i) hs]
    simp [weight, latch_pend hstart, hcore.1]
    omega
  case done =>
    have hpend : p.ctrl.pend = false := by
      have hnone := hstage.1
      rw [Flight.toList, List.append_eq_nil_iff] at hnone
      have hq := h.queue
      rwa [Option.toList_eq_nil_iff.mp hnone.2] at hq
    have hctrl := done_ctrl (i := i) hs
    refine togo_lt (Walks.weight ⟨_, _, _, _, hctrl⟩ hstart) ?_
    rw [hctrl, remaining, remaining, hs]
    simp [latch_pend hstart, hpend]

end Measure

section Ends

/-- Without further commands the bridge stops being busy, with all that it has accepted stored. -/
def Ends (q : System × Log) : Prop :=
  ∀ ins : ℕ → In, (∀ n, (ins n).start = false) →
    ∃ n, busy (logged.stream q ins n).1.ctrl = false ∧ (logged.stream q ins n).1.ram.mem = q.2.serial

theorem accepted_idle (h : i.start = false) : Log.accepted p i = none := by
  rw [Log.accepted, h, Bool.false_and]
  rfl

theorem tracked_idle (h : Tracked q) (hstart : i.start = false) : Tracked (logged.next q i) := by
  refine tracked_next h fun j hj => ?_
  rw [accepted_idle hstart] at hj
  exact absurd hj (Option.not_mem_none j)

theorem ends_of_next (h : ∀ i : In, i.start = false → Ends (logged.next q i)) : Ends q := by
  intro ins hins
  obtain ⟨n, hn, hmem⟩ := h (ins 0) (hins 0) (fun k => ins (1 + k)) fun k => hins (1 + k)
  have hlog : (logged.next q (ins 0)).2.serial = q.2.serial := by
    have hjobs : (logged.next q (ins 0)).2.jobs = q.2.jobs ++ (Log.accepted q.1 (ins 0)).toList := rfl
    rw [Log.serial, hjobs, accepted_idle (hins 0)]
    exact congrArg (fun js => List.foldl Job.exec q.2.mem js) (List.append_nil _)
  have hstream : logged.stream q ins (1 + n) = logged.stream (logged.next q (ins 0)) (fun k => ins (1 + k)) n :=
    Design.stream_add q ins 1 n
  exact ⟨1 + n, by rw [hstream]; exact hn, by rw [hstream, hmem, hlog]⟩

theorem ends_of_over (h : Tracked q) (hbusy : busy q.1.ctrl = false) : Ends q := by
  obtain ⟨past, F, host, hjobs, hheld, hstage⟩ := h
  obtain ⟨hnone, hmem⟩ := hstage.over hheld (Or.inr hbusy)
  refine fun ins _ => ⟨0, hbusy, ?_⟩
  rw [Log.serial, hjobs, hnone, List.append_nil]
  exact hmem

/-- An edge towards states that end. -/
theorem ends_of_less (h : Tracked q) (hwait : ¬Waits q.1.ctrl)
    (ih : ∀ q' : System × Log, Tracked q' → togo q'.1.ctrl < togo q.1.ctrl → Ends q') : Ends q := by
  cases hbusy : busy q.1.ctrl
  · exact ends_of_over h hbusy
  · refine ends_of_next fun i hstart => ih _ (tracked_idle h hstart) ?_
    obtain ⟨past, F, host, -, hheld, hstage⟩ := h
    exact togo_next hheld hstage hstart hbusy hwait

theorem waits_within (h : Tracked q) (hwait : Waits q.1.ctrl) : DoneWithin q.1.ctrl.set 1193 q.1.core := by
  obtain ⟨past, F, host, -, -, hstage⟩ := h
  rw [Stage, hwait.1] at hstage
  obtain ⟨-, hunit, -, -, hcore⟩ := hstage
  obtain ⟨r, hr⟩ := Option.ne_none_iff_exists'.mp hunit
  rw [hr] at hcore
  obtain ⟨-, -, -, m, -, ⟨-, hcomp⟩ | ⟨hfin, -⟩⟩ := hcore
  · exact doneWithin_computing hcomp
  · exact absurd (hwait.2.2.symm.trans hfin) Bool.false_ne_true

theorem waits_next (hwait : Waits p.ctrl) (hstart : i.start = false) :
    (p.next i).ctrl.state = .ovWait ∧ (p.next i).ctrl.pend = false ∧ (p.next i).ctrl.set = p.ctrl.set ∧
      (p.next i).ctrl.coreFin = p.core.ctrl.done ∧ togo (p.next i).ctrl = togo p.ctrl := by
  obtain ⟨hs, hp, hfin⟩ := hwait
  have hctrl := ovWait_ctrl (i := i) hs
  rw [hp, hfin, Bool.false_and, if_neg Bool.false_ne_true, if_neg Bool.false_ne_true] at hctrl
  have hw : Walks p.ctrl i p.core.ctrl.done (p.next i).ctrl := ⟨_, _, _, _, hctrl⟩
  have hs' : (p.next i).ctrl.state = .ovWait := by rw [hctrl, latch_state, hs]
  have hp' : (p.next i).ctrl.pend = false := by rw [hctrl, latch_pend hstart, hp]
  refine ⟨hs', hp', hw.same.set, by rw [hw.same.coreFin, hfin, Bool.false_or], ?_⟩
  rw [togo, togo, hw.weight hstart, remaining, remaining, hs, hs', hp, hp']

theorem ends_of_waits (h : Tracked q) (hwait : Waits q.1.ctrl) (hk : DoneWithin q.1.ctrl.set k q.1.core)
    (ih : ∀ q' : System × Log, Tracked q' → togo q'.1.ctrl < togo q.1.ctrl → Ends q') : Ends q := by
  induction k generalizing q with
  | zero =>
    obtain ⟨n, hn, -⟩ := hk (fun _ => coreIn q.1.ctrl 0) fun _ => rfl
    exact absurd hn (Nat.not_lt_zero n)
  | succ k ihk =>
    refine ends_of_next fun i hstart => ?_
    obtain ⟨hs, hp, hset, hfin, htogo⟩ := waits_next hwait hstart
    have htracked := tracked_idle h hstart
    have ih' : ∀ q' : System × Log, Tracked q' → togo q'.1.ctrl < togo (logged.next q i).1.ctrl → Ends q' :=
      fun q' h' hlt => ih q' h' (hlt.trans_eq htogo)
    cases hdone : q.1.core.ctrl.done
    · refine ihk htracked ⟨hs, hp, hfin.trans hdone⟩ ?_ ih'
      have hnext := hk.next (x := coreIn q.1.ctrl q.1.ram.rdata) rfl hdone
      rw [show (logged.next q i).1.ctrl.set = q.1.ctrl.set from hset]
      exact hnext
    · refine ends_of_less htracked (fun hc => ?_) ih'
      exact absurd (hc.2.2.symm.trans (hfin.trans hdone)) Bool.false_ne_true

theorem ends_of_tracked (h : Tracked q) : Ends q := by
  induction hn : togo q.1.ctrl using Nat.strong_induction_on generalizing q with
  | _ n ih =>
    have ih' : ∀ q' : System × Log, Tracked q' → togo q'.1.ctrl < togo q.1.ctrl → Ends q' :=
      fun q' h' hlt => ih _ (hn ▸ hlt) h' rfl
    by_cases hwait : Waits q.1.ctrl
    · exact ends_of_waits h hwait (waits_within h hwait) ih'
    · exact ends_of_less h hwait ih'

/-- Nothing is left behind: from every moment of a run, once no more commands come, the bridge is idle after finitely
many edges, and then the memory is what the accepted commands make of it one after the other. -/
theorem accepted_are_stored (p : System × Log) {acts : List (Act In)}
    (hfits : logged.AllSteps Log.Fits (logged.rst p) acts) {ins : ℕ → In} (hins : ∀ n, (ins n).start = false) :
    ∃ n, busy (logged.stream (logged.run (logged.rst p) acts) ins n).1.ctrl = false ∧
      (logged.stream (logged.run (logged.rst p) acts) ins n).1.ram.mem =
        (logged.run (logged.rst p) acts).2.serial :=
  ends_of_tracked (Design.run_induct_of logged (P := Tracked) (fun q _ => tracked_rst q) (fun _ _ => tracked_next)
    (tracked_rst p) hfits) ins hins

/-- No command. -/
def quietIn : In := ⟨false, 0, 0, 0, 0⟩

/-- The multiplication has been accepted. -/
def accepting : System × Log := logged.run (logged.rst blank) [.tick multiplySlots]

theorem accepted_are_stored_multiply :
    ∃ n, busy (logged.stream accepting (fun _ => quietIn) n).1.ctrl = false ∧
      (logged.stream accepting (fun _ => quietIn) n).1.ram.mem =
        Log.serial ⟨fun _ => 0, [Job.ofIn multiplySlots]⟩ :=
  @accepted_are_stored blank [.tick multiplySlots] ⟨fun j hj => by
    cases hj
    exact ⟨by decide, fun h => absurd rfl h⟩, trivial⟩ (fun _ => quietIn) fun _ => rfl

end Ends

end PolyBridge

end ZedSecure
