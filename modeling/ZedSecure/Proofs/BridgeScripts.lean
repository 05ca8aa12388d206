import ZedSecure.Proofs.BridgeEnds
import ZedSecure.Spec.BridgeScripts

/-! A control that follows a sound script and the bridge fit each other: no command is dropped, none reads what the one
before it is still to write, and no other unit finds the bridge at work. -/

namespace ZedSecure

open Clocked

namespace PolyBridge

variable {p : System} {l : Log} {x : In} {port : PolyPort}

section Free

/-- The bridge has nothing under way; another unit may change the memory. -/
theorem tracked_rebase {ram : PolyRam} (h : Tracked (p, l)) (hbusy : busy p.ctrl = false) :
    Tracked (⟨p.ctrl, p.core, ram⟩, ⟨ram.mem, []⟩) := by
  obtain ⟨past, F, host, hjobs, hheld, hstage⟩ := h
  obtain ⟨hnone, -⟩ := hstage.over hheld (Or.inr hbusy)
  rw [busy, Bool.or_eq_false_iff] at hbusy
  have hs : p.ctrl.state = .idle := not_not.mp (of_decide_eq_false hbusy.1)
  rw [Stage, hs] at hstage
  obtain ⟨hstore, hunit, hload, -, hcore⟩ := hstage
  refine ⟨[], F, host, by rw [hnone]; rfl, ⟨hheld.queue, hheld.load, hheld.store, ?_, ?_, hheld.apart, ?_⟩, ?_⟩
  · rw [hload]
    exact of_none
  · rw [hstore]
    exact of_none
  · rw [hnone]
    exact fun j hj => absurd hj List.not_mem_nil
  · rw [Stage, hs]
    exact ⟨hstore, hunit, hload, rfl, hcore⟩

theorem idle_of_not_busy (h : busy p.ctrl = false) : p.ctrl.state = .idle ∧ p.ctrl.pend = false := by
  rw [busy, Bool.or_eq_false_iff] at h
  exact ⟨not_not.mp (of_decide_eq_false h.1), h.2⟩

theorem not_busy_next (hbusy : busy p.ctrl = false) (hx : x.start = false) : busy (p.next x).ctrl = false := by
  obtain ⟨hs, hp⟩ := idle_of_not_busy hbusy
  have hctrl := idle_ctrl (i := x) hs
  rw [hp, if_neg Bool.false_ne_true] at hctrl
  rw [hctrl, busy, latch_state, latch_pend hx, hs, hp]
  rfl

theorem ready_of_not_busy (h : Tracked (p, l)) (hbusy : busy p.ctrl = false) :
    ready p.ctrl p.core.ctrl.done = true := by
  obtain ⟨past, F, host, -, hheld, hstage⟩ := h
  obtain ⟨hs, hp⟩ := idle_of_not_busy hbusy
  rw [Stage, hs] at hstage
  have hld := hheld.load
  rw [hstage.2.2.1] at hld
  rw [ready, hp, show p.ctrl.ld = false from hld, hs]
  rfl

theorem not_busy_of_done (h : Tracked (p, l)) (hdone : done p.ctrl = true) (hx : x.start = false) :
    busy (p.next x).ctrl = false := by
  have hs : p.ctrl.state = .done := of_decide_eq_true hdone
  obtain ⟨past, F, host, -, hheld, hstage⟩ := h
  rw [Stage, hs] at hstage
  have hp : p.ctrl.pend = false := by
    have hnone := hstage.1
    rw [Flight.toList, List.append_eq_nil_iff] at hnone
    have hq := hheld.queue
    rwa [Option.toList_eq_nil_iff.mp hnone.2] at hq
  rw [done_ctrl (i := x) hs, busy]
  simp [latch_pend hx, hp]

theorem free_next (h : Tracked (p, l)) (hbusy : busy p.ctrl = false) (hx : x.start = false) :
    Tracked (p.shared false x port, l.shared p false x port) ∧ busy (p.shared false x port).ctrl = false ∧
      (l.shared p false x port).jobs = [] := by
  have hbusy' := not_busy_next hbusy hx
  exact ⟨tracked_rebase (tracked_idle h hx) hbusy', hbusy', rfl⟩

/-- The bridge is at work until it says that it is done. -/
theorem busy_next (hbusy : busy p.ctrl = true) (hdone : done p.ctrl = false) : busy (p.next x).ctrl = true := by
  suffices h : (p.next x).ctrl.state ≠ .idle by
    rw [busy, decide_eq_true h, Bool.true_or]
  obtain ⟨s, c, m⟩ := p
  show (PolyBridge.next s x c.ctrl.done).state ≠ .idle
  rw [PolyBridge.next]
  cases hs : s.state
  case done => exact absurd (decide_eq_true hs) (Bool.eq_false_iff.mp hdone)
  case idle =>
    have hp : s.pend = true := by
      rw [busy, hs] at hbusy
      exact hbusy
    simp [hp]
  case ldBDrain | go | flip => exact St.noConfusion
  all_goals
    dsimp only
    split_ifs <;> simp [hs]

end Free

section Early

/-- The last command accepted is on its way to the unit. -/
def Early (s : State) : Prop :=
  s.pend = true ∨ s.ld = true ∨ (s.state = .coreGo ∧ s.pend = false ∧ s.ld = false)

theorem not_ready_of_way {s : State} {d : Bool} (h : s.pend = true ∨ s.ld = true) : ready s d = false := by
  rcases h with h | h
  · rw [ready, h, Bool.not_true, Bool.false_and, Bool.false_and]
  · rw [ready, h, Bool.not_true, Bool.and_false, Bool.false_and]

theorem Walks.early {s s' : State} {d : Bool} (hw : Walks s x d s')
    (h : (latch s x d).pend = true ∨ s.ld = true) : Early s' := by
  obtain ⟨y, ix, px, pv, rfl⟩ := hw
  exact h.imp_right fun hl => Or.inl (latch_ld.trans hl)

/-- A command leaves the queue for the load, and the load for the unit. -/
theorem early_next (h : (latch p.ctrl x p.core.ctrl.done).pend = true ∨ p.ctrl.ld = true) :
    Early (p.next x).ctrl := by
  cases hs : p.ctrl.state with
  | idle =>
    refine Walks.early (s := p.ctrl) (d := p.core.ctrl.done) ?_ h
    rw [idle_ctrl hs]
    split_ifs
    · exact ⟨_, _, _, _, rfl⟩
    · exact ⟨_, _, _, _, rfl⟩
  | ldA => exact (turned_walks (ldA_ctrl hs)).early h
  | ldADrain => exact Walks.early (d := p.core.ctrl.done) ⟨_, _, _, _, ldADrain_ctrl hs⟩ h
  | ldB => exact (turned_walks (ldB_ctrl hs)).early h
  | ldBDrain => exact Walks.early (d := p.core.ctrl.done) ⟨_, _, _, _, ldBDrain_ctrl hs⟩ h
  | ldDone =>
    rw [ldDone_ctrl hs]
    exact Or.inr (Or.inl rfl)
  | go =>
    rw [go_ctrl hs]
    cases hp : (latch p.ctrl x p.core.ctrl.done).pend
    · exact Or.inr (Or.inr ⟨rfl, hp, rfl⟩)
    · exact Or.inl hp
  | coreGo => exact Walks.early (d := p.core.ctrl.done) ⟨_, _, _, _, coreGo_ctrl hs⟩ h
  | ovWait =>
    refine Walks.early (s := p.ctrl) (d := p.core.ctrl.done) ?_ h
    rw [ovWait_ctrl hs]
    split_ifs
    all_goals exact ⟨_, _, _, _, rfl⟩
  | st => exact (turned_walks (st_ctrl hs)).early h
  | stDrain =>
    rw [stDrain_ctrl hs]
    exact h.imp_right fun hl => Or.inl (latch_ld.trans hl)
  | flip =>
    rw [flip_ctrl hs]
    exact h.imp_right fun hl => Or.inl (latch_ld.trans hl)
  | done => exact Walks.early (d := p.core.ctrl.done) ⟨_, _, _, _, done_ctrl hs⟩ h

theorem early_accepted (hready : ready p.ctrl p.core.ctrl.done = true) (hx : x.start = true) :
    Early (p.next x).ctrl := by
  refine early_next (Or.inl ?_)
  rw [latch, hready, hx]
  cases p.core.ctrl.done <;> rfl

theorem Early.busy (h : Early p.ctrl) (htracked : Tracked (p, l)) : busy p.ctrl = true := by
  cases hbusy : PolyBridge.busy p.ctrl
  · have hready := ready_of_not_busy htracked hbusy
    obtain ⟨hs, -⟩ := idle_of_not_busy hbusy
    rcases h with h | h | ⟨hgo, -⟩
    · exact absurd ((not_ready_of_way (Or.inl h)).symm.trans hready) Bool.false_ne_true
    · exact absurd ((not_ready_of_way (Or.inr h)).symm.trans hready) Bool.false_ne_true
    · exact absurd (hs.symm.trans hgo) St.noConfusion
  · rfl

/-- Room for one more command as the last one starts, and at the edge after. -/
theorem ready_of_started (h : Tracked (p, l)) (hs : p.ctrl.state = .coreGo) (hp : p.ctrl.pend = false)
    (hld : p.ctrl.ld = false) (hx : x.start = false) :
    ready p.ctrl p.core.ctrl.done = true ∧ ready (p.next x).ctrl (p.next x).core.ctrl.done = true := by
  obtain ⟨past, F, host, -, hheld, hstage⟩ := h
  rw [Stage, hs] at hstage
  obtain ⟨j, hj⟩ := hstage
  obtain ⟨comp, hrest, -⟩ := hj.core
  have hrun : p.ctrl.run = true := hj.run
  have hfin : p.ctrl.coreFin = false := hj.coreFin
  have hdone : p.core.ctrl.done = false := hrest.done
  have hdone' : (p.next x).core.ctrl.done = false := hrest.started rfl (decide_eq_true hs)
  constructor
  · rw [ready, hs]
    simp [hp, hld, hrun, hfin, hdone]
  · rw [hdone', coreGo_ctrl hs, ready]
    cases p.ctrl.stq <;> simp [latch_pend hx, hp, hld, hrun, hfin, hdone]

end Early

namespace Script

variable {Op : Type} {c : Script Op} {o : Op} {a a' : Place Op}

/-- What the control and the bridge know of each other. -/
def Linked (c : Script Op) (a : Place Op) (p : System) (l : Log) : Prop :=
  match a with
  | .free => busy p.ctrl = false
  | .start o =>
    if c.mine o then l.jobs = c.before o ∧ PolyBridge.ready p.ctrl p.core.ctrl.done = true else busy p.ctrl = false
  | .wait o =>
    if c.mine o then l.jobs = c.phase o ∧ busy p.ctrl = true ∧ (c.overlapped o = true → Early p.ctrl)
    else busy p.ctrl = false ∧ l.jobs = []

theorem linked_enter (ho : c.mine o = false) (hbusy : busy p.ctrl = false) : c.Linked (.start o) p l := by
  rw [Linked, ho, if_neg Bool.false_ne_true]
  exact hbusy

theorem linked_start (hc : c.Sound) (h : Tracked (p, l)) (hlink : c.Linked (.start o) p l) :
    Tracked (p.shared (c.mine o) (c.command o) port, l.shared p (c.mine o) (c.command o) port) ∧
      c.Linked (.wait o) (p.shared (c.mine o) (c.command o) port)
        (l.shared p (c.mine o) (c.command o) port) := by
  have hx := hc.starts o
  rw [Linked] at hlink
  rw [Linked]
  cases ho : c.mine o <;> rw [ho] at hlink hx
  · exact free_next h hlink hx
  · obtain ⟨hjobs, hready⟩ := hlink
    have haccepted : Log.accepted p (c.command o) = some (c.job o) := by
      rw [Log.accepted, hready, hx]
      rfl
    have hfits : Log.Fits (p, l) (c.command o) := fun j hj => by
      obtain rfl : c.job o = j := Option.some.inj (haccepted.symm.trans hj)
      exact ⟨hc.slot o, fun _ j' hj' => hc.apart o j' (hjobs ▸ hj')⟩
    have htracked : Tracked (p.next (c.command o), Log.record p (.tick (c.command o)) l) := tracked_next h hfits
    have hearly := early_accepted hready hx
    refine ⟨htracked, ?_, hearly.busy htracked, fun _ => hearly⟩
    show l.jobs ++ (Log.accepted p (c.command o)).toList = c.phase o
    rw [haccepted, hjobs]
    rfl

/-- The next operation finds the bridge as it needs it. -/
theorem linked_follow (hc : c.Sound) (hover : c.overlapped o = false) (hjobs : c.mine o = false → l.jobs = [])
    (h : Tracked (p, l)) (hbusy : busy p.ctrl = false) : c.Linked (c.follow o) p l := by
  rw [follow]
  cases hn : c.next o with
  | none => exact hbusy
  | some o' =>
    cases ho' : c.mine o'
    · exact linked_enter ho' hbusy
    · obtain ⟨ho, hnil⟩ := hc.handed o o' hover hn ho'
      show c.Linked (.start o') p l
      rw [Linked, ho', if_pos rfl, hnil]
      exact ⟨hjobs ho, ready_of_not_busy h hbusy⟩

theorem linked_wait (hc : c.Sound) (h : Tracked (p, l)) (hlink : c.Linked (.wait o) p l) (hx : x.start = false)
    {fin : Bool} (hfin : c.mine o = true → fin = c.finishes p o) :
    Tracked (p.shared (c.mine o) x port, l.shared p (c.mine o) x port) ∧
      c.Linked (if fin then c.follow o else .wait o) (p.shared (c.mine o) x port)
        (l.shared p (c.mine o) x port) := by
  cases ho : c.mine o
  · have hover : c.overlapped o = false := by
      cases hover : c.overlapped o
      · rfl
      · exact absurd (ho.symm.trans (hc.chained o hover).1) Bool.false_ne_true
    rw [Linked, ho, if_neg Bool.false_ne_true] at hlink
    obtain ⟨htracked, hbusy, hnil⟩ := @free_next p l x port h hlink.1 hx
    refine ⟨htracked, ?_⟩
    cases fin
    · rw [if_neg Bool.false_ne_true, Linked, ho, if_neg Bool.false_ne_true]
      exact ⟨hbusy, hnil⟩
    · exact linked_follow hc hover (fun _ => hnil) htracked hbusy
  · rw [Linked, ho, if_pos rfl] at hlink
    obtain ⟨hjobs, hbusy, hearly⟩ := hlink
    have htracked : Tracked (p.next x, Log.record p (.tick x) l) := tracked_idle h hx
    have hjobs' : (Log.record p (.tick x) l).jobs = c.phase o := by
      rw [Log.record, accepted_idle hx, ← hjobs]
      exact List.append_nil _
    refine ⟨htracked, ?_⟩
    rw [hfin ho, finishes]
    cases hover : c.overlapped o
    · rw [if_neg Bool.false_ne_true]
      cases hdone : done p.ctrl
      · rw [if_neg Bool.false_ne_true, Linked, ho, if_pos rfl]
        exact ⟨hjobs', busy_next hbusy hdone, fun hy => absurd (hover.symm.trans hy) Bool.false_ne_true⟩
      · exact linked_follow hc hover (fun hy => absurd (hy.symm.trans ho) Bool.false_ne_true) htracked
          (not_busy_of_done h hdone hx)
    · rw [if_pos rfl]
      have hway : p.ctrl.pend = true ∨ p.ctrl.ld = true ∨ _ := hearly hover
      by_cases hon : p.ctrl.pend = true ∨ p.ctrl.ld = true
      · rw [not_ready_of_way hon, if_neg Bool.false_ne_true, Linked, ho, if_pos rfl]
        have hearly' := early_next (hon.imp_left (latch_pend hx).trans)
        exact ⟨hjobs', hearly'.busy htracked, fun _ => hearly'⟩
      · obtain ⟨hs, hp, hld⟩ := (or_assoc.mpr hway).resolve_left hon
        obtain ⟨hready, hready'⟩ := ready_of_started h hs hp hld hx
        obtain ⟨-, o', hn, ho', hbefore⟩ := hc.chained o hover
        rw [hready, if_pos rfl, follow, hn, Linked, ho', if_pos rfl]
        exact ⟨hjobs'.trans hbefore.symm, hready'⟩

/-- Whether the bridge has the memory. -/
def uses (c : Script Op) : Place Op → Bool
  | .free => false
  | .start o | .wait o => c.mine o

/-- An edge of a control that goes by the list. -/
def Follows (c : Script Op) (p : System) (a a' : Place Op) (x : In) : Prop :=
  match a with
  | .free => x.start = false ∧ (a' = .free ∨ ∃ o, a' = .start o ∧ c.mine o = false)
  | .start o => x = c.command o ∧ a' = .wait o
  | .wait o =>
    x.start = false ∧
      ∃ fin : Bool, (c.mine o = true → fin = c.finishes p o) ∧ a' = if fin then c.follow o else .wait o

theorem linked_next (port : PolyPort) (hc : c.Sound) (h : Tracked (p, l)) (hlink : c.Linked a p l)
    (hf : c.Follows p a a' x) :
    Tracked (p.shared (c.uses a) x port, l.shared p (c.uses a) x port) ∧
      c.Linked a' (p.shared (c.uses a) x port) (l.shared p (c.uses a) x port) := by
  cases a with
  | free =>
    obtain ⟨hx, hnext⟩ := hf
    obtain ⟨htracked, hbusy, -⟩ := @free_next p l x port h hlink hx
    refine ⟨htracked, ?_⟩
    rcases hnext with rfl | ⟨o, rfl, ho⟩
    · exact hbusy
    · exact linked_enter ho hbusy
  | start o =>
    obtain ⟨rfl, rfl⟩ := hf
    exact linked_start hc h hlink
  | wait o =>
    obtain ⟨hx, fin, hfin, rfl⟩ := hf
    exact linked_wait hc h hlink hx hfin

theorem Linked.ready (hlink : c.Linked (.start o) p l) (ho : c.mine o = true) :
    PolyBridge.ready p.ctrl p.core.ctrl.done = true := by
  rw [Linked, ho, if_pos rfl] at hlink
  exact hlink.2

theorem Linked.not_busy (hlink : c.Linked a p l) (ha : c.uses a = false) : busy p.ctrl = false := by
  cases a with
  | free => exact hlink
  | start o =>
    rw [uses] at ha
    rwa [Linked, ha, if_neg Bool.false_ne_true] at hlink
  | wait o =>
    rw [uses] at ha
    rw [Linked, ha, if_neg Bool.false_ne_true] at hlink
    exact hlink.1

/-- The commands of an operation are done as its wait is over. -/
theorem linked_done (h : Tracked (p, l)) (hlink : c.Linked (.wait o) p l) (ho : c.mine o = true)
    (hdone : done p.ctrl = true) : p.ram.mem = (c.phase o).foldl Job.exec l.mem := by
  rw [Linked, ho, if_pos rfl] at hlink
  obtain ⟨past, F, host, hjobs, hheld, hstage⟩ := h
  obtain ⟨hnone, hmem⟩ := hstage.over hheld (Or.inl hdone)
  rw [hmem, ← hlink.1, hjobs, hnone, List.append_nil]

theorem busy_of_wait (hlink : c.Linked (.wait o) p l) (ho : c.mine o = true) : busy p.ctrl = true := by
  rw [Linked, ho, if_pos rfl] at hlink
  exact hlink.2.1

end Script

section Progress

variable {Op : Type} {c : Script Op} {o : Op} {a : ℕ → Place Op} {q : ℕ → System × Log} {xs : ℕ → In}
  {ports : ℕ → PolyPort} {t : ℕ}

/-- A control and the bridge, edge after edge. -/
structure Script.Goes (c : Script Op) (a : ℕ → Place Op) (q : ℕ → System × Log) (xs : ℕ → In)
    (ports : ℕ → PolyPort) : Prop where
  linked : Tracked (q 0) ∧ c.Linked (a 0) (q 0).1 (q 0).2
  follows : ∀ t, c.Follows (q t).1 (a t) (a (t + 1)) (xs t)
  next : ∀ t, q (t + 1) = ((q t).1.shared (c.uses (a t)) (xs t) (ports t),
    (q t).2.shared (q t).1 (c.uses (a t)) (xs t) (ports t))

namespace Script.Goes

theorem linked_at (h : c.Goes a q xs ports) (hc : c.Sound) (t : ℕ) :
    Tracked (q t) ∧ c.Linked (a t) (q t).1 (q t).2 := by
  induction t with
  | zero => exact h.linked
  | succ t ih =>
    rw [h.next]
    exact linked_next (ports t) hc ih.1 ih.2 (h.follows t)

theorem quiet (h : c.Goes a q xs ports) (ha : a t = .wait o) : (xs t).start = false := by
  have hf := h.follows t
  rw [ha] at hf
  exact hf.1

/-- An operation is waited for until it is over. -/
theorem leaves (h : c.Goes a q xs ports) (ha : a t = .wait o) (hk : ∃ k, a (t + k) ≠ .wait o) :
    ∃ k, a (t + k) = .wait o ∧ a (t + k + 1) = c.follow o := by
  classical
  obtain ⟨hne, hmin⟩ := And.intro (Nat.find_spec hk) fun m => @Nat.find_min _ _ hk m
  cases hn : Nat.find hk with
  | zero =>
    rw [hn] at hne
    exact absurd ha hne
  | succ n =>
    rw [hn] at hne hmin
    have hwait : a (t + n) = .wait o := not_not.mp (hmin n (Nat.lt_succ_self n))
    have hf := h.follows (t + n)
    rw [hwait] at hf
    obtain ⟨-, fin, -, hnext⟩ := hf
    cases fin
    · exact absurd hnext hne
    · exact ⟨n, hwait, hnext⟩

/-- While a command is waited for, the bridge has itself to itself. -/
theorem stream_wait (h : c.Goes a q xs ports) (ho : c.mine o = true) (hwait : ∀ k, a (t + k) = .wait o) (n : ℕ) :
    q (t + n) = logged.stream (q t) (fun k => xs (t + k)) n := by
  induction n with
  | zero => rfl
  | succ n ih =>
    rw [Design.stream, ← ih, ← Nat.add_assoc, h.next, hwait n]
    show ((q (t + n)).1.shared (c.mine o) _ _, _) = _
    simp only [uses, ho]
    rfl

/-- The bridge lets the control go on. -/
theorem command_ends (h : c.Goes a q xs ports) (hc : c.Sound) (ho : c.mine o = true) :
    ∃ k, a (t + k) ≠ .wait o := by
  by_contra hnever
  have hwait : ∀ k, a (t + k) = .wait o := fun k => by_contra fun hk => hnever ⟨k, hk⟩
  obtain ⟨n, hidle, -⟩ := ends_of_tracked (h.linked_at hc t).1 (fun k => xs (t + k)) fun k => h.quiet (hwait k)
  rw [← h.stream_wait ho hwait n] at hidle
  have hlink := h.linked_at hc (t + n)
  rw [hwait n] at hlink
  exact absurd (hidle.symm.trans (busy_of_wait hlink.2 ho)) Bool.false_ne_true

/-- The list is gone through. -/
theorem completes (h : c.Goes a q xs ports) (hc : c.Sound)
    (hothers : ∀ t o, a t = .wait o → c.mine o = false → ∃ k, a (t + k) = .wait o → a (t + k + 1) ≠ .wait o)
    (rank : Op → ℕ) (hrank : ∀ o o', c.next o = some o' → rank o' < rank o)
    (ha : a t = .start o ∨ a t = .wait o) :
    ∃ s ≥ t, ∃ o', a s = .wait o' ∧ a (s + 1) = .free := by
  induction hr : rank o using Nat.strong_induction_on generalizing o t with
  | _ n ih =>
    have hwait : ∀ t, a t = .wait o → ∃ s ≥ t, ∃ o', a s = .wait o' ∧ a (s + 1) = .free := fun t ha => by
      have hends : ∃ k, a (t + k) ≠ .wait o := by
        cases ho : c.mine o
        · obtain ⟨k, hk⟩ := hothers t o ha ho
          by_cases hw : a (t + k) = .wait o
          · exact ⟨k + 1, hk hw⟩
          · exact ⟨k, hw⟩
        · exact h.command_ends hc ho
      obtain ⟨k, hlast, hnext⟩ := h.leaves ha hends
      rw [follow] at hnext
      cases hn : c.next o with
      | none =>
        rw [hn] at hnext
        exact ⟨t + k, Nat.le_add_right t k, o, hlast, hnext⟩
      | some o' =>
        rw [hn] at hnext
        obtain ⟨s, hs, hfree⟩ := ih (rank o') (hr ▸ hrank o o' hn) (Or.inl hnext) rfl
        exact ⟨s, by omega, hfree⟩
    rcases ha with ha | ha
    · have hf := h.follows t
      rw [ha] at hf
      obtain ⟨s, hs, hfree⟩ := hwait (t + 1) hf.2
      exact ⟨s, by omega, hfree⟩
    · exact hwait t ha

end Script.Goes

end Progress

end PolyBridge

end ZedSecure
