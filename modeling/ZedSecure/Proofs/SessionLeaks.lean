import ZedSecure.Proofs.Waiting

/-! Where a session can be lost: only when a leave fails, or when a retry comes due for a vehicle that has a session.
In all other runs each slot that is taken is accounted for. -/

namespace ZedSecure

namespace DemoController

variable {n : ℕ}

/-- No leave fails, and no vehicle that has a session retries an open. -/
def Clean (s : State n) : Act n → Prop
  | .vehicle i m => ((s.vehicles i).retryAt && m.retryDue) = true → (s.vehicles i).board = none
  | .worker b o => ∀ c cs owner k, (s.workers b).commands = c :: cs → c.op = .leave owner k → o.ok = true
  | _ => True

/-- All steps of a run are clean. -/
def CleanRun (s : State n) : List (Act n) → Prop
  | [] => True
  | a :: acts => Clean s a ∧ CleanRun (step s a) acts

/-- The vehicle has the session and is not giving it up. -/
structure Holds (s : State n) (b : Board) (k : ℕ) (o : Owner n) : Prop where
  owner : o = owner s o.who
  board : (s.vehicles o.who).board = some b
  slot : (s.vehicles o.who).slot = some k
  stays : (s.vehicles o.who).state ≠ .exiting

/-- The session has just been opened, or it is being left, or its vehicle has it. -/
def Claimed (s : State n) (b : Board) (k : ℕ) (o : Owner n) : Prop :=
  (∃ r ∈ (s.workers b).results, r.op = .open o k ∧ (r.ok || r.blocked) = true) ∨
    (∃ c ∈ (s.workers b).commands, c.op = .leave o k) ∨ Holds s b k o

/-- A vehicle that opens without a handover has no session, and neither has one that has not come in. -/
structure Bare (s : State n) : Prop where
  opens : ∀ b x o k vehicleId reason target, Flies s b x (.open o k) →
    s.pending x = some (.open vehicleId reason target) → reason ≠ .handover → (s.vehicles o.who).board = none
  outside : ∀ i : Fin n, s.entered ≤ i.val → (s.vehicles i).board = none

structure Accounted (s : State n) : Prop where
  claimed : ∀ b k o, (s.workers b).slots k = some o → Claimed s b k o
  bare : Bare s

section Changes

variable {s s' : State n} {i : Fin n} {v : Vehicle} {b b' : Board} {o o' : Owner n} {k k' : ℕ} {op : Op n}
  {context : Context}

theorem Holds.setVehicle (h : Holds s b k o) (ho : o.who ≠ i) : Holds (setVehicle s i v) b k o := by
  obtain ⟨h1, h2, h3, h4⟩ := h
  refine ⟨by rw [owner_setVehicle ho]; exact h1, ?_, ?_, ?_⟩ <;> rw [setVehicle_of_ne s i v ho] <;> assumption

theorem Claimed.setVehicle (h : Claimed s b k o)
    (hkeep : o.who = i → Holds s b k o → Holds (setVehicle s i v) b k o) : Claimed (setVehicle s i v) b k o := by
  rcases h with hr | hc | hh
  · exact Or.inl hr
  · exact Or.inr (Or.inl hc)
  · by_cases ho : o.who = i
    · exact Or.inr (Or.inr (hkeep ho hh))
    · exact Or.inr (Or.inr (hh.setVehicle ho))

theorem Claimed.submit (h : Claimed s b k o) : Claimed (submit s b' op context) b k o := by
  rcases h with ⟨r, hr, hopen⟩ | ⟨c, hc, hleave⟩ | hh
  · refine Or.inl ⟨r, ?_, hopen⟩
    rw [submit_results]
    exact hr
  · refine Or.inr (Or.inl ⟨c, ?_, hleave⟩)
    by_cases hb : b = b'
    · subst hb
      rw [submit_workers_self]
      exact List.mem_append_left _ hc
    · rw [submit_workers_of_ne hb]
      exact hc
  · exact Or.inr (Or.inr ⟨hh.owner, hh.board, hh.slot, hh.stays⟩)

/-- A leave that is submitted claims its session. -/
theorem claimed_leave : Claimed (submit s b (.leave o k) context) b k o := by
  refine Or.inr (Or.inl ⟨⟨s.commandIds, .leave o k⟩, ?_, rfl⟩)
  rw [submit_workers_self]
  exact List.mem_append_right _ (List.mem_singleton.mpr rfl)

theorem Claimed.of_eq (h : Claimed s b k o) (hw : s'.workers = s.workers) (hv : s'.vehicles = s.vehicles) :
    Claimed s' b k o := by
  have hown : owner s' o.who = owner s o.who := by rw [owner, owner, hv]
  rcases h with hr | hc | ⟨h1, h2, h3, h4⟩
  · exact Or.inl (by rw [hw]; exact hr)
  · exact Or.inr (Or.inl (by rw [hw]; exact hc))
  · refine Or.inr (Or.inr ⟨h1.trans hown.symm, ?_, ?_, ?_⟩) <;> rw [hv] <;> assumption

theorem Bare.setVehicle (h : Bare s) (hcalm : Calm s i) (hout : s.entered ≤ i.val → v.board = none) :
    Bare (setVehicle s i v) := by
  refine ⟨?_, ?_⟩
  · intro b x o k vehicleId reason target hx hp hne
    rw [setVehicle_of_ne s i v (hcalm.opens b x o k hx)]
    exact h.opens b x o k vehicleId reason target hx hp hne
  · intro j hj
    by_cases hji : j = i
    · subst hji
      rw [setVehicle_self]
      exact hout hj
    · rw [setVehicle_of_ne s i v hji]
      exact h.outside j hj

theorem Bare.submit (h : Bare s) (ht : Tracked s)
    (hbare : ∀ o k vehicleId reason target, op = .open o k → context = .open vehicleId reason target →
      reason ≠ .handover → (s.vehicles o.who).board = none) : Bare (submit s b op context) := by
  refine ⟨?_, h.outside⟩
  intro b' x o k vehicleId reason target hx hp hne
  rcases flies_submit.mp hx with hx | ⟨-, rfl, hop⟩
  · rw [submit_pending_of_ne (ht.fresh _ _ _ hx).ne] at hp
    exact h.opens b' x o k vehicleId reason target hx hp hne
  · rw [submit_pending_self] at hp
    exact hbare o k vehicleId reason target hop.symm (Option.some.inj hp) hne

/-- The flights, the vehicles and `_pending` are as before. -/
theorem Bare.of_eq (h : Bare s) (hf : ∀ b, flight (s'.workers b) = flight (s.workers b)) (hv : s'.vehicles = s.vehicles)
    (hp : s'.pending = s.pending) (he : s.entered ≤ s'.entered) : Bare s' := by
  refine ⟨?_, ?_⟩
  · intro b x o k vehicleId reason target hx
    rw [Flies, hf] at hx
    rw [hp, hv]
    exact h.opens b x o k vehicleId reason target hx
  · intro i hi
    rw [hv]
    exact h.outside i (he.trans hi)

/-- A vehicle that waits for nothing changes, but does not forget its session. -/
theorem Accounted.setVehicle (h : Accounted s) (hcalm : Calm s i)
    (hkeep : ∀ b k o, o.who = i → Holds s b k o → Holds (setVehicle s i v) b k o)
    (hout : s.entered ≤ i.val → v.board = none) : Accounted (setVehicle s i v) :=
  ⟨fun b k o hk => (h.claimed b k o hk).setVehicle (hkeep b k o), h.bare.setVehicle hcalm hout⟩

/-- A vehicle that keeps its session and does not leave. -/
theorem Holds.keep (hid : v.vehicleId = (s.vehicles i).vehicleId) (hb : v.board = (s.vehicles i).board)
    (hk : v.slot = (s.vehicles i).slot) (hst : v.state ≠ .exiting) :
    ∀ b k o, o.who = i → Holds s b k o → Holds (DemoController.setVehicle s i v) b k o := by
  rintro b k o rfl ⟨h1, h2, h3, -⟩
  refine ⟨?_, ?_, ?_, ?_⟩
  · rw [DemoController.owner, setVehicle_self, hid]
    exact h1
  · rw [setVehicle_self, hb]
    exact h2
  · rw [setVehicle_self, hk]
    exact h3
  · rw [setVehicle_self]
    exact hst

theorem Accounted.submit (h : Accounted s) (ht : Tracked s)
    (hbare : ∀ o k vehicleId reason target, op = .open o k → context = .open vehicleId reason target →
      reason ≠ .handover → (s.vehicles o.who).board = none) : Accounted (submit s b op context) := by
  refine ⟨fun b' k o hk => ?_, h.bare.submit ht hbare⟩
  rw [submit_slots] at hk
  exact (h.claimed b' k o hk).submit

/-- The workers, the vehicles and `_pending` are as before. -/
theorem Accounted.of_eq (h : Accounted s) (hw : s'.workers = s.workers) (hv : s'.vehicles = s.vehicles)
    (hp : s'.pending = s.pending) (he : s.entered ≤ s'.entered) : Accounted s' := by
  refine ⟨?_, h.bare.of_eq (fun _ => by rw [hw]) hv hp he⟩
  intro b k o hk
  rw [hw] at hk
  exact (h.claimed b k o hk).of_eq hw hv

theorem Accounted.requestOpen (h : Accounted s) (ht : Tracked s) (hcalm : Calm s i)
    (target : Board) {reason : Reason} (hbare : reason ≠ .handover → (s.vehicles i).board = none) (hout : ¬ s.entered ≤ i.val) :
    Accounted (requestOpen s i target reason) := by
  cases hfree : freeSlot s target with
  | none =>
    simp only [DemoController.requestOpen, hfree]
    exact h.setVehicle hcalm (Holds.keep rfl rfl rfl (by simp)) fun hle => absurd hle hout
  | some slot =>
    simp only [DemoController.requestOpen, hfree]
    have hres : Accounted (reserve s target slot) := h.of_eq rfl rfl rfl le_rfl
    have hcalm' : Calm (reserve s target slot) i := hcalm.of_eq (fun _ _ _ hx => hx) (fun _ _ _ _ => rfl)
    have hset := hres.setVehicle hcalm' (v := { s.vehicles i with
        oldBoard := (s.vehicles i).board, oldSlot := (s.vehicles i).slot
        state := if reason = .handover then VState.handover else .connecting })
      (Holds.keep rfl rfl rfl (by dsimp only; split_ifs <;> decide)) fun hle => absurd hle hout
    refine hset.submit (ht.of_eq (fun _ => rfl) rfl rfl) fun o k vehicleId reason' target' hop hcontext hne => ?_
    obtain ⟨rfl, -⟩ := Op.open.inj hop
    obtain ⟨-, rfl, -⟩ := Context.open.inj hcontext
    have hwho : (owner s i).who = i := rfl
    rw [hwho, setVehicle_self]
    exact hbare hne

/-- A vehicle without a session comes back. -/
theorem Accounted.respawn (h : Accounted s) (ht : Tracked s) (hn : n ≤ MAX_SESSIONS) (hcalm : Calm s i)
    (hnone : (s.vehicles i).board = none ∨ (s.vehicles i).state = .exiting) (hout : ¬ s.entered ≤ i.val) :
    Accounted (respawn s i) := by
  obtain ⟨id, hid⟩ := search_ends hn s i
  have hset := h.setVehicle hcalm (v := { s.vehicles i with
      vehicleId := id, board := none, slot := none, oldBoard := none, oldSlot := none, state := .connecting
      retryAt := false, retryTarget := none }) ?_ fun _ => rfl
  · simp only [DemoController.respawn, hid]
    refine Accounted.requestOpen ?_ ?_ ?_ _ (fun _ => ?_) hout
    · exact hset.of_eq rfl rfl rfl le_rfl
    · exact ht.of_eq (fun _ => rfl) rfl rfl
    · exact hcalm.of_eq (fun _ _ _ hx => hx) (fun _ _ _ _ => rfl)
    · rw [setVehicle_self]
  · rintro b k o rfl hh
    rcases hnone with hb | hst
    · cases hb.symm.trans hh.board
    · exact absurd hst hh.stays

/-- A vehicle leaves the road with its session. -/
theorem Accounted.exit (h : Accounted s) (ht : Tracked s) (hcalm : Calm s i) (hb : (s.vehicles i).board = some b)
    (hk : (s.vehicles i).slot = some k) :
    Accounted (DemoController.submit (DemoController.setVehicle s i { s.vehicles i with state := .exiting }) b
      (.leave (owner s i) k) (.leave (s.vehicles i).vehicleId true)) := by
  have hset := h.bare.setVehicle hcalm (v := { s.vehicles i with state := .exiting }) (h.bare.outside i)
  refine ⟨?_, hset.submit (ht.of_eq (fun _ => rfl) rfl rfl) fun _ _ _ _ _ hop => by cases hop⟩
  intro b' k' o hslot
  rw [submit_slots] at hslot
  by_cases hold : o.who = i ∧ Holds s b' k' o
  · obtain ⟨rfl, hown, hb', hk', -⟩ := hold
    obtain rfl := Option.some.inj (hb.symm.trans hb')
    obtain rfl := Option.some.inj (hk.symm.trans hk')
    rw [← hown]
    exact claimed_leave
  · exact ((h.claimed b' k' o hslot).setVehicle fun ho hh => absurd ⟨ho, hh⟩ hold).submit

end Changes

section Answers

variable {s : State n} {b : Board} {o : Owner n} {k : ℕ} {r : BoardResult n} {rs : List (BoardResult n)}

/-- The answer that is collected claims nothing, or not this session. -/
theorem Claimed.pop {b' : Board} {k' : ℕ} {o' : Owner n} (h : Claimed s b' k' o') (hr : (s.workers b).results = r :: rs)
    (hne : b' = b → r.op = .open o' k' → (r.ok || r.blocked) = true → False) : Claimed (pop s b r rs) b' k' o' := by
  by_cases hb : b' = b
  · subst hb
    rcases h with ⟨r', hr', hop, hok⟩ | ⟨c, hc, hleave⟩ | hh
    · refine Or.inl ⟨r', ?_, hop, hok⟩
      rw [pop_workers_self]
      rw [hr] at hr'
      rcases List.mem_cons.mp hr' with rfl | hr'
      · exact (hne rfl hop hok).elim
      · exact hr'
    · refine Or.inr (Or.inl ⟨c, ?_, hleave⟩)
      rw [pop_workers_self]
      exact hc
    · exact Or.inr (Or.inr ⟨hh.owner, hh.board, hh.slot, hh.stays⟩)
  · rcases h with hr' | hc | hh
    · exact Or.inl (by rw [pop_workers_of_ne hb]; exact hr')
    · exact Or.inr (Or.inl (by rw [pop_workers_of_ne hb]; exact hc))
    · exact Or.inr (Or.inr ⟨hh.owner, hh.board, hh.slot, hh.stays⟩)

theorem pop_slots (b' : Board) : ((pop s b r rs).workers b').slots = (s.workers b').slots := by
  by_cases hb : b' = b
  · rw [hb, pop_workers_self]
  · rw [pop_workers_of_ne hb]

theorem Bare.pop (h : Bare s) (ht : Tracked s) (hr : (s.workers b).results = r :: rs) : Bare (pop s b r rs) := by
  refine ⟨?_, h.outside⟩
  intro b' x o k vehicleId reason target hx hp
  obtain ⟨hold, hx'⟩ := (flies_pop ht hr).mp hx
  rw [pop_pending_of_ne hx'] at hp
  exact h.opens b' x o k vehicleId reason target hold hp

theorem Accounted.pop (h : Accounted s) (ht : Tracked s) (hr : (s.workers b).results = r :: rs)
    (hne : ∀ o k, r.op = .open o k → (r.ok || r.blocked) = false) : Accounted (pop s b r rs) := by
  refine ⟨?_, h.bare.pop ht hr⟩
  intro b' k o hk
  rw [pop_slots] at hk
  refine (h.claimed b' k o hk).pop hr fun _ hop hok => ?_
  rw [hne o k hop] at hok
  cases hok

/-- The session that has been opened is claimed by its vehicle from now on, and the one before is left. -/
theorem Accounted.opened (h : Accounted s) (hs : Sound s) {reason : Reason} (hr : (s.workers b).results = r :: rs)
    (hop : r.op = .open o k) (hp : s.pending r.commandId = some (.open o.vehicleId reason b)) :
    Accounted (handleOpen (unreserve (DemoController.pop s b r rs) b k) o.who b k reason) := by
  have hhead := flies_head hr
  rw [hop] at hhead
  obtain ⟨-, hown, hask⟩ := hs.asked.opens b _ o k hhead
  obtain ⟨hback, -, -, hcalm⟩ := hs.answered hr hop
  have hset : Bare (DemoController.setVehicle (unreserve (DemoController.pop s b r rs) b k) o.who { s.vehicles o.who with
      board := some b, slot := some k, state := .connected, oldBoard := none, oldSlot := none }) := by
    have hbare : Bare (unreserve (DemoController.pop s b r rs) b k) :=
      (h.bare.pop hs.tracked hr).of_eq (fun _ => rfl) rfl rfl le_rfl
    exact hbare.setVehicle hcalm fun hle => absurd hask.entered (not_lt.mpr hle)
  have hclaim : ∀ b' k' o', (s.workers b').slots k' = some o' →
      Claimed (DemoController.setVehicle (unreserve (DemoController.pop s b r rs) b k) o.who { s.vehicles o.who with
        board := some b, slot := some k, state := .connected, oldBoard := none, oldSlot := none }) b' k' o' ∨
      reason = .handover ∧ (s.vehicles o.who).board = some b' ∧ (s.vehicles o.who).slot = some k' ∧ o' = o := by
    intro b' k' o' hk'
    by_cases hthis : b' = b ∧ r.op = .open o' k'
    · obtain ⟨rfl, hop'⟩ := hthis
      obtain ⟨rfl, rfl⟩ := Op.open.inj (hop.symm.trans hop')
      refine Or.inl (Or.inr (Or.inr ⟨?_, ?_, ?_, ?_⟩)) <;> try rw [setVehicle_self]
      · rw [owner, setVehicle_self]
        exact hown
      · intro hc
        cases hc
    · have hpop := (h.claimed b' k' o' hk').pop hr fun hb hop' _ => hthis ⟨hb, hop'⟩
      have hback : Claimed (unreserve (DemoController.pop s b r rs) b k) b' k' o' := hpop.of_eq rfl rfl
      by_cases hold : o'.who = o.who ∧ Holds s b' k' o'
      · obtain ⟨hwho, hown', hb', hk', -⟩ := hold
        rw [hwho] at hown' hb' hk'
        refine Or.inr ⟨?_, hb', hk', hown'.trans hown.symm⟩
        by_contra hne
        have hnone := h.bare.opens b _ o k _ reason b hhead hp hne
        cases hnone.symm.trans hb'
      · exact Or.inl (hback.setVehicle fun ho hh => absurd ⟨ho, ⟨hh.owner, hh.board, hh.slot, hh.stays⟩⟩ hold)
  unfold DemoController.handleOpen
  dsimp only
  have hboard : (s.vehicles o.who).oldBoard = (s.vehicles o.who).board := hask.oldBoard
  have hslot : (s.vehicles o.who).oldSlot = (s.vehicles o.who).slot := hask.oldSlot
  have htr : Tracked (unreserve (DemoController.pop s b r rs) b k) := hback.tracked
  split
  · rename_i ob os hob hos
    refine ⟨?_, hset.submit (htr.of_eq (fun _ => rfl) rfl rfl) fun _ _ _ _ _ hop => by cases hop⟩
    intro b' k' o' hk'
    rw [submit_slots] at hk'
    change ((DemoController.pop s b r rs).workers b').slots k' = some o' at hk'
    rw [pop_slots] at hk'
    rcases hclaim b' k' o' hk' with hc | ⟨-, hb', hk'', rfl⟩
    · exact hc.submit
    · obtain rfl := Option.some.inj (hob.symm.trans (hboard.trans hb'))
      obtain rfl := Option.some.inj (hos.symm.trans (hslot.trans hk''))
      have hsame : owner (unreserve (DemoController.pop s b r rs) b k) o'.who = o' := hown.symm
      rw [hsame]
      exact claimed_leave
  · rename_i hnot
    refine ⟨?_, hset⟩
    intro b' k' o' hk'
    change ((DemoController.pop s b r rs).workers b').slots k' = some o' at hk'
    rw [pop_slots] at hk'
    rcases hclaim b' k' o' hk' with hc | ⟨hreason, hb', hk'', -⟩
    · exact hc
    · exact (hnot b' k' hreason (hboard.trans hb') (hslot.trans hk'')).elim

end Answers

section Runs

variable {s : State n} {i : Fin n} {b : Board}

theorem Accounted.failed (h : Accounted s) (hs : Sound s) {r : BoardResult n} {rs : List (BoardResult n)} {o : Owner n}
    {k : ℕ} (hr : (s.workers b).results = r :: rs) (hop : r.op = .open o k) (hok : (r.ok || r.blocked) = false) :
    Accounted (handleOpenError (unreserve (DemoController.pop s b r rs) b k) o.who b) := by
  have hhead := flies_head hr
  rw [hop] at hhead
  have hask := (hs.asked.opens b _ o k hhead).2.2
  have hboard : (s.vehicles o.who).oldBoard = (s.vehicles o.who).board := hask.oldBoard
  have hslot : (s.vehicles o.who).oldSlot = (s.vehicles o.who).slot := hask.oldSlot
  have hcalm := (hs.answered hr hop).2.2.2
  have hpop := h.pop hs.tracked hr fun _ _ _ => hok
  have hback : Accounted (unreserve (DemoController.pop s b r rs) b k) := hpop.of_eq rfl rfl rfl le_rfl
  unfold handleOpenError
  dsimp only
  split_ifs with hold
  · exact hback.setVehicle hcalm (Holds.keep rfl hboard hslot (by simp))
      fun hle => absurd hask.entered (not_lt.mpr hle)
  · exact hback.setVehicle hcalm (Holds.keep rfl rfl rfl (by simp)) fun hle => absurd hask.entered (not_lt.mpr hle)

theorem Accounted.collect (h : Accounted s) (hs : Sound s) (hn : n ≤ MAX_SESSIONS) (hall : s.entered = n) :
    Accounted (collect s b) := by
  have hstep := collect_cases hs.tracked hs.asked b
  generalize DemoController.collect s b = s' at hstep ⊢
  cases hstep with
  | stay => exact h
  | other r rs hr hopen => exact h.pop hs.tracked hr fun o k hop => absurd hop (hopen o k)
  | opened r rs o k reason hr hop hp => exact h.opened hs hr hop hp
  | failed r rs o k reason hr hop hp hok => exact h.failed hs hr hop hok
  | left r rs o k hr hop hp =>
    have hhead := flies_head hr
    rw [hop] at hhead
    refine (h.pop hs.tracked hr fun _ _ hop' => by cases hop.symm.trans hop').respawn (hs.tracked.pop hr) hn
      (hs.asked.calm_left hs.tracked hr hop hp) (Or.inr (hs.asked.exits b _ o k ⟨hhead, hp⟩).2) ?_
    have hlt := o.who.isLt
    change ¬ s.entered ≤ o.who.val
    omega

/-- The ways of `_step_vehicle` when no retry comes due. -/
theorem stepVehicle_undue {m : Motion} (hdue : ¬ ((s.vehicles i).retryAt && m.retryDue) = true) :
    stepVehicle s i m = s ∨ Mobile (s.vehicles i).state ∧
      ((∃ target, (s.vehicles i).board.isSome ∧ stepVehicle s i m = requestOpen s i target .handover) ∨
        stepVehicle s i m = requestExit s i ∨
        ∃ b op context, (∀ o k, op ≠ .open o k) ∧ stepVehicle s i m = submit s b op context) := by
  by_cases hskip : ((s.vehicles i).state = .connecting || (s.vehicles i).state = .handover ||
      (s.vehicles i).state = .exiting) = true
  · exact Or.inl (by rw [DemoController.stepVehicle, if_pos hskip])
  · have hm : Mobile (s.vehicles i).state := by
      unfold Mobile
      cases hst : (s.vehicles i).state <;> simp_all
    rw [DemoController.stepVehicle, if_neg hskip, if_neg hdue]
    by_cases hcross : (m.crossed && (s.vehicles i).board.isSome &&
        (s.vehicles i).board ≠ some (if (s.vehicles i).forward then Board.B else .A)) = true
    · rw [if_pos hcross]
      simp only [Bool.and_eq_true] at hcross
      exact Or.inr ⟨hm, Or.inl ⟨_, hcross.1.2, rfl⟩⟩
    · rw [if_neg hcross]
      by_cases hoff : (m.offRoad && !(m.crossed && (s.vehicles i).board.isSome)) = true
      · rw [moved, if_pos hoff]
        exact Or.inr ⟨hm, Or.inr (Or.inl rfl)⟩
      · rw [moved, if_neg hoff]
        split
        · split_ifs
          · exact Or.inr ⟨hm, Or.inr (Or.inr ⟨_, _, _, fun _ _ hop => (by cases hop), rfl⟩)⟩
          · exact Or.inl rfl
        · exact Or.inl rfl

theorem Accounted.requestExit (h : Accounted s) (hs : Sound s) (hn : n ≤ MAX_SESSIONS) (hin : i.val < s.entered)
    (hm : Mobile (s.vehicles i).state) : Accounted (requestExit s i) := by
  have hcalm := hs.asked.calm_mobile hm
  have hst : (s.vehicles i).state ≠ .exiting := by
    rintro hst
    rcases hm with hm | hm <;> cases hst.symm.trans hm
  unfold DemoController.requestExit
  dsimp only
  split
  · rename_i b k hb hk
    exact h.exit hs.tracked hcalm hb hk
  · rename_i hnot
    refine h.respawn hs.tracked hn hcalm (Or.inl ?_) (not_le.mpr hin)
    -- a vehicle with a board has a slot there
    by_contra hsome
    obtain ⟨b, hb⟩ := Option.ne_none_iff_exists'.mp hsome
    obtain ⟨k, hk, -⟩ := hs.stocked.held i b hb hst
    exact hnot b k hb hk

theorem Accounted.stepVehicle (h : Accounted s) (hs : Sound s) (hn : n ≤ MAX_SESSIONS) (hin : i.val < s.entered)
    (m : Motion) (hclean : Clean s (.vehicle i m)) : Accounted (stepVehicle s i m) := by
  have hout : ¬ s.entered ≤ i.val := not_le.mpr hin
  by_cases hdue : ((s.vehicles i).retryAt && m.retryDue) = true
  · have hnone := hclean hdue
    have hstep := stepVehicle_cases s i m
    generalize DemoController.stepVehicle s i m = s' at hstep ⊢
    cases hstep with
    | stay => exact h
    | retry target hm =>
      have hcalm := hs.asked.calm_mobile hm
      have hst : (s.vehicles i).state ≠ .exiting := by
        rintro hst
        rcases hm with hm | hm <;> cases hst.symm.trans hm
      have hset := h.setVehicle hcalm (v := { s.vehicles i with retryAt := false, retryTarget := none })
        (Holds.keep rfl rfl rfl hst) fun hle => absurd hle hout
      refine hset.requestOpen (hs.tracked.of_eq (fun _ => rfl) rfl rfl)
        (hcalm.of_eq (fun _ _ _ hx => hx) (fun _ _ _ _ => rfl)) target (fun _ => ?_) hout
      rw [setVehicle_self]
      exact hnone
    | handover b target hm hb => cases hnone.symm.trans hb
    | exit b k hm hb => cases hnone.symm.trans hb
    | respawn hm => exact h.respawn hs.tracked hn (hs.asked.calm_mobile hm) (Or.inl hnone) hout
    | data b k hm hb => cases hnone.symm.trans hb
  · rcases stepVehicle_undue hdue with heq | ⟨hm, ⟨target, hb, heq⟩ | heq | ⟨b, op, context, hop, heq⟩⟩
    · rw [heq]
      exact h
    · rw [heq]
      exact h.requestOpen hs.tracked (hs.asked.calm_mobile hm) target (fun hne => absurd rfl hne) hout
    · rw [heq]
      exact h.requestExit hs hn hin hm
    · rw [heq]
      exact h.submit hs.tracked fun o k _ _ _ hopen => absurd hopen (hop o k)

/-- A worker whose leave does not fail. -/
theorem Accounted.worker (h : Accounted s) {o : Outcome} (hclean : Clean s (.worker b o)) :
    Accounted (worked s b o) := by
  refine ⟨?_, h.bare.of_eq flight_worked rfl rfl le_rfl⟩
  intro b' k owner hk
  by_cases hb : b' = b
  · subst hb
    cases hc : (s.workers b').commands with
    | nil =>
      rw [worked_self, workerRun_nil hc] at hk
      refine (h.claimed b' k owner hk).of_eq ?_ rfl
      rw [worked, workerRun_nil hc, Function.update_eq_self]
    | cons c cs =>
      obtain ⟨hcs, hrs, hslots⟩ := workerRun_cons (o := o) hc
      -- an earlier claim stays, unless the round has carried it out
      have hold : (s.workers b').slots k = some owner → c.op ≠ .leave owner k → Claimed (worked s b' o) b' k owner := by
        intro hk' hne
        rcases h.claimed b' k owner hk' with ⟨r, hr, hop⟩ | ⟨c', hc', hop⟩ | hh
        · refine Or.inl ⟨r, ?_, hop⟩
          rw [worked_self, hrs]
          exact List.mem_append_left _ hr
        · refine Or.inr (Or.inl ⟨c', ?_, hop⟩)
          rw [worked_self, hcs]
          rw [hc] at hc'
          rcases List.mem_cons.mp hc' with rfl | hc'
          · exact absurd hop hne
          · exact hc'
        · exact Or.inr (Or.inr ⟨hh.owner, hh.board, hh.slot, hh.stays⟩)
      rw [worked_self, hslots] at hk
      cases hop : c.op with
      | «open» owner' k' =>
        rw [hop] at hk
        dsimp only at hk
        split_ifs at hk with hok
        · by_cases hkk : k = k'
          · subst hkk
            rw [Function.update_self] at hk
            obtain rfl := Option.some.inj hk
            refine Or.inl ⟨⟨c.commandId, c.op, o.ok, false⟩, ?_, hop, ?_⟩
            · rw [worked_self, hrs, hop]
              exact List.mem_append_right _ (List.mem_singleton.mpr rfl)
            · rw [Bool.or_false]
              exact hok
          · rw [Function.update_of_ne hkk] at hk
            exact hold hk (by rw [hop]; intro hc; cases hc)
        · exact hold hk (by rw [hop]; intro hc; cases hc)
      | leave owner' k' =>
        rw [hop] at hk
        rw [hclean c cs owner' k' hc hop] at hk
        dsimp only at hk
        rw [if_pos rfl] at hk
        have hkk : k ≠ k' := by
          rintro rfl
          rw [Function.update_self] at hk
          cases hk
        rw [Function.update_of_ne hkk] at hk
        refine hold hk ?_
        rw [hop]
        rintro hc
        exact hkk (Op.leave.inj hc).2.symm
      | data | swkem =>
        rw [hop] at hk
        exact hold hk (by rw [hop]; intro hc; cases hc)
  · rw [worked_of_ne hb] at hk
    rcases h.claimed b' k owner hk with hr | hc | hh
    · exact Or.inl (by rw [worked_of_ne hb]; exact hr)
    · exact Or.inr (Or.inl (by rw [worked_of_ne hb]; exact hc))
    · exact Or.inr (Or.inr ⟨hh.owner, hh.board, hh.slot, hh.stays⟩)

theorem Accounted.step (h : Accounted s) (hs : Sound s) (hn : n ≤ MAX_SESSIONS) (a : Act n) (hclean : Clean s a) :
    Accounted (step s a) := by
  have hlive : ∀ s', (s.entered = n → Accounted s') → Accounted (if live s then s' else s) := by
    intro s' hs'
    split_ifs with hl
    · simp only [live, Bool.and_eq_true, decide_eq_true_eq] at hl
      exact hs' hl.1
    · exact h
  cases a with
  | entry side =>
    simp only [DemoController.step]
    split_ifs with hin
    · have hcalm := hs.asked.calm_waiting (i := ⟨s.entered, hin⟩) le_rfl
      refine Accounted.requestOpen ?_ ?_ ?_ side (fun _ => h.bare.outside ⟨s.entered, hin⟩ le_rfl)
        (Nat.not_succ_le_self s.entered)
      · exact h.of_eq rfl rfl rfl (Nat.le_succ _)
      · exact hs.tracked.of_eq (fun _ => rfl) rfl rfl
      · exact hcalm.of_eq (fun _ _ _ hx => hx) (fun _ _ _ _ => rfl)
    · exact h
  | collect b => exact hlive _ fun hall => h.collect hs hn hall
  | vehicle i m => exact hlive _ fun hall => h.stepVehicle hs hn (lt_of_lt_of_eq i.isLt hall.symm) m hclean
  | swkem b => exact hlive _ fun _ => h.submit hs.tracked fun _ _ _ _ _ hop => by cases hop
  | attack =>
    refine hlive _ fun _ => ?_
    rcases attackSelected_cases s with heq | ⟨i, b, k, -, -, -, heq⟩
    · rw [heq]
      exact h
    · rw [heq]
      exact h.submit hs.tracked fun _ _ _ _ _ hop => by cases hop
  | select id => exact hlive _ fun _ => h.of_eq rfl rfl rfl le_rfl
  | worker b o => exact h.worker hclean

theorem accounted_run (hn : n ≤ MAX_SESSIONS) (acts : List (Act n)) (h : Accounted s) (hs : Sound s)
    (hclean : CleanRun s acts) : Accounted (run s acts) := by
  induction acts generalizing s with
  | nil => exact h
  | cons a acts ih => exact ih (h.step hs hn a hclean.1) (hs.step hn a) hclean.2

theorem accounted_init : Accounted (init n) :=
  ⟨fun _ _ _ hk => (by cases hk), fun _ _ _ _ _ _ _ hx => absurd hx List.not_mem_nil, fun _ _ => rfl⟩

end Runs

/-- In a clean run every session is claimed, and with nothing pending the sessions on the boards are just those of the
vehicles. -/
theorem no_session_leaked (hn : n ≤ 64) (acts : List (Act n)) (hclean : CleanRun (init n) acts) {s : State n}
    (hs : s = run (init n) acts) :
    (∀ b k o, (s.workers b).slots k = some o → Claimed s b k o) ∧
    ((∀ x, s.pending x = none) → ∀ b k o, (s.workers b).slots k = some o ↔
      o = owner s o.who ∧ (s.vehicles o.who).board = some b ∧ (s.vehicles o.who).slot = some k) := by
  have h := sound_run hn acts sound_init
  have hacc := accounted_run hn acts accounted_init sound_init hclean
  have hawait := awaited_run hn acts awaited_init sound_init
  rw [← hs] at h hacc hawait
  refine ⟨hacc.claimed, fun hnone b k o => ⟨fun hk => ?_, ?_⟩⟩
  · have hidle : ∀ x op, ¬ Flies s b x op := by
      intro x op hx
      obtain ⟨context, hp, -⟩ := h.tracked.known b x op hx
      cases (hnone x).symm.trans hp
    rcases hacc.claimed b k o hk with ⟨r, hr, hop, -⟩ | ⟨c, hc, hop⟩ | hh
    · exact absurd (flies_of_result hr) (hidle _ _)
    · exact absurd (List.mem_append_right _ (List.mem_map.mpr ⟨c, hc, rfl⟩)) (hidle c.commandId c.op)
    · exact ⟨hh.owner, hh.board, hh.slot⟩
  · rintro ⟨hown, hb, hk⟩
    have hin : o.who.val < s.entered := by
      by_contra hle
      cases (hacc.bare.outside o.who (not_lt.mp hle)).symm.trans hb
    have hst : (s.vehicles o.who).state ≠ .exiting := by
      intro hst
      obtain ⟨x, b', k', hx⟩ := hawait o.who hin (by rintro (hm | hm) <;> cases hst.symm.trans hm)
      have hfly : ∃ op, Flies s b' x op := hx.elim (fun hx => ⟨_, hx⟩) fun hx => ⟨_, hx.1⟩
      obtain ⟨op, hfly⟩ := hfly
      obtain ⟨context, hp, -⟩ := h.tracked.known b' x op hfly
      cases (hnone x).symm.trans hp
    rw [(h.session hst hb hk).here, ← hown]

theorem no_session_leaked_handover : ((run (init 1) handover).workers .A).slots 0 = some ⟨0, 0⟩ ∧
    Claimed (run (init 1) handover) .A 0 ⟨0, 0⟩ := by
  have hclean : CleanRun (init 1) handover :=
    ⟨trivial, fun _ _ _ _ _ _ => rfl, trivial, fun hdue => absurd hdue (by decide), fun _ _ _ _ _ _ => rfl, trivial, trivial⟩
  exact ⟨by decide, (no_session_leaked (by decide) handover hclean rfl).1 .A 0 ⟨0, 0⟩ (by decide)⟩

end DemoController

end ZedSecure
