import ZedSecure.Proofs.SessionLeaks

/-! A session that nobody claims stays on its board for good: no command for its slot is ever submitted again, and the
slot is never chosen again. -/

namespace ZedSecure

namespace DemoController

variable {n : ℕ}

structure Lost (s : State n) (b : Board) (k : ℕ) (o : Owner n) : Prop where
  here : (s.workers b).slots k = some o
  unclaimed : ¬ Claimed s b k o

section Changes

variable {s s' : State n} {i : Fin n} {v : Vehicle} {b b' : Board} {o o' : Owner n} {k k' : ℕ} {op : Op n}
  {context : Context}

theorem Claimed.of_setVehicle (h : Claimed (DemoController.setVehicle s i v) b k o)
    (hkeep : o.who = i → Holds (DemoController.setVehicle s i v) b k o → Holds s b k o) : Claimed s b k o := by
  rcases h with hr | hc | hh
  · exact Or.inl hr
  · exact Or.inr (Or.inl hc)
  · refine Or.inr (Or.inr ?_)
    by_cases ho : o.who = i
    · exact hkeep ho hh
    · obtain ⟨h1, h2, h3, h4⟩ := hh
      rw [setVehicle_of_ne s i v ho] at h2 h3 h4
      exact ⟨h1.trans (owner_setVehicle ho), h2, h3, h4⟩

theorem Claimed.of_submit (h : Claimed (DemoController.submit s b' op context) b k o) (hne : b = b' → op ≠ .leave o k) :
    Claimed s b k o := by
  rcases h with ⟨r, hr, hopen⟩ | ⟨c, hc, hleave⟩ | hh
  · rw [submit_results] at hr
    exact Or.inl ⟨r, hr, hopen⟩
  · refine Or.inr (Or.inl ⟨c, ?_, hleave⟩)
    by_cases hb : b = b'
    · subst hb
      rw [submit_workers_self] at hc
      rcases List.mem_append.mp hc with hc | hc
      · exact hc
      · obtain rfl := List.mem_singleton.mp hc
        exact absurd hleave (hne rfl)
    · rw [submit_workers_of_ne hb] at hc
      exact hc
  · exact Or.inr (Or.inr ⟨hh.owner, hh.board, hh.slot, hh.stays⟩)

theorem Lost.setVehicle (h : Lost s b k o) (hkeep : o.who = i → Holds (setVehicle s i v) b k o → Holds s b k o) :
    Lost (setVehicle s i v) b k o :=
  ⟨h.here, fun hc => h.unclaimed (hc.of_setVehicle hkeep)⟩

theorem Lost.submit (h : Lost s b k o) (hne : b = b' → op ≠ .leave o k) : Lost (submit s b' op context) b k o := by
  refine ⟨?_, fun hc => h.unclaimed (hc.of_submit hne)⟩
  rw [submit_slots]
  exact h.here

theorem Lost.of_eq (h : Lost s b k o) (hw : s'.workers = s.workers) (hv : s'.vehicles = s.vehicles) :
    Lost s' b k o :=
  ⟨by rw [hw]; exact h.here, fun hc => h.unclaimed (hc.of_eq hw.symm hv.symm)⟩

/-- A vehicle that keeps its session has had it before. -/
theorem Holds.kept (hid : v.vehicleId = (s.vehicles i).vehicleId) (hb : v.board = (s.vehicles i).board)
    (hk : v.slot = (s.vehicles i).slot) (hst : (s.vehicles i).state ≠ .exiting) :
    o.who = i → Holds (DemoController.setVehicle s i v) b k o → Holds s b k o := by
  rintro rfl ⟨h1, h2, h3, -⟩
  rw [DemoController.owner, setVehicle_self, hid] at h1
  rw [setVehicle_self, hb] at h2
  rw [setVehicle_self, hk] at h3
  exact ⟨h1, h2, h3, hst⟩

/-- What a vehicle has is not lost. -/
theorem Lost.not_session (h : Lost s b k o) (hs : Sound s) (hst : (s.vehicles i).state ≠ .exiting)
    (hb : (s.vehicles i).board = some b) (hk : (s.vehicles i).slot = some k) : False := by
  have hsession := hs.session hst hb hk
  obtain rfl := Option.some.inj (h.here.symm.trans hsession.here)
  exact h.unclaimed (Or.inr (Or.inr ⟨rfl, hb, hk, hst⟩))

theorem Lost.requestOpen (h : Lost s b k o) (hst : (s.vehicles i).state ≠ .exiting) (target : Board) (reason : Reason) :
    Lost (requestOpen s i target reason) b k o := by
  cases hfree : freeSlot s target with
  | none =>
    simp only [DemoController.requestOpen, hfree]
    exact h.setVehicle (Holds.kept rfl rfl rfl hst)
  | some slot =>
    simp only [DemoController.requestOpen, hfree]
    have hres : Lost (reserve s target slot) b k o := h.of_eq rfl rfl
    have hset := hres.setVehicle (i := i) (v := { s.vehicles i with
      oldBoard := (s.vehicles i).board, oldSlot := (s.vehicles i).slot
      state := if reason = .handover then VState.handover else .connecting }) (Holds.kept rfl rfl rfl hst)
    exact hset.submit fun _ hop => by cases hop

theorem Lost.respawn (h : Lost s b k o) (hn : n ≤ MAX_SESSIONS) : Lost (respawn s i) b k o := by
  obtain ⟨id, hid⟩ := search_ends hn s i
  simp only [DemoController.respawn, hid]
  have hset := h.setVehicle (i := i) (v := { s.vehicles i with
    vehicleId := id, board := none, slot := none, oldBoard := none, oldSlot := none, state := .connecting
    retryAt := false, retryTarget := none }) fun ho hh => by
      have hb := hh.board
      rw [ho, setVehicle_self] at hb
      cases hb
  refine Lost.requestOpen ?_ ?_ _ _
  · exact hset.of_eq rfl rfl
  · rw [setVehicle_self]
    intro hc
    cases hc

end Changes

section Steps

variable {s : State n} {i : Fin n} {b b' : Board} {o o' : Owner n} {k k' : ℕ} {r : BoardResult n}
  {rs : List (BoardResult n)}

theorem Lost.stepVehicle (h : Lost s b k o) (hs : Sound s) (hn : n ≤ MAX_SESSIONS) (m : Motion) :
    Lost (stepVehicle s i m) b k o := by
  have hmobile : Mobile (s.vehicles i).state → (s.vehicles i).state ≠ .exiting := by
    rintro (hm | hm) hc <;> cases hm.symm.trans hc
  have hstep := stepVehicle_cases s i m
  generalize DemoController.stepVehicle s i m = s' at hstep ⊢
  cases hstep with
  | stay => exact h
  | retry target hm =>
    have hset := h.setVehicle (i := i) (v := { s.vehicles i with retryAt := false, retryTarget := none })
      (Holds.kept rfl rfl rfl (hmobile hm))
    refine hset.requestOpen ?_ target .retry
    rw [setVehicle_self]
    exact hmobile hm
  | handover b' target hm => exact h.requestOpen (hmobile hm) target .handover
  | exit b' slot hm hb hk =>
    have hset := h.setVehicle (i := i) (v := { s.vehicles i with state := .exiting }) (Holds.kept rfl rfl rfl (hmobile hm))
    refine hset.submit fun hbb hop => ?_
    subst hbb
    obtain ⟨-, rfl⟩ := Op.leave.inj hop
    exact h.not_session hs (hmobile hm) hb hk
  | respawn => exact h.respawn hn
  | data b' slot => exact h.submit fun _ hop => by cases hop

theorem Lost.pop (h : Lost s b k o) (hr : (s.workers b').results = r :: rs) : Lost (pop s b' r rs) b k o := by
  refine ⟨by rw [pop_slots]; exact h.here, fun hc => h.unclaimed ?_⟩
  rcases hc with ⟨r', hr', hopen⟩ | ⟨c, hc, hleave⟩ | hh
  · refine Or.inl ⟨r', ?_, hopen⟩
    by_cases hb : b = b'
    · subst hb
      rw [pop_workers_self] at hr'
      rw [hr]
      exact List.mem_cons_of_mem _ hr'
    · rw [pop_workers_of_ne hb] at hr'
      exact hr'
  · refine Or.inr (Or.inl ⟨c, ?_, hleave⟩)
    by_cases hb : b = b'
    · subst hb
      rw [pop_workers_self] at hc
      exact hc
    · rw [pop_workers_of_ne hb] at hc
      exact hc
  · exact Or.inr (Or.inr ⟨hh.owner, hh.board, hh.slot, hh.stays⟩)

/-- Another session is opened. -/
theorem Lost.opened (h : Lost s b k o) (hs : Sound s) (reason : Reason) (hr : (s.workers b').results = r :: rs)
    (hop : r.op = .open o' k') (hok : (r.ok || r.blocked) = true) :
    Lost (handleOpen (unreserve (DemoController.pop s b' r rs) b' k') o'.who b' k' reason) b k o := by
  have hhead := flies_head hr
  rw [hop] at hhead
  obtain ⟨-, hown, hask⟩ := hs.asked.opens b' _ o' k' hhead
  have hback : Lost (unreserve (DemoController.pop s b' r rs) b' k') b k o := (h.pop hr).of_eq rfl rfl
  have hset := hback.setVehicle (i := o'.who) (v := { s.vehicles o'.who with
      board := some b', slot := some k', state := .connected, oldBoard := none, oldSlot := none }) fun ho hh => by
    exfalso
    obtain ⟨h1, h2, h3, -⟩ := hh
    rw [ho] at h1 h2 h3
    rw [owner, setVehicle_self] at h1
    rw [setVehicle_self] at h2 h3
    obtain rfl := Option.some.inj h2
    obtain rfl := Option.some.inj h3
    obtain rfl : o = o' := h1.trans hown.symm
    exact h.unclaimed (Or.inl ⟨r, by rw [hr]; exact List.mem_cons_self, hop, hok⟩)
  unfold DemoController.handleOpen
  dsimp only
  split
  · rename_i ob os hob hos
    refine hset.submit fun hbb hleave => ?_
    subst hbb
    obtain ⟨-, rfl⟩ := Op.leave.inj hleave
    have hst : (s.vehicles o'.who).state ≠ .exiting := by
      rcases hask.state with hc | hc <;> exact fun hex => by cases hc.symm.trans hex
    exact h.not_session hs hst (hask.oldBoard.symm.trans hob) (hask.oldSlot.symm.trans hos)
  · exact hset

theorem Lost.failed (h : Lost s b k o) (hs : Sound s) (hr : (s.workers b').results = r :: rs)
    (hop : r.op = .open o' k') :
    Lost (handleOpenError (unreserve (DemoController.pop s b' r rs) b' k') o'.who b') b k o := by
  have hhead := flies_head hr
  rw [hop] at hhead
  have hask := (hs.asked.opens b' _ o' k' hhead).2.2
  have hst : (s.vehicles o'.who).state ≠ .exiting := by
    rcases hask.state with hc | hc <;> exact fun hex => by cases hc.symm.trans hex
  have hback : Lost (unreserve (DemoController.pop s b' r rs) b' k') b k o := (h.pop hr).of_eq rfl rfl
  unfold handleOpenError
  dsimp only
  split_ifs
  · exact hback.setVehicle (Holds.kept rfl hask.oldBoard hask.oldSlot hst)
  · exact hback.setVehicle (Holds.kept rfl rfl rfl hst)

theorem Lost.collect (h : Lost s b k o) (hs : Sound s) (hn : n ≤ MAX_SESSIONS) : Lost (collect s b') b k o := by
  have hstep := collect_cases hs.tracked hs.asked b'
  generalize DemoController.collect s b' = s' at hstep ⊢
  cases hstep with
  | stay => exact h
  | other r rs hr => exact h.pop hr
  | opened r rs o' k' reason hr hop hp hok => exact h.opened hs reason hr hop hok
  | failed r rs o' k' reason hr hop => exact h.failed hs hr hop
  | left r rs o' k' hr => exact (h.pop hr).respawn hn

/-- A worker has no command for the slot that touches it. -/
theorem Lost.worker (h : Lost s b k o) (hs : Sound s) (out : Outcome) : Lost (worked s b' out) b k o := by
  by_cases hb : b = b'
  · subst hb
    cases hc : (s.workers b).commands with
    | nil =>
      refine h.of_eq ?_ rfl
      rw [worked, workerRun_nil hc, Function.update_eq_self]
    | cons c cs =>
      obtain ⟨hcs, hrs, hslots⟩ := workerRun_cons (o := out) hc
      have hq := hs.stocked.queued b k
      rw [queue_cons hc hcs, h.here] at hq
      have hopen : ∀ o', c.op ≠ .open o' k := by
        intro o' hop
        rw [hop, if_pos (show (Op.open o' k).slot = some k from rfl)] at hq
        cases hq.of_open.1
      have hleave : ∀ o', c.op ≠ .leave o' k := by
        intro o' hop
        rw [hop, if_pos (show (Op.leave o' k).slot = some k from rfl)] at hq
        obtain rfl := Option.some.inj hq.of_leave.1
        exact h.unclaimed (Or.inr (Or.inl ⟨c, by rw [hc]; exact List.mem_cons_self, hop⟩))
      refine ⟨?_, fun hclaim => h.unclaimed ?_⟩
      · rw [worked_self, hslots]
        cases hop : c.op with
        | «open» o' k' =>
          have hne : k ≠ k' := by
            rintro rfl
            exact hopen o' hop
          dsimp only
          split_ifs
          · rw [Function.update_of_ne hne]
            exact h.here
          · exact h.here
        | leave o' k' =>
          have hne : k ≠ k' := by
            rintro rfl
            exact hleave o' hop
          dsimp only
          split_ifs
          · rw [Function.update_of_ne hne]
            exact h.here
          · exact h.here
        | data | swkem => exact h.here
      · rcases hclaim with ⟨r, hr, hop, hok⟩ | ⟨c', hc', hop⟩ | hh
        · rw [worked_self, hrs] at hr
          rcases List.mem_append.mp hr with hr | hr
          · exact Or.inl ⟨r, hr, hop, hok⟩
          · obtain rfl := List.mem_singleton.mp hr
            exact absurd hop (hopen o)
        · rw [worked_self, hcs] at hc'
          exact Or.inr (Or.inl ⟨c', by rw [hc]; exact List.mem_cons_of_mem _ hc', hop⟩)
        · exact Or.inr (Or.inr ⟨hh.owner, hh.board, hh.slot, hh.stays⟩)
  · refine ⟨by rw [worked_of_ne hb]; exact h.here, fun hclaim => h.unclaimed ?_⟩
    rcases hclaim with hr | hc | hh
    · rw [worked_of_ne hb] at hr
      exact Or.inl hr
    · rw [worked_of_ne hb] at hc
      exact Or.inr (Or.inl hc)
    · exact Or.inr (Or.inr ⟨hh.owner, hh.board, hh.slot, hh.stays⟩)

theorem Lost.step (h : Lost s b k o) (hs : Sound s) (hn : n ≤ MAX_SESSIONS) (a : Act n) : Lost (step s a) b k o := by
  have hlive : ∀ s', Lost s' b k o → Lost (if live s then s' else s) b k o := by
    intro s' hs'
    split_ifs
    · exact hs'
    · exact h
  cases a with
  | entry side =>
    simp only [DemoController.step]
    split_ifs with hin
    · have hst : (s.vehicles ⟨s.entered, hin⟩).state ≠ .exiting := by
        rw [hs.asked.waiting ⟨s.entered, hin⟩ le_rfl]
        decide
      refine Lost.requestOpen ?_ ?_ side .entry
      · exact h.of_eq rfl rfl
      · exact hst
    · exact h
  | collect b' => exact hlive _ (h.collect hs hn)
  | vehicle i m => exact hlive _ (h.stepVehicle hs hn m)
  | swkem b' => exact hlive _ (h.submit fun _ hop => by cases hop)
  | attack =>
    refine hlive _ ?_
    rcases attackSelected_cases s with heq | ⟨i, b', k', -, -, -, heq⟩
    · rw [heq]
      exact h
    · rw [heq]
      exact h.submit fun _ hop => by cases hop
  | select id => exact hlive _ (h.of_eq rfl rfl)
  | worker b' out => exact h.worker hs out

theorem Lost.run (h : Lost s b k o) (hs : Sound s) (hn : n ≤ MAX_SESSIONS) (acts : List (Act n)) :
    Lost (run s acts) b k o := by
  induction acts generalizing s with
  | nil => exact h
  | cons a acts ih => exact ih (h.step hs hn a) (hs.step hn a)

end Steps

/-- Whatever follows, the slot of a session that nobody claims is taken by it for ever, and is not chosen for another
one. -/
theorem lost_forever (hn : n ≤ 64) {s : State n} (hs : Reachable s) {b : Board} {k : ℕ} {o : Owner n}
    (hk : (s.workers b).slots k = some o) (hclaim : ¬ Claimed s b k o) (acts : List (Act n)) :
    ((run s acts).workers b).slots k = some o ∧ freeSlot (run s acts) b ≠ some k := by
  obtain ⟨before, rfl⟩ := hs
  have hlost := Lost.run ⟨hk, hclaim⟩ (sound_run hn before sound_init) hn acts
  refine ⟨hlost.here, fun hfree => ?_⟩
  cases (freeSlot_some hfree).2.1.symm.trans hlost.here

/-- A handover fails, and its retry succeeds: the session at board A is not given up, and nobody knows of it. -/
def retried : List (Act 1) :=
  [.entry .A, .worker .A ⟨true, false⟩, .collect .A, .vehicle (Fin.last 0) ⟨false, true, false, false, .B⟩,
    .worker .B ⟨false, false⟩, .collect .B, .vehicle (Fin.last 0) ⟨true, false, false, false, .A⟩, .worker .B ⟨true, false⟩,
    .collect .B]

/-- The vehicle leaves the road and comes back. -/
def passed : List (Act 1) :=
  [.vehicle (Fin.last 0) ⟨false, false, true, false, .B⟩, .worker .B ⟨true, false⟩, .collect .B, .worker .A ⟨true, false⟩, .collect .A]

theorem lost_forever_retried : ((run (run (init 1) retried) passed).workers .A).slots 0 = some ⟨0, 0⟩ ∧
    freeSlot (run (run (init 1) retried) passed) .A ≠ some 0 := by
  refine lost_forever (by decide) ⟨retried, rfl⟩ (by decide) ?_ passed
  rintro (⟨r, hr, -⟩ | ⟨c, hc, -⟩ | ⟨-, hb, -⟩)
  · rw [List.eq_nil_of_length_eq_zero (show ((run (init 1) retried).workers .A).results.length = 0 by decide)] at hr
    cases hr
  · rw [List.eq_nil_of_length_eq_zero (show ((run (init 1) retried).workers .A).commands.length = 0 by decide)] at hc
    cases hc
  · exact absurd hb (by decide)

end DemoController

end ZedSecure
