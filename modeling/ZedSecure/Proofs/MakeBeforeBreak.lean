import ZedSecure.Proofs.SlotQueues

/-! Sessions and vehicles in all runs: whatever the boards answer and in whatever order the threads go on, a vehicle
keeps its session until it has the next one, and no command meets another vehicle's session. -/

namespace ZedSecure

namespace DemoController

variable {n : ℕ}

structure Sound (s : State n) : Prop where
  tracked : Tracked s
  asked : Asked s
  stocked : Stocked s
  hung : s.hung = false

section Requests

variable {s : State n} {i : Fin n}

/-- The session of a vehicle that has one and is not leaving. -/
theorem Sound.session (h : Sound s) {b : Board} {k : ℕ} (hst : (s.vehicles i).state ≠ .exiting)
    (hb : (s.vehicles i).board = some b) (hk : (s.vehicles i).slot = some k) : Session s (owner s i) b k := by
  obtain ⟨k', hk', hs⟩ := h.stocked.held i b hb hst
  obtain rfl := Option.some.inj (hk.symm.trans hk')
  exact hs

/-- A vehicle that waits for nothing changes, and its session with it. -/
theorem Sound.setVehicle (h : Sound s) (hcalm : Calm s i) {v : Vehicle} (hid : v.vehicleId = (s.vehicles i).vehicleId)
    (hwait : s.entered ≤ i.val → v.state = .connecting)
    (hheld : ∀ b, v.board = some b → v.state ≠ .exiting → ∃ k, v.slot = some k ∧ Session s (owner s i) b k)
    (hlinked : v.state = .connected ∨ v.state = .handover → v.board.isSome) : Sound (setVehicle s i v) := by
  have hinj : Function.Injective (ids (DemoController.setVehicle s i v)) := by
    rw [(sameIds_setVehicle s i hid).ids]
    exact h.asked.inj
  refine ⟨h.tracked.of_eq (fun _ => rfl) rfl rfl, h.asked.setVehicle hcalm hinj hwait, ?_, h.hung⟩
  apply h.stocked.setVehicle _ hlinked
  rw [hid]
  exact hheld

theorem Sound.submit (h : Sound s) {b : Board} {op : Op n} {context : Context} (hfits : Fits b op context)
    (hadmits : Admits s b op context) (hsuits : Suits s b op) : Sound (submit s b op context) :=
  ⟨h.tracked.submit hfits, h.asked.submit h.tracked hadmits, h.stocked.submit h.asked hsuits, h.hung⟩

theorem Sound.reserve (h : Sound s) {b : Board} {k : ℕ} (hfree : (s.workers b).slots k = none) :
    Sound (reserve s b k) := by
  refine ⟨h.tracked.of_eq (fun _ => rfl) rfl rfl, ?_, ?_, h.hung⟩
  · refine h.asked.of_le (fun _ _ _ hx => hx) (fun _ _ _ _ => rfl) rfl ?_ rfl
    intro b' x o k' _ hres
    by_cases hsame : b' = b ∧ k' = k
    · obtain ⟨rfl, rfl⟩ := hsame
      exact reserve_self
    · rw [reserve_of_ne hsame]
      exact hres
  · refine h.stocked.of_eq (fun _ => rfl) (fun _ _ => rfl) (fun _ _ hr => hr) rfl ?_
    intro b' k' hne hres
    rw [reserve_of_ne, hres]
    rintro ⟨rfl, rfl⟩
    exact hne hfree

theorem Sound.requestOpen (h : Sound s) (hcalm : Calm s i) (hin : i.val < s.entered)
    (hst : (s.vehicles i).state ≠ .exiting) (target : Board) {reason : Reason}
    (hho : reason = .handover → (s.vehicles i).board.isSome) : Sound (requestOpen s i target reason) := by
  have hheld : ∀ b, (s.vehicles i).board = some b → ∃ k, (s.vehicles i).slot = some k ∧ Session s (owner s i) b k :=
    fun b hb => h.stocked.held i b hb hst
  cases hfree : freeSlot s target with
  | none =>
    simp only [DemoController.requestOpen, hfree]
    refine h.setVehicle hcalm rfl (fun hle => absurd hin (by omega)) (fun b hb _ => hheld b hb) ?_
    rintro (hc | hc) <;> cases hc
  | some slot =>
    obtain ⟨-, hnone, hres⟩ := freeSlot_some hfree
    simp only [DemoController.requestOpen, hfree]
    have hreserved := h.reserve hnone
    have hcalm' : Calm (DemoController.reserve s target slot) i :=
      hcalm.of_eq (fun _ _ _ hx => hx) (fun _ _ _ _ => rfl)
    have hset := hreserved.setVehicle hcalm' (v := { s.vehicles i with
        oldBoard := (s.vehicles i).board, oldSlot := (s.vehicles i).slot
        state := if reason = .handover then VState.handover else .connecting }) rfl
      (fun hle => absurd hin (not_lt.mpr hle)) (fun b hb _ => ?_) ?_
    · refine hset.submit ⟨rfl, rfl⟩ ?_ ?_
      · refine ⟨?_, fun o k hop => by cases hop⟩
        intro o k hop
        obtain ⟨rfl, rfl⟩ := Op.open.inj hop
        have hwho : (owner s i).who = i := rfl
        refine ⟨reserve_self, ?_, ?_, ?_, ?_⟩
        · rw [hwho, owner, owner, setVehicle_self]
        · rw [hwho]
          refine ⟨?_, ?_, ?_, hin⟩
          · rw [setVehicle_self]
            dsimp only
            split_ifs
            · exact Or.inr rfl
            · exact Or.inl rfl
          · rw [setVehicle_self]
          · rw [setVehicle_self]
        · exact hcalm.of_eq (fun _ _ _ hx => hx) (fun _ _ _ _ => rfl)
        · intro x o' hx
          have hres' := (h.asked.opens target x o' slot hx).1
          rw [hres] at hres'
          cases hres'
      · refine ⟨hnone, fun x o' hx => ?_⟩
        have hres' := (h.asked.opens target x o' slot hx).1
        rw [hres] at hres'
        cases hres'
    · obtain ⟨k, hk, hs⟩ := hheld b hb
      refine ⟨k, hk, hs.here, ?_, hs.kept⟩
      rw [reserve_of_ne]
      · exact hs.reserved
      · rintro ⟨rfl, rfl⟩
        rw [hs.here] at hnone
        cases hnone
    · intro hor
      dsimp only at hor ⊢
      split_ifs at hor with hreason
      · exact hho hreason
      · rcases hor with hc | hc <;> cases hc

end Requests

section Moves

variable {s : State n} {i : Fin n}

theorem Sound.data (h : Sound s) {b : Board} {k : ℕ} (hst : (s.vehicles i).state ≠ .exiting)
    (hb : (s.vehicles i).board = some b) (hk : (s.vehicles i).slot = some k) (tamper attack : Bool) :
    Sound (DemoController.submit s b (.data (owner s i) k tamper) (.data (s.vehicles i).vehicleId attack)) := by
  have hadmits : Admits s b (.data (owner s i) k tamper) (.data (s.vehicles i).vehicleId attack) :=
    ⟨fun o k hop => (by cases hop), fun o k hop => by cases hop⟩
  exact h.submit rfl hadmits (h.session hst hb hk)

/-- Leaving the road, a vehicle gives its session up. -/
theorem Sound.exit (h : Sound s) (hin : i.val < s.entered) (hm : Mobile (s.vehicles i).state) {b : Board} {k : ℕ}
    (hb : (s.vehicles i).board = some b) (hk : (s.vehicles i).slot = some k) :
    Sound (DemoController.submit (DemoController.setVehicle s i { s.vehicles i with state := .exiting }) b
      (.leave (owner s i) k) (.leave (s.vehicles i).vehicleId true)) := by
  have hst : (s.vehicles i).state ≠ .exiting := by
    intro hc
    rcases hm with hm | hm <;> rw [hc] at hm <;> cases hm
  have hs := h.session hst hb hk
  have hcalm := h.asked.calm_mobile hm
  have hset := h.setVehicle hcalm (v := { s.vehicles i with state := .exiting }) rfl
    (fun hle => absurd hin (not_lt.mpr hle)) (fun b _ hne => absurd rfl hne) (fun hor => by rcases hor with hc | hc <;> cases hc)
  refine hset.submit rfl ⟨fun o k hop => (by cases hop), ?_⟩ ⟨⟨hs.here, hs.reserved, hs.kept⟩, ?_⟩
  · intro o k' hop _
    obtain ⟨rfl, rfl⟩ := Op.leave.inj hop
    have hwho : (owner s i).who = i := rfl
    rw [hwho, owner, owner, setVehicle_self]
    exact ⟨rfl, rfl, hcalm.of_eq (fun _ _ _ hx => hx) (fun _ _ _ _ => rfl)⟩
  · intro j hjb hjk
    by_cases hj : j = i
    · rw [hj, setVehicle_self]
    · -- nobody else has the slot
      rw [setVehicle_of_ne _ _ _ hj] at hjb hjk ⊢
      by_contra hne
      have hs' := h.session hne hjb hjk
      have hown := Option.some.inj (hs'.here.symm.trans hs.here)
      exact hj (congrArg Owner.who hown)

/-- A vehicle without a session comes back at the other end. -/
theorem Sound.respawn (hn : n ≤ MAX_SESSIONS) (h : Sound s) (hcalm : Calm s i) (hin : i.val < s.entered) :
    Sound (respawn s i) := by
  obtain ⟨id, hid⟩ := search_ends hn s i
  have hinj := respawn_inj h.asked.inj hid
  rw [(respawn_ids hid).1, ← ids_setVehicle s i { s.vehicles i with
    vehicleId := id, board := none, slot := none, oldBoard := none, oldSlot := none, state := .connecting
    retryAt := false, retryTarget := none }] at hinj
  simp only [DemoController.respawn, hid]
  refine Sound.requestOpen ⟨?_, ?_, ?_, ?_⟩ ?_ ?_ ?_ _ ?_
  · exact h.tracked.of_eq (fun _ => rfl) rfl rfl
  · have hasked := h.asked.setVehicle hcalm hinj fun _ => rfl
    exact hasked.of_le (fun _ _ _ hx => hx) (fun _ _ _ _ => rfl) rfl (fun _ _ _ _ _ hres => hres) rfl
  · have hstocked := h.stocked.setVehicle (i := i) (v := { s.vehicles i with
      vehicleId := id, board := none, slot := none, oldBoard := none, oldSlot := none, state := .connecting
      retryAt := false, retryTarget := none }) (fun b hb => by cases hb) (fun hor => by rcases hor with hc | hc <;> cases hc)
    exact hstocked.of_eq (fun _ => rfl) (fun _ _ => rfl) (fun _ _ hr => hr) rfl (fun _ _ _ hres => hres)
  · exact h.hung
  · exact hcalm.of_eq (fun _ _ _ hx => hx) (fun _ _ _ _ => rfl)
  · exact hin
  · rw [setVehicle_self]
    intro hc
    cases hc
  · intro hc
    cases hc

theorem Sound.stepVehicle (hn : n ≤ MAX_SESSIONS) (h : Sound s) (hin : i.val < s.entered) (m : Motion) :
    Sound (stepVehicle s i m) := by
  have hmobile : Mobile (s.vehicles i).state → (s.vehicles i).state ≠ .exiting := by
    rintro (hm | hm) <;> rw [hm] <;> decide
  have hstep := stepVehicle_cases s i m
  generalize DemoController.stepVehicle s i m = s' at hstep ⊢
  cases hstep with
  | stay => exact h
  | retry target hm hr =>
    have hcalm := h.asked.calm_mobile hm
    have hset := h.setVehicle hcalm (v := { s.vehicles i with retryAt := false, retryTarget := none }) rfl
      (fun hle => absurd hin (not_lt.mpr hle)) (fun b hb hne => h.stocked.held i b hb hne) (h.stocked.linked i)
    refine hset.requestOpen (hcalm.of_eq (fun _ _ _ hx => hx) (fun _ _ _ _ => rfl)) hin ?_ target (fun hc => by cases hc)
    rw [setVehicle_self]
    exact hmobile hm
  | handover b target hm hb =>
    exact h.requestOpen (h.asked.calm_mobile hm) hin (hmobile hm) target fun _ => by rw [hb]; rfl
  | exit b slot hm hb hs => exact h.exit hin hm hb hs
  | respawn hm hb => exact h.respawn hn (h.asked.calm_mobile hm) hin
  | data b slot hm hb hs => exact h.data (hmobile hm) hb hs false false

end Moves

section Answers

variable {s : State n} {b : Board} {r : BoardResult n} {rs : List (BoardResult n)}

theorem Sound.pop (h : Sound s) (hr : (s.workers b).results = r :: rs) : Sound (pop s b r rs) := by
  refine ⟨h.tracked.pop hr, h.asked.pop h.tracked hr, ?_, h.hung⟩
  have hworker : ∀ b', ((DemoController.pop s b r rs).workers b').slots = (s.workers b').slots ∧
      ((DemoController.pop s b r rs).workers b').commands = (s.workers b').commands ∧
      ∀ r' ∈ ((DemoController.pop s b r rs).workers b').results, r' ∈ (s.workers b').results := by
    intro b'
    by_cases hb : b' = b
    · subst hb
      rw [pop_workers_self]
      refine ⟨rfl, rfl, fun r' hmem => ?_⟩
      rw [hr]
      exact List.mem_cons_of_mem _ hmem
    · rw [pop_workers_of_ne hb]
      exact ⟨rfl, rfl, fun _ hmem => hmem⟩
  refine h.stocked.of_eq (fun b' => (hworker b').1) (fun b' k => ?_) (fun b' r' => (hworker b').2.2 r') rfl
    (fun _ _ _ hres => hres)
  rw [queue, queue, (hworker b').2.1]

theorem Sound.unreserve (h : Sound s) {k : ℕ} (hfree : ∀ x o, ¬ Flies s b x (.open o k)) : Sound (unreserve s b k) := by
  refine ⟨h.tracked.of_eq (fun _ => rfl) rfl rfl, ?_, ?_, h.hung⟩
  · refine h.asked.of_le (fun _ _ _ hx => hx) (fun _ _ _ _ => rfl) rfl ?_ rfl
    intro b' x o k' hx hres
    refine unreserve_of_true hres ?_
    rintro ⟨rfl, rfl⟩
    exact hfree x o hx
  · exact h.stocked.of_eq (fun _ => rfl) (fun _ _ => rfl) (fun _ _ hr => hr) rfl fun _ _ _ hres => unreserve_of_false hres

/-- A vehicle switches to the session that has been opened, and gives the old one up only then. -/
theorem Sound.handleOpen (h : Sound s) {o : Owner n} {k : ℕ} (hown : o = owner s o.who) (hask : Asking s o.who)
    (hcalm : Calm s o.who) (hs : Session s o b k)
    (hold : ∀ ob os, (s.vehicles o.who).board = some ob → (s.vehicles o.who).slot = some os → ¬ (ob = b ∧ os = k))
    (reason : Reason) : Sound (handleOpen s o.who b k reason) := by
  have hset := h.setVehicle hcalm (v := { s.vehicles o.who with
      board := some b, slot := some k, state := .connected, oldBoard := none, oldSlot := none }) rfl
    (fun hle => absurd hask.entered (not_lt.mpr hle)) (fun b' hb' _ => by cases hb'; exact ⟨k, rfl, hown ▸ hs⟩)
    (fun _ => rfl)
  unfold DemoController.handleOpen
  dsimp only
  split
  · rename_i ob os hob hos
    rw [hask.oldBoard] at hob
    rw [hask.oldSlot] at hos
    have hst : (s.vehicles o.who).state ≠ .exiting := by
      rcases hask.state with hc | hc <;> rw [hc] <;> decide
    have hs' := h.session hst hob hos
    refine hset.submit rfl ⟨fun o k hop => (by cases hop), ?_⟩ ⟨⟨hs'.here, hs'.reserved, hs'.kept⟩, ?_⟩
    · intro o' k' _ hc
      cases (Context.leave.inj hc).2
    · intro j hjb hjk
      by_cases hj : j = o.who
      · rw [hj, setVehicle_self] at hjb hjk
        exact absurd ⟨Option.some.inj hjb.symm, Option.some.inj hjk.symm⟩ (hold ob os hob hos)
      · rw [setVehicle_of_ne _ _ _ hj] at hjb hjk ⊢
        by_contra hne
        have hs'' := h.session hne hjb hjk
        exact hj (congrArg Owner.who (Option.some.inj (hs''.here.symm.trans hs'.here)))
  · exact hset

theorem Sound.handleOpenError (h : Sound s) {i : Fin n} (hask : Asking s i) (hcalm : Calm s i) (target : Board) :
    Sound (handleOpenError s i target) := by
  have hst : (s.vehicles i).state ≠ .exiting := by
    rcases hask.state with hc | hc <;> rw [hc] <;> decide
  unfold DemoController.handleOpenError
  dsimp only
  split_ifs with hold
  · refine h.setVehicle hcalm rfl (fun hle => absurd hask.entered (not_lt.mpr hle)) ?_ (fun _ => hold)
    intro b' hb' _
    dsimp only at hb' ⊢
    rw [hask.oldBoard] at hb'
    rw [hask.oldSlot]
    exact h.stocked.held i b' hb' hst
  · refine h.setVehicle hcalm rfl (fun hle => absurd hask.entered (not_lt.mpr hle)) ?_ ?_
    · intro b' hb' _
      exact h.stocked.held i b' hb' hst
    · rintro (hc | hc) <;> cases hc

end Answers

section Runs

variable {s : State n} {b : Board}

/-- The slot of an answered open is free to be chosen again, and its vehicle waits for nothing more. -/
theorem Sound.answered (h : Sound s) {r : BoardResult n} {rs : List (BoardResult n)}
    (hr : (s.workers b).results = r :: rs) {o : Owner n} {k : ℕ} (hop : r.op = .open o k) :
    Sound (DemoController.unreserve (DemoController.pop s b r rs) b k) ∧ o = owner s o.who ∧
      Asking (DemoController.unreserve (DemoController.pop s b r rs) b k) o.who ∧
      Calm (DemoController.unreserve (DemoController.pop s b r rs) b k) o.who := by
  have hhead := flies_head hr
  rw [hop] at hhead
  obtain ⟨-, hown, hask⟩ := h.asked.opens b _ o k hhead
  have hfree : ∀ x o', ¬ Flies (DemoController.pop s b r rs) b x (.open o' k) := by
    intro x o' hx
    obtain ⟨hold, hne⟩ := (flies_pop h.tracked hr).mp hx
    exact hne (h.asked.onceSlot b x _ o' o k hold hhead)
  have hcalm := h.asked.calm_answered h.tracked hr hop
  exact ⟨(h.pop hr).unreserve hfree, hown, ⟨hask.state, hask.oldBoard, hask.oldSlot, hask.entered⟩,
    hcalm.of_eq (fun _ _ _ hx => hx) (fun _ _ _ _ => rfl)⟩

theorem Sound.collect (hn : n ≤ MAX_SESSIONS) (h : Sound s) (hall : s.entered = n) : Sound (collect s b) := by
  have hstep := collect_cases h.tracked h.asked b
  generalize DemoController.collect s b = s' at hstep ⊢
  cases hstep with
  | stay => exact h
  | other r rs hr => exact h.pop hr
  | opened r rs o k reason hr hop hp hok =>
    obtain ⟨hback, hown, hask, hcalm⟩ := h.answered hr hop
    have hhead := flies_head hr
    rw [hop] at hhead
    have hres := (h.asked.opens b _ o k hhead).1
    obtain ⟨hsome, hnil⟩ := h.stocked.opened b r o k (by rw [hr]; exact List.mem_cons_self) hop hok
    refine hback.handleOpen hown hask hcalm ⟨?_, unreserve_self, ?_⟩ ?_ reason
    · change ((DemoController.pop s b r rs).workers b).slots k = some o
      rw [pop_workers_self]
      exact hsome
    · change Kept (queue ((DemoController.pop s b r rs).workers b) k)
      have hsame : queue ((DemoController.pop s b r rs).workers b) k = queue (s.workers b) k := by
        rw [pop_workers_self]
        rfl
      rw [hsame, hnil]
      exact fun _ _ hmem => absurd hmem List.not_mem_nil
    · rintro ob os hob hos ⟨rfl, rfl⟩
      -- the slot was reserved, that of the old session is not
      have hst : (s.vehicles o.who).state ≠ .exiting := by
        rcases hask.state with hc | hc <;> exact fun hex => by cases hc.symm.trans hex
      have hs := h.session hst hob hos
      rw [hs.reserved] at hres
      cases hres
  | failed r rs o k reason hr hop hp hok =>
    obtain ⟨hback, -, hask, hcalm⟩ := h.answered hr hop
    exact hback.handleOpenError hask hcalm b
  | left r rs o k hr hop hp =>
    exact (h.pop hr).respawn hn (h.asked.calm_left h.tracked hr hop hp) (lt_of_lt_of_eq o.who.isLt hall.symm)

/-- One more vehicle comes in. -/
theorem Sound.entry (h : Sound s) (hin : s.entered < n) (side : Board) :
    Sound (DemoController.requestOpen { s with entered := s.entered + 1 } ⟨s.entered, hin⟩ side .entry) := by
  have hcalm := h.asked.calm_waiting (i := ⟨s.entered, hin⟩) le_rfl
  have hst := h.asked.waiting ⟨s.entered, hin⟩ le_rfl
  refine Sound.requestOpen ⟨?_, ?_, ?_, ?_⟩ ?_ ?_ ?_ side ?_
  · exact h.tracked.of_eq (fun _ => rfl) rfl rfl
  · refine ⟨h.asked.inj, ?_, h.asked.onceWho, h.asked.onceSlot, h.asked.exits, h.asked.onceExit, ?_⟩
    · intro b x o k hx
      obtain ⟨h1, h2, h3⟩ := h.asked.opens b x o k hx
      exact ⟨h1, h2, h3.state, h3.oldBoard, h3.oldSlot, Nat.lt_succ_of_lt h3.entered⟩
    · intro i hi
      exact h.asked.waiting i (Nat.le_of_succ_le hi)
  · exact h.stocked.of_eq (fun _ => rfl) (fun _ _ => rfl) (fun _ _ hr => hr) rfl (fun _ _ _ hres => hres)
  · exact h.hung
  · exact hcalm.of_eq (fun _ _ _ hx => hx) (fun _ _ _ _ => rfl)
  · exact Nat.lt_succ_self s.entered
  · change (s.vehicles ⟨s.entered, hin⟩).state ≠ .exiting
    rw [hst]
    decide
  · intro hc
    cases hc

theorem Sound.step (hn : n ≤ MAX_SESSIONS) (h : Sound s) (a : Act n) : Sound (step s a) := by
  have hlive : ∀ s', (s.entered = n → Sound s') → Sound (if live s then s' else s) := by
    intro s' hs'
    split_ifs with hl
    · simp only [live, Bool.and_eq_true, decide_eq_true_eq] at hl
      exact hs' hl.1
    · exact h
  cases a with
  | entry side =>
    simp only [DemoController.step]
    split_ifs with hin
    · exact h.entry hin side
    · exact h
  | collect b => exact hlive _ fun hall => h.collect hn hall
  | vehicle i m => exact hlive _ fun hall => h.stepVehicle hn (lt_of_lt_of_eq i.isLt hall.symm) m
  | swkem b =>
    refine hlive _ fun _ => h.submit rfl ⟨fun o k hop => (by cases hop), fun o k hop => by cases hop⟩ trivial
  | attack =>
    refine hlive _ fun _ => ?_
    rcases attackSelected_cases s with heq | ⟨i, b, k, hst, hb, hk, heq⟩
    · rw [heq]
      exact h
    · rw [heq]
      refine h.data ?_ hb hk true true
      rcases hst with hc | hc <;> rw [hc] <;> decide
  | select id =>
    refine hlive _ fun _ => ⟨?_, ?_, ?_, h.hung⟩
    · exact h.tracked.of_eq (fun _ => rfl) rfl rfl
    · exact h.asked.of_le (fun _ _ _ hx => hx) (fun _ _ _ _ => rfl) rfl (fun _ _ _ _ _ hres => hres) rfl
    · exact h.stocked.of_eq (fun _ => rfl) (fun _ _ => rfl) (fun _ _ hr => hr) rfl (fun _ _ _ hres => hres)
  | worker b o =>
    have hflies : ∀ b' x op, Flies (worked s b o) b' x op ↔ Flies s b' x op := by
      intro b' x op
      rw [Flies, flight_worked]
      rfl
    refine ⟨h.tracked.of_eq flight_worked rfl rfl, ?_, h.stocked.worker h.asked, h.hung⟩
    exact h.asked.of_le (fun b' x op hx => (hflies b' x op).mp hx) (fun _ _ _ _ => rfl) rfl
      (fun _ _ _ _ _ hres => hres) rfl

theorem sound_init : Sound (init n) := by
  have hnone : ∀ b x op, ¬ Flies (init n) b x op := fun b x op hx => absurd hx List.not_mem_nil
  refine ⟨⟨?_, fun _ => List.nodup_nil, ?_, ?_, ?_⟩, ⟨distinct_init.inj, ?_, ?_, ?_, ?_, ?_, fun _ _ => rfl⟩,
    ⟨fun _ _ => .free, ?_, ?_, ?_⟩, rfl⟩
  · exact fun b x op hx => absurd hx (hnone b x op)
  · exact fun x op _ _ hx => absurd hx (hnone _ x op)
  · exact fun b x op hx => absurd hx (hnone b x op)
  · intro x context hp
    cases hp
  · exact fun b x o k hx => absurd hx (hnone b x _)
  · exact fun b _ x _ _ _ _ _ hx => absurd hx (hnone b x _)
  · exact fun b x _ _ _ _ hx => absurd hx (hnone b x _)
  · exact fun b x _ _ hx => absurd hx.1 (hnone b x _)
  · exact fun b _ x _ _ _ _ _ hx => absurd hx.1 (hnone b x _)
  · exact fun b r o k hr => absurd hr List.not_mem_nil
  · intro i b hb
    cases hb
  · rintro i (hc | hc) <;> cases hc

theorem sound_run (hn : n ≤ MAX_SESSIONS) (acts : List (Act n)) (h : Sound s) : Sound (run s acts) := by
  induction acts generalizing s with
  | nil => exact h
  | cons a acts ih => exact ih (h.step hn a)

end Runs

section Results

variable {s : State n}

theorem Sound.pendingOnce (h : Sound s) {x y vehicleId : ℕ} {reason reason' : Reason} {target target' : Board}
    (hx : s.pending x = some (.open vehicleId reason target))
    (hy : s.pending y = some (.open vehicleId reason' target')) : x = y := by
  have hopen : ∀ {z : ℕ} {r : Reason} {t : Board}, s.pending z = some (.open vehicleId r t) →
      ∃ b o k, Flies s b z (.open o k) ∧ vehicleId = o.vehicleId := by
    intro z r t hz
    obtain ⟨b, op, hfly⟩ := h.tracked.back z _ hz
    obtain ⟨context, hp, hfits⟩ := h.tracked.known b z op hfly
    obtain rfl := Option.some.inj (hz.symm.trans hp)
    cases op with
    | «open» o k => exact ⟨b, o, k, hfly, hfits.1⟩
    | leave | data | swkem => cases hfits
  obtain ⟨b, o, k, hfly, hid⟩ := hopen hx
  obtain ⟨b', o', k', hfly', hid'⟩ := hopen hy
  refine h.asked.onceWho b b' x y o o' k k' hfly hfly' (h.asked.inj ?_)
  have hown := congrArg Owner.vehicleId (h.asked.opens b x o k hfly).2.1
  have hown' := congrArg Owner.vehicleId (h.asked.opens b' y o' k' hfly').2.1
  change (s.vehicles o.who).vehicleId = (s.vehicles o'.who).vehicleId
  rw [show (s.vehicles o.who).vehicleId = o.vehicleId from hown.symm, ← hid, hid']
  exact hown'

/-- The next command of a worker, if it concerns a session, concerns that of its own vehicle. -/
theorem Sound.served (h : Sound s) {b : Board} {c : BoardCommand n} {cs : List (BoardCommand n)}
    (hc : (s.workers b).commands = c :: cs) {o : Owner n} {k : ℕ}
    (hop : c.op = .leave o k ∨ ∃ tamper, c.op = .data o k tamper) : (s.workers b).slots k = some o := by
  have hqueue := @queue_cons _ _ _ _ hc { s.workers b with commands := cs } rfl k
  have hq := h.stocked.queued b k
  rcases hop with hop | ⟨tamper, hop⟩
  · rw [hqueue, hop, if_pos (show (Op.leave o k).slot = some k from rfl)] at hq
    exact hq.of_leave.1
  · rw [hqueue, hop, if_pos (show (Op.data o k tamper).slot = some k from rfl)] at hq
    exact hq.of_data.1

/-- In all runs: a slot that is chosen is free, not reserved and asked for by nobody; a vehicle has one open on its
way at most; data and leaves meet the session of their vehicle; and a vehicle that is connected or in handover has
its session, which nobody has given up. -/
theorem make_before_break (hn : n ≤ 64) (hs : Reachable s) :
    (∀ b k, freeSlot s b = some k →
      s.reserved b k = false ∧ (s.workers b).slots k = none ∧ ∀ x o, ¬ Flies s b x (.open o k)) ∧
    (∀ x y vehicleId reason reason' target target', s.pending x = some (.open vehicleId reason target) →
      s.pending y = some (.open vehicleId reason' target') → x = y) ∧
    (∀ b c cs o k, (s.workers b).commands = c :: cs → (c.op = .leave o k ∨ ∃ tamper, c.op = .data o k tamper) →
      (s.workers b).slots k = some o) ∧
    (∀ i, (s.vehicles i).state = .connected ∨ (s.vehicles i).state = .handover →
      ∃ b k, (s.vehicles i).board = some b ∧ (s.vehicles i).slot = some k ∧
        (s.workers b).slots k = some ⟨(s.vehicles i).vehicleId, i⟩ ∧
        ∀ c ∈ (s.workers b).commands, ∀ o, c.op ≠ .leave o k) := by
  obtain ⟨acts, rfl⟩ := hs
  have h := sound_run hn acts sound_init
  refine ⟨?_, fun x y _ _ _ _ _ => h.pendingOnce, fun b c cs o k hc hop => h.served hc hop, ?_⟩
  · intro b k hfree
    obtain ⟨-, hnone, hres⟩ := freeSlot_some hfree
    refine ⟨hres, hnone, fun x o hx => ?_⟩
    have hres' := (h.asked.opens b x o k hx).1
    rw [hres] at hres'
    cases hres'
  · intro i hst
    obtain ⟨b, hb⟩ := Option.isSome_iff_exists.mp (h.stocked.linked i hst)
    obtain ⟨k, hk, hsession⟩ := h.stocked.held i b hb (by rcases hst with hc | hc <;> rw [hc] <;> decide)
    refine ⟨b, k, hb, hk, hsession.here, fun c hc o hop => ?_⟩
    exact hsession.kept o k (mem_queue.mpr ⟨⟨c, hc, hop⟩, rfl⟩)

/-- A vehicle is taken over by board B; its leave from board A is not yet sent. -/
def handover : List (Act 1) :=
  [.entry .A, .worker .A ⟨true, false⟩, .collect .A, .vehicle 0 ⟨false, true, false, false, .B⟩, .worker .B ⟨true, false⟩,
    .collect .B]

theorem make_before_break_handover : ((run (init 1) handover).vehicles 0).state = .connected ∧
    ∃ b k, ((run (init 1) handover).vehicles 0).board = some b ∧ ((run (init 1) handover).vehicles 0).slot = some k ∧
      ((run (init 1) handover).workers b).slots k = some ⟨((run (init 1) handover).vehicles 0).vehicleId, 0⟩ ∧
      ∀ c ∈ ((run (init 1) handover).workers b).commands, ∀ o, c.op ≠ .leave o k :=
  ⟨by decide, (make_before_break (by decide) ⟨handover, rfl⟩).2.2.2 0 (Or.inl (by decide))⟩

end Results

end DemoController

end ZedSecure
