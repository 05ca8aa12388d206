import ZedSecure.Proofs.MakeBeforeBreak

/-! No vehicle waits in vain: one that is connecting, in handover or exiting has a command on its way that its answer
will end. -/

namespace ZedSecure

namespace DemoController

variable {n : ℕ}

/-- Command `x` is an open of the vehicle, or its leave at the end of the road, and it is on its way. -/
def Ends (s : State n) (i : Fin n) (x : ℕ) : Prop :=
  ∃ b k, Flies s b x (.open (owner s i) k) ∨ Exits s b x (owner s i) k

def Awaits (s : State n) (i : Fin n) : Prop := ∃ x, Ends s i x

/-- Who waits has something to wait for, the vehicle `i` apart. -/
def AwaitedBut (s : State n) (i : Fin n) : Prop :=
  ∀ j, j ≠ i → j.val < s.entered → ¬ Mobile (s.vehicles j).state → Awaits s j

def Awaited (s : State n) : Prop := ∀ j : Fin n, j.val < s.entered → ¬ Mobile (s.vehicles j).state → Awaits s j

section Changes

variable {s s' : State n} {i j : Fin n} {v : Vehicle} {b : Board} {op : Op n} {context : Context}

theorem Awaited.but (h : Awaited s) (i : Fin n) : AwaitedBut s i := fun j _ => h j

/-- With the vehicle itself everybody is counted. -/
theorem AwaitedBut.all (h : AwaitedBut s i) (hi : ¬ Mobile (s.vehicles i).state → Awaits s i) : Awaited s := by
  intro j hj hst
  by_cases hji : j = i
  · subst hji
    exact hi hst
  · exact h j hji hj hst

theorem Awaits.setVehicle (h : Awaits s j) (hj : j ≠ i) : Awaits (setVehicle s i v) j := by
  obtain ⟨x, hx⟩ := h
  refine ⟨x, ?_⟩
  rw [Ends, owner_setVehicle hj]
  exact hx

theorem AwaitedBut.setVehicle (h : AwaitedBut s i) : AwaitedBut (setVehicle s i v) i := by
  intro j hj hin hst
  rw [setVehicle_of_ne s i v hj] at hst
  exact (h j hj hin hst).setVehicle hj

theorem Awaits.submit (h : Awaits s j) (ht : Tracked s) : Awaits (submit s b op context) j := by
  obtain ⟨x, b', k, hx | ⟨hx, hp⟩⟩ := h
  · exact ⟨x, b', k, Or.inl (flies_submit.mpr (Or.inl hx))⟩
  · refine ⟨x, b', k, Or.inr ⟨flies_submit.mpr (Or.inl hx), ?_⟩⟩
    rw [submit_pending_of_ne (ht.fresh _ _ _ hx).ne]
    exact hp

theorem AwaitedBut.submit (h : AwaitedBut s i) (ht : Tracked s) : AwaitedBut (submit s b op context) i :=
  fun j hj hin hst => (h j hj hin hst).submit ht

theorem Awaited.submit (h : Awaited s) (ht : Tracked s) : Awaited (submit s b op context) :=
  fun j hin hst => (h j hin hst).submit ht

/-- The flights, `_pending` and the vehicles are as before. -/
theorem Awaits.of_eq (h : Awaits s j) (hf : ∀ b, flight (s'.workers b) = flight (s.workers b))
    (hp : s'.pending = s.pending) (hv : s'.vehicles = s.vehicles) : Awaits s' j := by
  obtain ⟨x, b, k, hx⟩ := h
  refine ⟨x, b, k, ?_⟩
  have hflies : ∀ op, Flies s' b x op ↔ Flies s b x op := by
    intro op
    rw [Flies, hf]
    rfl
  rw [Exits, hflies, hflies, hp, owner, hv]
  exact hx

theorem AwaitedBut.requestOpen (h : AwaitedBut s i) (ht : Tracked s) (target : Board) (reason : Reason) :
    Awaited (requestOpen s i target reason) := by
  cases hfree : freeSlot s target with
  | none =>
    simp only [DemoController.requestOpen, hfree]
    refine h.setVehicle.all fun hst => absurd ?_ hst
    rw [setVehicle_self]
    exact Or.inr rfl
  | some slot =>
    simp only [DemoController.requestOpen, hfree]
    have hres : AwaitedBut (reserve s target slot) i := fun j hj hin hst =>
      (h j hj hin hst).of_eq (fun _ => rfl) rfl rfl
    have htr : Tracked (reserve s target slot) := ht.of_eq (fun _ => rfl) rfl rfl
    refine (hres.setVehicle.submit (htr.of_eq (fun _ => rfl) rfl rfl)).all fun _ => ?_
    refine ⟨s.commandIds, target, slot, Or.inl (flies_submit.mpr (Or.inr ⟨rfl, rfl, ?_⟩))⟩
    rw [owner, owner, submit_vehicles, setVehicle_self]

theorem AwaitedBut.respawn (h : AwaitedBut s i) (ht : Tracked s) (hn : n ≤ MAX_SESSIONS) : Awaited (respawn s i) := by
  obtain ⟨id, hid⟩ := search_ends hn s i
  simp only [DemoController.respawn, hid]
  refine AwaitedBut.requestOpen ?_ ?_ _ _
  · intro j hj hin hst
    have hset := h.setVehicle (v := { s.vehicles i with
        vehicleId := id, board := none, slot := none, oldBoard := none, oldSlot := none, state := .connecting
        retryAt := false, retryTarget := none }) j hj hin hst
    exact hset.of_eq (fun _ => rfl) rfl rfl
  · exact ht.of_eq (fun _ => rfl) rfl rfl

theorem AwaitedBut.exit (h : AwaitedBut s i) (ht : Tracked s) (b : Board) (slot : ℕ) :
    Awaited (DemoController.submit (DemoController.setVehicle s i { s.vehicles i with state := .exiting }) b
      (.leave (owner s i) slot) (.leave (s.vehicles i).vehicleId true)) := by
  have htr : Tracked (DemoController.setVehicle s i { s.vehicles i with state := .exiting }) :=
    ht.of_eq (fun _ => rfl) rfl rfl
  refine (h.setVehicle.submit htr).all fun _ => ?_
  refine ⟨s.commandIds, b, slot, Or.inr ⟨flies_submit.mpr (Or.inr ⟨rfl, rfl, ?_⟩), ?_⟩⟩
  · rw [owner, owner, submit_vehicles, setVehicle_self]
  · have hself := @submit_pending_self _ (DemoController.setVehicle s i { s.vehicles i with state := .exiting }) b
      (.leave (owner s i) slot) (.leave (s.vehicles i).vehicleId true)
    simp only [owner, submit_vehicles, setVehicle_self]
    exact hself

end Changes

section Answers

variable {s : State n} {j : Fin n} {b : Board} {r : BoardResult n} {rs : List (BoardResult n)}

/-- The answer is not the one that the vehicle waits for. -/
theorem Awaits.pop (h : Awaits s j) (ht : Tracked s) (hr : (s.workers b).results = r :: rs)
    (hopen : ∀ o k, r.op = .open o k → o.who ≠ j)
    (hexit : ∀ o k, r.op = .leave o k → s.pending r.commandId = some (.leave o.vehicleId true) → o.who ≠ j) :
    Awaits (pop s b r rs) j := by
  have hhead := flies_head hr
  obtain ⟨x, b', k, hx | ⟨hx, hp⟩⟩ := h
  · refine ⟨x, b', k, Or.inl ((flies_pop ht hr).mpr ⟨hx, ?_⟩)⟩
    rintro rfl
    exact hopen _ k (ht.unique hhead hx).2 rfl
  · have hne : x ≠ r.commandId := by
      rintro rfl
      exact hexit _ k (ht.unique hhead hx).2 hp rfl
    refine ⟨x, b', k, Or.inr ⟨(flies_pop ht hr).mpr ⟨hx, hne⟩, ?_⟩⟩
    rw [pop_pending_of_ne hne]
    exact hp

/-- Nobody else waits for an answer of this vehicle. -/
theorem Awaited.pop (h : Awaited s) (ht : Tracked s) (hr : (s.workers b).results = r :: rs) {o : Owner n} {k : ℕ}
    (hop : r.op = .open o k ∨ r.op = .leave o k) : AwaitedBut (pop s b r rs) o.who := by
  intro j hj hin hst
  refine (h j hin hst).pop ht hr ?_ ?_
  · intro o' k' hop'
    rcases hop with hop | hop
    · obtain ⟨rfl, -⟩ := Op.open.inj (hop.symm.trans hop')
      exact hj.symm
    · cases hop.symm.trans hop'
  · intro o' k' hop' _
    rcases hop with hop | hop
    · cases hop.symm.trans hop'
    · obtain ⟨rfl, -⟩ := Op.leave.inj (hop.symm.trans hop')
      exact hj.symm

theorem AwaitedBut.handleOpen {i : Fin n} (h : AwaitedBut s i) (ht : Tracked s) (k : ℕ) (reason : Reason) :
    Awaited (handleOpen s i b k reason) := by
  have hset := (h.setVehicle (v := { s.vehicles i with
      board := some b, slot := some k, state := .connected, oldBoard := none, oldSlot := none })).all
    fun hst => absurd (by rw [setVehicle_self]; exact Or.inl rfl) hst
  unfold DemoController.handleOpen
  dsimp only
  split
  · exact hset.submit (ht.of_eq (fun _ => rfl) rfl rfl)
  · exact hset

theorem AwaitedBut.handleOpenError {i : Fin n} (h : AwaitedBut s i) (target : Board) :
    Awaited (handleOpenError s i target) := by
  unfold DemoController.handleOpenError
  refine h.setVehicle.all fun hst => absurd ?_ hst
  rw [setVehicle_self]
  dsimp only
  split_ifs
  · exact Or.inl rfl
  · exact Or.inr rfl

theorem Awaited.collect (h : Awaited s) (hs : Sound s) (hn : n ≤ MAX_SESSIONS) : Awaited (collect s b) := by
  have hstep := collect_cases hs.tracked hs.asked b
  generalize DemoController.collect s b = s' at hstep ⊢
  have hback : ∀ {r : BoardResult n} {rs : List (BoardResult n)} {o : Owner n} {k : ℕ},
      (s.workers b).results = r :: rs → r.op = .open o k →
      AwaitedBut (unreserve (DemoController.pop s b r rs) b k) o.who := by
    intro r rs o k hr hop j hj hin hst
    exact (h.pop hs.tracked hr (Or.inl hop) j hj hin hst).of_eq (fun _ => rfl) rfl rfl
  cases hstep with
  | stay => exact h
  | other r rs hr hopen hexit =>
    intro j hin hst
    exact (h j hin hst).pop hs.tracked hr (fun o k hop => absurd hop (hopen o k))
      fun o k hop hp => absurd hp (hexit o k hop)
  | opened r rs o k reason hr hop =>
    exact (hback hr hop).handleOpen ((hs.tracked.pop hr).of_eq (fun _ => rfl) rfl rfl) k reason
  | failed r rs o k reason hr hop => exact (hback hr hop).handleOpenError b
  | left r rs o k hr hop => exact (h.pop hs.tracked hr (Or.inr hop)).respawn (hs.tracked.pop hr) hn

end Answers

section Runs

variable {s : State n} {i : Fin n}

theorem Awaited.stepVehicle (h : Awaited s) (ht : Tracked s) (hn : n ≤ MAX_SESSIONS) (m : Motion) :
    Awaited (stepVehicle s i m) := by
  have hstep := stepVehicle_cases s i m
  generalize DemoController.stepVehicle s i m = s' at hstep ⊢
  cases hstep with
  | stay => exact h
  | retry target => exact (h.but i).setVehicle.requestOpen (ht.of_eq (fun _ => rfl) rfl rfl) target .retry
  | handover b target => exact (h.but i).requestOpen ht target .handover
  | exit b slot => exact (h.but i).exit ht b slot
  | respawn => exact (h.but i).respawn ht hn
  | data b slot => exact h.submit ht

theorem Awaited.step (h : Awaited s) (hs : Sound s) (hn : n ≤ MAX_SESSIONS) (a : Act n) : Awaited (step s a) := by
  have hlive : ∀ s', Awaited s' → Awaited (if live s then s' else s) := by
    intro s' hs'
    split_ifs
    · exact hs'
    · exact h
  have hsame : ∀ s' : State n, (∀ b, flight (s'.workers b) = flight (s.workers b)) → s'.pending = s.pending →
      s'.vehicles = s.vehicles → s'.entered = s.entered → Awaited s' := by
    intro s' hf hp hv he j hj hst
    rw [he] at hj
    rw [hv] at hst
    exact (h j hj hst).of_eq hf hp hv
  cases a with
  | entry side =>
    simp only [DemoController.step]
    split_ifs with hin
    · refine AwaitedBut.requestOpen ?_ ?_ side .entry
      · intro j hj hjn hst
        have hlt : j.val < s.entered := lt_of_le_of_ne (Nat.lt_succ_iff.mp hjn) fun heq => hj (Fin.ext heq)
        exact (h j hlt hst).of_eq (fun _ => rfl) rfl rfl
      · exact hs.tracked.of_eq (fun _ => rfl) rfl rfl
    · exact h
  | collect b => exact hlive _ (h.collect hs hn)
  | vehicle i m => exact hlive _ (h.stepVehicle hs.tracked hn m)
  | swkem b => exact hlive _ (h.submit hs.tracked)
  | attack =>
    refine hlive _ ?_
    rcases attackSelected_cases s with heq | ⟨i, b, k, -, -, -, heq⟩
    · rw [heq]
      exact h
    · rw [heq]
      exact h.submit hs.tracked
  | select id => exact hlive _ (hsame _ (fun _ => rfl) rfl rfl rfl)
  | worker b o => exact hsame (worked s b o) flight_worked rfl rfl rfl

theorem awaited_run (hn : n ≤ MAX_SESSIONS) (acts : List (Act n)) (h : Awaited s) (hs : Sound s) :
    Awaited (run s acts) := by
  induction acts generalizing s with
  | nil => exact h
  | cons a acts ih => exact ih (h.step hs hn a) (hs.step hn a)

theorem awaited_init : Awaited (init n) := fun _ hj => absurd hj (Nat.not_lt_zero _)

/-- One command at most ends the waiting, and only a vehicle that waits has one. -/
theorem Sound.ends (h : Sound s) {x : ℕ} (hx : Ends s i x) :
    ¬ Mobile (s.vehicles i).state ∧ ∀ y, Ends s i y → y = x := by
  obtain ⟨b, k, hx | hx⟩ := hx
  · have hask := (h.asked.opens b x _ k hx).2.2
    refine ⟨?_, ?_⟩
    · rintro (hm | hm) <;> rcases hask.state with hst | hst <;> cases hst.symm.trans hm
    · rintro y ⟨b', k', hy | hy⟩
      · exact h.asked.onceWho b' b y x _ _ k' k hy hx rfl
      · have hexit := (h.asked.exits b' y _ k' hy).2
        rcases hask.state with hst | hst <;> cases hst.symm.trans hexit
  · have hexit := (h.asked.exits b x _ k hx).2
    refine ⟨?_, ?_⟩
    · rintro (hm | hm) <;> cases hexit.symm.trans hm
    · rintro y ⟨b', k', hy | hy⟩
      · have hask := (h.asked.opens b' y _ k' hy).2.2
        rcases hask.state with hst | hst <;> cases hst.symm.trans hexit
      · exact h.asked.onceExit b' b y x _ _ k' k hy hx rfl

end Runs

/-- In all runs a vehicle that has come in waits just as long as one open or one last leave of it is on its way, and it
is never more than one. With nothing pending every vehicle moves. -/
theorem waiting_answered (hn : n ≤ 64) {s : State n} (hs : Reachable s) (i : Fin n) (hi : i.val < s.entered) :
    (((s.vehicles i).state = .connecting ∨ (s.vehicles i).state = .handover ∨ (s.vehicles i).state = .exiting) ↔
      ∃! x, Ends s i x) ∧
    ((∀ x, s.pending x = none) → (s.vehicles i).state = .connected ∨ (s.vehicles i).state = .disconnected) := by
  obtain ⟨acts, rfl⟩ := hs
  have h := sound_run hn acts sound_init
  have hawait := awaited_run hn acts awaited_init sound_init
  generalize run (init n) acts = s at h hawait hi ⊢
  have hmobile : ((s.vehicles i).state = .connecting ∨ (s.vehicles i).state = .handover ∨
      (s.vehicles i).state = .exiting) ↔ ¬ Mobile (s.vehicles i).state := by
    unfold Mobile
    cases (s.vehicles i).state <;> simp
  rw [hmobile]
  refine ⟨⟨fun hst => ?_, ?_⟩, fun hnone => ?_⟩
  · obtain ⟨x, hx⟩ := hawait i hi hst
    exact ⟨x, hx, (h.ends hx).2⟩
  · rintro ⟨x, hx, -⟩
    exact (h.ends hx).1
  · by_contra hst
    obtain ⟨x, b, k, hx⟩ := hawait i hi hst
    have hfly : ∃ op, Flies s b x op := by
      rcases hx with hx | hx
      · exact ⟨_, hx⟩
      · exact ⟨_, hx.1⟩
    obtain ⟨op, hfly⟩ := hfly
    obtain ⟨context, hp, -⟩ := h.tracked.known b x op hfly
    rw [hnone] at hp
    cases hp

/-- During a handover it is the open at board B. -/
theorem waiting_answered_handover : ((run (init 1) (handover.take 4)).vehicles 0).state = .handover ∧
    ∃! x, Ends (run (init 1) (handover.take 4)) 0 x :=
  ⟨by decide, (waiting_answered (by decide) ⟨handover.take 4, rfl⟩ 0 (by decide)).1.mp (Or.inr (Or.inl (by decide)))⟩

end DemoController

end ZedSecure
