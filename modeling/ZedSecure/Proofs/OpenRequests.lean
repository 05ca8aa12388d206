import ZedSecure.Proofs.InFlight

/-! What is asked for and not yet answered: an open on its way has reserved its slot, and its vehicle waits for it and
for no other; a leave at the end of the road has its vehicle wait as well. -/

namespace ZedSecure

namespace DemoController

variable {n : ℕ}

/-- The vehicle waits for a session, and remembers the one it has. -/
structure Asking (s : State n) (i : Fin n) : Prop where
  state : (s.vehicles i).state = .connecting ∨ (s.vehicles i).state = .handover
  oldBoard : (s.vehicles i).oldBoard = (s.vehicles i).board
  oldSlot : (s.vehicles i).oldSlot = (s.vehicles i).slot
  entered : i.val < s.entered

/-- A leave at the end of the road is on its way. -/
def Exits (s : State n) (b : Board) (x : ℕ) (o : Owner n) (k : ℕ) : Prop :=
  Flies s b x (.leave o k) ∧ s.pending x = some (.leave o.vehicleId true)

/-- Nothing is on its way that the vehicle waits for. -/
structure Calm (s : State n) (i : Fin n) : Prop where
  opens : ∀ b x o k, Flies s b x (.open o k) → o.who ≠ i
  exits : ∀ b x o k, Exits s b x o k → o.who ≠ i

structure Asked (s : State n) : Prop where
  inj : Function.Injective (ids s)
  opens : ∀ b x o k, Flies s b x (.open o k) → s.reserved b k = true ∧ o = owner s o.who ∧ Asking s o.who
  onceWho : ∀ b b' x y o o' k k', Flies s b x (.open o k) → Flies s b' y (.open o' k') → o.who = o'.who → x = y
  onceSlot : ∀ b x y o o' k, Flies s b x (.open o k) → Flies s b y (.open o' k) → x = y
  exits : ∀ b x o k, Exits s b x o k → o = owner s o.who ∧ (s.vehicles o.who).state = .exiting
  onceExit : ∀ b b' x y o o' k k', Exits s b x o k → Exits s b' y o' k' → o.who = o'.who → x = y
  waiting : ∀ i : Fin n, s.entered ≤ i.val → (s.vehicles i).state = .connecting

section Calm

variable {s s' : State n} {i : Fin n}

theorem Asked.calm (h : Asked s) (hopen : ¬ Asking s i) (hexit : (s.vehicles i).state ≠ .exiting) : Calm s i := by
  refine ⟨?_, ?_⟩
  · rintro b x o k hx rfl
    exact hopen (h.opens b x o k hx).2.2
  · rintro b x o k hx rfl
    exact hexit (h.exits b x o k hx).2

/-- A vehicle that moves waits for nothing. -/
theorem Asked.calm_mobile (h : Asked s) (hm : Mobile (s.vehicles i).state) : Calm s i := by
  apply h.calm
  · rintro ⟨hst | hst, -⟩ <;> rcases hm with hm | hm <;> rw [hst] at hm <;> cases hm
  · intro hst
    rcases hm with hm | hm <;> rw [hst] at hm <;> cases hm

/-- So does a vehicle that has not come in. -/
theorem Asked.calm_waiting (h : Asked s) (hi : s.entered ≤ i.val) : Calm s i := by
  apply h.calm
  · intro hask
    exact absurd hask.entered (by omega)
  · rw [h.waiting i hi]
    decide

theorem Calm.of_eq (h : Calm s i) (hf : ∀ b x op, Flies s' b x op → Flies s b x op)
    (hp : ∀ b x op, Flies s' b x op → s'.pending x = s.pending x) : Calm s' i := by
  refine ⟨fun b x o k hx => h.opens b x o k (hf _ _ _ hx), fun b x o k hx => h.exits b x o k ⟨hf _ _ _ hx.1, ?_⟩⟩
  rw [← hp b x _ hx.1]
  exact hx.2

end Calm

section Changes

variable {s s' : State n} {i : Fin n} {v : Vehicle} {b : Board} {k : ℕ} {op : Op n} {context : Context}

theorem owner_setVehicle {j : Fin n} (hj : j ≠ i) : owner (setVehicle s i v) j = owner s j := by
  rw [owner, owner, setVehicle_of_ne _ _ _ hj]

/-- A vehicle that waits for nothing may change. -/
theorem Asked.setVehicle (h : Asked s) (hcalm : Calm s i) (hinj : Function.Injective (ids (setVehicle s i v)))
    (hwait : s.entered ≤ i.val → v.state = .connecting) : Asked (setVehicle s i v) := by
  have hask : ∀ j, j ≠ i → Asking s j → Asking (DemoController.setVehicle s i v) j := by
    rintro j hj ⟨h1, h2, h3, h4⟩
    rw [← setVehicle_of_ne s i v hj] at h1 h2 h3
    exact ⟨h1, h2, h3, h4⟩
  refine ⟨hinj, ?_, h.onceWho, h.onceSlot, ?_, h.onceExit, ?_⟩
  · intro b x o k hx
    have hne := hcalm.opens b x o k hx
    obtain ⟨hres, hown, hold⟩ := h.opens b x o k hx
    exact ⟨hres, by rw [owner_setVehicle hne]; exact hown, hask _ hne hold⟩
  · intro b x o k hx
    have hne := hcalm.exits b x o k hx
    rw [owner_setVehicle hne, setVehicle_of_ne s i v hne]
    exact h.exits b x o k hx
  · intro j hj
    by_cases hji : j = i
    · subst hji
      rw [setVehicle_self]
      exact hwait hj
    · rw [setVehicle_of_ne s i v hji]
      exact h.waiting j hj

/-- What has to hold for a command to be submitted. -/
structure Admits (s : State n) (b : Board) (op : Op n) (context : Context) : Prop where
  opens : ∀ o k, op = .open o k → s.reserved b k = true ∧ o = owner s o.who ∧ Asking s o.who ∧ Calm s o.who ∧
    ∀ x o', ¬ Flies s b x (.open o' k)
  exits : ∀ o k, op = .leave o k → context = .leave o.vehicleId true →
    o = owner s o.who ∧ (s.vehicles o.who).state = .exiting ∧ Calm s o.who

theorem exits_submit (ht : Tracked s) {b' : Board} {x : ℕ} {o : Owner n} (hx : Exits (submit s b op context) b' x o k) :
    Exits s b' x o k ∨ (b' = b ∧ x = s.commandIds ∧ op = .leave o k ∧ context = .leave o.vehicleId true) := by
  obtain ⟨hfly, hp⟩ := hx
  rcases flies_submit.mp hfly with hold | ⟨hb, rfl, hop⟩
  · rw [submit_pending_of_ne (ht.fresh _ _ _ hold).ne] at hp
    exact Or.inl ⟨hold, hp⟩
  · rw [submit_pending_self] at hp
    exact Or.inr ⟨hb, rfl, hop.symm, Option.some.inj hp⟩

theorem Asked.submit (h : Asked s) (ht : Tracked s) (ha : Admits s b op context) : Asked (submit s b op context) := by
  refine ⟨h.inj, ?_, ?_, ?_, ?_, ?_, h.waiting⟩
  · intro b' x o k hx
    rcases flies_submit.mp hx with hold | ⟨rfl, -, hop⟩
    · obtain ⟨h1, h2, h3⟩ := h.opens b' x o k hold
      exact ⟨h1, h2, ⟨h3.state, h3.oldBoard, h3.oldSlot, h3.entered⟩⟩
    · obtain ⟨h1, h2, h3, -⟩ := ha.opens o k hop.symm
      exact ⟨h1, h2, ⟨h3.state, h3.oldBoard, h3.oldSlot, h3.entered⟩⟩
  · intro b1 b2 x y o o' k k' hx hy hwho
    rcases flies_submit.mp hx with hx | ⟨-, rfl, hop⟩
    · rcases flies_submit.mp hy with hy | ⟨-, rfl, hop'⟩
      · exact h.onceWho b1 b2 x y o o' k k' hx hy hwho
      · exact absurd hwho ((ha.opens o' k' hop'.symm).2.2.2.1.opens b1 x o k hx)
    · rcases flies_submit.mp hy with hy | ⟨-, rfl, -⟩
      · exact absurd hwho.symm ((ha.opens o k hop.symm).2.2.2.1.opens b2 y o' k' hy)
      · rfl
  · intro b' x y o o' k hx hy
    rcases flies_submit.mp hx with hx1 | ⟨rfl, rfl, hop⟩
    · rcases flies_submit.mp hy with hy1 | ⟨rfl, rfl, hop'⟩
      · exact h.onceSlot b' x y o o' k hx1 hy1
      · exact absurd hx1 ((ha.opens o' k hop'.symm).2.2.2.2 x o)
    · rcases flies_submit.mp hy with hy1 | ⟨-, rfl, -⟩
      · exact absurd hy1 ((ha.opens o k hop.symm).2.2.2.2 y o')
      · rfl
  · intro b' x o k hx
    rcases exits_submit ht hx with hold | ⟨-, -, hop, hcontext⟩
    · exact h.exits b' x o k hold
    · obtain ⟨h1, h2, -⟩ := ha.exits o k hop hcontext
      exact ⟨h1, h2⟩
  · intro b1 b2 x y o o' k k' hx hy hwho
    rcases exits_submit ht hx with hx | ⟨-, rfl, hop, hcontext⟩
    · rcases exits_submit ht hy with hy | ⟨-, rfl, hop', hcontext'⟩
      · exact h.onceExit b1 b2 x y o o' k k' hx hy hwho
      · exact absurd hwho ((ha.exits o' k' hop' hcontext').2.2.exits b1 x o k hx)
    · rcases exits_submit ht hy with hy | ⟨-, rfl, -⟩
      · exact absurd hwho.symm ((ha.exits o k hop hcontext).2.2.exits b2 y o' k' hy)
      · rfl

/-- Fewer commands on their way, and nothing else changed of what counts. -/
theorem Asked.of_le (h : Asked s) (hf : ∀ b x op, Flies s' b x op → Flies s b x op)
    (hp : ∀ b x op, Flies s' b x op → s'.pending x = s.pending x) (hv : s'.vehicles = s.vehicles)
    (hr : ∀ b x o k, Flies s' b x (.open o k) → s.reserved b k = true → s'.reserved b k = true)
    (he : s'.entered = s.entered) : Asked s' := by
  have hexit : ∀ b x o k, Exits s' b x o k → Exits s b x o k := by
    intro b x o k hx
    refine ⟨hf _ _ _ hx.1, ?_⟩
    rw [← hp _ _ _ hx.1]
    exact hx.2
  have hown : ∀ j, owner s' j = owner s j := by
    intro j
    rw [owner, owner, hv]
  refine ⟨?_, ?_, ?_, ?_, ?_, ?_, ?_⟩
  · have hids : ids s' = ids s := by
      funext j
      rw [ids, ids, hv]
    rw [hids]
    exact h.inj
  · intro b x o k hx
    obtain ⟨h1, h2, h3, h4, h5, h6⟩ := h.opens b x o k (hf _ _ _ hx)
    rw [← hv] at h3 h4 h5
    rw [← he] at h6
    exact ⟨hr b x o k hx h1, h2.trans (hown _).symm, h3, h4, h5, h6⟩
  · intro b b' x y o o' k k' hx hy
    exact h.onceWho b b' x y o o' k k' (hf _ _ _ hx) (hf _ _ _ hy)
  · intro b x y o o' k hx hy
    exact h.onceSlot b x y o o' k (hf _ _ _ hx) (hf _ _ _ hy)
  · intro b x o k hx
    rw [hown, hv]
    exact h.exits b x o k (hexit _ _ _ _ hx)
  · intro b b' x y o o' k k' hx hy
    exact h.onceExit b b' x y o o' k k' (hexit _ _ _ _ hx) (hexit _ _ _ _ hy)
  · intro j hj
    rw [hv]
    exact h.waiting j (he ▸ hj)

end Changes

section Answers

variable {s : State n} {b : Board} {k x : ℕ} {o : Owner n} {r : BoardResult n} {rs : List (BoardResult n)}

theorem Asked.pop (h : Asked s) (ht : Tracked s) (hr : (s.workers b).results = r :: rs) : Asked (pop s b r rs) :=
  h.of_le (fun _ _ _ hx => ((flies_pop ht hr).mp hx).1)
    (fun _ _ _ hx => pop_pending_of_ne ((flies_pop ht hr).mp hx).2) rfl (fun _ _ _ _ _ hk => hk) rfl

/-- The vehicle of the open that is answered waits for nothing any more. -/
theorem Asked.calm_answered (h : Asked s) (ht : Tracked s) (hr : (s.workers b).results = r :: rs)
    (hop : r.op = .open o k) : Calm (DemoController.pop s b r rs) o.who := by
  have hhead := flies_head hr
  rw [hop] at hhead
  have hask := (h.opens b _ o k hhead).2.2
  refine ⟨?_, ?_⟩
  · intro b' x o' k' hx hwho
    obtain ⟨hold, hne⟩ := (flies_pop ht hr).mp hx
    exact hne (h.onceWho b' b x _ o' o k' k hold hhead hwho)
  · intro b' x o' k' hx hwho
    obtain ⟨hold, hne⟩ := (flies_pop ht hr).mp hx.1
    have hp := hx.2
    rw [pop_pending_of_ne hne] at hp
    have hst := (h.exits b' x o' k' ⟨hold, hp⟩).2
    rw [hwho] at hst
    rcases hask.state with h' | h' <;> rw [h'] at hst <;> cases hst

/-- So does the vehicle that has left. -/
theorem Asked.calm_left (h : Asked s) (ht : Tracked s) (hr : (s.workers b).results = r :: rs)
    (hop : r.op = .leave o k) (hp : s.pending r.commandId = some (.leave o.vehicleId true)) :
    Calm (DemoController.pop s b r rs) o.who := by
  have hhead := flies_head hr
  rw [hop] at hhead
  have hexit := (h.exits b _ o k ⟨hhead, hp⟩).2
  refine ⟨?_, ?_⟩
  · intro b' x o' k' hx hwho
    have hask := (h.opens b' x o' k' ((flies_pop ht hr).mp hx).1).2.2
    rw [hwho] at hask
    rcases hask.state with h' | h' <;> rw [h'] at hexit <;> cases hexit
  · intro b' x o' k' hx hwho
    obtain ⟨hold, hne⟩ := (flies_pop ht hr).mp hx.1
    have hp' := hx.2
    rw [pop_pending_of_ne hne] at hp'
    exact hne (h.onceExit b' b x _ o' o k' k ⟨hold, hp'⟩ ⟨hhead, hp⟩ hwho)

end Answers

section Collect

variable {s : State n} {b : Board}

/-- A free slot is reserved. -/
def reserve (s : State n) (b : Board) (k : ℕ) : State n :=
  { s with reserved := Function.update s.reserved b (Function.update (s.reserved b) k true) }

theorem reserve_self {b : Board} {k : ℕ} : (reserve s b k).reserved b k = true := by
  simp [reserve]

theorem reserve_of_ne {b b' : Board} {k k' : ℕ} (h : ¬ (b' = b ∧ k' = k)) :
    (reserve s b k).reserved b' k' = s.reserved b' k' := by
  by_cases hb : b' = b
  · subst hb
    have hk : k' ≠ k := fun hk => h ⟨rfl, hk⟩
    simp [reserve, hk]
  · simp [reserve, hb]

/-- The slot of an answered open is no longer reserved. -/
def unreserve (s : State n) (b : Board) (k : ℕ) : State n :=
  { s with reserved := Function.update s.reserved b (Function.update (s.reserved b) k false) }

theorem unreserve_self {k : ℕ} : (unreserve s b k).reserved b k = false := by
  simp [unreserve]

theorem unreserve_of_false {b' : Board} {k k' : ℕ} (h : s.reserved b' k' = false) :
    (unreserve s b k).reserved b' k' = false := by
  by_cases hb : b' = b
  · subst hb
    by_cases hk : k' = k
    · rw [hk]
      exact unreserve_self
    · simp [unreserve, hk, h]
  · simp [unreserve, hb, h]

theorem unreserve_of_true {b' : Board} {k k' : ℕ} (h : s.reserved b' k' = true) (hne : ¬ (b' = b ∧ k' = k)) :
    (unreserve s b k).reserved b' k' = true := by
  by_cases hb : b' = b
  · subst hb
    have hk : k' ≠ k := fun hk => hne ⟨rfl, hk⟩
    simp [unreserve, hk, h]
  · simp [unreserve, hb, h]

/-- A vehicle is found under the id of its commands. -/
theorem Asked.found (h : Asked s) {o : Owner n} (hown : o = owner s o.who) :
    vehicleById s o.vehicleId = some o.who := by
  have hid : o.vehicleId = (s.vehicles o.who).vehicleId := congrArg Owner.vehicleId hown
  rw [hid]
  exact vehicleById_self h.inj

/-- The ways of `_collect_results` with one result. -/
inductive CollectStep (s : State n) (b : Board) : State n → Prop where
  | stay : CollectStep s b s
  | other (r : BoardResult n) (rs : List (BoardResult n)) (hr : (s.workers b).results = r :: rs)
      (hopen : ∀ o k, r.op ≠ .open o k)
      (hexit : ∀ o k, r.op = .leave o k → s.pending r.commandId ≠ some (.leave o.vehicleId true)) :
      CollectStep s b (pop s b r rs)
  | opened (r : BoardResult n) (rs : List (BoardResult n)) (o : Owner n) (k : ℕ) (reason : Reason)
      (hr : (s.workers b).results = r :: rs) (hop : r.op = .open o k)
      (hp : s.pending r.commandId = some (.open o.vehicleId reason b)) (hok : (r.ok || r.blocked) = true) :
      CollectStep s b (handleOpen (unreserve (pop s b r rs) b k) o.who b k reason)
  | failed (r : BoardResult n) (rs : List (BoardResult n)) (o : Owner n) (k : ℕ) (reason : Reason)
      (hr : (s.workers b).results = r :: rs) (hop : r.op = .open o k)
      (hp : s.pending r.commandId = some (.open o.vehicleId reason b)) (hok : (r.ok || r.blocked) = false) :
      CollectStep s b (handleOpenError (unreserve (pop s b r rs) b k) o.who b)
  | left (r : BoardResult n) (rs : List (BoardResult n)) (o : Owner n) (k : ℕ)
      (hr : (s.workers b).results = r :: rs) (hop : r.op = .leave o k)
      (hp : s.pending r.commandId = some (.leave o.vehicleId true)) : CollectStep s b (respawn (pop s b r rs) o.who)

theorem collect_cases (ht : Tracked s) (h : Asked s) (b : Board) : CollectStep s b (collect s b) := by
  rcases collect_eq (b := b) ht with heq | ⟨r, rs, context, hr, hp, hfits, heq⟩
  · rw [heq]
    exact .stay
  · rw [heq]
    have hhead := flies_head hr
    cases hop : r.op with
    | «open» o k =>
      rw [hop] at hfits hhead
      cases context with
      | «open» vehicleId reason target =>
        obtain ⟨rfl, rfl⟩ := hfits
        have hfound : vehicleById (unreserve (DemoController.pop s target r rs) target k) o.vehicleId = some o.who :=
          h.found (h.opens target _ o k hhead).2.1
        have hhandle : handle (DemoController.pop s target r rs) target r (.open o.vehicleId reason target) =
            if r.ok || r.blocked
              then handleOpen (unreserve (DemoController.pop s target r rs) target k) o.who target k reason
              else handleOpenError (unreserve (DemoController.pop s target r rs) target k) o.who target := by
          simp only [handle, hop]
          split
          · rename_i hnone
            exact absurd (hnone.symm.trans hfound) (by simp)
          · rename_i i hsome
            obtain rfl : i = o.who := Option.some.inj (hsome.symm.trans hfound)
            rfl
        rw [hhandle]
        split_ifs with hok
        · exact .opened r rs o k reason hr hop hp hok
        · exact .failed r rs o k reason hr hop hp (Bool.not_eq_true _ ▸ hok)
      | leave | data | swkem => cases hfits
    | leave o k =>
      rw [hop] at hfits hhead
      cases context with
      | leave vehicleId exit =>
        obtain rfl := hfits
        cases exit with
        | false =>
          simp only [handle]
          refine .other r rs hr (fun _ _ hop' => by cases hop.symm.trans hop') fun _ _ _ hp' => ?_
          cases (Context.leave.inj (Option.some.inj (hp.symm.trans hp'))).2
        | true =>
          have hfound : vehicleById (DemoController.pop s b r rs) o.vehicleId = some o.who :=
            h.found (h.exits b _ o k ⟨hhead, hp⟩).1
          simp only [handle, hfound]
          exact .left r rs o k hr hop hp
      | «open» | data | swkem => cases hfits
    | data o k tamper =>
      rw [hop] at hfits
      cases context with
      | data =>
        simp only [handle]
        exact .other r rs hr (fun _ _ hop' => by cases hop.symm.trans hop') fun _ _ hop' => by cases hop.symm.trans hop'
      | «open» | leave | swkem => cases hfits
    | swkem =>
      rw [hop] at hfits
      cases context with
      | swkem =>
        simp only [handle]
        exact .other r rs hr (fun _ _ hop' => by cases hop.symm.trans hop') fun _ _ hop' => by cases hop.symm.trans hop'
      | «open» | leave | data => cases hfits

end Collect

end DemoController

end ZedSecure
