import Mathlib.Data.Fintype.Card
import Mathlib.Data.Fintype.Option
import ZedSecure.Proofs.ControllerSteps

/-! The ids of the vehicles. They change in a respawn only, which gives a vehicle the next id that no other has; the
other vehicles are too few to use all ids. -/

namespace ZedSecure

namespace DemoController

variable {n : ℕ}

section Search

variable {used : ℕ → Bool}

theorem searchId_some {fuel next id : ℕ} (h : searchId used fuel next = some id) :
    used id = false ∧ (id = next ∨ id < MAX_SESSIONS) := by
  induction fuel generalizing next with
  | zero => cases h
  | succ fuel ih =>
    rw [searchId] at h
    split_ifs at h with hused
    · obtain ⟨hid, hlt⟩ := ih h
      refine ⟨hid, Or.inr ?_⟩
      rcases hlt with rfl | hlt
      · exact Nat.mod_lt _ (by decide)
      · exact hlt
    · obtain rfl := Option.some.inj h
      exact ⟨by simpa using hused, Or.inl rfl⟩

theorem searchId_mono {fuel next id : ℕ} (h : searchId used fuel next = some id) (k : ℕ) :
    searchId used (fuel + k) next = some id := by
  induction fuel generalizing next with
  | zero => cases h
  | succ fuel ih =>
    rw [Nat.add_right_comm, searchId]
    rw [searchId] at h
    split_ifs at h ⊢ with hused
    · exact ih h
    · exact h

/-- A search that has not ended has found all ids used that it came by. -/
theorem searchId_none {fuel next : ℕ} (h : searchId used fuel next = none) (k : ℕ) (hk : k + 1 < fuel) :
    used ((next + (k + 1)) % MAX_SESSIONS) = true := by
  induction fuel generalizing next k with
  | zero => omega
  | succ fuel ih =>
    rw [searchId] at h
    split_ifs at h with hused
    cases k with
    | zero =>
      cases fuel with
      | zero => omega
      | succ fuel =>
        rw [searchId] at h
        split_ifs at h with hnext
        exact hnext
    | succ k =>
      have hrest := ih h k (by omega)
      rwa [Nat.mod_add_mod, Nat.add_right_comm, Nat.add_assoc] at hrest

/-- Once round, a search that has not ended has come by all ids, so it never ends. -/
theorem searchId_all {next : ℕ} (h : searchId used (MAX_SESSIONS + 1) next = none) {id : ℕ} (hid : id < MAX_SESSIONS) :
    used id = true := by
  have hround := searchId_none h ((id + 64 * (next + 1) - (next + 1)) % 64) (by simp only [MAX_SESSIONS]; omega)
  have hplace : (next + ((id + 64 * (next + 1) - (next + 1)) % 64 + 1)) % MAX_SESSIONS = id := by
    simp only [MAX_SESSIONS] at hid ⊢
    omega
  rwa [hplace] at hround

end Search

section Frame

variable {s s' : State n}

def ids (s : State n) (i : Fin n) : ℕ := (s.vehicles i).vehicleId

/-- Nothing that concerns ids has changed. -/
structure SameIds (s s' : State n) : Prop where
  ids : ids s' = ids s
  next : s'.nextVehicleId = s.nextVehicleId
  hung : s'.hung = s.hung

theorem SameIds.refl (s : State n) : SameIds s s := ⟨rfl, rfl, rfl⟩

theorem SameIds.trans {s'' : State n} (h : SameIds s s') (h' : SameIds s' s'') : SameIds s s'' :=
  ⟨h'.ids.trans h.ids, h'.next.trans h.next, h'.hung.trans h.hung⟩

theorem ids_setVehicle (s : State n) (i : Fin n) (v : Vehicle) :
    ids (setVehicle s i v) = Function.update (ids s) i v.vehicleId := by
  funext j
  by_cases hj : j = i
  · subst hj
    simp [ids, setVehicle]
  · simp [ids, setVehicle, hj]

theorem sameIds_setVehicle (s : State n) (i : Fin n) {v : Vehicle} (hv : v.vehicleId = (s.vehicles i).vehicleId) :
    SameIds s (setVehicle s i v) := by
  refine ⟨?_, rfl, rfl⟩
  rw [ids_setVehicle, hv]
  exact Function.update_eq_self i (ids s)

theorem sameIds_requestOpen (s : State n) (i : Fin n) (target : Board) (reason : Reason) :
    SameIds s (requestOpen s i target reason) := by
  unfold requestOpen
  cases freeSlot s target with
  | none => exact sameIds_setVehicle s i rfl
  | some slot =>
    have h := @sameIds_setVehicle n s i { s.vehicles i with
      oldBoard := (s.vehicles i).board, oldSlot := (s.vehicles i).slot
      state := if reason = .handover then VState.handover else .connecting } rfl
    exact ⟨h.ids, rfl, rfl⟩

/-- The one thing that can become of the ids: nothing, or a vehicle is respawned. -/
def IdStep (s s' : State n) : Prop := SameIds s s' ∨ ∃ s1 i, SameIds s s1 ∧ SameIds (respawn s1 i) s'

theorem idStep_stepVehicle (s : State n) (i : Fin n) (m : Motion) : IdStep s (stepVehicle s i m) := by
  have hstep := stepVehicle_cases s i m
  generalize stepVehicle s i m = s' at hstep ⊢
  cases hstep with
  | stay => exact Or.inl (SameIds.refl s)
  | retry target =>
    have h := @sameIds_setVehicle n s i { s.vehicles i with retryAt := false, retryTarget := none } rfl
    exact Or.inl (h.trans (sameIds_requestOpen _ i target .retry))
  | handover b target => exact Or.inl (sameIds_requestOpen s i target .handover)
  | exit b slot =>
    have h := @sameIds_setVehicle n s i { s.vehicles i with state := .exiting } rfl
    exact Or.inl ⟨h.ids, rfl, rfl⟩
  | respawn => exact Or.inr ⟨s, i, SameIds.refl s, SameIds.refl _⟩
  | data b slot => exact Or.inl ⟨rfl, rfl, rfl⟩

theorem sameIds_handleOpen (s : State n) (i : Fin n) (b : Board) (slot : ℕ) (reason : Reason) :
    SameIds s (handleOpen s i b slot reason) := by
  have h := @sameIds_setVehicle n s i { s.vehicles i with
    board := some b, slot := some slot, state := .connected, oldBoard := none, oldSlot := none } rfl
  unfold handleOpen
  dsimp only
  split
  · exact ⟨h.ids, rfl, rfl⟩
  · exact h

theorem sameIds_handleOpenError (s : State n) (i : Fin n) (target : Board) :
    SameIds s (handleOpenError s i target) := by
  apply sameIds_setVehicle
  dsimp only
  split_ifs <;> rfl

theorem idStep_handle (s : State n) (b : Board) (r : BoardResult n) (context : Context) :
    IdStep s (handle s b r context) := by
  unfold handle
  split
  · rename_i vehicleId reason target o slot hop
    dsimp only
    split
    · exact Or.inl ⟨rfl, rfl, rfl⟩
    · rename_i i hi
      have h : SameIds s { s with
          reserved := Function.update s.reserved b (Function.update (s.reserved b) slot false) } := ⟨rfl, rfl, rfl⟩
      split_ifs
      · exact Or.inl (h.trans (sameIds_handleOpen _ i b slot reason))
      · exact Or.inl (h.trans (sameIds_handleOpenError _ i target))
  · split
    · exact Or.inl (SameIds.refl s)
    · exact Or.inr ⟨s, _, SameIds.refl s, SameIds.refl _⟩
  · exact Or.inl (SameIds.refl s)

theorem IdStep.after {s1 : State n} (h : SameIds s s1) (h' : IdStep s1 s') : IdStep s s' := by
  rcases h' with h' | ⟨s2, i, h2, h'⟩
  · exact Or.inl (h.trans h')
  · exact Or.inr ⟨s2, i, h.trans h2, h'⟩

theorem idStep_collect (s : State n) (b : Board) : IdStep s (collect s b) := by
  unfold collect
  split
  · exact Or.inl (SameIds.refl s)
  · dsimp only
    split
    · exact Or.inl ⟨rfl, rfl, rfl⟩
    · refine IdStep.after ?_ (idStep_handle _ b _ _)
      exact ⟨rfl, rfl, rfl⟩

theorem idStep_step (s : State n) (a : Act n) : IdStep s (step s a) := by
  have hlive : ∀ s', IdStep s s' → IdStep s (if live s then s' else s) := by
    intro s' h
    split_ifs
    · exact h
    · exact Or.inl (SameIds.refl s)
  cases a with
  | entry side =>
    simp only [step]
    split_ifs with h
    · have hstart : SameIds s { s with entered := s.entered + 1 } := ⟨rfl, rfl, rfl⟩
      exact Or.inl (hstart.trans (sameIds_requestOpen _ ⟨s.entered, h⟩ side .entry))
    · exact Or.inl (SameIds.refl s)
  | collect b => exact hlive _ (idStep_collect s b)
  | vehicle i m => exact hlive _ (idStep_stepVehicle s i m)
  | swkem b => exact hlive _ (Or.inl ⟨rfl, rfl, rfl⟩)
  | attack =>
    apply hlive
    rcases attackSelected_cases s with h | ⟨i, b, slot, -, -, -, h⟩
    · rw [h]
      exact Or.inl (SameIds.refl s)
    · rw [h]
      exact Or.inl ⟨rfl, rfl, rfl⟩
  | select id => exact hlive _ (Or.inl ⟨rfl, rfl, rfl⟩)
  | worker b o => exact Or.inl ⟨rfl, rfl, rfl⟩

end Frame

section Respawn

variable {s : State n} {i : Fin n}

/-- The other vehicles are too few to use all ids. -/
theorem search_ends (hn : n ≤ MAX_SESSIONS) (s : State n) (i : Fin n) :
    ∃ id, searchId (usedIds s i) (MAX_SESSIONS + 1) s.nextVehicleId = some id := by
  rcases hsearch : searchId (usedIds s i) (MAX_SESSIONS + 1) s.nextVehicleId with - | id
  · exfalso
    -- a user of each id beside the vehicle itself makes one vehicle too many
    have huser : ∀ k : Fin 64, ∃ j, j ≠ i ∧ (s.vehicles j).vehicleId = k := fun k =>
      usedIds_iff.mp (searchId_all hsearch k.isLt)
    choose user huser using huser
    have hinj : Function.Injective fun k : Option (Fin 64) => k.elim i user := by
      rintro (- | k) (- | l) h
      · rfl
      · exact absurd h.symm (huser l).1
      · exact absurd h (huser k).1
      · have hid := (huser k).2
        rw [show user k = user l from h, (huser l).2] at hid
        exact congrArg some (Fin.ext hid.symm)
    have hcard := Fintype.card_le_of_injective _ hinj
    simp only [Fintype.card_option, Fintype.card_fin, MAX_SESSIONS] at hcard hn
    omega
  · exact ⟨id, rfl⟩

/-- A respawned vehicle has the id that was found, and the cursor stands behind it. -/
theorem respawn_ids {id : ℕ} (h : searchId (usedIds s i) (MAX_SESSIONS + 1) s.nextVehicleId = some id) :
    ids (respawn s i) = Function.update (ids s) i id ∧ (respawn s i).nextVehicleId = (id + 1) % MAX_SESSIONS ∧
      (respawn s i).hung = s.hung := by
  simp only [respawn, h]
  have hopen := fun s => @sameIds_requestOpen n s i
  refine ⟨(hopen _ _ _).ids.trans ?_, (hopen _ _ _).next, (hopen _ _ _).hung⟩
  exact ids_setVehicle _ i _

end Respawn

section Runs

/-- All ids differ, and no search has gone on for ever. -/
structure Distinct (s : State n) : Prop where
  inj : Function.Injective (ids s)
  hung : s.hung = false

/-- The ids are those that a board takes. -/
structure InRange (s : State n) : Prop where
  ids : ∀ i, ids s i < MAX_SESSIONS
  next : s.nextVehicleId < MAX_SESSIONS

variable {s s' : State n}

/-- A respawn gives an id that no other vehicle has. -/
theorem respawn_inj {id : ℕ} {i : Fin n} (hinj : Function.Injective (ids s))
    (h : searchId (usedIds s i) (MAX_SESSIONS + 1) s.nextVehicleId = some id) : Function.Injective (ids (respawn s i)) := by
  have hfree : ∀ j, j ≠ i → ids s j ≠ id := by
    intro j hj heq
    have hused := usedIds_iff.mpr ⟨j, hj, heq⟩
    rw [(searchId_some h).1] at hused
    cases hused
  rw [(respawn_ids h).1]
  intro j k hjk
  by_cases hj : j = i
  · subst hj
    by_contra hk
    rw [Function.update_self, Function.update_of_ne (Ne.symm hk)] at hjk
    exact hfree k (Ne.symm hk) hjk.symm
  · by_cases hk : k = i
    · subst hk
      rw [Function.update_self, Function.update_of_ne hj] at hjk
      exact absurd hjk (hfree j hj)
    · rw [Function.update_of_ne hj, Function.update_of_ne hk] at hjk
      exact hinj hjk

theorem Distinct.step (hn : n ≤ MAX_SESSIONS) (h : Distinct s) (hs : IdStep s s') : Distinct s' := by
  rcases hs with hsame | ⟨s1, i, hsame, hsame'⟩
  · refine ⟨?_, hsame.hung.trans h.hung⟩
    rw [hsame.ids]
    exact h.inj
  · obtain ⟨id, hid⟩ := search_ends hn s1 i
    refine ⟨?_, hsame'.hung.trans ((respawn_ids hid).2.2.trans (hsame.hung.trans h.hung))⟩
    rw [hsame'.ids]
    apply respawn_inj _ hid
    rw [hsame.ids]
    exact h.inj

theorem InRange.step (hn : n ≤ MAX_SESSIONS) (h : InRange s) (hs : IdStep s s') : InRange s' := by
  rcases hs with hsame | ⟨s1, i, hsame, hsame'⟩
  · refine ⟨?_, ?_⟩
    · rw [hsame.ids]
      exact h.ids
    · rw [hsame.next]
      exact h.next
  · obtain ⟨id, hid⟩ := search_ends hn s1 i
    obtain ⟨hids, hnext, -⟩ := respawn_ids hid
    have hlt : id < MAX_SESSIONS := by
      rcases (searchId_some hid).2 with rfl | hlt
      · rw [hsame.next]
        exact h.next
      · exact hlt
    refine ⟨?_, ?_⟩
    · intro j
      rw [hsame'.ids, hids, hsame.ids]
      by_cases hj : j = i
      · rw [hj, Function.update_self]
        exact hlt
      · rw [Function.update_of_ne hj]
        exact h.ids j
    · rw [hsame'.next, hnext]
      exact Nat.mod_lt _ (by decide)

theorem ids_init (i : Fin n) :
    ids (init n) i = if i.val < (n + 1) / 2 then 2 * i.val else 2 * (i.val - (n + 1) / 2) + 1 := rfl

theorem distinct_init : Distinct (init n) := by
  refine ⟨?_, rfl⟩
  intro i j hij
  rw [ids_init, ids_init] at hij
  apply Fin.ext
  split_ifs at hij <;> omega

theorem inRange_init (hn : n < MAX_SESSIONS) : InRange (init n) := by
  refine ⟨?_, hn⟩
  intro i
  have hi := i.isLt
  rw [ids_init]
  split_ifs <;> omega

theorem distinct_run (hn : n ≤ MAX_SESSIONS) (acts : List (Act n)) (h : Distinct s) : Distinct (run s acts) := by
  induction acts generalizing s with
  | nil => exact h
  | cons a acts ih => exact ih (h.step hn (idStep_step s a))

theorem inRange_run (hn : n ≤ MAX_SESSIONS) (acts : List (Act n)) (h : InRange s) : InRange (run s acts) := by
  induction acts generalizing s with
  | nil => exact h
  | cons a acts ih => exact ih (h.step hn (idStep_step s a))

/-- All ids differ, a board takes them (`open_session` refuses others), and a search for a free one ends. -/
def Usable (s : State n) : Prop :=
  (Function.Injective fun i => (s.vehicles i).vehicleId) ∧ (∀ i, (s.vehicles i).vehicleId < 64) ∧
    ∀ i, ∃ fuel id, searchId (usedIds s i) fuel s.nextVehicleId = some id

/-- With 64 vehicles the cursor starts at 64, and as no vehicle has this id, the first respawn gives it away. -/
def outOfRange (i : Fin 64) : List (Act 64) :=
  .entry .B :: List.replicate 63 (.entry .A) ++
    [.worker .B ⟨true, false⟩, .collect .B, .vehicle i ⟨false, false, true, false, .B⟩, .worker .B ⟨true, false⟩,
      .collect .B]

theorem first_respawn_64 : ((run (init 64) (outOfRange 0)).vehicles 0).vehicleId = 64 := by decide +kernel

/-- The ids stay usable in all runs just with fewer than 64 vehicles. -/
theorem ids_usable_iff (n : ℕ) (h64 : n ≤ 64) : (∀ s : State n, Reachable s → Usable s) ↔ n ≤ 63 := by
  constructor
  · intro h
    by_contra hn
    obtain rfl : n = 64 := by omega
    have hlt := (h _ ⟨outOfRange 0, rfl⟩).2.1 0
    rw [first_respawn_64] at hlt
    omega
  · rintro hn s ⟨acts, rfl⟩
    refine ⟨(distinct_run h64 acts distinct_init).inj, ?_, ?_⟩
    · exact (inRange_run h64 acts (inRange_init (Nat.lt_succ_of_le hn))).ids
    · exact fun i => ⟨_, search_ends h64 _ i⟩

/-- Distinct ids and the end of the search hold for 64 vehicles also. -/
theorem ids_distinct (h64 : n ≤ 64) {s : State n} (h : Reachable s) :
    (Function.Injective fun i => (s.vehicles i).vehicleId) ∧
      ∀ i, ∃ fuel id, searchId (usedIds s i) fuel s.nextVehicleId = some id := by
  obtain ⟨acts, rfl⟩ := h
  exact ⟨(distinct_run h64 acts distinct_init).inj, fun i => ⟨_, search_ends h64 _ i⟩⟩

theorem ids_usable_sixteen : (∀ s : State 16, Reachable s → Usable s) ↔ 16 ≤ 63 :=
  ids_usable_iff 16 (by decide)

theorem ids_not_usable : ¬ ∀ n, 1 ≤ n → n ≤ 64 → ∀ s : State n, Reachable s → Usable s := by
  intro h
  have hlt := (h 64 (by decide) le_rfl _ ⟨outOfRange 0, rfl⟩).2.1 0
  rw [first_respawn_64] at hlt
  omega

end Runs

end DemoController

end ZedSecure
