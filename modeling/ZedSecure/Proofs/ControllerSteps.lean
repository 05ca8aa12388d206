import ZedSecure.Pc.DemoController

/-! What each step of the controller can do, said once: every step is one of a few elementary ones under the guards
of the source. -/

namespace ZedSecure

namespace DemoController

variable {n : ℕ}

section Fields

variable (s : State n) (i : Fin n) (v : Vehicle) (b : Board) (op : Op n) (context : Context)

@[simp] theorem setVehicle_self : (setVehicle s i v).vehicles i = v := Function.update_self _ _ _

theorem setVehicle_of_ne {j : Fin n} (hj : j ≠ i) : (setVehicle s i v).vehicles j = s.vehicles j :=
  Function.update_of_ne hj _ _

@[simp] theorem setVehicle_workers : (setVehicle s i v).workers = s.workers := rfl

@[simp] theorem setVehicle_pending : (setVehicle s i v).pending = s.pending := rfl

@[simp] theorem setVehicle_reserved : (setVehicle s i v).reserved = s.reserved := rfl

@[simp] theorem submit_vehicles : (submit s b op context).vehicles = s.vehicles := rfl

@[simp] theorem submit_reserved : (submit s b op context).reserved = s.reserved := rfl

end Fields

section Lookup

variable {s : State n} {id : ℕ} {i : Fin n}

theorem vehicleById_some (h : vehicleById s id = some i) : (s.vehicles i).vehicleId = id := by
  simpa using List.find?_some h

/-- With distinct ids a vehicle is found under its own. -/
theorem vehicleById_self (hinj : Function.Injective fun j => (s.vehicles j).vehicleId) :
    vehicleById s (s.vehicles i).vehicleId = some i := by
  cases h : vehicleById s (s.vehicles i).vehicleId with
  | none =>
    rw [vehicleById, List.find?_eq_none] at h
    exact absurd (decide_eq_true rfl) (h i (List.mem_finRange i))
  | some j => rw [hinj (vehicleById_some h)]

theorem usedIds_iff : usedIds s i id = true ↔ ∃ j, j ≠ i ∧ (s.vehicles j).vehicleId = id := by
  simp [usedIds]

theorem freeSlot_some {b : Board} {slot : ℕ} (h : freeSlot s b = some slot) :
    slot < MAX_SESSIONS ∧ (s.workers b).slots slot = none ∧ s.reserved b slot = false := by
  have hmem := List.mem_of_find?_eq_some h
  have hfree := List.find?_some h
  rw [Bool.and_eq_true, Option.isNone_iff_eq_none, Bool.not_eq_true'] at hfree
  exact ⟨List.mem_range.mp hmem, hfree⟩

end Lookup

/-- A vehicle that moves: nothing is being opened for it and it is not leaving. -/
def Mobile (st : VState) : Prop := st = .connected ∨ st = .disconnected

section Steps

variable (s : State n) (i : Fin n)

/-- The ways of `_step_vehicle`. -/
inductive VehicleStep : State n → Prop where
  | stay : VehicleStep s
  | retry (target : Board) (hm : Mobile (s.vehicles i).state) (hr : (s.vehicles i).retryAt = true) :
      VehicleStep (requestOpen (setVehicle s i { s.vehicles i with retryAt := false, retryTarget := none }) i target
        .retry)
  | handover (b target : Board) (hm : Mobile (s.vehicles i).state) (hb : (s.vehicles i).board = some b) (hne : b ≠ target) :
      VehicleStep (requestOpen s i target .handover)
  | exit (b : Board) (slot : ℕ) (hm : Mobile (s.vehicles i).state) (hb : (s.vehicles i).board = some b)
      (hs : (s.vehicles i).slot = some slot) :
      VehicleStep (submit (setVehicle s i { s.vehicles i with state := .exiting }) b (.leave (owner s i) slot)
        (.leave (s.vehicles i).vehicleId true))
  | respawn (hm : Mobile (s.vehicles i).state) (hb : (s.vehicles i).board = none ∨ (s.vehicles i).slot = none) :
      VehicleStep (respawn s i)
  | data (b : Board) (slot : ℕ) (hm : Mobile (s.vehicles i).state) (hb : (s.vehicles i).board = some b)
      (hs : (s.vehicles i).slot = some slot) :
      VehicleStep (submit s b (.data (owner s i) slot false) (.data (s.vehicles i).vehicleId false))

theorem requestExit_cases (hm : Mobile (s.vehicles i).state) : VehicleStep s i (requestExit s i) := by
  rcases hb : (s.vehicles i).board with - | b
  · simp only [requestExit, hb]
    exact .respawn hm (Or.inl hb)
  · rcases hs : (s.vehicles i).slot with - | slot
    · simp only [requestExit, hb, hs]
      exact .respawn hm (Or.inr hs)
    · have hexit := VehicleStep.exit b slot hm hb hs
      simp only [requestExit, hb, hs]
      simpa only [hb, hs] using hexit

theorem moved_cases (hm : Mobile (s.vehicles i).state) (m : Motion) : VehicleStep s i (moved s i m) := by
  by_cases hoff : (m.offRoad && !(m.crossed && (s.vehicles i).board.isSome)) = true
  · rw [moved, if_pos hoff]
    exact requestExit_cases s i hm
  · rw [moved, if_neg hoff]
    rcases hb : (s.vehicles i).board with - | b
    · exact .stay
    · rcases hs : (s.vehicles i).slot with - | slot
      · exact .stay
      · by_cases hdue : (m.dataDue && !dataPending s (s.vehicles i).vehicleId) = true
        · simp only [hdue, if_true]
          exact .data b slot hm hb hs
        · simp only [hdue]
          exact .stay

theorem stepVehicle_cases (m : Motion) : VehicleStep s i (stepVehicle s i m) := by
  by_cases hskip : ((s.vehicles i).state = .connecting || (s.vehicles i).state = .handover ||
      (s.vehicles i).state = .exiting) = true
  · rw [stepVehicle, if_pos hskip]
    exact .stay
  · have hm : Mobile (s.vehicles i).state := by
      unfold Mobile
      cases hst : (s.vehicles i).state <;> simp_all
    rw [stepVehicle, if_neg hskip]
    by_cases hretry : ((s.vehicles i).retryAt && m.retryDue) = true
    · rw [if_pos hretry]
      exact .retry _ hm (Bool.and_eq_true_iff.mp hretry).1
    · rw [if_neg hretry]
      by_cases hcross : (m.crossed && (s.vehicles i).board.isSome &&
          (s.vehicles i).board ≠ some (if (s.vehicles i).forward then Board.B else .A)) = true
      · rw [if_pos hcross]
        simp only [Bool.and_eq_true, decide_eq_true_eq] at hcross
        obtain ⟨b, hb⟩ := Option.isSome_iff_exists.mp hcross.1.2
        exact .handover b _ hm hb fun hne => hcross.2 (hb.trans (congrArg some hne))
      · rw [if_neg hcross]
        exact moved_cases s i hm m

/-- The ways of `attack_selected`. -/
theorem attackSelected_cases : attackSelected s = s ∨
    ∃ i b slot, ((s.vehicles i).state = .connected ∨ (s.vehicles i).state = .handover) ∧
      (s.vehicles i).board = some b ∧ (s.vehicles i).slot = some slot ∧
      attackSelected s = submit s b (.data (owner s i) slot true) (.data (s.vehicles i).vehicleId true) := by
  rcases hsel : s.selectedVehicle.bind (vehicleById s) with - | i
  · exact Or.inl (by simp only [attackSelected, hsel])
  · rcases hb : (s.vehicles i).board with - | b
    · exact Or.inl (by simp only [attackSelected, hsel, hb])
    · rcases hs : (s.vehicles i).slot with - | slot
      · exact Or.inl (by simp only [attackSelected, hsel, hb, hs])
      · by_cases hc : (((s.vehicles i).state = .connected || (s.vehicles i).state = .handover) &&
            !dataPending s (s.vehicles i).vehicleId) = true
        · refine Or.inr ⟨i, b, slot, ?_, hb, hs, by simp only [attackSelected, hsel, hb, hs, if_pos hc]⟩
          simp only [Bool.and_eq_true, Bool.or_eq_true, decide_eq_true_eq] at hc
          exact hc.1
        · exact Or.inl (by simp only [attackSelected, hsel, hb, hs, if_neg hc])

end Steps

end DemoController

end ZedSecure
