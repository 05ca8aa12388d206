import Mathlib
import ZedSecure.Clocked.Design

/-! A round-robin queue: one place per slot, and a cursor from which the slots are searched in
circular order. A request waits at most one turn of every other slot. -/

namespace RoundRobin

open Clocked

structure Queue (n : ℕ) (ρ : Type*) where
  waiting : Fin n → Option ρ
  cursor : Fin n

inductive Op (n : ℕ) (ρ : Type*) where
  | submit (slot : Fin n) (r : ρ)
  | take

/-- What a run leaves behind: requests taken in and requests given out. -/
inductive Event (α ρ : Type*) where
  | accepted (slot : α) (r : ρ)
  | delivered (slot : α) (r : ρ)

section Events

variable {α ρ : Type*}

def accepted [DecidableEq α] (x : α) : List (Event α ρ) → List ρ :=
  List.filterMap fun
    | .accepted slot r => if slot = x then some r else none
    | .delivered _ _ => none

def delivered [DecidableEq α] (x : α) : List (Event α ρ) → List ρ :=
  List.filterMap fun
    | .accepted _ _ => none
    | .delivered slot r => if slot = x then some r else none

/-- The slots in the order they are served. -/
def turns : List (Event α ρ) → List α :=
  List.filterMap fun
    | .accepted _ _ => none
    | .delivered slot _ => some slot

theorem accepted_append [DecidableEq α] (x : α) (xs ys : List (Event α ρ)) :
    accepted x (xs ++ ys) = accepted x xs ++ accepted x ys := List.filterMap_append

theorem delivered_append [DecidableEq α] (x : α) (xs ys : List (Event α ρ)) :
    delivered x (xs ++ ys) = delivered x xs ++ delivered x ys := List.filterMap_append

theorem turns_append (xs ys : List (Event α ρ)) : turns (xs ++ ys) = turns xs ++ turns ys :=
  List.filterMap_append

/-- The same events under other names for the slots. -/
def Event.map {β : Type*} (f : α → β) : Event α ρ → Event β ρ
  | .accepted slot r => .accepted (f slot) r
  | .delivered slot r => .delivered (f slot) r

variable {β : Type*} [DecidableEq α] [DecidableEq β] {f : α → β}

theorem accepted_map (hf : Function.Injective f) (x : α) (xs : List (Event α ρ)) :
    accepted (f x) (xs.map (Event.map f)) = accepted x xs := by
  induction xs with
  | nil => rfl
  | cons e xs ih =>
    cases e <;> simp_all [accepted, Event.map, hf.eq_iff, List.filterMap_cons]

theorem delivered_map (hf : Function.Injective f) (x : α) (xs : List (Event α ρ)) :
    delivered (f x) (xs.map (Event.map f)) = delivered x xs := by
  induction xs with
  | nil => rfl
  | cons e xs ih =>
    cases e <;> simp_all [delivered, Event.map, hf.eq_iff, List.filterMap_cons]

omit [DecidableEq α] in
theorem accepted_outside {y : β} (h : ∀ x, f x ≠ y) (xs : List (Event α ρ)) :
    accepted y (xs.map (Event.map f)) = [] := by
  induction xs with
  | nil => rfl
  | cons e xs ih => cases e <;> simp_all [accepted, Event.map]

omit [DecidableEq α] in
theorem delivered_outside {y : β} (h : ∀ x, f x ≠ y) (xs : List (Event α ρ)) :
    delivered y (xs.map (Event.map f)) = [] := by
  induction xs with
  | nil => rfl
  | cons e xs ih => cases e <;> simp_all [delivered, Event.map]

omit [DecidableEq α] [DecidableEq β] in
theorem turns_map (xs : List (Event α ρ)) : turns (xs.map (Event.map f)) = (turns xs).map f := by
  induction xs with
  | nil => rfl
  | cons e xs ih => cases e <;> simp_all [turns, Event.map]

end Events

variable {n : ℕ} {ρ : Type*}

/-- How far `x` lies behind the cursor `c` on the circle. -/
def distance (c x : Fin n) : ℕ := if c.val ≤ x.val then x.val - c.val else x.val + n - c.val

theorem distance_lt (c x : Fin n) : distance c x < n := by
  unfold distance
  split <;> omega

theorem distance_inj {c x y : Fin n} (h : distance c x = distance c y) : x = y := by
  unfold distance at h
  ext
  split at h <;> split at h <;> omega

theorem val_succ [NeZero n] (t : Fin n) : (t + 1).val = if t.val + 1 = n then 0 else t.val + 1 := by
  rw [Fin.val_add_eq_ite, Fin.val_one']
  have := t.isLt
  rcases Nat.lt_or_ge 1 n with hn | hn
  · rw [Nat.mod_eq_of_lt hn]
    split <;> split <;> omega
  · obtain rfl : n = 1 := by omega
    simp

theorem distance_add [NeZero n] (c k : Fin n) : distance c (c + k) = k.val := by
  unfold distance
  rw [Fin.val_add_eq_ite]
  split <;> split <;> omega

/-- Past a nearer slot `t` every farther one is nearer by what was skipped. -/
theorem distance_past [NeZero n] {c t x : Fin n} (h : distance c t < distance c x) :
    distance (t + 1) x = distance c x - distance c t - 1 := by
  unfold distance at h ⊢
  rw [val_succ]
  split at h <;> split at h <;> split <;> split <;> omega

/-- The slot just served is the farthest one. -/
theorem distance_served [NeZero n] (t : Fin n) : distance (t + 1) t = n - 1 := by
  unfold distance
  rw [val_succ]
  split <;> split <;> omega

section Queue

variable [NeZero n]

/-- The first waiting request in circular order from the cursor. -/
def Queue.pick (q : Queue n ρ) : Option (Fin n × ρ) :=
  (List.finRange n).findSome? fun k => (q.waiting (q.cursor + k)).map (q.cursor + k, ·)

theorem pick_eq_none {q : Queue n ρ} : q.pick = none ↔ ∀ x, q.waiting x = none := by
  simp only [Queue.pick, List.findSome?_eq_none_iff, List.mem_finRange, Option.map_eq_none_iff,
    forall_const]
  constructor
  · intro h x
    have hx := h (x - q.cursor)
    rwa [add_sub_cancel] at hx
  · intro h k
    exact h _

theorem pick_eq_some {q : Queue n ρ} {x : Fin n} {r : ρ} : q.pick = some (x, r) ↔
    q.waiting x = some r ∧ ∀ y, q.waiting y ≠ none → distance q.cursor x ≤ distance q.cursor y := by
  have hfirst : ∀ x r, q.pick = some (x, r) → q.waiting x = some r ∧
      ∀ y, q.waiting y ≠ none → distance q.cursor x ≤ distance q.cursor y := by
    intro x r h
    obtain ⟨pre, k, post, hsplit, hk, hpre⟩ := List.findSome?_eq_some_iff.mp h
    obtain ⟨r', hr', heq⟩ := Option.map_eq_some_iff.mp hk
    obtain ⟨rfl, rfl⟩ := Prod.mk.inj heq
    refine ⟨hr', fun y hy => ?_⟩
    rw [distance_add]
    have hmem : y - q.cursor ∈ pre ++ k :: post := hsplit ▸ List.mem_finRange _
    have hsorted : (pre ++ k :: post).Pairwise (· < ·) := hsplit ▸ List.pairwise_lt_finRange n
    have hdist : distance q.cursor y = (y - q.cursor).val := by
      rw [← distance_add q.cursor (y - q.cursor), add_sub_cancel]
    rw [hdist]
    rw [List.pairwise_append, List.pairwise_cons] at hsorted
    rcases List.mem_append.mp hmem with hin | hin
    · have hnone := hpre _ hin
      rw [add_sub_cancel, Option.map_eq_none_iff] at hnone
      exact absurd hnone hy
    · rcases List.mem_cons.mp hin with heq | hpost
      · exact heq ▸ le_refl _
      · exact le_of_lt (hsorted.2.1.1 _ hpost)
  constructor
  · exact hfirst x r
  · rintro ⟨hw, hmin⟩
    cases hpick : q.pick with
    | none => simp [pick_eq_none.mp hpick x] at hw
    | some p =>
      obtain ⟨hw', hmin'⟩ := hfirst p.1 p.2 hpick
      have hx : p.1 = x := distance_inj
        (le_antisymm (hmin' x (by simp [hw])) (hmin p.1 (by simp [hw'])))
      rw [← hx, hw', Option.some.injEq] at hw
      rw [← hw, ← hx]

omit [NeZero n] in
/-- The slot served is the first one of the circle that has a request. -/
theorem pick_slot (q : Queue n ρ) : q.pick.map Prod.fst =
    ((List.finRange n).map (q.cursor + ·)).find? fun x => (q.waiting x).isSome := by
  unfold Queue.pick
  induction List.finRange n with
  | nil => rfl
  | cons k ks ih =>
    rw [List.findSome?_cons, List.map_cons, List.find?_cons]
    cases hw : q.waiting (q.cursor + k) with
    | none => simpa [hw] using ih
    | some r => simp

/-- A slot holds one request at a time; the cursor moves just past the slot served. -/
def server : Server (Queue n ρ) (Op n ρ) (Event (Fin n) ρ) where
  step q
    | .submit slot r =>
      if q.waiting slot = none then
        ({ q with waiting := Function.update q.waiting slot (some r) }, [.accepted slot r])
      else (q, [])
    | .take =>
      match q.pick with
      | some (slot, r) => (⟨Function.update q.waiting slot none, slot + 1⟩, [.delivered slot r])
      | none => (q, [])

/-- Per slot, what is given out is what was taken in, in order, up to the request still waiting. -/
theorem account (q : Queue n ρ) (ops : List (Op n ρ)) (x : Fin n) :
    (q.waiting x).toList ++ accepted x (server.run q ops).2 =
      delivered x (server.run q ops).2 ++ ((server.run q ops).1.waiting x).toList := by
  induction ops generalizing q with
  | nil => simp [accepted, delivered]
  | cons op ops ih =>
    have hstep : (q.waiting x).toList ++ accepted x (server.step q op).2 =
        delivered x (server.step q op).2 ++ ((server.step q op).1.waiting x).toList := by
      cases op with
      | submit slot r =>
        by_cases hw : q.waiting slot = none
        · by_cases hx : slot = x
          · subst hx
            simp [server, hw, accepted, delivered]
          · simp [server, hw, accepted, delivered, hx, Ne.symm hx]
        · simp [server, hw, accepted, delivered]
      | take =>
        cases hpick : q.pick with
        | none => simp [server, hpick, accepted, delivered]
        | some p =>
          have hw := (pick_eq_some.mp hpick).1
          by_cases hx : p.1 = x
          · subst hx
            simp [server, hpick, accepted, delivered, hw]
          · simp [server, hpick, accepted, delivered, hx, Ne.symm hx]
    simp only [Server.run, accepted_append, delivered_append]
    rw [← List.append_assoc, hstep, List.append_assoc, ih, List.append_assoc]

/-- While `x` waits, the slots of `served` came before it and lie behind it now. -/
structure Passed (q : Queue n ρ) (x : Fin n) (served : List (Fin n)) : Prop where
  waits : q.waiting x ≠ none
  once : served.Nodup
  behind : ∀ t ∈ served, distance q.cursor x < distance q.cursor t

theorem Passed.step {q : Queue n ρ} {x : Fin n} {served : List (Fin n)} (h : Passed q x served)
    (op : Op n ρ) (hx : x ∉ turns (server.step q op).2) :
    Passed (server.step q op).1 x (served ++ turns (server.step q op).2) := by
  cases op with
  | submit slot r =>
    by_cases hw : q.waiting slot = none
    · have hne : x ≠ slot := by
        rintro rfl
        exact h.waits hw
      simpa [server, hw, turns] using
        (⟨by simpa [hne] using h.waits, h.once, h.behind⟩ :
          Passed { q with waiting := Function.update q.waiting slot (some r) } x served)
    · simpa [server, hw, turns] using h
  | take =>
    cases hpick : q.pick with
    | none => simpa [server, hpick, turns] using h
    | some p =>
      obtain ⟨t, r⟩ := p
      simp only [server, hpick, turns, List.filterMap_cons, List.filterMap_nil,
        List.mem_singleton] at hx ⊢
      -- `t` is nearer than `x`, so it was not served before
      have hlt : distance q.cursor t < distance q.cursor x :=
        lt_of_le_of_ne ((pick_eq_some.mp hpick).2 x h.waits)
          (fun heq => hx (distance_inj heq).symm)
      refine ⟨by simpa [Function.update_of_ne hx] using h.waits, ?_, ?_⟩
      · refine List.Nodup.append h.once (List.nodup_singleton t) ?_
        intro y hy hyt
        have hbehind := h.behind y hy
        rw [List.mem_singleton.mp hyt] at hbehind
        omega
      · intro y hy
        rw [distance_past hlt]
        rcases List.mem_append.mp hy with hin | hin
        · have hbehind := h.behind y hin
          rw [distance_past (lt_trans hlt hbehind)]
          omega
        · rw [List.mem_singleton.mp hin, distance_served]
          have := distance_lt q.cursor x
          omega

/-- Until `x` is served every other slot is served at most once. -/
theorem Passed.run {q : Queue n ρ} {x : Fin n} {served : List (Fin n)} (h : Passed q x served)
    (ops : List (Op n ρ)) (hx : x ∉ turns (server.run q ops).2) :
    Passed (server.run q ops).1 x (served ++ turns (server.run q ops).2) := by
  induction ops generalizing q served with
  | nil => simpa [turns] using h
  | cons op ops ih =>
    simp only [Server.run, turns_append, List.mem_append, not_or] at hx ⊢
    rw [← List.append_assoc]
    exact ih (h.step op hx.1) hx.2

theorem bypassed_once {q : Queue n ρ} {x : Fin n} (hw : q.waiting x ≠ none) (ops : List (Op n ρ))
    (hx : x ∉ turns (server.run q ops).2) :
    (turns (server.run q ops).2).Nodup ∧ (turns (server.run q ops).2).length < n := by
  have hpassed := Passed.run ⟨hw, List.nodup_nil, by simp⟩ ops hx
  rw [List.nil_append] at hpassed
  refine ⟨hpassed.once, ?_⟩
  have hcard := (List.nodup_cons.mpr ⟨hx, hpassed.once⟩).length_le_card
  rw [Fintype.card_fin, List.length_cons] at hcard
  omega

end Queue

end RoundRobin
