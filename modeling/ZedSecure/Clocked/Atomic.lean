import ZedSecure.Clocked.Design
import Mathlib.Logic.Function.Basic
import Mathlib.Tactic.Common

/-! Linearizability. An atomic object does each operation at one point between its invocation and its
response. A design is linearizable when the invocations and responses of its runs are those of the
object: by a simulation that chooses the points. A short trace that is not can be refuted by a search. -/

namespace Clocked

/-- What an operation does and answers, and what happens to the value by itself. No answer means
that any will do. -/
structure Atomic (α ο ρ ε : Type*) where
  apply : α → ο → α × Option ρ
  own : α → ε → α

/-- A port has one operation under way at most. -/
inductive Slot (ο ρ : Type*) where
  | idle
  | asked (o : ο)
  | answered (r : Option ρ)

/-- `abort` drops all that is under way. -/
inductive Event (π ο ρ ε : Type*) where
  | invoke (p : π) (o : ο)
  | respond (p : π) (r : ρ)
  | own (e : ε)
  | abort (e : ε)

structure Ports (π α ο ρ : Type*) where
  value : α
  slot : π → Slot ο ρ

namespace Atomic

variable {π α ο ρ ε σ ι : Type*} [DecidableEq π] (A : Atomic α ο ρ ε)

/-- The operation of a port takes effect. -/
def perform (s : Ports π α ο ρ) (p : π) : Ports π α ο ρ :=
  match s.slot p with
  | .asked o => ⟨(A.apply s.value o).1, Function.update s.slot p (.answered (A.apply s.value o).2)⟩
  | _ => s

section Points

def isAsked : Slot ο ρ → Bool
  | .asked _ => true
  | _ => false

/-- The states some operations later, `n` of them at most. -/
def settle (ports : List π) : ℕ → Ports π α ο ρ → List (Ports π α ο ρ)
  | 0, s => [s]
  | n + 1, s => s :: ports.flatMap fun p => if isAsked (s.slot p) then settle ports n (A.perform s p) else []

variable {A} {ports : List π}

theorem self_mem_settle (n : ℕ) (s : Ports π α ο ρ) : s ∈ A.settle ports n s := by
  cases n with
  | zero => exact List.mem_singleton_self s
  | succ n => exact List.mem_cons_self

theorem settle_mono {n : ℕ} {s t : Ports π α ο ρ} (h : t ∈ A.settle ports n s) : t ∈ A.settle ports (n + 1) s := by
  induction n generalizing s with
  | zero =>
    rw [List.mem_singleton.mp h]
    exact self_mem_settle _ _
  | succ n ih =>
    rw [settle, List.mem_cons, List.mem_flatMap] at h ⊢
    rcases h with h | ⟨p, hp, h⟩
    · exact Or.inl h
    · split_ifs at h with hasked
      · exact Or.inr ⟨p, hp, by rw [if_pos hasked]; exact ih h⟩
      · simp at h

/-- How many operations have not taken effect. -/
def waiting (ports : List π) (s : Ports π α ο ρ) : ℕ := (ports.filter fun p => isAsked (s.slot p)).length

theorem waiting_perform {s : Ports π α ο ρ} {p : π} (hp : p ∈ ports) (h : isAsked (s.slot p) = true) :
    waiting ports (A.perform s p) < waiting ports s := by
  have hslot : ∀ q, isAsked ((A.perform s p).slot q) = (!decide (q = p) && isAsked (s.slot q)) := by
    intro q
    unfold perform
    cases hs : s.slot p with
    | asked o => by_cases hq : q = p <;> simp [hq, isAsked]
    | idle => simp [hs, isAsked] at h
    | answered r => simp [hs, isAsked] at h
  simp only [waiting, hslot, ← List.filter_filter]
  rw [List.length_filter_lt_length_iff_exists]
  exact ⟨p, List.mem_filter.mpr ⟨hp, h⟩, by simp⟩

theorem settle_stable {n : ℕ} {s t : Ports π α ο ρ} (hn : waiting ports s ≤ n)
    (h : t ∈ A.settle ports (n + 1) s) : t ∈ A.settle ports n s := by
  induction n generalizing s with
  | zero =>
    rw [settle, List.mem_cons, List.mem_flatMap] at h
    rcases h with rfl | ⟨p, hp, h⟩
    · exact self_mem_settle _ _
    · split_ifs at h with hasked
      · have hlt := waiting_perform (A := A) hp hasked
        omega
      · simp at h
  | succ n ih =>
    rw [settle, List.mem_cons, List.mem_flatMap] at h ⊢
    rcases h with h | ⟨p, hp, h⟩
    · exact Or.inl h
    · split_ifs at h with hasked
      · have hlt := waiting_perform (A := A) hp hasked
        exact Or.inr ⟨p, hp, by rw [if_pos hasked]; exact ih (by omega) h⟩
      · simp at h

theorem perform_mem_settle {p : π} (hp : p ∈ ports) {s t : Ports π α ο ρ}
    (h : t ∈ A.settle ports ports.length (A.perform s p)) : t ∈ A.settle ports ports.length s := by
  cases hasked : isAsked (s.slot p)
  · have hsame : A.perform s p = s := by
      unfold perform
      cases hs : s.slot p <;> simp_all [isAsked]
    rwa [hsame] at h
  · apply settle_stable (List.length_filter_le _ _)
    rw [settle, List.mem_cons, List.mem_flatMap]
    exact Or.inr ⟨p, hp, by rw [if_pos hasked]; exact h⟩

end Points

variable [DecidableEq ρ]

def event (s : Ports π α ο ρ) : Event π ο ρ ε → Option (Ports π α ο ρ)
  | .invoke p o =>
    match s.slot p with
    | .idle => some { s with slot := Function.update s.slot p (.asked o) }
    | _ => none
  | .respond p r =>
    match s.slot p with
    | .answered x => if x.all (· == r) then some { s with slot := Function.update s.slot p .idle } else none
    | _ => none
  | .own e => some { s with value := A.own s.value e }
  | .abort e => some ⟨A.own s.value e, fun _ => .idle⟩

/-- The runs of the object, with the points at which the operations take effect left open. -/
inductive Runs : Ports π α ο ρ → List (Event π ο ρ ε) → Ports π α ο ρ → Prop
  | done (s : Ports π α ο ρ) : Runs s [] s
  | perform {s t : Ports π α ο ρ} {es : List (Event π ο ρ ε)} (p : π) : Runs (A.perform s p) es t → Runs s es t
  | event {s s' t : Ports π α ο ρ} {e : Event π ο ρ ε} {es : List (Event π ο ρ ε)} :
    A.event s e = some s' → Runs s' es t → Runs s (e :: es) t

variable {A}

theorem event_invoke {s : Ports π α ο ρ} {p : π} (h : s.slot p = .idle) (o : ο) :
    A.event s (.invoke p o) = some { s with slot := Function.update s.slot p (.asked o) } := by
  rw [event, h]

theorem event_respond {s : Ports π α ο ρ} {p : π} {x : Option ρ} (h : s.slot p = .answered x) {r : ρ}
    (hr : x = none ∨ x = some r) :
    A.event s (.respond p r) = some { s with slot := Function.update s.slot p .idle } := by
  rcases hr with rfl | rfl <;> simp [event, h]

theorem Runs.trans {s t u : Ports π α ο ρ} {es fs : List (Event π ο ρ ε)} (h : A.Runs s es t)
    (h' : A.Runs t fs u) : A.Runs s (es ++ fs) u := by
  induction h with
  | done s => exact h'
  | perform p _ ih => exact .perform p (ih h')
  | event he _ ih => exact .event he (ih h')

/-- Performing at the end. -/
theorem Runs.point {s t : Ports π α ο ρ} {es : List (Event π ο ρ ε)} (h : A.Runs s es t) (p : π) :
    A.Runs s es (A.perform t p) := by
  have hend := h.trans (.perform p (.done _))
  rwa [List.append_nil] at hend

theorem Runs.one {s t : Ports π α ο ρ} {e : Event π ο ρ ε} (h : A.event s e = some t) : A.Runs s [e] t :=
  .event h (.done t)

/-- An edge with some events or none. -/
theorem Runs.ite {c : Bool} {s t : Ports π α ο ρ} {es : List (Event π ο ρ ε)} (h : c = true → A.Runs s es t)
    (h' : c = false → t = s) : A.Runs s (if c then es else []) t := by
  cases c
  · rw [h' rfl]
    exact .done s
  · exact h rfl

/-- A design that the object simulates is linearizable. -/
theorem linearizable (D : Design σ ι) {C : σ → ι → Prop} {R : σ → Ports π α ο ρ → Prop}
    {obs : σ → Act ι → List (Event π ο ρ ε)}
    (hrst : ∀ s a, R s a → ∃ a', A.Runs a (obs s .reset) a' ∧ R (D.rst s) a')
    (hnext : ∀ s i a, R s a → C s i → ∃ a', A.Runs a (obs s (.tick i)) a' ∧ R (D.next s i) a')
    {s : σ} {a : Ports π α ο ρ} (hs : R s a) {acts : List (Act ι)} (hC : D.AllSteps C s acts) :
    ∃ a', A.Runs a (D.trace obs s acts) a' ∧ R (D.run s acts) a' := by
  induction acts generalizing s a with
  | nil => exact ⟨a, .done a, hs⟩
  | cons x acts ih =>
    cases x with
    | reset =>
      obtain ⟨b, hb, hrel⟩ := hrst s a hs
      obtain ⟨c, hc, hend⟩ := ih hrel hC
      exact ⟨c, hb.trans hc, hend⟩
    | tick i =>
      obtain ⟨b, hb, hrel⟩ := hnext s i a hs hC.1
      obtain ⟨c, hc, hend⟩ := ih hrel hC.2
      exact ⟨c, hb.trans hc, hend⟩

section Search

variable (A) in
/-- All the states a trace can lead to. -/
def explore (ports : List π) (s : Ports π α ο ρ) : List (Event π ο ρ ε) → List (Ports π α ο ρ)
  | [] => A.settle ports ports.length s
  | e :: es => (A.settle ports ports.length s).flatMap fun t =>
    match A.event t e with
    | some t' => explore ports t' es
    | none => []

variable {ports : List π}

/-- The search misses nothing. -/
theorem Runs.mem_explore (hports : ∀ p, p ∈ ports) {s t : Ports π α ο ρ} {es : List (Event π ο ρ ε)}
    (h : A.Runs s es t) : t ∈ A.explore ports s es := by
  induction h with
  | done s => exact self_mem_settle _ _
  | @perform s t es p _ ih =>
    cases es with
    | nil => exact perform_mem_settle (hports p) ih
    | cons e es =>
      rw [explore, List.mem_flatMap] at ih ⊢
      obtain ⟨u, hu, hmem⟩ := ih
      exact ⟨u, perform_mem_settle (hports p) hu, hmem⟩
  | @event s s' t e es he _ ih =>
    rw [explore, List.mem_flatMap]
    exact ⟨s, self_mem_settle _ _, by simpa only [he] using ih⟩

end Search

end Atomic

end Clocked
