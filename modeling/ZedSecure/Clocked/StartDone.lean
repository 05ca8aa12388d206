import Mathlib.Tactic.Common
import ZedSecure.Clocked.Design

/-! Sub-units driven by a start pulse and answering with a done pulse. A `StartDone f`
is any such unit whose answer to a start is `f` of the operands on the pins at that
edge, after any number of edges. Callers reason with `Issued` and never look inside. A unit
with a countdown is `Timed`: its answers come within a bound. -/

namespace Clocked

/-- The fields after `result` are the handshake itself. `κ` is whatever else decides
the unit's timing. -/
structure StartDone {α β : Type} (f : α → β) (κ : Type) where
  σ : Type
  init : σ
  next : σ → Option α → κ → σ
  done : σ → Bool
  result : σ → β
  idle : σ → Prop
  working : α → σ → Prop
  init_idle : idle init
  init_done : done init = false
  idle_wait : ∀ s k, idle s → idle (next s none k) ∧ done (next s none k) = false
  idle_start : ∀ s a k, idle s → working a (next s (some a) k) ∧ done (next s (some a) k) = false
  working_done : ∀ s a, working a s → done s = false
  working_next : ∀ s a x k, working a s → working a (next s x k) ∨
    (idle (next s x k) ∧ done (next s x k) = true ∧ result (next s x k) = f a)

namespace StartDone

variable {α β κ : Type} {f : α → β} (U : StartDone f κ)

/-- A start for `a` is on the pin, or the unit works on it, or its answer is showing. -/
def Issued (a : α) (start : Bool) (s : U.σ) : Prop :=
  (start = true ∧ U.idle s ∧ U.done s = false) ∨ (start = false ∧ U.working a s) ∨
    (start = false ∧ U.idle s ∧ U.done s = true ∧ U.result s = f a)

theorem Issued.next {U : StartDone f κ} {a : α} {start : Bool} {s : U.σ}
    (h : U.Issued a start s) (hd : U.done s = false) (k : κ) :
    U.Issued a false (U.next s (if start then some a else none) k) := by
  rcases h with ⟨rfl, hi, -⟩ | ⟨rfl, hw⟩ | ⟨-, -, ht, -⟩
  · exact Or.inr (Or.inl ⟨rfl, (U.idle_start s a k hi).1⟩)
  · rcases U.working_next s a none k hw with hw' | ⟨hi, ht, hr⟩
    · exact Or.inr (Or.inl ⟨rfl, hw'⟩)
    · exact Or.inr (Or.inr ⟨rfl, hi, ht, hr⟩)
  · simp [hd] at ht

theorem Issued.answer {U : StartDone f κ} {a : α} {start : Bool} {s : U.σ}
    (h : U.Issued a start s) (hd : U.done s = true) :
    start = false ∧ U.idle s ∧ U.result s = f a := by
  rcases h with ⟨-, -, hf⟩ | ⟨-, hw⟩ | ⟨hs, hi, -, hr⟩
  · simp [hd] at hf
  · simp [U.working_done s a hw] at hd
  · exact ⟨hs, hi, hr⟩

/-- Raising the start pin of an idle unit issues the operands. -/
theorem issued_of_idle {a : α} {s : U.σ} (hi : U.idle s) (hd : U.done s = false) :
    U.Issued a true s := Or.inl ⟨rfl, hi, hd⟩

section Runs

/-- The unit with its reset. -/
def design : Design U.σ (Option α × κ) where
  rst _ := U.init
  next s i := U.next s i.1 i.2

/-- Whatever ran before, a unit is idle or on one operation. -/
theorem reachable_idle_or_working {s : U.σ} (h : U.design.Reachable s) :
    U.idle s ∨ ∃ a, U.working a s := by
  refine U.design.reachable_induct (P := fun s => U.idle s ∨ ∃ a, U.working a s)
    (fun _ => Or.inl U.init_idle) (fun s i hs => ?_) h
  change U.idle (U.next s i.1 i.2) ∨ ∃ a, U.working a (U.next s i.1 i.2)
  rcases hs with hs | ⟨a, hs⟩
  · cases i.1 with
    | none => exact Or.inl (U.idle_wait s i.2 hs).1
    | some a => exact Or.inr ⟨a, (U.idle_start s a i.2 hs).1⟩
  · rcases U.working_next s a i.1 i.2 hs with hw | ⟨hi, -⟩
    · exact Or.inr ⟨a, hw⟩
    · exact Or.inl hi

/-- The unit after the first `n` edges. -/
def after (s : U.σ) (ins : ℕ → Option α × κ) : ℕ → U.σ
  | 0 => s
  | n + 1 => U.next (after s ins n) (ins n).1 (ins n).2

theorem after_succ (s : U.σ) (ins : ℕ → Option α × κ) (n : ℕ) :
    U.after s ins (n + 1) = U.after (U.next s (ins 0).1 (ins 0).2) (fun i => ins (i + 1)) n := by
  induction n with
  | zero => rfl
  | succ n ih => exact congrArg (fun s => U.next s (ins (n + 1)).1 (ins (n + 1)).2) ih

/-- A countdown: a start sets it to `bound` at most, and every edge of the operation lowers it. -/
structure Timed (U : StartDone f κ) where
  left : U.σ → ℕ
  bound : ℕ
  start_le : ∀ s a k, U.idle s → left (U.next s (some a) k) ≤ bound
  next_lt : ∀ s a x k, U.working a s → U.working a (U.next s x k) → left (U.next s x k) < left s

variable {U} (T : Timed U)

/-- A timed unit answers: the operation lasts until its done pulse, which shows the answer. -/
theorem Timed.answers {a : α} {s : U.σ} (h : U.working a s) (ins : ℕ → Option α × κ) :
    ∃ n ≤ T.left s + 1, (∀ i < n, U.working a (U.after s ins i)) ∧ U.idle (U.after s ins n) ∧
      U.done (U.after s ins n) = true ∧ U.result (U.after s ins n) = f a := by
  generalize hm : T.left s = m
  induction m using Nat.strong_induction_on generalizing s ins with
  | _ m ih =>
    rcases U.working_next s a (ins 0).1 (ins 0).2 h with hw | ⟨hi, hd, hr⟩
    · have hlt := T.next_lt s a (ins 0).1 (ins 0).2 h hw
      rw [hm] at hlt
      obtain ⟨n, hn, hrun, hend⟩ := ih _ hlt hw (fun i => ins (i + 1)) rfl
      refine ⟨n + 1, by omega, ?_, ?_⟩
      · intro i hin
        cases i with
        | zero => exact h
        | succ i =>
          rw [after_succ]
          exact hrun i (by omega)
      · rw [after_succ]
        exact hend
    · refine ⟨1, by omega, ?_, hi, hd, hr⟩
      intro i hin
      rw [Nat.lt_one_iff.mp hin]
      exact h

/-- The edges until an issued operation is answered, at most. -/
def Timed.togo (start : Bool) (s : U.σ) : ℕ :=
  if start then T.bound + 2 else if U.done s then 0 else T.left s + 1

theorem Timed.togo_lt {a : α} {start : Bool} {s : U.σ} (h : U.Issued a start s)
    (hd : U.done s = false) (k : κ) :
    T.togo false (U.next s (if start then some a else none) k) < T.togo start s := by
  rcases h with ⟨rfl, hi, -⟩ | ⟨rfl, hw⟩ | ⟨-, -, ht, -⟩
  · have hle := T.start_le s a k hi
    simp only [togo, if_true, (U.idle_start s a k hi).2, Bool.false_eq_true, if_false]
    omega
  · rcases U.working_next s a none k hw with hw' | ⟨-, ht, -⟩
    · have hlt := T.next_lt s a none k hw hw'
      simp only [togo, hd, U.working_done _ a hw', Bool.false_eq_true, if_false]
      omega
    · simp [togo, hd, ht]
  · simp [hd] at ht

end Runs

section Box

variable [Inhabited β]

structure BoxState (α β : Type) where
  job : Option α
  done : Bool
  result : β

/-- The most general unit: it answers at the edges where the environment says so. -/
def box (f : α → β) : StartDone f Bool where
  σ := BoxState α β
  init := ⟨none, false, default⟩
  next s x k :=
    match s.job with
    | none => ⟨x, false, s.result⟩
    | some a => if k then ⟨none, true, f a⟩ else ⟨some a, false, s.result⟩
  done s := s.done
  result s := s.result
  idle s := s.job = none
  working a s := s.job = some a ∧ s.done = false
  init_idle := rfl
  init_done := rfl
  idle_wait s k h := by simp [h]
  idle_start s a k h := by simp [h]
  working_done s a h := h.2
  working_next s a x k h := by cases k <;> simp [h.1]

end Box

end StartDone

end Clocked
