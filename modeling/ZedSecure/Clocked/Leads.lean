import ZedSecure.Clocked.Design
import Mathlib.Tactic.Common

/-! From one condition to another along the edges of a run, whatever the inputs are: the rules for a
controller that walks through its states and counts. -/

namespace Clocked

namespace Design

variable {σ ι : Type*} (D : Design σ ι)

/-- From every state in `P` some number of edges leads to `Q`, through states in `W` only. -/
def Leads (W P Q : σ → Prop) : Prop :=
  ∀ s ins, P s → ∃ n, (∀ m < n, W (D.stream s ins m)) ∧ Q (D.stream s ins n)

variable {D} {W P Q R : σ → Prop}

theorem stream_add (s : σ) (ins : ℕ → ι) (n m : ℕ) :
    D.stream s ins (n + m) = D.stream (D.stream s ins n) (fun k => ins (n + k)) m := by
  induction m with
  | zero => rfl
  | succ m ih => exact congrArg (fun s => D.next s (ins (n + m))) ih

namespace Leads

theorem of_imp (h : ∀ s, P s → Q s) : D.Leads W P Q := fun s _ hP => ⟨0, by simp, h s hP⟩

theorem step (hW : ∀ s, P s → W s) (hnext : ∀ s i, P s → Q (D.next s i)) : D.Leads W P Q := by
  intro s ins hP
  refine ⟨1, fun m hm => ?_, hnext s (ins 0) hP⟩
  obtain rfl : m = 0 := by omega
  exact hW s hP

theorem trans (hPQ : D.Leads W P Q) (hQR : D.Leads W Q R) : D.Leads W P R := by
  intro s ins hP
  obtain ⟨n, hn, hQ⟩ := hPQ s ins hP
  obtain ⟨m, hm, hR⟩ := hQR _ (fun k => ins (n + k)) hQ
  refine ⟨n + m, fun j hj => ?_, by rwa [stream_add]⟩
  rcases Nat.lt_or_ge j n with hlt | hge
  · exact hn j hlt
  · obtain ⟨k, rfl⟩ := Nat.exists_eq_add_of_le hge
    rw [stream_add]
    exact hm k (by omega)

theorem mono {P' Q' : σ → Prop} (h : D.Leads W P Q) (hP : ∀ s, P' s → P s) (hQ : ∀ s, Q s → Q' s) :
    D.Leads W P' Q' := by
  intro s ins hs
  obtain ⟨n, hn, hend⟩ := h s ins (hP s hs)
  exact ⟨n, hn, hQ _ hend⟩

/-- A loop, one round after the other. -/
theorem iterate {I : ℕ → σ → Prop} {N : ℕ} (h : ∀ j < N, D.Leads W (I j) (I (j + 1))) :
    D.Leads W (I 0) (I N) := by
  induction N with
  | zero => exact of_imp fun _ hs => hs
  | succ N ih => exact (ih fun j hj => h j (by omega)).trans (h N (by omega))

end Leads

end Design

end Clocked
