import ZedSecure.Clocked.Handshakes

/-! Status bits that a completion sets and that stay until software clears them or starts anew. -/

namespace Clocked

/-- A completion comes with its result; `shows` is what a read of the status would tell. -/
structure Sticky (σ ι ρ : Type*) where
  completes : σ → ι → Option ρ
  clears : σ → ι → Bool
  starts : σ → ι → Bool
  shows : σ → ρ → Prop

namespace Sticky

variable {σ ι ρ : Type*} (P : Sticky σ ι ρ) (D : Design σ ι)

/-- Nothing at this edge ends or replaces what is shown. -/
def Quiet (s : σ) (i : ι) : Prop := P.completes s i = none ∧ P.clears s i = false ∧ P.starts s i = false

/-- Each completion of a run is shown from the next cycle on, for as long as nothing ends or replaces it. -/
def Kept (s : σ) (is : List ι) : Prop :=
  ∀ js i ks r, is = js ++ i :: ks → P.completes (D.after s js) i = some r →
    D.AllSteps P.Quiet (D.after s (js ++ [i])) (ks.map .tick) → P.shows (D.after s is) r

/-- No completion comes at the edge of a clear. -/
def Apart (s : σ) (i : ι) : Prop := P.completes s i = none ∨ P.clears s i = false

instance decidableQuiet [DecidableEq ρ] (s : σ) (i : ι) : Decidable (P.Quiet s i) := by
  unfold Quiet
  infer_instance

instance decidableApart [DecidableEq ρ] (s : σ) (i : ι) : Decidable (P.Apart s i) := by
  unfold Apart
  infer_instance

variable {P D}

theorem kept (hset : ∀ s i r, P.completes s i = some r → P.clears s i = false → P.shows (D.next s i) r)
    (hkeep : ∀ s i r, P.shows s r → P.Quiet s i → P.shows (D.next s i) r) {s : σ} {is : List ι}
    (hC : D.AllSteps P.Apart s (is.map .tick)) : P.Kept D s is := by
  rintro js i ks r rfl hcomplete hquiet
  obtain ⟨-, hrest⟩ := Design.allSteps_append hC
  have hclear : P.clears (D.after s js) i = false := by
    rcases hrest.1 with hnone | hclear
    · rw [hcomplete] at hnone
      cases hnone
    · exact hclear
  rw [Design.after_append, Design.after_cons]
  rw [Design.after_append, Design.after_cons, Design.after_nil] at hquiet
  exact Design.after_induct (fun s i h hq => hkeep s i r h hq) (hset _ i r hcomplete hclear) hquiet

end Sticky

end Clocked
