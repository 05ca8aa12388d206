import ZedSecure.Rtl.ProtectedTop

/-! What the handshake asks of the shared hash engine: it takes a job when it is not busy,
answers each job once within a bounded number of cycles, answers the KDF command with a
function of its operands, and looks at its pins only where the job needs them. -/

namespace ZedSecure

/-- The commands whose input comes from the SK and CT memories: H, J and the transcript. -/
def HashJob.readsMemory (a : HashJob) : Bool := a.command == 0 || a.command == 2 || a.command == 5

/-- `working a k` holds while the engine is on job `a`, `k` cycles after it took it, up to the
cycle of its done pulse. -/
structure SharedHash (kdf : BitVec 256 → BitVec 256 → BitVec 576) extends HashUnit where
  latency : ℕ
  working : HashJob → ℕ → σ → Prop
  rst_idle : ∀ s, (out (rst s)).busy = false
  idle_done : ∀ s, (out s).busy = false → (out s).done = false
  idle_wait : ∀ s x, (out s).busy = false → x.start = false → (out (next s x)).busy = false
  idle_start : ∀ s x, (out s).busy = false → x.start = true → working x.job 0 (next s x)
  working_busy : ∀ a k s, working a k s → (out s).busy = true
  working_next : ∀ a k s x, working a k s → (out s).done = false → working a (k + 1) (next s x)
  working_done : ∀ a k s x, working a k s → (out s).done = true → (out (next s x)).busy = false
  working_le : ∀ a k s, working a k s → k ≤ latency
  idle_pins : ∀ s x y, (out s).busy = false → x.start = y.start →
    (x.start = true → x.job = y.job ∧ x.sessionId = y.sessionId) → next s x = next s y
  working_pins : ∀ a k s x y, working a k s →
    (a.readsMemory = true → x.skRdata = y.skRdata ∧ x.ctRdata = y.ctRdata) → next s x = next s y
  kdf_digest : ∀ a k s, working a k s → (out s).done = true → a.command = 6 →
    (out s).digest = kdf a.data0 a.data1

namespace SharedHash

/-- An engine that answers in the cycle after it took the job. -/
def prompt (digest : HashJob → BitVec 576) :
    SharedHash (fun d0 d1 => digest { HashJob.zero with command := 6, data0 := d0, data1 := d1 }) where
  σ := Option HashJob
  rst _ := none
  next s x := if s.isNone && x.start then some x.job else none
  out s :=
    { busy := s.isSome, done := s.isSome, error := false, skAddr := 0, ctAddr := 0
      poly := ⟨false, 0, 0⟩
      digest := match s with
        | none => 0
        | some a => if a.command = 6 then
            digest { HashJob.zero with command := 6, data0 := a.data0, data1 := a.data1 }
          else digest a }
  latency := 0
  working a k s := s = some a ∧ k = 0
  rst_idle _ := rfl
  idle_done s h := h
  idle_wait s x h hs := by cases s <;> simp_all
  idle_start s x h hs := by cases s <;> simp_all
  working_busy a k s h := by rw [h.1]; rfl
  working_next a k s x h hd := by rw [h.1] at hd; cases hd
  working_done a k s x h hd := by rw [h.1]; rfl
  working_le a k s h := by rw [h.2]
  idle_pins s x y h hs hj := by
    cases hx : x.start
    · simp [← hs, hx]
    · simp [← hs, hx, (hj hx).1]
  working_pins a k s x y h hm := by simp [h.1]
  kdf_digest a k s h hd hc := by rw [h.1]; simp [hc]

end SharedHash

end ZedSecure
