import ZedSecure.Proofs.DecapsEdges
import ZedSecure.Proofs.InstallOwners

/-! What the host reads at the ML-KEM port, as a statement about two runs: as long as no word comes from
the polynomials, the words read depend on what the host wrote and on the handshake's status only. -/

namespace ZedSecure

open Clocked

section Frontend

namespace DecapsFrontend

variable {w : ℕ} (f : State w) (i : AxiIn 8) (st : Status) {m m' : DecapsMemory.State}

/-- The frontend sees the memory through the answer to a pending read. -/
theorem next_congr (hanswer : answersRead f m = answersRead f m')
    (hword : answersRead f m = true → DecapsMemory.hostRdata m = DecapsMemory.hostRdata m') :
    next f i st m = next f i st m' := by
  simp only [answersRead] at hanswer hword
  simp only [next, nextRead, ← hanswer]
  cases h : f.readMemPending && m.hostValidQ
  · rfl
  · rw [hword h]

end DecapsFrontend

end Frontend

namespace CompleteTop

open DecapsFrontend (REG_MEM_REGION REG_MEM_DATA answersRead)

variable {n : ℕ} {aead : EngineIn → EngineOut} {κ : Type} {dp : Datapath} {H : HashUnit} {E : StartDone aead κ}

section View

/-- The handshake as the frontend sees it: busy, done, fail. -/
def status (s : State n dp H E) : DecapsFrontend.Status :=
  ⟨s.core.state ≠ .idle, ProtectedTop.finalDone s.core, ProtectedTop.finalFail s.core⟩

/-- The host wrote the same: the registers, the key and the ciphertext; with a read of the window under way,
the word of these that it brings. -/
structure SameHost (p : State n dp H E × State n dp H E) : Prop where
  sync : p.1.rstSyncQ = p.2.rstSyncQ
  front : p.1.core.front = p.2.core.front
  sk : p.1.core.mem.skMem = p.2.core.mem.skMem
  ct : p.1.core.mem.ctMem = p.2.core.mem.ctMem
  word : p.1.core.front.readMemPending = true → p.1.core.mem.hostValidQ = p.2.core.mem.hostValidQ ∧
    p.1.core.mem.hostRegionQ = p.2.core.mem.hostRegionQ ∧ p.1.core.mem.hostSkQ = p.2.core.mem.hostSkQ ∧
    p.1.core.mem.hostCtQ = p.2.core.mem.hostCtQ

/-- The same on the port, and the handshakes look alike. The other pins are free. -/
def SamePort (p : State n dp H E × State n dp H E) (i : In κ × In κ) : Prop :=
  i.1.m = i.2.m ∧ status p.1 = status p.2

instance decidableSamePort (p : State n dp H E × State n dp H E) (i : In κ × In κ) : Decidable (SamePort p i) :=
  decidable_of_iff (i.1.m = i.2.m ∧ ((status p.1).busy, (status p.1).done, (status p.1).fail) =
    ((status p.2).busy, (status p.2).done, (status p.2).fail)) (by
      rw [SamePort, Prod.mk.injEq, Prod.mk.injEq, DecapsFrontend.Status.mk.injEq])

/-- The pending read is answered with a word of the polynomials. -/
def readsPoly (s : State n dp H E) : Bool :=
  answersRead s.core.front s.core.mem && decide (s.core.mem.hostRegionQ = 2)

end View

variable {maxStage : ℕ} {p : State n dp H E × State n dp H E}

/-- Behind the same port and the same status the frontends step together. -/
theorem front_next (h : SameHost p) {i : AxiIn 8} (hpoly : readsPoly p.1 = false) :
    DecapsFrontend.next p.1.core.front i (status p.1) p.1.core.mem =
      DecapsFrontend.next p.1.core.front i (status p.1) p.2.core.mem := by
  have hword := h.word
  cases hp : p.1.core.front.readMemPending
  · apply DecapsFrontend.next_congr <;> simp [answersRead, hp]
  · obtain ⟨hvalid, hregion, hsk, hct⟩ := hword hp
    apply DecapsFrontend.next_congr
    · simp only [answersRead, hvalid]
    · intro ha
      have hother : p.1.core.mem.hostRegionQ ≠ 2 := by simpa [readsPoly, ha] using hpoly
      simp only [DecapsMemory.hostRdata, ← hregion, hsk, hct, hother, if_false]

section Sample

/-- The units of the sample, where the decryption puts a coefficient into the memory. -/
def decrypting : Datapath :=
  { ProtectedTop.sampleDatapath with
    out := fun s i => { ProtectedTop.sampleDatapath.out s i with decryptPoly := ⟨true, 0, 1665⟩ } }

abbrev DecryptState : Type := State 64 decrypting ProtectedTop.sampleHash.toHashUnit sampleEngine

def fresh : DecryptState :=
  { rstSyncQ := 0, core := { ProtectedTop.sampleTop with dec := ⟨.idle, .idle, false, false, 0, 0, 0, ()⟩ }
    traffic := sampleTop.traffic }

/-- A handshake begins and is cut off by the reset. -/
def begun : List (Act (In Bool)) :=
  [sampleQuiet, sampleQuiet, { sampleQuiet with m := ⟨4, true, 1, 15, true, true, 0, false, true⟩ }, sampleQuiet,
    sampleQuiet, sampleQuiet, sampleQuiet].map .tick ++ [.reset]

end Sample

end CompleteTop

end ZedSecure
