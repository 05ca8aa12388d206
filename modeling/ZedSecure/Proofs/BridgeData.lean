import ZedSecure.Proofs.PolyUnit
import ZedSecure.Spec.PolyJobs

/-! The data of the bridge: operands on their way into a bank, results on their way into their slot, and the unit
beside them. -/

namespace ZedSecure

open Clocked

namespace PolyBridge

open PolyAccelerator (AtRest Computing hostRdata)
open PolyLoops

variable {B : BitVec 12 → BitVec 16} {j : Job} {m host : Banks} {i : In} {d : Bool}

section Operands

/-- The banks hold what a job reads from the memory. -/
def Operands (j : Job) (mem : BitVec 12 → BitVec 16) (m : Banks) : Prop :=
  m.a = Job.slotPoly mem j.sa ∧ (j.cmd = 2 → m.b = Job.slotPoly mem j.sb)

/-- The bank a result is stored from. -/
def resultBank (cmd : BitVec 2) : BitVec 2 := if cmd = 2 then 2 else 0

theorem command_result (h : Operands j B m) (x : BitVec 8) :
    (m.command j.cmd).hostRead (resultBank j.cmd) x = j.result B x := by
  obtain ⟨ha, hb⟩ := h
  by_cases h0 : j.cmd = 0
  · simp only [Banks.command, Banks.hostRead, resultBank, Job.result, h0, ha]
    rfl
  · by_cases h1 : j.cmd = 1
    · simp only [Banks.command, Banks.hostRead, resultBank, Job.result, h1, ha]
      rfl
    · by_cases h2 : j.cmd = 2
      · have hr := congrFun (PolyAccelerator.basemul_congr (a := m.a) (b := m.b) m.r fun _ => 0) x
        rw [ha, hb h2] at hr
        simp only [Banks.command, Banks.hostRead, resultBank, Job.result, h2, ha, hb h2]
        exact hr
      · simp only [Banks.command, Banks.hostRead, resultBank, Job.result, h0, h1, h2, if_false, if_true, ha]

theorem slotPoly_exec (j : Job) {slot : BitVec 4} (h : slot ≠ j.sd) :
    Job.slotPoly (j.exec B) slot = Job.slotPoly B slot := by
  funext x
  rw [Job.slotPoly, Job.exec, PolyRam.fillSlot_slotAddr _ _ _ x.isLt le_rfl, if_neg fun hc => h hc.1]
  rfl

/-- Operands read before a store that does not touch them. -/
theorem operands_exec {r : Job} (h : Operands j B m) (hr : ¬j.Reads r.sd) : Operands j (r.exec B) m := by
  rw [Job.Reads, not_or, not_and] at hr
  refine ⟨by rw [slotPoly_exec r hr.1]; exact h.1, fun h2 => ?_⟩
  rw [slotPoly_exec r (hr.2 h2)]
  exact h.2 h2

end Operands

section Pipe

variable {s s' : State} {w src : Coeffs} {rdata : BitVec 16}

/-- The words before the one in the pipe have arrived. -/
structure Filling (s : State) (rdata : BitVec 16) (w src : Coeffs) : Prop where
  index : s.index ≤ 255
  valid : s.pipeValid = decide (0 < s.index)
  pipe : 0 < s.index → s.pipeIndex + 1 = s.index ∧ rdata = src (BitVec.ofNat 8 s.pipeIndex)
  words : ∀ x : BitVec 8, x.toNat + 1 < s.index → w x = src x

/-- Only the last word is in the pipe. -/
structure LastWord (s : State) (rdata : BitVec 16) (w src : Coeffs) : Prop where
  valid : s.pipeValid = true
  pipe : s.pipeIndex = 255
  rdata : rdata = src (BitVec.ofNat 8 255)
  words : ∀ x : BitVec 8, x.toNat < 255 → w x = src x

/-- What the word in the pipe makes of a bank. -/
def arrive (s : State) (rdata : BitVec 16) (w : Coeffs) : Coeffs :=
  if s.pipeValid then Function.update w (BitVec.ofNat 8 s.pipeIndex) rdata else w

theorem ofNat_toNat8 (x : BitVec 8) : BitVec.ofNat 8 x.toNat = x := by rw [BitVec.ofNat_toNat, BitVec.setWidth_eq]

theorem toNat_ofNat8 {n : ℕ} (hn : n < 256) : (BitVec.ofNat 8 n).toNat = n := by
  rw [BitVec.toNat_ofNat, Nat.mod_eq_of_lt hn]

theorem Filling.arrive (h : Filling s rdata w src) (x : BitVec 8) (hx : x.toNat < s.index) :
    arrive s rdata w x = src x := by
  have hpos : 0 < s.index := by omega
  obtain ⟨hp, hr⟩ := h.pipe hpos
  have hi := h.index
  rw [PolyBridge.arrive, if_pos (by rw [h.valid]; exact decide_eq_true hpos)]
  by_cases heq : x = BitVec.ofNat 8 s.pipeIndex
  · rw [heq, Function.update_self, hr]
  · rw [Function.update_of_ne heq]
    refine h.words x ?_
    have hne : x.toNat ≠ s.pipeIndex := fun hc => heq (by rw [← hc, ofNat_toNat8])
    omega

theorem LastWord.arrive (h : LastWord s rdata w src) : arrive s rdata w = src := by
  funext x
  rw [PolyBridge.arrive, if_pos h.valid, h.pipe, h.rdata]
  by_cases heq : x = BitVec.ofNat 8 255
  · rw [heq, Function.update_self]
  · rw [Function.update_of_ne heq]
    refine h.words x ?_
    have hlt := x.isLt
    have hne : x.toNat ≠ 255 := fun hc => heq (by rw [← hc, ofNat_toNat8])
    omega

theorem Filling.next (h : Filling s rdata w src) (hlt : s.index ≠ 255) (hindex : s'.index = s.index + 1)
    (hvalid : s'.pipeValid = true) (hpipe : s'.pipeIndex = s.index) :
    Filling s' (src (BitVec.ofNat 8 s.index)) (PolyBridge.arrive s rdata w) src where
  index := by have := h.index; omega
  valid := by rw [hvalid, hindex]; rfl
  pipe _ := by rw [hpipe, hindex]; exact ⟨rfl, rfl⟩
  words x hx := h.arrive x (by omega)

theorem Filling.last (h : Filling s rdata w src) (heq : s.index = 255) (hvalid : s'.pipeValid = true)
    (hpipe : s'.pipeIndex = s.index) : LastWord s' (src (BitVec.ofNat 8 s.index)) (PolyBridge.arrive s rdata w) src where
  valid := hvalid
  pipe := hpipe.trans heq
  rdata := by rw [heq]
  words x hx := h.arrive x (by omega)

theorem Filling.start (hindex : s.index = 0) (hvalid : s.pipeValid = false) : Filling s rdata w src where
  index := by omega
  valid := by rw [hvalid, hindex]; rfl
  pipe h := absurd h (by omega)
  words x hx := absurd hx (by omega)

end Pipe

section Unit

variable {s s' : State} {c : PolyAccelerator.State} {r : Option Job} {w : BitVec 16}

/-- The unit with the job `r`, whose operands are those of the memory `B`; the host's half holds `host`. -/
def CoreAt (B : BitVec 12 → BitVec 16) : Option Job → Banks → State → PolyAccelerator.State → Prop
  | none, host, s, c => s.run = false ∧ ∃ comp, AtRest s.set comp host c
  | some j, host, s, c => s.run = true ∧ s.cmd = j.cmd ∧ s.sd = j.sd ∧ ∃ m, Operands j B m ∧
      ((s.coreFin = false ∧ Computing s.set m j.cmd host c) ∨
        (s.coreFin = true ∧ AtRest s.set (m.command j.cmd) host c))

/-- An edge that leaves the job in the unit alone. -/
structure Same (s s' : State) (d : Bool) : Prop where
  set : s'.set = s.set
  run : s'.run = s.run
  cmd : s'.cmd = s.cmd
  sd : s'.sd = s.sd
  coreFin : s'.coreFin = (s.coreFin || d)

theorem CoreAt.next (h : CoreAt B r host s c) (hst : s.state ≠ .coreGo) (hsame : Same s s' c.ctrl.done) :
    CoreAt B r (host.hostWrite (coreIn s w)) s' (PolyAccelerator.next c (coreIn s w)) := by
  have hstart : (coreIn s w).start = false := decide_eq_false hst
  cases r with
  | none =>
    obtain ⟨hrun, comp, hrest⟩ := h
    refine ⟨hsame.run.trans hrun, comp, ?_⟩
    rw [hsame.set]
    exact hrest.next rfl hstart
  | some j =>
    obtain ⟨hrun, hcmd, hsd, m, hm, hcore⟩ := h
    refine ⟨hsame.run.trans hrun, hsame.cmd.trans hcmd, hsame.sd.trans hsd, m, hm, ?_⟩
    rw [hsame.set, hsame.coreFin]
    rcases hcore with ⟨hfin, hcomp⟩ | ⟨hfin, hrest⟩
    · cases hd : c.ctrl.done
      · exact Or.inl ⟨by rw [hfin]; rfl, hcomp.next rfl hd⟩
      · exact Or.inr ⟨by rw [hfin]; rfl, hcomp.finish rfl hd hstart⟩
    · exact Or.inr ⟨by rw [hfin]; rfl, hrest.next rfl hstart⟩

/-- The banks of the host's half. -/
theorem CoreAt.host_banks (h : CoreAt B r host s c) : (c.half (!s.set)).banks = host := by
  cases r with
  | none =>
    obtain ⟨-, comp, hrest⟩ := h
    exact hrest.host
  | some j =>
    obtain ⟨-, -, -, m, -, ⟨-, hcomp⟩ | ⟨-, hrest⟩⟩ := h
    · exact hcomp.host
    · exact hrest.host

/-- What the host port reads after an edge. -/
theorem rdata_coreIn (hhost : (c.half (!s.set)).banks = host) (bank : BitVec 2) :
    hostRdata (PolyAccelerator.next c (coreIn s w)) bank = host.hostRead bank (coreIn s w).hostAddr := by
  rw [PolyAccelerator.rdata_next (v := s.set) rfl, hhost]

theorem hostWrite_none (h : (s.pipeValid && loading s) = false) : host.hostWrite (coreIn s w) = host :=
  if_neg fun hc => Bool.false_ne_true (h.symm.trans hc)

end Unit

section Latch

variable {s : State} {p : System}

/-- What every edge does before the case of its state: a command may be queued, and `core_done` is kept. -/
def latch (s : State) (i : In) (d : Bool) : State :=
  let f :=
    if i.start && ready s d then
      { s with
        pend := true, pendCmd := i.command, pendSa := i.srcASlot, pendSb := i.srcBSlot, pendSd := i.dstSlot }
    else s
  if d then { f with coreFin := true } else f

theorem latch_eq (s : State) (i : In) (d : Bool) :
    latch s i d =
      { s with
        pend := (latch s i d).pend, pendCmd := (latch s i d).pendCmd, pendSa := (latch s i d).pendSa
        pendSb := (latch s i d).pendSb, pendSd := (latch s i d).pendSd, coreFin := s.coreFin || d } := by
  unfold latch
  cases i.start && ready s d <;> cases d <;> simp

/-- The queue of the bridge holds the job `q`, if any. -/
def PendAt : Option Job → State → Prop
  | none, s => s.pend = false
  | some j, s => s.pend = true ∧ s.pendCmd = j.cmd ∧ s.pendSa = j.sa ∧ s.pendSb = j.sb ∧ s.pendSd = j.sd

theorem PendAt.congr {q : Option Job} {s s' : State} (h : PendAt q s) (h1 : s'.pend = s.pend)
    (h2 : s'.pendCmd = s.pendCmd) (h3 : s'.pendSa = s.pendSa) (h4 : s'.pendSb = s.pendSb) (h5 : s'.pendSd = s.pendSd) :
    PendAt q s' := by
  cases q with
  | none => exact h1.trans h
  | some j => exact ⟨h1.trans h.1, h2.trans h.2.1, h3.trans h.2.2.1, h4.trans h.2.2.2.1, h5.trans h.2.2.2.2⟩

theorem accepted_none (h : ready p.ctrl p.core.ctrl.done = false) : Log.accepted p i = none := by
  rw [Log.accepted, h, Bool.and_false]
  rfl

theorem pendAt_latch {q : Option Job} (h : PendAt q p.ctrl) :
    PendAt (q.or (Log.accepted p i)) (latch p.ctrl i p.core.ctrl.done) ∧
      (q.or (Log.accepted p i)).toList = q.toList ++ (Log.accepted p i).toList := by
  cases q with
  | some j =>
    have hready : ready p.ctrl p.core.ctrl.done = false := by simp only [ready, h.1, Bool.not_true, Bool.false_and]
    rw [accepted_none hready]
    refine ⟨?_, rfl⟩
    rw [latch, hready, Bool.and_false]
    cases p.core.ctrl.done <;> exact h
  | none =>
    refine ⟨?_, by rw [Option.none_or]; rfl⟩
    rw [Option.none_or, Log.accepted, latch]
    cases i.start && ready p.ctrl p.core.ctrl.done <;> cases p.core.ctrl.done
    · exact h
    · exact h
    · exact ⟨rfl, rfl, rfl, rfl, rfl⟩
    · exact ⟨rfl, rfl, rfl, rfl, rfl⟩

end Latch

end PolyBridge

end ZedSecure
