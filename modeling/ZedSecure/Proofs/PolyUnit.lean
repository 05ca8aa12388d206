import ZedSecure.Proofs.PolyCommands

/-! The unit as its controller sees it: at rest or computing, with the banks of either half. -/

namespace ZedSecure

open Clocked

namespace PolyAccelerator

open PolyLoops

variable {v : Bool} {m comp host : Banks} {cmd : BitVec 2} {c : State} {i : In}

/-- Nothing to do; the half of the arithmetic holds `comp`, the half of the host `host`. -/
structure AtRest (v : Bool) (comp host : Banks) (c : State) : Prop where
  idle : c.ctrl.state = .idle
  done : c.ctrl.done = false
  quiet : Quiet c.bm
  comp : (c.half v).banks = comp
  host : (c.half (!v)).banks = host

/-- A command begun on the banks `m` is under way, or has just raised `done_o`. -/
structure Computing (v : Bool) (m : Banks) (cmd : BitVec 2) (host : Banks) (c : State) : Prop where
  run : ∃ s ins t, s.ctrl.state = .idle ∧ Quiet s.bm ∧ (s.half v).banks = m ∧ (ins 0).start = true ∧
    (ins 0).command = cmd ∧ (∀ k, (ins k).set = v) ∧ 0 < t ∧ t ≤ cycles cmd ∧ c = design.stream s ins t
  host : (c.half (!v)).banks = host

theorem next_host_banks (hv : i.set = v) : ((next c i).half (!v)).banks = ((c.half (!v)).banks).hostWrite i := by
  rw [next_other hv, host_banks]

theorem rdata_next (hv : i.set = v) (bank : BitVec 2) :
    hostRdata (next c i) bank = ((c.half (!v)).banks).hostRead bank i.hostAddr :=
  @host_rdata c v (fun _ => i) 1 (fun _ _ => hv) 0 Nat.one_pos bank

theorem quiet_tidy (h : Quiet c.bm) (hidle : c.ctrl.state = .idle) : Tidy c := by
  rw [Tidy, if_neg (by rw [hidle]; decide)]
  exact h

theorem tidy_quiet (h : Tidy c) (hidle : c.ctrl.state = .idle) : Quiet c.bm := by
  rwa [Tidy, if_neg (by rw [hidle]; decide)] at h

/-- A unit that is not started leaves its own half alone. -/
theorem idle_next (hv : i.set = v) (hidle : c.ctrl.state = .idle) (hq : Quiet c.bm) (hstart : i.start = false) :
    (next c i).ctrl.state = .idle ∧ (next c i).ctrl.done = false ∧ Quiet (next c i).bm ∧
      ((next c i).half v).banks = (c.half v).banks := by
  obtain ⟨hbanks, hbm⟩ := idle_banks hv hidle hq
  have hctrl : (next c i).ctrl = { c.ctrl with done := false } := by
    simp only [next, Ctrl.next, hidle, hstart, Bool.false_eq_true, if_false]
  rw [hctrl, hbm]
  exact ⟨hidle, rfl, hq, hbanks⟩

namespace AtRest

theorem next (h : AtRest v comp host c) (hv : i.set = v) (hstart : i.start = false) :
    AtRest v comp (host.hostWrite i) (next c i) := by
  obtain ⟨hidle, hdone, hq, hcomp⟩ := idle_next hv h.idle h.quiet hstart
  exact ⟨hidle, hdone, hq, hcomp.trans h.comp, by rw [next_host_banks hv, h.host]⟩

theorem start (h : AtRest v comp host c) (hv : i.set = v) (hstart : i.start = true) :
    Computing v comp i.command (host.hostWrite i) (PolyAccelerator.next c i) where
  run := ⟨c, fun _ => i, 1, h.idle, h.quiet, h.comp, hstart, rfl, fun _ => hv, Nat.one_pos, cycles_pos _, rfl⟩
  host := by rw [next_host_banks hv, h.host]

theorem started (h : AtRest v comp host c) (hv : i.set = v) (hstart : i.start = true) :
    (PolyAccelerator.next c i).ctrl.done = false := by
  have hlong : 1 < cycles i.command := by
    unfold cycles
    split_ifs <;> decide
  have hrun := (@command_run c v h.idle h.quiet (fun _ => i) hstart fun _ _ => hv).1
  exact (hrun 1 Nat.one_pos hlong).2

/-- The halves change places with the set bit. -/
theorem flip (h : AtRest v comp host c) : AtRest (!v) host comp c :=
  ⟨h.idle, h.done, h.quiet, h.host, by rw [Bool.not_not]; exact h.comp⟩

end AtRest

namespace Computing

theorem next (h : Computing v m cmd host c) (hv : i.set = v) (hdone : c.ctrl.done = false) :
    Computing v m cmd (host.hostWrite i) (next c i) := by
  obtain ⟨⟨s, ins, t, hidle, hq, hm, hstart, rfl, hset, hpos, hle, rfl⟩, hhost⟩ := h
  have hlt : t < cycles (ins 0).command := by
    rcases Nat.lt_or_eq_of_le hle with hlt | rfl
    · exact hlt
    · have hend := (command_run hidle hq hstart fun k _ => hset k).2.1.2.2
      exact absurd (hend.symm.trans hdone) (by decide)
  have h0 : Function.update ins t i 0 = ins 0 := Function.update_of_ne (by omega) _ _
  refine ⟨⟨s, Function.update ins t i, t + 1, hidle, hq, hm, by rw [h0]; exact hstart, by rw [h0], fun k => ?_,
    Nat.succ_pos t, hlt, ?_⟩, by rw [next_host_banks hv, hhost]⟩
  · rcases eq_or_ne k t with rfl | hne
    · rw [Function.update_self]
      exact hv
    · rw [Function.update_of_ne hne]
      exact hset k
  · have hpast : design.stream s (Function.update ins t i) t = design.stream s ins t :=
      Design.stream_congr fun k hk => Function.update_of_ne (by omega) _ _
    rw [Design.stream, hpast, Function.update_self]
    rfl

/-- The edge at which the controller sees `done_o`. -/
theorem finish (h : Computing v m cmd host c) (hv : i.set = v) (hdone : c.ctrl.done = true) (hstart : i.start = false) :
    AtRest v (m.command cmd) (host.hostWrite i) (PolyAccelerator.next c i) := by
  obtain ⟨⟨s, ins, t, hidle, hq, hm, hs, rfl, hset, hpos, hle, rfl⟩, hhost⟩ := h
  obtain ⟨hwork, ⟨hst, -, -⟩, hbanks⟩ := command_run hidle hq hs fun k _ => hset k
  obtain rfl : t = cycles (ins 0).command := by
    rcases Nat.lt_or_eq_of_le hle with hlt | heq
    · exact absurd (hdone.symm.trans (hwork t hpos hlt).2) (by decide)
    · exact heq
  have htidy : ∀ k, Tidy (design.stream s ins k) := by
    intro k
    induction k with
    | zero => exact quiet_tidy hq hidle
    | succ k ih => exact tidy_next ih
  obtain ⟨hidle', hdone', hq', hcomp⟩ := idle_next hv hst (tidy_quiet (htidy _) hst) hstart
  exact ⟨hidle', hdone', hq', by rw [hcomp, hbanks, hm], by rw [next_host_banks hv, hhost]⟩

end Computing

end PolyAccelerator

end ZedSecure
