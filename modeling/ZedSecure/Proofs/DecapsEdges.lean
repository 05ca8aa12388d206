import Mathlib.Logic.Basic
import ZedSecure.Rtl.DecapsFrontend

/-! One edge of the ML-KEM frontend, register by register: the channels, the window's address, and
what its memory port will show. -/

namespace ZedSecure

open Clocked

namespace DecapsFrontend

variable {w : ℕ} (f g : State w) (i : AxiIn 8) (st : Status) (busy : Bool) (m : DecapsMemory.State)

section Requests

/-- The two beats of a write are there after this edge, and were not before. -/
def takesWrite : Bool :=
  (f.awHold || (i.awvalid && awready f)) && (f.wHold || (i.wvalid && wready f)) && !(f.awHold && f.wHold)

def takesRead : Bool := i.arvalid && arready f

/-- A read of the window is accepted. -/
def loads : Bool := takesRead f i && decide (i.araddr = REG_MEM_DATA)

/-- A whole word is committed to the window. -/
def stores : Bool := commits f && decide (f.awaddrQ = REG_MEM_DATA) && decide (f.wstrbQ = 15#4)

/-- The answer of a commit. -/
def commitResp : BitVec 2 :=
  if f.awaddrQ = REG_MEM_DATA ∧ f.wstrbQ ≠ 15#4 ∧ f.wstrbQ ≠ 0#4 then RESP_SLVERR else RESP_OKAY

/-- The address register after a commit of `REG_MEM_ADDR`. -/
def seeked : BitVec 12 :=
  let low := if f.wstrbQ.getLsbD 0 then patch f.memAddr 0 (slice f.wdataQ 0 8) else f.memAddr
  if f.wstrbQ.getLsbD 1 then patch low 8 (slice f.wdataQ 8 4) else low

/-- The memory answers the pending read. -/
def answersRead : Bool := f.readMemPending && m.hostValidQ

theorem data_ne : REG_MEM_DATA ≠ REG_CONTROL ∧ REG_MEM_DATA ≠ REG_SLOT ∧ REG_MEM_DATA ≠ REG_SESSION ∧
    REG_MEM_DATA ≠ REG_MEM_REGION ∧ REG_MEM_DATA ≠ REG_MEM_ADDR := by decide

theorem addr_ne : REG_MEM_ADDR ≠ REG_CONTROL ∧ REG_MEM_ADDR ≠ REG_SLOT ∧ REG_MEM_ADDR ≠ REG_SESSION ∧
    REG_MEM_ADDR ≠ REG_MEM_REGION ∧ REG_MEM_ADDR ≠ REG_MEM_DATA := by decide

theorem region_ne : REG_MEM_REGION ≠ REG_CONTROL ∧ REG_MEM_REGION ≠ REG_SLOT ∧ REG_MEM_REGION ≠ REG_SESSION ∧
    REG_MEM_REGION ≠ REG_MEM_ADDR ∧ REG_MEM_REGION ≠ REG_MEM_DATA := by decide

end Requests

section Channels

theorem next_awHold : (next f i st m).awHold =
    (!commits f && (f.awHold || (i.awvalid && awready f))) := by
  simp only [next, nextRead, nextWrite, apply_ite State.awHold, ite_self]
  cases commits f <;> cases i.awvalid && awready f <;> simp

theorem next_wHold : (next f i st m).wHold = (!commits f && (f.wHold || (i.wvalid && wready f))) := by
  simp only [next, nextRead, nextWrite, apply_ite State.wHold, ite_self]
  cases commits f <;> cases i.wvalid && wready f <;> simp

theorem next_awaddrQ : (next f i st m).awaddrQ = if i.awvalid && awready f then i.awaddr else f.awaddrQ := by
  simp only [next, nextRead, nextWrite, commit, apply_ite State.awaddrQ, ite_self]

theorem next_wdataQ : (next f i st m).wdataQ = if i.wvalid && wready f then i.wdata else f.wdataQ := by
  simp only [next, nextRead, nextWrite, commit, apply_ite State.wdataQ, ite_self]

theorem next_wstrbQ : (next f i st m).wstrbQ = if i.wvalid && wready f then i.wstrb else f.wstrbQ := by
  simp only [next, nextRead, nextWrite, commit, apply_ite State.wstrbQ, ite_self]

theorem next_bvalid : (next f i st m).bvalid = (commits f || (f.bvalid && !i.bready)) := by
  simp only [next, nextRead, nextWrite, apply_ite State.bvalid, ite_self]
  cases commits f <;> cases hb : f.bvalid <;> cases i.bready <;> simp

theorem next_bresp : (next f i st m).bresp = if commits f then commitResp f else f.bresp := by
  simp only [next, nextRead, nextWrite, commit, commitResp, apply_ite State.bresp, ite_self]
  by_cases hd : f.awaddrQ = REG_MEM_DATA
  · by_cases h15 : f.wstrbQ = 15#4 <;> by_cases h0 : f.wstrbQ = 0#4 <;> simp [hd, data_ne, h15, h0]
  · simp [hd]

theorem next_rvalid : (next f i st m).rvalid = (!(f.rvalid && i.rready) &&
    (f.rvalid || (takesRead f i && !loads f i) || answersRead f m)) := by
  simp only [next, nextRead, nextWrite, commit, apply_ite State.rvalid, ite_self, loads, answersRead, takesRead]
  cases f.rvalid && i.rready <;> cases i.arvalid && arready f <;> cases f.readMemPending && m.hostValidQ <;>
    by_cases hd : i.araddr = REG_MEM_DATA <;> simp [hd]

theorem next_readMemPending : (next f i st m).readMemPending =
    (!answersRead f m && (f.readMemPending || loads f i)) := by
  simp only [next, nextRead, nextWrite, commit, apply_ite State.readMemPending, ite_self, loads, answersRead,
    takesRead]
  cases f.readMemPending && m.hostValidQ <;> cases i.arvalid && arready f <;>
    by_cases hd : i.araddr = REG_MEM_DATA <;> simp [hd]

theorem next_rdata (h : answersRead f m = true) : (next f i st m).rdata = DecapsMemory.hostRdata m := by
  simp only [answersRead] at h
  simp only [next, nextRead, h, if_true, apply_ite State.rdata, ite_self]

theorem next_rdata_keep (h : answersRead f m = false) (hr : takesRead f i = false) :
    (next f i st m).rdata = f.rdata := by
  simp only [answersRead] at h
  simp only [takesRead] at hr
  simp only [next, nextRead, nextWrite, commit, h, hr, Bool.false_eq_true, if_false, apply_ite State.rdata, ite_self]

end Channels

section Window

theorem next_memValid : (next f i st m).memValid = (loads f i || stores f) := by
  simp only [next, nextRead, nextWrite, commit, apply_ite State.memValid, ite_self, loads, stores, takesRead]
  by_cases hc : commits f = true <;> by_cases hr : i.araddr = REG_MEM_DATA <;>
    by_cases hd : f.awaddrQ = REG_MEM_DATA <;> simp [hc, hr, hd, data_ne]

theorem next_memWe : (next f i st m).memWe = (!loads f i && stores f) := by
  simp only [next, nextRead, nextWrite, commit, apply_ite State.memWe, ite_self, loads, stores, takesRead]
  by_cases hc : commits f = true <;> by_cases hr : i.araddr = REG_MEM_DATA <;>
    by_cases hd : f.awaddrQ = REG_MEM_DATA <;> simp [hc, hr, hd, data_ne]

theorem next_memAccessAddr : (next f i st m).memAccessAddr =
    if loads f i || stores f then f.memAddr else f.memAccessAddr := by
  simp only [next, nextRead, nextWrite, commit, apply_ite State.memAccessAddr, ite_self, loads, stores, takesRead]
  by_cases hv : (i.arvalid && arready f) = true <;> by_cases hc : commits f = true <;>
    by_cases hr : i.araddr = REG_MEM_DATA <;> by_cases hd : f.awaddrQ = REG_MEM_DATA <;>
      simp [hc, hr, hd, hv, data_ne]

theorem next_region : (next f i st m).region = if commits f && decide (f.awaddrQ = REG_MEM_REGION) &&
    f.wstrbQ.getLsbD 0 then slice f.wdataQ 0 2 else f.region := by
  simp only [next, nextRead, nextWrite, commit, apply_ite State.region, ite_self]
  by_cases hc : commits f = true <;> by_cases hd : f.awaddrQ = REG_MEM_REGION <;> simp [hc, hd, region_ne]

theorem next_memAddr : (next f i st m).memAddr = if answersRead f m then f.memAddr + 1
    else if stores f then f.memAddr + 1
    else if commits f && decide (f.awaddrQ = REG_MEM_ADDR) then seeked f
    else f.memAddr := by
  simp only [next, nextRead, nextWrite, commit, apply_ite State.memAddr, ite_self, answersRead, stores, seeked]
  by_cases hc : commits f = true
  · by_cases hd : f.awaddrQ = REG_MEM_DATA
    · simp [hc, hd, data_ne]
    · by_cases ha : f.awaddrQ = REG_MEM_ADDR
      · simp [hc, ha, addr_ne]
      · simp [hc, hd, ha]
  · simp [hc]

end Window

section Operands

theorem next_decapSlot : (next f i st m).decapSlot = if commits f && decide (f.awaddrQ = REG_SLOT) &&
    f.wstrbQ.getLsbD 0 then f.wdataQ.setWidth w else f.decapSlot := by
  have hne : REG_SLOT ≠ REG_CONTROL := by decide
  simp only [next, nextRead, nextWrite, commit, apply_ite State.decapSlot, ite_self]
  by_cases hc : commits f = true <;> by_cases hd : f.awaddrQ = REG_SLOT <;> simp [hc, hd, hne]

theorem next_decapSessionId : (next f i st m).decapSessionId = if commits f && decide (f.awaddrQ = REG_SESSION) then
    mergeBytes f.decapSessionId f.wdataQ f.wstrbQ else f.decapSessionId := by
  have hne : REG_SESSION ≠ REG_CONTROL ∧ REG_SESSION ≠ REG_SLOT := by decide
  simp only [next, nextRead, nextWrite, commit, apply_ite State.decapSessionId, ite_self]
  by_cases hc : commits f = true <;> by_cases hd : f.awaddrQ = REG_SESSION <;> simp [hc, hd, hne]

end Operands

end DecapsFrontend

end ZedSecure
