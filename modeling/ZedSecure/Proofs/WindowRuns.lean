import ZedSecure.Proofs.DecapsEdges
import ZedSecure.Spec.MemoryWindow

/-! Runs of the memory window. As long as no access to it falls on a read that is under way, the
transactions of both channels take effect one after the other, each at one point. -/

namespace ZedSecure

open Clocked

namespace MemoryWindow

open DecapsFrontend (REG_MEM_REGION REG_MEM_ADDR REG_MEM_DATA RESP_OKAY RESP_SLVERR commits awready wready arready
  takesWrite takesRead loads stores answersRead)

variable {w : ℕ}

section Handshakes

/-- The write whose second beat is taken in this cycle. -/
def writeRequest (f : DecapsFrontend.State w) (i : AxiIn 8) : Request :=
  .write (if i.awvalid && awready f then i.awaddr else f.awaddrQ) (if i.wvalid && wready f then i.wdata else f.wdataQ)
    (if i.wvalid && wready f then i.wstrb else f.wstrbQ)

/-- What an observer of the port and of the engine's side sees of a cycle. -/
def events (s : DecapsPort.State w) : Act DecapsPort.In → List (Event Side Request Answer Own)
  | .reset => [.abort .reset]
  | .tick i =>
    [.own (.engine i.ports)] ++
      (if s.front.bvalid && i.axi.bready then [.respond .write (.written s.front.bresp)] else []) ++
      (if takesWrite s.front i.axi then [.invoke .write (writeRequest s.front i.axi)] else []) ++
      (if s.front.rvalid && i.axi.rready then [.respond .read (.read s.front.rdata)] else []) ++
      (if takesRead s.front i.axi then [.invoke .read (.read i.axi.araddr)] else [])

/-- A commit moves the address register. -/
def moves (f : DecapsFrontend.State w) : Bool :=
  commits f && decide (f.awaddrQ = REG_MEM_ADDR) && (f.wstrbQ.getLsbD 0 || f.wstrbQ.getLsbD 1)

/-- A commit of the data register without a byte lane. -/
def empties (f : DecapsFrontend.State w) : Bool :=
  commits f && decide (f.awaddrQ = REG_MEM_DATA) && decide (f.wstrbQ = 0#4)

/-- No word is written and the address does not move while a read of the window is accepted or under
way, nor is a word still on its way to the memory; and no write of the window is empty. -/
def Clear (s : DecapsPort.State w) (i : DecapsPort.In) : Prop :=
  empties s.front = false ∧
    (loads s.front i.axi = true → stores s.front = false ∧ moves s.front = false ∧ s.front.memWe = false) ∧
    (s.front.readMemPending = true → stores s.front = false ∧ moves s.front = false)

instance decidableClear (s : DecapsPort.State w) (i : DecapsPort.In) : Decidable (Clear s i) := by
  unfold Clear
  infer_instance

end Handshakes

section Relation

/-- The write side of the object. -/
def writeSlot (f : DecapsFrontend.State w) : Slot Request Answer :=
  if f.awHold && f.wHold then .asked (.write f.awaddrQ f.wdataQ f.wstrbQ)
  else if f.bvalid then
    if f.memValid && f.memWe then .asked (.write REG_MEM_DATA f.wdataQ 15) else .answered (some (.written f.bresp))
  else .idle

/-- The read side. The answer of another register is not known to the object. -/
def ReadSlot (s : DecapsPort.State w) (slot : Slot Request Answer) : Prop :=
  if s.front.readMemPending then
    slot = if s.front.memValid then .asked (.read REG_MEM_DATA)
      else .answered (some (.read (DecapsMemory.hostRdata s.mem)))
  else if s.front.rvalid then slot = .answered none ∨ slot = .answered (some (.read s.front.rdata))
  else slot = .idle

/-- Where an access to the memory is, and how far the address register is from the object's. -/
def Access (s : DecapsPort.State w) (addr : BitVec 12) : Prop :=
  match s.front.memValid, s.front.readMemPending with
  | false, false => s.front.memAddr = addr ∧ s.front.memWe = false
  -- a word is on its way to the memory
  | true, false => s.front.memWe = true ∧ s.front.bvalid = true ∧ s.front.bresp = RESP_OKAY ∧
      s.front.memAccessAddr = addr ∧ s.front.memAddr = addr + 1
  -- the memory is read
  | true, true => s.front.memWe = false ∧ s.mem.hostValidQ = false ∧ s.front.memAccessAddr = addr ∧
      s.front.memAddr = addr ∧ s.front.rvalid = false
  -- the word is out of the memory
  | false, true => s.front.memWe = false ∧ s.mem.hostValidQ = true ∧ s.front.memAddr + 1 = addr ∧
      s.front.rvalid = false

structure Sim (s : DecapsPort.State w) (a : Ports Side Window Request Answer) : Prop where
  sk : a.value.sk = s.mem.skMem
  ct : a.value.ct = s.mem.ctMem
  poly : a.value.poly = s.mem.polyMem
  region : a.value.region = s.front.region
  access : Access s a.value.addr
  writes : a.slot .write = writeSlot s.front
  reads : ReadSlot s (a.slot .read)
  held : (s.front.awHold || s.front.wHold) = true → s.front.bvalid = false

end Relation

section Points

/-- After the edge's access to the memory. The write and the read that are done there have taken effect. -/
structure Accessed (s : DecapsPort.State w) (i : DecapsPort.In) (b : Ports Side Window Request Answer) : Prop where
  sk : b.value.sk = DecapsMemory.write s.mem.skMem (DecapsMemory.hostWrites (DecapsFrontend.hostPort s.front) 0)
    (s.front.memAccessAddr.setWidth 9) s.front.wdataQ
  ct : b.value.ct = DecapsMemory.write s.mem.ctMem (DecapsMemory.hostWrites (DecapsFrontend.hostPort s.front) 1)
    (s.front.memAccessAddr.setWidth 8) s.front.wdataQ
  poly : b.value.poly = DecapsMemory.write s.mem.polyMem
    (DecapsMemory.hostWrites (DecapsFrontend.hostPort s.front) 2 && s.front.memAccessAddr.toNat < 3072)
    s.front.memAccessAddr (s.front.wdataQ.setWidth 16)
  region : b.value.region = s.front.region
  addr : b.value.addr = if s.front.readMemPending then s.front.memAddr + 1 else s.front.memAddr
  writes : b.slot .write = if s.front.awHold && s.front.wHold then
      .asked (.write s.front.awaddrQ s.front.wdataQ s.front.wstrbQ)
    else if s.front.bvalid then .answered (some (.written s.front.bresp)) else .idle
  pending : s.front.readMemPending = true → b.slot .read = .answered (some (.read (if s.front.memValid then
    DecapsMemory.hostRdata (DecapsMemory.next s.mem (DecapsFrontend.hostPort s.front) i.ports)
      else DecapsMemory.hostRdata s.mem)))
  reads : s.front.readMemPending = false → ReadSlot s (b.slot .read)

variable {s : DecapsPort.State w} {i : DecapsPort.In} {a : Ports Side Window Request Answer}

theorem perform_asked {p : Side} {o : Request} (h : a.slot p = .asked o) : object.perform a p =
    ⟨(apply a.value o).1, Function.update a.slot p (.answered (apply a.value o).2)⟩ := by
  rw [Atomic.perform, h]
  rfl

theorem apply_store (W : Window) (x : BitVec 32) :
    apply W (.write REG_MEM_DATA x 15) = ((W.store x).advance, some (.written RESP_OKAY)) := rfl

theorem apply_load (W : Window) : apply W (.read REG_MEM_DATA) = (W.advance, some (.read W.load)) := rfl

/-- A read with no write going on leaves the memories. -/
theorem hostWrites_of_not_we (f : DecapsFrontend.State w) (h : (f.memValid && f.memWe) = false) (r : BitVec 2) :
    DecapsMemory.hostWrites (DecapsFrontend.hostPort f) r = false := by
  simp only [DecapsMemory.hostWrites, DecapsFrontend.hostPort, h, Bool.false_and]

theorem write_of_not {n d : ℕ} (mem : BitVec n → BitVec d) (addr : BitVec n) (x : BitVec d) :
    DecapsMemory.write mem false addr x = mem := rfl

/-- The word the memory puts in its read registers is the one at the object's region and address. -/
theorem load_of_sim (h : Sim s a) (haddr : s.front.memAccessAddr = a.value.addr) :
    DecapsMemory.hostRdata (DecapsMemory.next s.mem (DecapsFrontend.hostPort s.front) i.ports) = a.value.load := by
  simp only [Window.load, h.sk, h.ct, h.poly, h.region, ← haddr]
  rfl

theorem memory_point (h : Sim s a) : ∃ b, object.Runs a [] b ∧ Accessed s i b := by
  have haccess := h.access
  have hreads := h.reads
  have hwrites := h.writes
  unfold Access at haccess
  unfold writeSlot at hwrites
  cases hv : s.front.memValid <;> cases hp : s.front.readMemPending <;>
    simp only [hv, hp] at haccess hwrites
  · obtain ⟨haddr, hwe⟩ := haccess
    refine ⟨a, .done a, ?_, ?_, ?_, h.region, ?_, ?_, ?_, fun _ => hreads⟩
    all_goals simp [hostWrites_of_not_we s.front (by rw [hv]; rfl), write_of_not, h.sk, h.ct, h.poly, hp, haddr, hwrites]
  · obtain ⟨hwe, hq, haddr, hr⟩ := haccess
    simp only [ReadSlot, hp, hv, if_true, Bool.false_eq_true, if_false] at hreads
    refine ⟨a, .done a, ?_, ?_, ?_, h.region, ?_, ?_, fun _ => ?_, fun hn => by simp [hp] at hn⟩
    all_goals simp [hostWrites_of_not_we s.front (by rw [hv]; rfl), write_of_not, h.sk, h.ct, h.poly, hp, ← haddr,
      hwrites, hreads, hv]
  · -- the word lands
    obtain ⟨hwe, hb, hresp, haddr, hnext⟩ := haccess
    have hheld : (s.front.awHold || s.front.wHold) = false :=
      eq_false_of_ne_true fun hh => Bool.false_ne_true ((h.held hh).symm.trans hb)
    rw [Bool.or_eq_false_iff] at hheld
    simp only [hheld.1, hb, hwe, Bool.false_and, Bool.false_eq_true, if_false, Bool.and_self, if_true] at hwrites
    refine ⟨_, (Atomic.Runs.done a).point .write, ?_⟩
    rw [perform_asked hwrites, apply_store]
    have hhost (r : BitVec 2) : DecapsMemory.hostWrites (DecapsFrontend.hostPort s.front) r =
        (a.value.region == r) := by
      simp [DecapsMemory.hostWrites, DecapsFrontend.hostPort, hv, hwe, h.region]
    refine ⟨?_, ?_, ?_, h.region, ?_, ?_, fun hn => by simp [hp] at hn, fun _ => hreads⟩
    · simp only [hhost, haddr, ← h.sk]
      rfl
    · simp only [hhost, haddr, ← h.ct]
      rfl
    · simp only [hhost, haddr, ← h.poly]
      rfl
    · simp [hp, hnext, Window.advance, Window.store]
    · simp [hheld.1, hb, hresp]
  · -- the word is read
    obtain ⟨hwe, hq, haddr, hnext, hr⟩ := haccess
    simp only [ReadSlot, hp, hv, if_true] at hreads
    have hhost := hostWrites_of_not_we s.front (by rw [hwe, Bool.and_false])
    refine ⟨_, (Atomic.Runs.done a).point .read, ?_⟩
    rw [perform_asked hreads, apply_load]
    refine ⟨?_, ?_, ?_, h.region, ?_, ?_, fun _ => ?_, fun hn => by simp [hp] at hn⟩
    · simp [hhost, write_of_not, ← h.sk, Window.advance]
    · simp [hhost, write_of_not, ← h.ct, Window.advance]
    · simp [hhost, write_of_not, ← h.poly, Window.advance]
    · simp [hp, hnext, Window.advance]
    · simpa [hwe] using hwrites
    · simp [hv, load_of_sim h haddr]

/-- And after its commit. A word for the memory is still under way. -/
structure Committed (s : DecapsPort.State w) (i : DecapsPort.In) (c : Ports Side Window Request Answer) : Prop where
  sk : (c.value.engine i.ports).sk = (DecapsPort.next s i).mem.skMem
  ct : (c.value.engine i.ports).ct = (DecapsPort.next s i).mem.ctMem
  poly : (c.value.engine i.ports).poly = (DecapsPort.next s i).mem.polyMem
  region : c.value.region = (DecapsPort.next s i).front.region
  addr : c.value.addr = if s.front.readMemPending then s.front.memAddr + 1
    else if commits s.front && decide (s.front.awaddrQ = REG_MEM_ADDR) then DecapsFrontend.seeked s.front
    else s.front.memAddr
  writes : c.slot .write = if commits s.front then
      if stores s.front then .asked (.write REG_MEM_DATA s.front.wdataQ 15)
      else .answered (some (.written (DecapsFrontend.commitResp s.front)))
    else if s.front.bvalid then .answered (some (.written s.front.bresp)) else .idle
  pending : s.front.readMemPending = true → c.slot .read = .answered (some (.read (if s.front.memValid then
    DecapsMemory.hostRdata (DecapsPort.next s i).mem else DecapsMemory.hostRdata s.mem)))
  reads : s.front.readMemPending = false → ReadSlot s (c.slot .read)

/-- A commit that is no store and not empty, as the object does it. -/
theorem apply_commit (f : DecapsFrontend.State w) (W : Window) (hc : commits f = true) (hs : stores f = false)
    (he : empties f = false) : apply W (.write f.awaddrQ f.wdataQ f.wstrbQ) =
      (⟨W.sk, W.ct, W.poly, if f.awaddrQ = REG_MEM_REGION ∧ f.wstrbQ.getLsbD 0 = true then slice f.wdataQ 0 2 else W.region,
        if f.awaddrQ = REG_MEM_ADDR then (W.seek f.wdataQ f.wstrbQ).addr else W.addr⟩,
        some (.written (DecapsFrontend.commitResp f))) := by
  simp only [stores, hc, Bool.true_and, Bool.and_eq_false_iff, decide_eq_false_iff_not] at hs
  simp only [empties, hc, Bool.true_and, Bool.and_eq_false_iff, decide_eq_false_iff_not] at he
  by_cases hd : f.awaddrQ = REG_MEM_DATA
  · have h15 : f.wstrbQ ≠ 15#4 := by simpa [hd] using hs
    have h0 : f.wstrbQ ≠ 0#4 := by simpa [hd] using he
    simp [apply, DecapsFrontend.commitResp, hd, h15, h0, DecapsFrontend.data_ne]
  · by_cases hr : f.awaddrQ = REG_MEM_REGION
    · simp only [apply, DecapsFrontend.commitResp, hr, DecapsFrontend.region_ne, if_false, if_true, true_and, false_and]
      split_ifs <;> rfl
    · by_cases ha : f.awaddrQ = REG_MEM_ADDR
      · simp only [apply, DecapsFrontend.commitResp, ha, DecapsFrontend.addr_ne, if_false, if_true, false_and]
        rfl
      · simp [apply, DecapsFrontend.commitResp, hd, hr, ha]

/-- A commit that does not move the address leaves it to the pending read. -/
theorem seek_of_not_moves (f : DecapsFrontend.State w) (W : Window) (hc : commits f = true)
    (ha : f.awaddrQ = REG_MEM_ADDR) (hm : moves f = false) : (W.seek f.wdataQ f.wstrbQ).addr = W.addr := by
  simp only [moves, hc, ha, decide_true, Bool.true_and, Bool.or_eq_false_iff] at hm
  simp only [Window.seek, hm.1, hm.2, Bool.false_eq_true, if_false]

theorem commit_point {b : Ports Side Window Request Answer} (h : Accessed s i b) (hC : Clear s i)
    (hheld : (s.front.awHold || s.front.wHold) = true → s.front.bvalid = false) :
    ∃ c, object.Runs b [] c ∧ Committed s i c := by
  obtain ⟨he, hload, hpend⟩ := hC
  have hmem (W : Window) (hsk : W.sk = b.value.sk) (hct : W.ct = b.value.ct) (hpoly : W.poly = b.value.poly) :
      (W.engine i.ports).sk = (DecapsPort.next s i).mem.skMem ∧
        (W.engine i.ports).ct = (DecapsPort.next s i).mem.ctMem ∧
        (W.engine i.ports).poly = (DecapsPort.next s i).mem.polyMem := by
    simp only [Window.engine, hsk, hct, hpoly, h.sk, h.ct, h.poly]
    exact ⟨rfl, rfl, rfl⟩
  by_cases hc : commits s.front = true
  · have hhold : (s.front.awHold && s.front.wHold) = true := by
      simp only [commits, Bool.and_eq_true] at hc
      simp [hc.1.1, hc.1.2]
    have hwrites := h.writes
    simp only [hhold, if_true] at hwrites
    obtain ⟨hsk, hct, hpoly⟩ := hmem b.value rfl rfl rfl
    by_cases hs : stores s.front = true
    · -- the store waits for the memory
      have hdata : s.front.awaddrQ = REG_MEM_DATA ∧ s.front.wstrbQ = 15 := by simpa [stores, hc] using hs
      have hnp : s.front.readMemPending = false :=
        eq_false_of_ne_true fun hp => Bool.false_ne_true ((hpend hp).1.symm.trans hs)
      refine ⟨b, .done b, hsk, hct, hpoly, ?_, ?_, ?_, h.pending, h.reads⟩
      · simp [DecapsPort.next, DecapsFrontend.next_region, hdata.1, h.region, (DecapsFrontend.data_ne).2.2.2.1]
      · simp [h.addr, hnp, hdata.1, (DecapsFrontend.data_ne).2.2.2.2]
      · simp [hwrites, hc, hs, hdata.1, hdata.2]
    · rw [Bool.not_eq_true] at hs
      refine ⟨_, (Atomic.Runs.done b).point .write, ?_⟩
      rw [perform_asked hwrites, apply_commit s.front b.value hc hs he]
      refine ⟨hsk, hct, hpoly, ?_, ?_, ?_, h.pending, h.reads⟩
      · simp [DecapsPort.next, DecapsFrontend.next_region, hc, h.region]
      · by_cases ha : s.front.awaddrQ = REG_MEM_ADDR
        · cases hp : s.front.readMemPending
          · simp [ha, hc, Window.seek, DecapsFrontend.seeked, h.addr, hp]
          · simp [ha, seek_of_not_moves s.front b.value hc ha (hpend hp).2, h.addr, hp]
        · simp [ha, h.addr]
      · simp [hc, hs]
  · rw [Bool.not_eq_true] at hc
    obtain ⟨hsk, hct, hpoly⟩ := hmem b.value rfl rfl rfl
    have hhold : (s.front.awHold && s.front.wHold) = false := by
      refine eq_false_of_ne_true fun hh => ?_
      rw [Bool.and_eq_true] at hh
      simp [commits, hh.1, hh.2, hheld (by rw [hh.1]; rfl)] at hc
    refine ⟨b, .done b, hsk, hct, hpoly, ?_, ?_, ?_, h.pending, h.reads⟩
    · simp [DecapsPort.next, DecapsFrontend.next_region, hc, h.region]
    · simp [h.addr, hc]
    · simp [h.writes, hc, hhold]

end Points

section Edges

variable {s : DecapsPort.State w} {i : DecapsPort.In} {a c : Ports Side Window Request Answer}

theorem held_next (hheld : (s.front.awHold || s.front.wHold) = true → s.front.bvalid = false) :
    ((DecapsPort.next s i).front.awHold || (DecapsPort.next s i).front.wHold) = true →
      (DecapsPort.next s i).front.bvalid = false := by
  simp only [DecapsPort.next, DecapsFrontend.next_awHold, DecapsFrontend.next_wHold, DecapsFrontend.next_bvalid,
    commits, awready, wready]
  revert hheld
  cases s.front.awHold <;> cases s.front.wHold <;> cases s.front.bvalid <;> simp

/-- A seek that does not move leaves the address. -/
theorem seeked_of_not_moves (f : DecapsFrontend.State w) (hm : moves f = false)
    (hc : (commits f && decide (f.awaddrQ = REG_MEM_ADDR)) = true) : DecapsFrontend.seeked f = f.memAddr := by
  simp only [moves, hc, Bool.true_and, Bool.or_eq_false_iff] at hm
  simp only [DecapsFrontend.seeked, hm.1, hm.2, Bool.false_eq_true, if_false]

/-- A read that is accepted finds the read side free. -/
theorem loads_free {f : DecapsFrontend.State w} {x : AxiIn 8} (h : takesRead f x = true) :
    f.rvalid = false ∧ f.readMemPending = false := by
  simp only [takesRead, arready, Bool.and_eq_true, Bool.not_eq_true'] at h
  exact h.2

/-- The access that the next edge finds. -/
theorem access_next (h : Sim s a) (hC : Clear s i) (hc : Committed s i c) :
    Access (DecapsPort.next s i) c.value.addr := by
  have haccess := h.access
  have haddr := hc.addr
  obtain ⟨he, hload, hpend⟩ := hC
  unfold Access at haccess ⊢
  simp only [DecapsPort.next, DecapsFrontend.next_memValid, DecapsFrontend.next_readMemPending,
    DecapsFrontend.next_memWe, DecapsFrontend.next_memAccessAddr, DecapsFrontend.next_memAddr,
    DecapsFrontend.next_rvalid, DecapsFrontend.next_bvalid, DecapsFrontend.next_bresp]
  have hseek (hm : moves s.front = false) : (if commits s.front && decide (s.front.awaddrQ = REG_MEM_ADDR) then
      DecapsFrontend.seeked s.front else s.front.memAddr) = s.front.memAddr := by
    split_ifs with hca
    · exact seeked_of_not_moves s.front hm hca
    · rfl
  cases hp : s.front.readMemPending
  · have ha : answersRead s.front s.mem = false := by rw [answersRead, hp, Bool.false_and]
    simp only [hp, Bool.false_eq_true, if_false] at haddr
    cases hl : loads s.front i.axi
    · cases hs : stores s.front
      · simp [ha, haddr]
      · -- a word was committed
        simp only [stores, Bool.and_eq_true, decide_eq_true_eq] at hs
        obtain ⟨⟨hcom, hdata⟩, hfull⟩ := hs
        simp [ha, haddr, hcom, hdata, hfull, DecapsFrontend.data_ne, DecapsFrontend.commitResp]
    · -- a read was accepted
      obtain ⟨hs, hm, hwe⟩ := hload hl
      have hfree := loads_free (Bool.and_eq_true_iff.mp hl).1
      have htake : takesRead s.front i.axi = true := (Bool.and_eq_true_iff.mp hl).1
      rw [hseek hm] at haddr ⊢
      have hv : s.front.memValid = false := by
        cases hv : s.front.memValid
        · rfl
        · simp [hv, hp, hwe] at haccess
      simp [ha, hs, haddr, hfree.1, htake, DecapsMemory.next, DecapsFrontend.hostPort, hv]
  · obtain ⟨hs, hm⟩ := hpend hp
    have hl : loads s.front i.axi = false := by
      simp [loads, takesRead, arready, hp]
    have htake : takesRead s.front i.axi = false := by
      simp [takesRead, arready, hp]
    rw [hseek hm]
    simp only [hp, if_true] at haddr
    cases hv : s.front.memValid <;> simp only [hv, hp] at haccess
    · -- the word is answered
      simp [answersRead, hp, haccess.2.1, hl, hs, haddr]
    · -- the word is read
      simp [answersRead, hp, haccess.2.1, hl, hs, haddr, haccess.2.2.2.2, htake, DecapsMemory.next,
        DecapsFrontend.hostPort, hv]

/-- The write side of the edge: the taken answer, then the new request. -/
theorem write_events (hC : Clear s i)
    (hheld : (s.front.awHold || s.front.wHold) = true → s.front.bvalid = false)
    (hw : c.slot .write = if commits s.front then
        if stores s.front then .asked (.write REG_MEM_DATA s.front.wdataQ 15)
        else .answered (some (.written (DecapsFrontend.commitResp s.front)))
      else if s.front.bvalid then .answered (some (.written s.front.bresp)) else .idle) :
    ∃ e, object.Runs c ((if s.front.bvalid && i.axi.bready then [.respond .write (.written s.front.bresp)] else []) ++
        if takesWrite s.front i.axi then [.invoke .write (writeRequest s.front i.axi)] else []) e ∧
      e.value = c.value ∧ e.slot .read = c.slot .read ∧ e.slot .write = writeSlot (DecapsPort.next s i).front := by
  have hstore : ((loads s.front i.axi || stores s.front) && (!loads s.front i.axi && stores s.front)) =
      stores s.front := by
    cases hl : loads s.front i.axi
    · simp
    · simp [(hC.2.1 hl).1]
  simp only [writeSlot, DecapsPort.next, DecapsFrontend.next_awHold, DecapsFrontend.next_wHold,
    DecapsFrontend.next_bvalid, DecapsFrontend.next_bresp, DecapsFrontend.next_awaddrQ, DecapsFrontend.next_wdataQ,
    DecapsFrontend.next_wstrbQ, DecapsFrontend.next_memValid, DecapsFrontend.next_memWe, hstore]
  cases hb : s.front.bvalid
  · cases hc : commits s.front
    · -- the channel is free
      have hhold : (s.front.awHold && s.front.wHold) = false := by simpa [commits, hb] using hc
      simp only [hc, hb, Bool.false_eq_true, if_false] at hw
      simp only [Bool.false_and, Bool.false_eq_true, if_false, List.nil_append, Bool.not_false, Bool.true_and,
        Bool.or_self]
      have htake : takesWrite s.front i.axi = ((s.front.awHold || (i.axi.awvalid && awready s.front)) &&
          (s.front.wHold || (i.axi.wvalid && wready s.front))) := by
        rw [takesWrite, hhold, Bool.not_false, Bool.and_true]
      rw [← htake]
      cases takesWrite s.front i.axi
      · exact ⟨c, .done c, rfl, rfl, by simp [hw]⟩
      · refine ⟨_, .one (Atomic.event_invoke hw _), rfl, rfl, ?_⟩
        simp [writeRequest]
    · -- the commit of this edge
      have hhold : s.front.awHold = true ∧ s.front.wHold = true := by simpa [commits, hb] using hc
      refine ⟨c, ?_, rfl, rfl, ?_⟩
      · simp only [takesWrite, hhold.1, hhold.2]
        exact .done c
      · simp only [hw, hc, wready, hhold.2]
        simp
  · -- an answer is offered
    have hhold : s.front.awHold = false ∧ s.front.wHold = false :=
      Bool.or_eq_false_iff.mp (eq_false_of_ne_true fun hh => Bool.false_ne_true ((hheld hh).symm.trans hb))
    have hc : commits s.front = false := by simp [commits, hb]
    have hns : stores s.front = false := by simp [stores, hc]
    have htake : takesWrite s.front i.axi = false := by simp [takesWrite, hhold.1, awready, hb]
    simp only [hc, hb, Bool.false_eq_true, if_false, if_true] at hw
    cases hr : i.axi.bready
    · refine ⟨c, ?_, rfl, rfl, ?_⟩
      · rw [htake]
        exact .done c
      · simp [hw, hhold.1, hhold.2, awready, hb, hc, hns]
    · refine ⟨{ c with slot := Function.update c.slot .write .idle }, ?_, rfl, rfl, ?_⟩
      · rw [htake]
        exact .one (Atomic.event_respond hw (Or.inr rfl))
      · simp [hhold.1, hhold.2, awready, hb, hc]

/-- The read side: the taken answer, the new request, and at once the read of another register. -/
theorem read_events {e : Ports Side Window Request Answer} (hC : Clear s i)
    (hfree : s.front.readMemPending = true → s.front.rvalid = false ∧ s.mem.hostValidQ = !s.front.memValid)
    (hp : s.front.readMemPending = true → e.slot .read = .answered (some (.read (if s.front.memValid then
      DecapsMemory.hostRdata (DecapsPort.next s i).mem else DecapsMemory.hostRdata s.mem))))
    (hr : s.front.readMemPending = false → ReadSlot s (e.slot .read)) :
    ∃ t, object.Runs e ((if s.front.rvalid && i.axi.rready then [.respond .read (.read s.front.rdata)] else []) ++
        if takesRead s.front i.axi then [.invoke .read (.read i.axi.araddr)] else []) t ∧
      t.value = e.value ∧ t.slot .write = e.slot .write ∧ ReadSlot (DecapsPort.next s i) (t.slot .read) := by
  unfold ReadSlot at hr ⊢
  simp only [DecapsPort.next, DecapsFrontend.next_memValid, DecapsFrontend.next_readMemPending,
    DecapsFrontend.next_rvalid]
  cases hpend : s.front.readMemPending
  · have ha : answersRead s.front s.mem = false := by rw [answersRead, hpend, Bool.false_and]
    have hslot := hr hpend
    simp only [hpend, Bool.false_eq_true, if_false] at hslot
    cases hv : s.front.rvalid
    · simp only [hv, Bool.false_eq_true, if_false] at hslot
      cases ht : takesRead s.front i.axi
      · exact ⟨e, .done e, rfl, rfl, by simp [ha, loads, ht, hslot]⟩
      · have hinvoke := Atomic.Runs.one (Atomic.event_invoke (A := object) hslot (.read i.axi.araddr))
        cases hl : loads s.front i.axi
        · -- another register is read at once
          have hother : i.axi.araddr ≠ REG_MEM_DATA := by simpa [loads, ht] using hl
          refine ⟨_, hinvoke.point .read, ?_⟩
          rw [perform_asked (o := .read i.axi.araddr) (by simp)]
          simp [apply, hother, ha]
        · have hdata : i.axi.araddr = REG_MEM_DATA := by simpa [loads, ht] using hl
          exact ⟨_, hinvoke, rfl, rfl, by simp [ha, hdata]⟩
    · -- an answer is offered
      simp only [hv, if_true] at hslot
      have ht : takesRead s.front i.axi = false := by simp [takesRead, arready, hv]
      cases hready : i.axi.rready
      · refine ⟨e, by rw [ht]; exact .done e, rfl, rfl, ?_⟩
        simp [ha, loads, ht, DecapsFrontend.next_rdata_keep _ _ _ _ ha ht, hslot]
      · refine ⟨{ e with slot := Function.update e.slot .read .idle }, ?_, rfl, rfl, ?_⟩
        · rw [ht]
          rcases hslot with hslot | hslot
          · exact .one (Atomic.event_respond hslot (Or.inl rfl))
          · exact .one (Atomic.event_respond hslot (Or.inr rfl))
        · simp [ha, loads, ht]
  · -- the read of the window goes on
    obtain ⟨hv, hq⟩ := hfree hpend
    have ht : takesRead s.front i.axi = false := by simp [takesRead, arready, hpend]
    refine ⟨e, by rw [hv, ht]; exact .done e, rfl, rfl, ?_⟩
    cases hm : s.front.memValid
    · have ha : answersRead s.front s.mem = true := by simp [answersRead, hpend, hq, hm]
      simp [ha, hv, hp hpend, hm, DecapsFrontend.next_rdata _ _ _ _ ha]
    · have ha : answersRead s.front s.mem = false := by simp [answersRead, hq, hm]
      simp [ha, hp hpend, hm, loads, ht, (hC.2.2 hpend).1, DecapsPort.next]

end Edges

section Runs

variable {s : DecapsPort.State w} {a : Ports Side Window Request Answer}

/-- The object over memories `m`, at its first word and with nothing under way. -/
def start (m : DecapsMemory.State) : Ports Side Window Request Answer :=
  ⟨⟨m.skMem, m.ctMem, m.polyMem, 0, 0⟩, fun _ => .idle⟩

theorem sim_start (m : DecapsMemory.State) : Sim (w := w) ⟨DecapsFrontend.reset, m⟩ (start m) where
  sk := rfl
  ct := rfl
  poly := rfl
  region := rfl
  access := ⟨rfl, rfl⟩
  writes := rfl
  reads := rfl
  held _ := rfl

theorem sim_reset (h : Sim s a) : ∃ a', object.Runs a (events s .reset) a' ∧ Sim (DecapsPort.rst s) a' := by
  refine ⟨start s.mem, .one ?_, sim_start s.mem⟩
  simp only [start, ← h.sk, ← h.ct, ← h.poly]
  rfl

/-- While a read of the window is under way no answer is offered, and the word comes after the access. -/
theorem pending_free (h : Sim s a) (hp : s.front.readMemPending = true) :
    s.front.rvalid = false ∧ s.mem.hostValidQ = !s.front.memValid := by
  have haccess := h.access
  unfold Access at haccess
  cases hv : s.front.memValid <;> simp only [hv, hp] at haccess
  · exact ⟨haccess.2.2.2, haccess.2.1⟩
  · exact ⟨haccess.2.2.2.2, haccess.2.1⟩

/-- One edge: its accesses and its commit first, then what is seen of it. -/
theorem sim_next {i : DecapsPort.In} (h : Sim s a) (hC : Clear s i) :
    ∃ a', object.Runs a (events s (.tick i)) a' ∧ Sim (DecapsPort.next s i) a' := by
  obtain ⟨b, hab, hb⟩ := memory_point (i := i) h
  obtain ⟨c, hbc, hc⟩ := commit_point hb hC h.held
  have hown : object.Runs c [.own (.engine i.ports)] { c with value := c.value.engine i.ports } := .one rfl
  obtain ⟨e, hce, hvalue, hread, hwrite⟩ := write_events (c := { c with value := c.value.engine i.ports }) hC h.held
    hc.writes
  obtain ⟨t, het, hvalue', hwrite', hread'⟩ := read_events (e := e) hC (pending_free h)
    (fun hp => hread.trans (hc.pending hp)) (fun hp => by rw [hread]; exact hc.reads hp)
  refine ⟨t, ?_, ?_⟩
  · have hrun := ((hab.trans hbc).trans hown).trans (hce.trans het)
    simpa only [events, List.append_assoc, List.nil_append] using hrun
  · have hv : t.value = c.value.engine i.ports := hvalue'.trans hvalue
    exact
      { sk := by rw [hv]; exact hc.sk
        ct := by rw [hv]; exact hc.ct
        poly := by rw [hv]; exact hc.poly
        region := by rw [hv]; exact hc.region
        access := by rw [hv]; exact access_next h hC hc
        writes := hwrite'.trans hwrite
        reads := hread'
        held := held_next h.held }

/-- Along every clear run the transactions take effect one after the other, each between its handshakes, and
what they store is in the memories. -/
theorem window_linearizable (m : DecapsMemory.State) (acts : List (Act DecapsPort.In))
    (hC : (DecapsPort.design w).AllSteps Clear ⟨DecapsFrontend.reset, m⟩ acts) :
    ∃ t, object.Runs (start m) ((DecapsPort.design w).trace events ⟨DecapsFrontend.reset, m⟩ acts) t ∧
      t.value.sk = ((DecapsPort.design w).run ⟨DecapsFrontend.reset, m⟩ acts).mem.skMem ∧
      t.value.ct = ((DecapsPort.design w).run ⟨DecapsFrontend.reset, m⟩ acts).mem.ctMem ∧
      t.value.poly = ((DecapsPort.design w).run ⟨DecapsFrontend.reset, m⟩ acts).mem.polyMem := by
  obtain ⟨t, hrun, hsim⟩ := Atomic.linearizable (DecapsPort.design w) (fun s a => sim_reset)
    (fun s i a => sim_next) (sim_start m) hC
  exact ⟨t, hrun, hsim.sk, hsim.ct, hsim.poly⟩

end Runs

section Traces

/-- The master takes every answer and asks nothing. -/
def waits : AxiIn 8 := ⟨0, false, 0, 0, false, true, 0, false, true⟩

/-- Address and whole word in one cycle. -/
def writeBeats (addr : BitVec 8) (x : BitVec 32) : AxiIn 8 :=
  { waits with awaddr := addr, awvalid := true, wdata := x, wstrb := 15, wvalid := true }

def readBeat (addr : BitVec 8) : AxiIn 8 := { waits with araddr := addr, arvalid := true }

/-- The engine is idle. -/
def tick (axi : AxiIn 8) : Act DecapsPort.In :=
  .tick ⟨axi, ⟨false, false, false⟩, ⟨false, 0, 0, false, 0, 0, false, 0, 0⟩⟩

def blank : DecapsMemory.State := ⟨fun _ => 0, fun _ => 0, fun _ => 0, 0, 0, 0, 0, false, 0, 0, 0⟩

/-- A word is stored, and after its answer the address goes back and the word is loaded. -/
def inTurn : List (Act DecapsPort.In) :=
  [writeBeats REG_MEM_DATA 7, waits, waits, writeBeats REG_MEM_ADDR 0, waits, waits, readBeat REG_MEM_DATA, waits,
    waits, waits].map tick

theorem window_linearizable_inTurn : ∃ t,
    object.Runs (start blank) ((DecapsPort.design 6).trace events ⟨DecapsFrontend.reset, blank⟩ inTurn) t ∧
      t.value.sk = ((DecapsPort.design 6).run ⟨DecapsFrontend.reset, blank⟩ inTurn).mem.skMem ∧
      t.value.ct = ((DecapsPort.design 6).run ⟨DecapsFrontend.reset, blank⟩ inTurn).mem.ctMem ∧
      t.value.poly = ((DecapsPort.design 6).run ⟨DecapsFrontend.reset, blank⟩ inTurn).mem.polyMem :=
  window_linearizable blank inTurn (by decide +kernel)

/-- The read is accepted in the cycle in which the word is committed. Both words from the start on are loaded after. -/
def collision : List (Act DecapsPort.In) :=
  [writeBeats REG_MEM_DATA 7, readBeat REG_MEM_DATA, waits, waits, waits, writeBeats REG_MEM_ADDR 0, waits,
    readBeat REG_MEM_DATA, waits, waits, waits, readBeat REG_MEM_DATA, waits, waits, waits].map tick

theorem mem_sides (p : Side) : p ∈ [Side.write, Side.read] := by cases p <;> simp

/-- The word is answered and in no place of the window. -/
theorem store_lost : ¬ ∃ t,
    object.Runs (start blank) ((DecapsPort.design 6).trace events ⟨DecapsFrontend.reset, blank⟩ collision) t := by
  rintro ⟨t, hruns⟩
  have hmem := hruns.mem_explore (fun p => mem_sides p)
  have hnone : (object.explore [.write, .read] (start blank)
      ((DecapsPort.design 6).trace events ⟨DecapsFrontend.reset, blank⟩ collision)).length = 0 := by decide +kernel
  rw [List.eq_nil_of_length_eq_zero hnone] at hmem
  simp at hmem

end Traces

end MemoryWindow

end ZedSecure
