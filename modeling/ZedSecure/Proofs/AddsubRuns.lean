import Mathlib.Tactic.NormNum
import ZedSecure.Rtl.PolyAddsub

/-! The sum or difference of two polynomials. The rounded quotient leaves a remainder within one modulus of zero,
and the pipeline delivers the coefficient before while the next two are read. -/

namespace ZedSecure

open Clocked

namespace CoeffAddsub

variable {a b : BitVec 16} {sub : Bool} {s : BitVec 18}

/-- The result in whole numbers. -/
def exact (a b : BitVec 16) (sub : Bool) : ℤ := (if sub then a.toInt - b.toInt else a.toInt + b.toInt) % 3329

theorem word_range (a : BitVec 16) : -32768 ≤ a.toInt ∧ a.toInt ≤ 32767 := by
  have hlo := BitVec.le_toInt a
  have hhi := BitVec.toInt_lt (x := a)
  norm_num at hlo hhi
  exact ⟨hlo, by omega⟩

theorem toInt_sum : (sum a b sub).toInt = if sub then a.toInt - b.toInt else a.toInt + b.toInt := by
  have ha := word_range a
  have hb := word_range b
  cases sub
  · rw [sum, if_neg (by decide), BitVec.toInt_add, BitVec.toInt_signExtend_of_le (by decide),
      BitVec.toInt_signExtend_of_le (by decide), Int.bmod_eq_of_le (by norm_num; omega) (by norm_num; omega),
      if_neg (by decide)]
  · rw [sum, if_pos rfl, BitVec.toInt_sub, BitVec.toInt_signExtend_of_le (by decide),
      BitVec.toInt_signExtend_of_le (by decide), Int.bmod_eq_of_le (by norm_num; omega) (by norm_num; omega),
      if_pos rfl]

/-- The range of a sum of two words. -/
def InRange (s : BitVec 18) : Prop := -65536 ≤ s.toInt ∧ s.toInt ≤ 65535

theorem inRange_sum : InRange (sum a b sub) := by
  have ha := word_range a
  have hb := word_range b
  rw [InRange, toInt_sum]
  cases sub
  · simp only [Bool.false_eq_true, if_false]
    omega
  · simp only [if_true]
    omega

theorem toInt_trunc {v w : ℕ} (x : BitVec w) (h : v ≤ w) : (x.setWidth v).toInt = x.toInt.bmod (2 ^ v) := by
  rw [← BitVec.signExtend_eq_setWidth_of_le x h, BitVec.toInt_signExtend_eq_toInt_bmod_of_le x h]

theorem toInt_quotient (h : InRange s) : (quotient s).toInt = (20159 * s.toInt + 33554432) / 67108864 := by
  obtain ⟨hlo, hhi⟩ := h
  have hmul : (20159#34 * s.signExtend 34).toInt = 20159 * s.toInt := by
    rw [BitVec.toInt_mul, BitVec.toInt_signExtend_of_le (by decide), show (20159#34).toInt = 20159 from rfl,
      Int.bmod_eq_of_le (by norm_num; omega) (by norm_num; omega)]
  have hadd : (20159#34 * s.signExtend 34 + 33554432#34).toInt = 20159 * s.toInt + 33554432 := by
    rw [BitVec.toInt_add, hmul, show (33554432#34).toInt = 33554432 from rfl,
      Int.bmod_eq_of_le (by norm_num; omega) (by norm_num; omega)]
  have hshift : ((20159#34 * s.signExtend 34 + 33554432#34).sshiftRight 26).toInt =
      (20159 * s.toInt + 33554432) / 67108864 := by
    rw [BitVec.toInt_sshiftRight, hadd, Int.shiftRight_eq_div_pow]
    norm_num
  rw [quotient, toInt_trunc _ (by decide), hshift]
  exact Int.bmod_eq_of_le (by norm_num; omega) (by norm_num; omega)

/-- The remainder of the rounded quotient lies within half a modulus of zero. -/
theorem toInt_remainder (h : InRange s) : (remainder s (quotient s)).toInt =
    s.toInt - (20159 * s.toInt + 33554432) / 67108864 * 3329 := by
  have hq := toInt_quotient h
  obtain ⟨hlo, hhi⟩ := h
  have hmul : ((quotient s).signExtend 20 * 3329#20).toInt = (20159 * s.toInt + 33554432) / 67108864 * 3329 := by
    rw [BitVec.toInt_mul, BitVec.toInt_signExtend_of_le (by decide), hq, show (3329#20).toInt = 3329 from rfl,
      Int.bmod_eq_of_le (by norm_num; omega) (by norm_num; omega)]
  rw [remainder, BitVec.toInt_sub, hmul, BitVec.toInt_signExtend_of_le (by decide)]
  exact Int.bmod_eq_of_le (by norm_num; omega) (by norm_num; omega)

/-- What the three registers make of a sum. -/
def reduce (s : BitVec 18) : BitVec 16 := canonical ⟨0, 0, 0, remainder s (quotient s)⟩

theorem toInt_reduce (h : InRange s) : (reduce s).toInt = s.toInt % 3329 := by
  have hr := toInt_remainder h
  obtain ⟨hlo, hhi⟩ := h
  simp only [reduce, canonical, BitVec.slt_eq_decide, hr, decide_eq_true_eq]
  rw [toInt_trunc _ (by decide)]
  split_ifs with hneg
  · have hadd : (remainder s (quotient s) + 3329#20).toInt =
        s.toInt - (20159 * s.toInt + 33554432) / 67108864 * 3329 + 3329 := by
      rw [BitVec.toInt_add, hr, show (3329#20).toInt = 3329 from rfl]
      exact Int.bmod_eq_of_le (by norm_num; omega) (by norm_num; omega)
    rw [show (0 : BitVec 20).toInt = 0 from rfl] at hneg
    rw [hadd, Int.bmod_eq_of_le (by norm_num; omega) (by norm_num; omega)]
    omega
  · rw [show (0 : BitVec 20).toInt = 0 from rfl] at hneg
    rw [hr, Int.bmod_eq_of_le (by norm_num; omega) (by norm_num; omega)]
    omega

theorem toInt_reduce_sum : (reduce (sum a b sub)).toInt = exact a b sub := by
  rw [toInt_reduce inRange_sum, toInt_sum, exact]

section Pipeline

variable (u : CoeffAddsub) (s : BitVec 18)

/-- The sum stands in the second stage. -/
def Divided : Prop := u.sumDelayReg = s ∧ u.quotientReg = quotient s

theorem next_sumReg (a b : BitVec 16) (sub : Bool) : (u.next a b sub).sumReg = sum a b sub := rfl

variable {u s}

theorem next_divided (h : u.sumReg = s) (a b : BitVec 16) (sub : Bool) : (u.next a b sub).Divided s :=
  ⟨h, congrArg quotient h⟩

theorem next_canonical (h : u.Divided s) (a b : BitVec 16) (sub : Bool) : (u.next a b sub).canonical = reduce s := by
  simp only [canonical, reduce, next, h.1, h.2]

end Pipeline

end CoeffAddsub

namespace PolyAddsub

open PolyRam CoeffAddsub

section Runs

variable (mem0 : BitVec 12 → BitVec 16) (j : In)

def sumAt (k : ℕ) : BitVec 18 := sum (mem0 (slotAddr j.srcASlot k)) (mem0 (slotAddr j.srcBSlot k)) j.subtract

/-- The first `k` coefficients are in the destination. -/
def written (k : ℕ) : BitVec 12 → BitVec 16 := fillSlot mem0 j.dstSlot k fun i => reduce (sumAt mem0 j i)

/-- The controller on job `j` at coefficient `k`. -/
def onJob (st : St) (k : ℕ) (left : BitVec 16) (u : CoeffAddsub) : State :=
  ⟨st, BitVec.ofNat 8 k, j.srcASlot, j.srcBSlot, j.dstSlot, j.subtract, left, u⟩

/-- Coefficient `k` is to be read; the sum before it is in the unit. -/
def AtReadA (k : ℕ) (p : State × PolyRam) : Prop :=
  ∃ left u r, p = (onJob j .readA k left u, ⟨written mem0 j (k - 1), r⟩) ∧
    (0 < k → u.sumReg = sumAt mem0 j (k - 1))

def AtReadB (k : ℕ) (p : State × PolyRam) : Prop :=
  ∃ left u, p = (onJob j .readB k left u, ⟨written mem0 j (k - 1), mem0 (slotAddr j.srcASlot k)⟩) ∧
    (0 < k → u.Divided (sumAt mem0 j (k - 1)))

def AtIssue (k : ℕ) (p : State × PolyRam) : Prop :=
  ∃ u, p = (onJob j .issueWrite k (mem0 (slotAddr j.srcASlot k)) u,
      ⟨written mem0 j (k - 1), mem0 (slotAddr j.srcBSlot k)⟩) ∧
    (0 < k → u.canonical = reduce (sumAt mem0 j (k - 1)))

/-- All sums are made and the last one has come to `P` in the unit. -/
def AtDrain (st : St) (P : CoeffAddsub → BitVec 18 → Prop) (p : State × PolyRam) : Prop :=
  ∃ left u r, p = (onJob j st 255 left u, ⟨written mem0 j 255, r⟩) ∧ P u (sumAt mem0 j 255)

def Working (p : State × PolyRam) : Prop := busy p.1 = true ∧ done p.1 = false

variable {mem0 j} {k : ℕ}

/-- A coefficient is read before any write reaches it, also where the destination is a source. -/
theorem written_read (slot : BitVec 4) (hk : k < 256) :
    written mem0 j (k - 1) (slotAddr slot k) = mem0 (slotAddr slot k) := by
  rw [written, fillSlot_slotAddr _ _ _ hk (by omega), if_neg (by omega)]

theorem append_index (slot : BitVec 4) (hk : k < 256) : slot ++ BitVec.ofNat 8 k = slotAddr slot k := by
  rw [slotAddr_append, BitVec.toNat_ofNat, Nat.mod_eq_of_lt hk]

theorem next_written (m : PolyRam) (hm : m.mem = written mem0 j k) (hd : j.dstSlot.toNat < 12) (hk : k < 256)
    {port : PolyPort} (hwe : port.we = true) (haddr : port.addr = slotAddr j.dstSlot k)
    (hdata : port.wdata = reduce (sumAt mem0 j k)) : (m.next port).mem = written mem0 j (k + 1) :=
  next_fillWords mem0 (fun i => reduce (sumAt mem0 j i)) hm (by omega) hwe haddr hdata

theorem readA_leads (hk : k < 256) : design.Leads Working (AtReadA mem0 j k) (AtReadB mem0 j k) := by
  apply Design.Leads.step
  · rintro p ⟨left, u, r, rfl, -⟩
    exact ⟨rfl, rfl⟩
  · rintro p i ⟨left, u, r, rfl, hsum⟩
    refine ⟨left, _, ?_, fun hpos => next_divided (hsum hpos) left r j.subtract⟩
    have hread : written mem0 j (k - 1) (j.srcASlot ++ BitVec.ofNat 8 k) = mem0 (slotAddr j.srcASlot k) := by
      rw [append_index _ hk, written_read _ hk]
    rw [← hread]
    rfl

theorem readB_leads (hk : k < 256) : design.Leads Working (AtReadB mem0 j k) (AtIssue mem0 j k) := by
  apply Design.Leads.step
  · rintro p ⟨left, u, rfl, -⟩
    exact ⟨rfl, rfl⟩
  · rintro p i ⟨left, u, rfl, hdiv⟩
    refine ⟨_, ?_, fun hpos => next_canonical (hdiv hpos) left (mem0 (slotAddr j.srcASlot k)) j.subtract⟩
    have hread : written mem0 j (k - 1) (j.srcBSlot ++ BitVec.ofNat 8 k) = mem0 (slotAddr j.srcBSlot k) := by
      rw [append_index _ hk, written_read _ hk]
    rw [← hread]
    rfl

/-- The write that goes with a sum is the one of the sum before. -/
theorem issue_mem (hd : j.dstSlot.toNat < 12) (hk : k < 256) (left : BitVec 16) {u : CoeffAddsub}
    (hu : 0 < k → u.canonical = reduce (sumAt mem0 j (k - 1))) (r : BitVec 16) :
    (PolyRam.next ⟨written mem0 j (k - 1), r⟩ (polyPort (onJob j .issueWrite k left u))).mem = written mem0 j k := by
  rcases Nat.eq_zero_or_pos k with rfl | hpos
  · rfl
  · obtain ⟨n, rfl⟩ : ∃ n, k = n + 1 := ⟨k - 1, by omega⟩
    have hne : BitVec.ofNat 8 (n + 1) ≠ 0#8 := by bv_omega
    apply next_written _ rfl hd (by omega)
    · simp only [polyPort, onJob, decide_true, Bool.true_and, Bool.or_eq_true]
      exact Or.inl (decide_eq_true hne)
    · have hoff : writeOffset (onJob j .issueWrite (n + 1) left u) = BitVec.ofNat 8 n := by
        rw [writeOffset, if_neg (show ¬ (onJob j .issueWrite (n + 1) left u).index = 0 from hne)]
        simp [onJob, BitVec.ofNat_add]
      simp only [polyPort, hoff]
      exact append_index _ (by omega)
    · exact hu hpos

theorem issue_leads (hd : j.dstSlot.toNat < 12) (hk : k < 255) :
    design.Leads Working (AtIssue mem0 j k) (AtReadA mem0 j (k + 1)) := by
  apply Design.Leads.step
  · rintro p ⟨u, rfl, -⟩
    exact ⟨rfl, rfl⟩
  · rintro p i ⟨u, rfl, hu⟩
    have hmem := issue_mem hd (by omega) (mem0 (slotAddr j.srcASlot k)) hu (mem0 (slotAddr j.srcBSlot k))
    have hlast : BitVec.ofNat 8 k ≠ 255#8 := by bv_omega
    refine ⟨mem0 (slotAddr j.srcASlot k), u.next _ (mem0 (slotAddr j.srcBSlot k)) j.subtract, ?_, ?_, fun _ => rfl⟩
    · exact written mem0 j (k - 1) (polyPort (onJob j .issueWrite k (mem0 (slotAddr j.srcASlot k)) u)).addr
    · refine Prod.ext ?_ ?_
      · simp [design, next, onJob, hlast, BitVec.ofNat_add]
      · rw [Nat.add_sub_cancel, ← hmem]
        rfl

theorem round_leads (hd : j.dstSlot.toNat < 12) (hk : k < 255) :
    design.Leads Working (AtReadA mem0 j k) (AtReadA mem0 j (k + 1)) :=
  ((readA_leads (by omega)).trans (readB_leads (by omega))).trans (issue_leads hd hk)

theorem last_leads (hd : j.dstSlot.toNat < 12) : design.Leads Working (AtIssue mem0 j 255)
    (AtDrain mem0 j .drain0 fun u s => u.sumReg = s) := by
  apply Design.Leads.step
  · rintro p ⟨u, rfl, -⟩
    exact ⟨rfl, rfl⟩
  · rintro p i ⟨u, rfl, hu⟩
    have hmem := issue_mem hd (by omega) (mem0 (slotAddr j.srcASlot 255)) hu (mem0 (slotAddr j.srcBSlot 255))
    refine ⟨mem0 (slotAddr j.srcASlot 255), u.next _ (mem0 (slotAddr j.srcBSlot 255)) j.subtract, ?_, ?_, rfl⟩
    · exact written mem0 j 254 (polyPort (onJob j .issueWrite 255 (mem0 (slotAddr j.srcASlot 255)) u)).addr
    · refine Prod.ext rfl ?_
      rw [← hmem]
      rfl

theorem drain_leads : design.Leads Working (AtDrain mem0 j .drain0 fun u s => u.sumReg = s)
    (AtDrain mem0 j .finalWrite fun u s => u.canonical = reduce s) := by
  apply Design.Leads.trans (Q := AtDrain mem0 j .drain1 Divided)
  · apply Design.Leads.step
    · rintro p ⟨left, u, r, rfl, -⟩
      exact ⟨rfl, rfl⟩
    · rintro p i ⟨left, u, r, rfl, hu⟩
      exact ⟨left, _, _, rfl, next_divided hu left r j.subtract⟩
  · apply Design.Leads.step
    · rintro p ⟨left, u, r, rfl, -⟩
      exact ⟨rfl, rfl⟩
    · rintro p i ⟨left, u, r, rfl, hu⟩
      exact ⟨left, _, _, rfl, next_canonical hu left r j.subtract⟩

theorem final_leads (hd : j.dstSlot.toNat < 12) : design.Leads Working
    (AtDrain mem0 j .finalWrite fun u s => u.canonical = reduce s)
    (fun p => done p.1 = true ∧ p.2.mem = written mem0 j 256) := by
  apply Design.Leads.step
  · rintro p ⟨left, u, r, rfl, -⟩
    exact ⟨rfl, rfl⟩
  · rintro p i ⟨left, u, r, rfl, hu⟩
    refine ⟨rfl, next_written _ rfl hd (by decide) rfl ?_ hu⟩
    exact append_index j.dstSlot (by decide)

end Runs

/-- The coefficients are in the destination and everything else is as it was. -/
def Ends (m : PolyRam) (j : In) (p : State × PolyRam) : Prop :=
  done p.1 = true ∧
    (∀ i < 256, (p.2.mem (slotAddr j.dstSlot i)).toInt =
      exact (m.mem (slotAddr j.srcASlot i)) (m.mem (slotAddr j.srcBSlot i)) j.subtract) ∧
    ∀ a, (∀ i < 256, a ≠ slotAddr j.dstSlot i) → p.2.mem a = m.mem a

/-- Whatever the memory holds and wherever the slots are. -/
theorem addsub_exact (s : State) (m : PolyRam) (j : In) (hidle : busy s = false) (hstart : j.start = true)
    (hd : j.dstSlot.toNat < 12) :
    design.Leads Working (fun p => p = design.next (s, m) j) (Ends m j) := by
  have hbegin : ∀ p, p = design.next (s, m) j → AtReadA m.mem j 0 p := by
    rintro p rfl
    have hstate : s.state = .idle := by simpa [busy] using hidle
    refine ⟨s.left, s.unit.next s.left m.rdata s.sub, m.mem (polyPort s).addr, Prod.ext ?_ ?_, fun h => absurd h (by decide)⟩
    · simp only [design, next, hstate, hstart, if_true]
      rfl
    · simp [design, PolyRam.next, DecapsMemory.write, polyPort, hstate, written, fillSlot]
  have hloop : design.Leads Working (AtReadA m.mem j 0) (AtReadA m.mem j 255) :=
    Design.Leads.iterate fun k hk => round_leads hd hk
  have hrun := ((((hloop.trans (readA_leads (by decide))).trans (readB_leads (by decide))).trans
    (last_leads hd)).trans drain_leads).trans (final_leads hd)
  refine hrun.mono hbegin ?_
  rintro p ⟨hdone, hmem⟩
  refine ⟨hdone, fun i hi => ?_, fun a ha => ?_⟩
  · rw [hmem, written, fillSlot_slotAddr _ _ _ hi (by omega), if_pos ⟨rfl, hi⟩]
    exact toInt_reduce_sum
  · rw [hmem]
    exact fillWords_of_ne m.mem (fun i => reduce (sumAt m.mem j i)) ha

/-- The destination is the first source. -/
theorem addsub_exact_inPlace :
    design.Leads Working (fun p => p = design.next (reset, ⟨fun a => a.setWidth 16 * 19, 0⟩) ⟨true, true, 1, 2, 1⟩)
      (Ends ⟨fun a => a.setWidth 16 * 19, 0⟩ ⟨true, true, 1, 2, 1⟩) :=
  addsub_exact reset _ _ rfl rfl (by decide)

end PolyAddsub

end ZedSecure
