import Mathlib.Logic.Basic
import ZedSecure.Rtl.TrafficFrontend

/-! One edge of the traffic port, register by register. The writable registers are one store of words, in
which a write changes the byte lanes of one. -/

namespace ZedSecure

open Clocked

section Store

/-- A write to the word at its address; a register has the bits of its mask. -/
def putWord {a : ℕ} (mask : BitVec a → BitVec 32) (F : BitVec a → BitVec 32)
    (beat : BitVec a × BitVec 32 × BitVec 4) : BitVec a → BitVec 32 :=
  Function.update F beat.1 (mergeBytes (F beat.1) beat.2.1 beat.2.2 &&& mask beat.1)

theorem setWidth_mask {w : ℕ} (x : BitVec 32) : (x.setWidth w).setWidth 32 = x &&& (BitVec.allOnes w).setWidth 32 := by
  apply BitVec.eq_of_getLsbD_eq
  intro i hi
  simp only [BitVec.getLsbD_setWidth, BitVec.getLsbD_and, BitVec.getLsbD_allOnes, hi, decide_true, Bool.true_and]
  exact Bool.and_comm _ _

theorem getLsbD_mergeBytes (old new : BitVec 32) (strobe : BitVec 4) {i : ℕ} (hi : i < 32) :
    (mergeBytes old new strobe).getLsbD i = if strobe.getLsbD (i / 8) then new.getLsbD i else old.getLsbD i := by
  have h4 : List.range 4 = [0, 1, 2, 3] := rfl
  have hlane (x : BitVec 32) (lane : ℕ) : (if strobe.getLsbD lane then patch x (8 * lane) (slice new (8 * lane) 8)
      else x).getLsbD i = if strobe.getLsbD lane = true ∧ i / 8 = lane then new.getLsbD i else x.getLsbD i := by
    cases hs : strobe.getLsbD lane
    · simp
    · simp only [if_true, true_and, getLsbD_patch _ _ _ _ hi, getLsbD_slice]
      by_cases hl : i / 8 = lane
      · rw [if_pos hl, if_pos (by omega)]
        simp [show i - 8 * lane < 8 by omega, show 8 * lane + (i - 8 * lane) = i by omega]
      · rw [if_neg hl, if_neg (by omega)]
  simp only [mergeBytes, h4, List.foldl_cons, List.foldl_nil, hlane]
  have hcases : i / 8 = 0 ∨ i / 8 = 1 ∨ i / 8 = 2 ∨ i / 8 = 3 := by omega
  rcases hcases with h | h | h | h <;> simp [h]

theorem mergeBytes_low {w : ℕ} (hw : w ≤ 8) (old : BitVec w) (x : BitVec 32) (strobe : BitVec 4) :
    mergeBytes (old.setWidth 32) x strobe &&& (BitVec.allOnes w).setWidth 32 =
      (if strobe.getLsbD 0 then x.setWidth w else old).setWidth 32 := by
  apply BitVec.eq_of_getLsbD_eq
  intro i hi
  simp only [BitVec.getLsbD_and, getLsbD_mergeBytes _ _ _ hi, BitVec.getLsbD_setWidth, BitVec.getLsbD_allOnes, hi,
    decide_true, Bool.true_and]
  by_cases hiw : i < w
  · rw [show i / 8 = 0 by omega]
    cases strobe.getLsbD 0 <;> simp [hiw]
  · cases strobe.getLsbD 0 <;> simp [hiw, BitVec.getLsbD_of_ge _ _ (not_lt.mp hiw)]
end Store

namespace TrafficFrontend

variable {n : ℕ} (s : State n) (i : AxiIn 9) (c : CoreOut n)

section Channels

/-- Address and data are both held and the write is due. -/
def pairs : Bool := s.awHold && s.wHold && !s.bvalid

/-- The answer of the core is taken. -/
def takesRsp : Bool := s.inflight && c.rspValid

theorem next_awHold : (next s i c).awHold = (!pairs s && (s.awHold || (i.awvalid && awready s))) := by
  simp only [next, commit, apply_ite State.awHold, ite_self, pairs]
  cases s.awHold && s.wHold && !s.bvalid <;> cases i.awvalid && awready s <;> simp

theorem next_wHold : (next s i c).wHold = (!pairs s && (s.wHold || (i.wvalid && wready s))) := by
  simp only [next, commit, apply_ite State.wHold, ite_self, pairs]
  cases s.awHold && s.wHold && !s.bvalid <;> cases i.wvalid && wready s <;> simp

theorem next_writeCommit : (next s i c).writeCommit = pairs s := by
  simp only [next, commit, apply_ite State.writeCommit, ite_self, pairs]
  cases s.awHold && s.wHold && !s.bvalid <;> rfl

theorem next_awaddrQ : (next s i c).awaddrQ = if i.awvalid && awready s then i.awaddr else s.awaddrQ := by
  simp only [next, commit, apply_ite State.awaddrQ, ite_self]

theorem next_wdataQ : (next s i c).wdataQ = if i.wvalid && wready s then i.wdata else s.wdataQ := by
  simp only [next, commit, apply_ite State.wdataQ, ite_self]

theorem next_wstrbQ : (next s i c).wstrbQ = if i.wvalid && wready s then i.wstrb else s.wstrbQ := by
  simp only [next, commit, apply_ite State.wstrbQ, ite_self]

theorem next_bvalid : (next s i c).bvalid = (pairs s || (s.bvalid && !i.bready)) := by
  simp only [next, commit, apply_ite State.bvalid, ite_self, pairs]
  cases s.awHold && s.wHold && !s.bvalid <;> cases s.bvalid <;> cases i.bready <;> simp

theorem next_rvalid : (next s i c).rvalid = ((i.arvalid && arready s) || (s.rvalid && !i.rready)) := by
  simp only [next, commit, apply_ite State.rvalid, ite_self]
  cases i.arvalid && arready s <;> cases s.rvalid <;> cases i.rready <;> simp

end Channels

section Registers

/-- What the writable words of the port hold. -/
def registers (a : BitVec 9) : BitVec 32 :=
  if a = REG_SLOT then s.slotReg.setWidth 32
  else if a = REG_LENGTH then s.lengthReg.setWidth 32
  else if a = REG_COUNTER_LO then slice s.counterReg 0 32
  else if a = REG_COUNTER_HI then slice s.counterReg 32 32
  else readArray REG_INPUT_DATA 16 s.inputData a (readArray REG_INPUT_TAG 4 s.inputTag a 0)

/-- The bits a word has; a word that is no register has none. -/
def mask (n : ℕ) (a : BitVec 9) : BitVec 32 :=
  if a = REG_SLOT then (BitVec.allOnes (slotWidth n)).setWidth 32
  else if a = REG_LENGTH then (BitVec.allOnes 8).setWidth 32
  else if a = REG_COUNTER_LO ∨ a = REG_COUNTER_HI then BitVec.allOnes 32
  else readArray REG_INPUT_DATA 16 (fun _ => BitVec.allOnes 32) a
    (readArray REG_INPUT_TAG 4 (fun _ => BitVec.allOnes 32) a 0)

theorem readArray_of_ne {base : BitVec 9} {count : ℕ} (word : ℕ → BitVec 32) {a : BitVec 9} (other : BitVec 32)
    (h : ∀ k < count, a ≠ wordReg base k) : readArray base count word a other = other := by
  have hnone : (List.range count).find? (fun k => decide (a = wordReg base k)) = none := by
    rw [List.find?_eq_none]
    intro k hk
    simpa using h k (List.mem_range.mp hk)
  rw [readArray, hnone]

theorem readArray_wordReg {base : BitVec 9} {count : ℕ} (word : ℕ → BitVec 32) (other : BitVec 32)
    (hinj : ∀ j < count, ∀ k < count, wordReg base j = wordReg base k → j = k) {j : ℕ} (hj : j < count) :
    readArray base count word (wordReg base j) other = word j := by
  rw [readArray]
  cases hfind : (List.range count).find? fun k => decide (wordReg base j = wordReg base k) with
  | none =>
    rw [List.find?_eq_none] at hfind
    simpa using hfind j (List.mem_range.mpr hj)
  | some k =>
    have hk := List.mem_range.mp (List.mem_of_find?_eq_some hfind)
    have heq : wordReg base j = wordReg base k := by simpa using List.find?_some hfind
    rw [hinj j hj k hk heq]

/-- Words that agree are read alike. -/
theorem readArray_congr {base : BitVec 9} {count : ℕ} {word word' : ℕ → BitVec 32} (a : BitVec 9) (other : BitVec 32)
    (h : ∀ k < count, a = wordReg base k → word k = word' k) :
    readArray base count word a other = readArray base count word' a other := by
  rw [readArray, readArray]
  cases hfind : (List.range count).find? fun k => decide (a = wordReg base k) with
  | none => rfl
  | some k =>
    exact h k (List.mem_range.mp (List.mem_of_find?_eq_some hfind)) (by simpa using List.find?_some hfind)

theorem data_inj : ∀ j < 16, ∀ k < 16, wordReg REG_INPUT_DATA j = wordReg REG_INPUT_DATA k → j = k := by decide

theorem tag_inj : ∀ j < 4, ∀ k < 4, wordReg REG_INPUT_TAG j = wordReg REG_INPUT_TAG k → j = k := by decide

theorem data_ne_tag : ∀ j < 16, ∀ k < 4, wordReg REG_INPUT_DATA j ≠ wordReg REG_INPUT_TAG k := by decide

/-- The registers apart from the arrays. -/
def Single (a : BitVec 9) : Prop :=
  a = REG_CONTROL ∨ a = REG_SLOT ∨ a = REG_LENGTH ∨ a = REG_COUNTER_LO ∨ a = REG_COUNTER_HI

theorem single_ne : ∀ k < 16, ¬ Single (wordReg REG_INPUT_DATA k) := by
  simp only [Single]
  decide

theorem single_ne' : ∀ k < 4, ¬ Single (wordReg REG_INPUT_TAG k) := by
  simp only [Single]
  decide

/-- A single register is in none of the arrays. -/
theorem registers_other (a : BitVec 9) (h : ¬ Single a) : registers s a =
    readArray REG_INPUT_DATA 16 s.inputData a (readArray REG_INPUT_TAG 4 s.inputTag a 0) := by
  simp only [Single, not_or] at h
  simp only [registers, h, if_false]

theorem registers_next_of_not (h : s.writeCommit = false) : registers (next s i c) = registers s := by
  have hslot : (next s i c).slotReg = s.slotReg := by
    simp only [next, h, Bool.false_eq_true, if_false, apply_ite State.slotReg, ite_self]
  have hlength : (next s i c).lengthReg = s.lengthReg := by
    simp only [next, h, Bool.false_eq_true, if_false, apply_ite State.lengthReg, ite_self]
  have hcounter : (next s i c).counterReg = s.counterReg := by
    simp only [next, h, Bool.false_eq_true, if_false, apply_ite State.counterReg, ite_self]
  have hdata : (next s i c).inputData = s.inputData := by
    simp only [next, h, Bool.false_eq_true, if_false, apply_ite State.inputData, ite_self]
  have htag : (next s i c).inputTag = s.inputTag := by
    simp only [next, h, Bool.false_eq_true, if_false, apply_ite State.inputTag, ite_self]
  funext a
  simp only [registers, hslot, hlength, hcounter, hdata, htag]

/-- The words of the arrays take the write to their address. -/
theorem arrays_commit (h : ¬ Single s.awaddrQ) (a : BitVec 9) :
    readArray REG_INPUT_DATA 16 (fun k => if k < 16 ∧ s.awaddrQ = wordReg REG_INPUT_DATA k then
        mergeBytes (s.inputData k) s.wdataQ s.wstrbQ else s.inputData k) a
      (readArray REG_INPUT_TAG 4 (fun k => if k < 4 ∧ s.awaddrQ = wordReg REG_INPUT_TAG k then
        mergeBytes (s.inputTag k) s.wdataQ s.wstrbQ else s.inputTag k) a 0) =
    if a = s.awaddrQ then mergeBytes (registers s s.awaddrQ) s.wdataQ s.wstrbQ &&& mask n s.awaddrQ
    else readArray REG_INPUT_DATA 16 s.inputData a (readArray REG_INPUT_TAG 4 s.inputTag a 0) := by
  have hmask : mask n s.awaddrQ = readArray REG_INPUT_DATA 16 (fun _ => BitVec.allOnes 32) s.awaddrQ
      (readArray REG_INPUT_TAG 4 (fun _ => BitVec.allOnes 32) s.awaddrQ 0) := by
    simp only [Single, not_or] at h
    simp only [mask, h, if_false, or_self]
  by_cases ha : a = s.awaddrQ
  · rw [if_pos ha, hmask, registers_other s _ h, ha]
    by_cases hdata : ∃ j < 16, s.awaddrQ = wordReg REG_INPUT_DATA j
    · obtain ⟨j, hj, hadr⟩ := hdata
      simp only [hadr, readArray_wordReg _ _ data_inj hj, hj, true_and, if_true, BitVec.and_allOnes]
    · push Not at hdata
      by_cases htag : ∃ j < 4, s.awaddrQ = wordReg REG_INPUT_TAG j
      · obtain ⟨j, hj, hadr⟩ := htag
        simp only [readArray_of_ne _ _ hdata]
        simp only [hadr, readArray_wordReg _ _ tag_inj hj, hj, true_and, if_true, BitVec.and_allOnes]
      · push Not at htag
        simp only [readArray_of_ne _ _ hdata, readArray_of_ne _ _ htag]
        exact BitVec.and_zero.symm
  · rw [if_neg ha]
    have hword (base : BitVec 9) (count : ℕ) (word : ℕ → BitVec 32) (other : BitVec 32) : readArray base count
        (fun k => if k < count ∧ s.awaddrQ = wordReg base k then mergeBytes (word k) s.wdataQ s.wstrbQ else word k) a
          other = readArray base count word a other :=
      readArray_congr a other fun k _ hak => if_neg fun hc => ha (hak.trans hc.2.symm)
    rw [hword, hword]

theorem registers_commit (f : State n) (hslot : f.slotReg = s.slotReg) (hlength : f.lengthReg = s.lengthReg)
    (hcounter : f.counterReg = s.counterReg) (hdata : f.inputData = s.inputData) (htag : f.inputTag = s.inputTag) :
    registers (commit s f) = putWord (mask n) (registers s) (s.awaddrQ, s.wdataQ, s.wstrbQ) := by
  funext a
  simp only [putWord, Function.update_apply]
  by_cases hsingle : Single s.awaddrQ
  · rcases hsingle with h | h | h | h | h
    · -- no word at `REG_CONTROL`
      have hsame : registers (commit s f) a = registers s a := by
        simp only [registers, commit, h, if_true, apply_ite State.slotReg, apply_ite State.lengthReg,
          apply_ite State.counterReg, apply_ite State.inputData, apply_ite State.inputTag, ite_self, hslot, hlength,
          hcounter, hdata, htag]
      rw [hsame]
      split_ifs with ha
      · rw [ha, h, show registers s REG_CONTROL = 0 from rfl, show mask n REG_CONTROL = 0 from rfl]
        exact BitVec.and_zero.symm
      · rfl
    · have hne : REG_SLOT ≠ REG_CONTROL := by decide
      simp only [registers, commit, mask, h, hne, if_true, if_false, hslot, hlength, hcounter, hdata, htag, setWidth_mask]
      split_ifs <;> rfl
    · have hne : REG_LENGTH ≠ REG_CONTROL ∧ REG_LENGTH ≠ REG_SLOT := by decide
      simp only [registers, commit, mask, h, hne, if_true, if_false, hslot, hlength, hcounter, hdata, htag, setWidth_mask]
      by_cases ha : a = REG_LENGTH
      · simp only [ha, hne, if_true, if_false]
      · simp only [ha, if_false]
    · have hne : REG_COUNTER_LO ≠ REG_CONTROL ∧ REG_COUNTER_LO ≠ REG_SLOT ∧ REG_COUNTER_LO ≠ REG_LENGTH := by decide
      have hlow (x : BitVec 32) : slice (patch s.counterReg 0 x) 0 32 = x := slice_patch_self _ _ _ (by decide)
      have hhigh (x : BitVec 32) : slice (patch s.counterReg 0 x) 32 32 = slice s.counterReg 32 32 :=
        slice_patch_of_disjoint _ _ _ _ (by decide) (by decide)
      simp only [registers, commit, mask, h, hne, if_true, if_false, true_or, hslot, hlength, hcounter, hdata, htag,
        hlow, hhigh, BitVec.and_allOnes]
      by_cases ha : a = REG_COUNTER_LO
      · simp only [ha, hne, if_true, if_false]
      · simp only [ha, if_false]
    · have hne : REG_COUNTER_HI ≠ REG_CONTROL ∧ REG_COUNTER_HI ≠ REG_SLOT ∧ REG_COUNTER_HI ≠ REG_LENGTH ∧
          REG_COUNTER_HI ≠ REG_COUNTER_LO := by decide
      have hhigh (x : BitVec 32) : slice (patch s.counterReg 32 x) 32 32 = x := slice_patch_self _ _ _ (by decide)
      have hlow (x : BitVec 32) : slice (patch s.counterReg 32 x) 0 32 = slice s.counterReg 0 32 :=
        slice_patch_of_disjoint _ _ _ _ (by decide) (by decide)
      simp only [registers, commit, mask, h, hne, if_true, if_false, or_true, hslot, hlength, hcounter, hdata, htag,
        hlow, hhigh, BitVec.and_allOnes]
      by_cases ha : a = REG_COUNTER_HI
      · simp only [ha, hne, if_true, if_false]
      · simp only [ha, if_false]
  · have hne := hsingle
    simp only [Single, not_or] at hne
    by_cases hs : Single a
    · have hother : a ≠ s.awaddrQ := fun ha => hsingle (ha ▸ hs)
      rw [if_neg hother]
      simp only [registers, commit, hne, if_false, hslot, hlength, hcounter]
      rcases hs with ha | ha | ha | ha | ha
      · rw [ha]
        rfl
      all_goals simp only [ha, if_true]
    · rw [registers_other _ _ hs, registers_other _ _ hs]
      simp only [commit, hne, if_false]
      exact arrays_commit s hsingle a

theorem registers_next : registers (next s i c) =
    if s.writeCommit then putWord (mask n) (registers s) (s.awaddrQ, s.wdataQ, s.wstrbQ) else registers s := by
  cases h : s.writeCommit
  · exact registers_next_of_not s i c h
  · change registers _ = putWord (mask n) (registers s) (s.awaddrQ, s.wdataQ, s.wstrbQ)
    rw [next, if_pos h]
    apply registers_commit
    · simp only [apply_ite State.slotReg, ite_self]
    · simp only [apply_ite State.lengthReg, ite_self]
    · simp only [apply_ite State.counterReg, ite_self]
    · simp only [apply_ite State.inputData, ite_self]
    · simp only [apply_ite State.inputTag, ite_self]

end Registers

end TrafficFrontend

end ZedSecure
