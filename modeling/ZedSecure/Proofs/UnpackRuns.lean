import ZedSecure.Proofs.CompareRuns

/-! The unpack controller decodes the ciphertext and the secret key into the slots 0 to 4, and re-encoding what it
made of a ciphertext finds no difference. -/

namespace ZedSecure

open Clocked Fips203 PolyRam

namespace Unpack

/-- Where the bytes of a phase begin, where its words go, and how many groups it has. -/
def baseByte : Phase → ℕ
  | .d4 => 640
  | _ => 0

def baseWord : Phase → ℕ
  | .d10 => 0
  | .d4 => 512
  | .sk12 => 768

def groups : Phase → ℕ
  | .sk12 => 256
  | _ => 128

section Runs

variable (ct : BitVec 8 → BitVec 32) (sk : BitVec 9 → BitVec 32) (mem0 : BitVec 12 → BitVec 16)

def source (ph : Phase) (n : ℕ) : BitVec 8 :=
  if ph = .sk12 then WordRam.byte sk (baseByte ph + n) else WordRam.byte ct (baseByte ph + n)

/-- Coefficient `i` of a phase. -/
def word (ph : Phase) (i : ℕ) : BitVec 16 :=
  match ph with
  | .d10 => decompressD10 (byteDecode 10 (source ct sk .d10) i)
  | .d4 => decompressD4 (byteDecode 4 (source ct sk .d4) i)
  | .sk12 => (byteDecode 12 (source ct sk .sk12) i).setWidth 16

/-- Word `n` of what is written. -/
def unpacked (n : ℕ) : BitVec 16 :=
  if n < 512 then word ct sk .d10 n else if n < 768 then word ct sk .d4 (n - 512) else word ct sk .sk12 (n - 768)

def filled (n : ℕ) : BitVec 12 → BitVec 16 := fillWords mem0 0 n (unpacked ct sk)

structure On (s : State) (n : ℕ) (p : Sys) : Prop where
  ctl : p.ctl = s
  ctMem : p.ct.mem = ct
  skMem : p.sk.mem = sk
  poly : p.poly.mem = filled ct sk mem0 n

/-- The first `k` bytes of group `g` are in their lanes. -/
def Lanes (ph : Phase) (g k : ℕ) (gb : BitVec 40) : Prop :=
  ∀ j < k, slice gb (8 * j) 8 = source ct sk ph (groupSize ph * g + j)

def AtRead (ph : Phase) (g k : ℕ) (p : Sys) : Prop :=
  ∃ w gb, On ct sk mem0 ⟨.readReq, ph, baseByte ph + (groupSize ph * g + k), k, g, w, gb⟩
    (baseWord ph + coeffCount ph * g) p ∧ Lanes ct sk ph g k gb

def AtReadWait (ph : Phase) (g k : ℕ) (p : Sys) : Prop :=
  ∃ w gb, On ct sk mem0 ⟨.readWait, ph, baseByte ph + (groupSize ph * g + k), k, g, w, gb⟩
    (baseWord ph + coeffCount ph * g) p ∧ Lanes ct sk ph g k gb ∧
    selectedByte p.ctl p.ct.rdata p.sk.rdata = source ct sk ph (groupSize ph * g + k)

def AtWrite (ph : Phase) (g w : ℕ) (p : Sys) : Prop :=
  ∃ gb, On ct sk mem0 ⟨.writeCoeff, ph, baseByte ph + groupSize ph * (g + 1), 0, g, w, gb⟩
    (baseWord ph + (coeffCount ph * g + w)) p ∧ Lanes ct sk ph g (groupSize ph) gb

def AtEnd (ph : Phase) (p : Sys) : Prop :=
  ∃ b gb, On ct sk mem0 ⟨.nextPhase, ph, b, 0, groups ph, 0, gb⟩ (baseWord ph + coeffCount ph * groups ph) p

def Working (p : Sys) : Prop := busy p.ctl = true ∧ done p.ctl = false

variable {ct sk mem0} {ph : Phase} {g k w : ℕ}

theorem sizes (ph : Phase) : 0 < groupSize ph ∧ groupSize ph ≤ 5 ∧ 0 < coeffCount ph := by
  cases ph <;> decide

section Step

variable {s : State} {n : ℕ} {p : Sys} (h : On ct sk mem0 s n p)
include h

theorem On.working (hidle : s.state ≠ .idle) (hdone : s.state ≠ .done) : Working p := by
  simp [Working, busy, done, h.ctl, hidle, hdone]

/-- An edge without a write. -/
theorem On.next {s' : State} (start : Bool) (hst : s.state ≠ .writeCoeff)
    (hctl : Unpack.next s start p.ct.rdata p.sk.rdata = s') : On ct sk mem0 s' n (design.next p start) := by
  refine ⟨?_, h.ctMem, h.skMem, ?_⟩
  · rw [← hctl, ← h.ctl]
    rfl
  · have hwe : (polyPort p.ctl).we = false := by simpa [polyPort, h.ctl] using hst
    exact (next_mem_of_not_we hwe).trans h.poly

end Step

theorem source_eq (n : ℕ) : source ct sk ph n =
    slice (if ph = .sk12 then sk (BitVec.ofNat 9 ((baseByte ph + n) / 4)) else ct (BitVec.ofNat 8 ((baseByte ph + n) / 4)))
      (8 * ((baseByte ph + n) % 4)) 8 := by
  rw [source]
  split_ifs <;> rfl

theorem read_leads : design.Leads Working (AtRead ct sk mem0 ph g k) (AtReadWait ct sk mem0 ph g k) := by
  apply Design.Leads.step
  · rintro p ⟨w, gb, h, -⟩
    exact h.working (by simp) (by simp)
  · rintro p start ⟨w, gb, h, hl⟩
    have hnext := h.next start (by simp) rfl
    refine ⟨w, gb, hnext, hl, ?_⟩
    rw [hnext.ctl, source_eq, ← h.ctMem, ← h.skMem]
    simp only [selectedByte, design, WordRam.next, ctWordAddr, skWordAddr, h.ctl]
    rfl

theorem lanes_patch {gb : BitVec 40} (hk : k < 5) (h : Lanes ct sk ph g k gb) :
    Lanes ct sk ph g (k + 1) (patch gb (8 * k) (source ct sk ph (groupSize ph * g + k))) := by
  intro j hj
  rcases Nat.lt_succ_iff_lt_or_eq.mp hj with hlt | rfl
  · rw [slice_patch_of_disjoint _ _ _ _ (by omega) (Or.inl (by omega))]
    exact h j hlt
  · exact slice_patch_self _ _ _ (by omega)

theorem readWait_leads (hk : k + 1 < groupSize ph) :
    design.Leads Working (AtReadWait ct sk mem0 ph g k) (AtRead ct sk mem0 ph g (k + 1)) := by
  have hsizes := sizes ph
  apply Design.Leads.step
  · rintro p ⟨w, gb, h, -⟩
    exact h.working (by simp) (by simp)
  · rintro p start ⟨w, gb, h, hl, hsel⟩
    have hlast : ¬ k = groupSize ph - 1 := by omega
    refine ⟨w, _, h.next start (by simp) ?_, lanes_patch (by omega) hl⟩
    rw [h.ctl] at hsel
    simp only [next, hlast, if_false, hsel]
    rfl

theorem lastRead_leads (hk : k + 1 = groupSize ph) :
    design.Leads Working (AtReadWait ct sk mem0 ph g k) (AtWrite ct sk mem0 ph g 0) := by
  have hsizes := sizes ph
  apply Design.Leads.step
  · rintro p ⟨w, gb, h, -⟩
    exact h.working (by simp) (by simp)
  · rintro p start ⟨w, gb, h, hl, hsel⟩
    have hlast : k = groupSize ph - 1 := by omega
    have hlanes := lanes_patch (by omega) hl
    rw [hk] at hlanes
    refine ⟨_, h.next start (by simp) ?_, hlanes⟩
    rw [h.ctl] at hsel
    have hbyte : baseByte ph + (groupSize ph * g + k) + 1 = baseByte ph + groupSize ph * (g + 1) := by
      rw [Nat.mul_succ]
      omega
    simp only [next, if_pos hlast, hsel, hbyte]

theorem decode12Group_eq (bytes : BitVec 24) {i : ℕ} (hi : i < 2) :
    decode12Group bytes i = (slice bytes (12 * i) 12).setWidth 16 := by
  have hsplit : ∀ lo, slice bytes (lo + 4) 8 ++ slice bytes lo 4 = slice bytes lo 12 := by
    intro lo
    apply BitVec.eq_of_toNat_eq
    rw [toNat_append, toNat_slice, toNat_slice, toNat_slice, pow_add, ← Nat.div_div_eq_div_mul]
    omega
  have hsplit' : ∀ lo, slice bytes (lo + 8) 4 ++ slice bytes lo 8 = slice bytes lo 12 := by
    intro lo
    apply BitVec.eq_of_toNat_eq
    rw [toNat_append, toNat_slice, toNat_slice, toNat_slice, pow_add, ← Nat.div_div_eq_div_mul]
    omega
  have hcase : i = 0 ∨ i = 1 := by omega
  rcases hcase with rfl | rfl
  · rw [decode12Group, if_pos rfl, hsplit' 0]
  · rw [decode12Group, if_neg (by decide), hsplit 12]

/-- What is written is the next word. -/
theorem wdata_eq {b c : ℕ} {gb : BitVec 40} (hl : Lanes ct sk ph g (groupSize ph) gb) (hw : w < coeffCount ph) :
    (polyPort ⟨.writeCoeff, ph, b, c, g, w, gb⟩).wdata = word ct sk ph (coeffCount ph * g + w) := by
  cases ph with
  | d10 =>
    simp only [polyPort, word]
    rw [decompressD10Group_eq _ hw, slice_byteDecode 5 4 rfl hl hw]
    rfl
  | d4 =>
    have hlow : ∀ j < 1, slice (slice gb 0 8) (8 * j) 8 = source ct sk .d4 (1 * g + j) := by
      intro j hj
      rw [slice_low _ (by omega)]
      exact hl j hj
    simp only [polyPort, word, decompressD4Group]
    rw [slice_byteDecode 1 2 rfl hlow hw]
    rfl
  | sk12 =>
    have hlow : ∀ j < 3, slice (slice gb 0 24) (8 * j) 8 = source ct sk .sk12 (3 * g + j) := by
      intro j hj
      rw [slice_low _ (by omega)]
      exact hl j hj
    simp only [polyPort, word]
    rw [decode12Group_eq _ hw, slice_byteDecode 3 2 rfl hlow hw]
    rfl

theorem addr_eq {b c : ℕ} {gb : BitVec 40} :
    (polyPort ⟨.writeCoeff, ph, b, c, g, w, gb⟩).addr = BitVec.ofNat 12 (baseWord ph + (coeffCount ph * g + w)) := by
  cases ph <;> simp only [polyPort, baseWord, coeffCount] <;> congr 1 <;> omega

/-- The words of a phase stand from `baseWord` on. -/
theorem unpacked_eq {i : ℕ} (hi : i < coeffCount ph * groups ph) :
    unpacked ct sk (baseWord ph + i) = word ct sk ph i := by
  cases ph with
  | d10 =>
    simp only [coeffCount, groups] at hi
    rw [unpacked, baseWord, Nat.zero_add, if_pos (by omega)]
  | d4 =>
    simp only [coeffCount, groups] at hi
    rw [unpacked, baseWord, if_neg (by omega), if_pos (by omega), Nat.add_sub_cancel_left]
  | sk12 => rw [unpacked, baseWord, if_neg (by omega), if_neg (by omega), Nat.add_sub_cancel_left]

theorem word_lt (hg : g < groups ph) (hw : w < coeffCount ph) : coeffCount ph * g + w < coeffCount ph * groups ph := by
  calc coeffCount ph * g + w < coeffCount ph * g + coeffCount ph := by omega
    _ = coeffCount ph * (g + 1) := rfl
    _ ≤ coeffCount ph * groups ph := Nat.mul_le_mul_left _ hg

theorem On.write {b c : ℕ} {gb : BitVec 40} {p : Sys}
    (h : On ct sk mem0 ⟨.writeCoeff, ph, b, c, g, w, gb⟩ (baseWord ph + (coeffCount ph * g + w)) p)
    (hl : Lanes ct sk ph g (groupSize ph) gb) (hg : g < groups ph) (hw : w < coeffCount ph) (start : Bool) {s' : State}
    (hctl : Unpack.next ⟨.writeCoeff, ph, b, c, g, w, gb⟩ start p.ct.rdata p.sk.rdata = s') :
    On ct sk mem0 s' (baseWord ph + (coeffCount ph * g + w) + 1) (design.next p start) := by
  have hlt := word_lt hg hw
  have hbound : baseWord ph + coeffCount ph * groups ph ≤ 3072 := by cases ph <;> decide
  refine ⟨?_, h.ctMem, h.skMem, ?_⟩
  · rw [← hctl, ← h.ctl]
    rfl
  · have hport : (polyPort p.ctl).we = true ∧
        (polyPort p.ctl).addr = BitVec.ofNat 12 (0 + (baseWord ph + (coeffCount ph * g + w))) ∧
        (polyPort p.ctl).wdata = unpacked ct sk (baseWord ph + (coeffCount ph * g + w)) := by
      rw [h.ctl, Nat.zero_add, unpacked_eq hlt]
      exact ⟨rfl, addr_eq, wdata_eq hl hw⟩
    exact next_fillWords mem0 _ h.poly (by omega) hport.1 hport.2.1 hport.2.2

theorem write_leads (hg : g < groups ph) (hw : w + 1 < coeffCount ph) :
    design.Leads Working (AtWrite ct sk mem0 ph g w) (AtWrite ct sk mem0 ph g (w + 1)) := by
  apply Design.Leads.step
  · rintro p ⟨gb, h, -⟩
    exact h.working (by simp) (by simp)
  · rintro p start ⟨gb, h, hl⟩
    have hlast : ¬ w = coeffCount ph - 1 := by omega
    refine ⟨gb, h.write hl hg (by omega) start ?_, hl⟩
    simp only [next, hlast, if_false]

theorem lastByte_eq (hg : g < groups ph) :
    baseByte ph + groupSize ph * (g + 1) = lastByte ph ↔ g + 1 = groups ph := by
  cases ph <;> simp only [baseByte, groupSize, lastByte, groups] at hg ⊢ <;> omega

/-- After a group comes the next one, or the end of the phase. -/
theorem lastWrite_leads (hg : g < groups ph) (hw : w + 1 = coeffCount ph) :
    design.Leads Working (AtWrite ct sk mem0 ph g w) fun p =>
      if g + 1 = groups ph then AtEnd ct sk mem0 ph p else AtRead ct sk mem0 ph (g + 1) 0 p := by
  apply Design.Leads.step
  · rintro p ⟨gb, h, -⟩
    exact h.working (by simp) (by simp)
  · rintro p start ⟨gb, h, hl⟩
    have hlast : w = coeffCount ph - 1 := by omega
    have hn : baseWord ph + (coeffCount ph * g + w) + 1 = baseWord ph + coeffCount ph * (g + 1) := by
      rw [Nat.mul_succ]
      omega
    have hnext := h.write hl hg (by omega) start rfl
    rw [hn] at hnext
    simp only [next, if_pos hlast, lastByte_eq hg] at hnext
    split_ifs with hend
    · rw [if_pos hend, hend] at hnext
      exact ⟨_, gb, hnext⟩
    · rw [if_neg hend] at hnext
      exact ⟨0, gb, hnext, fun j hj => absurd hj (Nat.not_lt_zero j)⟩

theorem group_leads (hg : g < groups ph) : design.Leads Working (AtRead ct sk mem0 ph g 0) fun p =>
    if g + 1 = groups ph then AtEnd ct sk mem0 ph p else AtRead ct sk mem0 ph (g + 1) 0 p := by
  obtain ⟨n, hn⟩ : ∃ n, groupSize ph = n + 1 := by cases ph <;> exact ⟨_, rfl⟩
  obtain ⟨m, hm⟩ : ∃ m, coeffCount ph = m + 1 := by cases ph <;> exact ⟨_, rfl⟩
  have hreads : design.Leads Working (AtRead ct sk mem0 ph g 0) (AtRead ct sk mem0 ph g n) :=
    Design.Leads.iterate fun k hk => read_leads.trans (readWait_leads (by omega))
  have hwrites : design.Leads Working (AtWrite ct sk mem0 ph g 0) (AtWrite ct sk mem0 ph g m) :=
    Design.Leads.iterate fun w hw => write_leads hg (by omega)
  exact (((hreads.trans read_leads).trans (lastRead_leads hn.symm)).trans hwrites).trans (lastWrite_leads hg hm.symm)

theorem phase_leads : design.Leads Working (AtRead ct sk mem0 ph 0 0) (AtEnd ct sk mem0 ph) := by
  obtain ⟨n, hn⟩ : ∃ n, groups ph = n + 1 := by cases ph <;> exact ⟨_, rfl⟩
  have hgroups : design.Leads Working (AtRead ct sk mem0 ph 0 0) (AtRead ct sk mem0 ph n 0) := by
    refine @Design.Leads.iterate _ _ design Working (fun g => AtRead ct sk mem0 ph g 0) n fun g hg => ?_
    refine (group_leads (by omega)).mono (fun p h => h) fun p h => ?_
    rwa [if_neg (by omega)] at h
  refine hgroups.trans ((group_leads (by omega)).mono (fun p h => h) fun p h => ?_)
  rwa [if_pos hn.symm] at h

theorem end_working {p : Sys} (h : AtEnd ct sk mem0 ph p) : Working p := by
  obtain ⟨b, gb, h⟩ := h
  exact h.working (by simp) (by simp)

/-- From the start to the done pulse the whole of the five slots is written. -/
theorem unpack_leads : design.Leads Working (AtRead ct sk mem0 .d10 0 0) fun p =>
    done p.ctl = true ∧ p.poly.mem = filled ct sk mem0 1280 := by
  have hfirst : design.Leads Working (AtEnd ct sk mem0 .d10) (AtRead ct sk mem0 .d4 0 0) := by
    refine Design.Leads.step (fun p h => end_working h) ?_
    rintro p start ⟨b, gb, h⟩
    exact ⟨0, 0, h.next start (by simp) rfl, fun j hj => absurd hj (Nat.not_lt_zero j)⟩
  have hsecond : design.Leads Working (AtEnd ct sk mem0 .d4) (AtRead ct sk mem0 .sk12 0 0) := by
    refine Design.Leads.step (fun p h => end_working h) ?_
    rintro p start ⟨b, gb, h⟩
    exact ⟨0, 0, h.next start (by simp) rfl, fun j hj => absurd hj (Nat.not_lt_zero j)⟩
  have hlast : design.Leads Working (AtEnd ct sk mem0 .sk12) fun p =>
      done p.ctl = true ∧ p.poly.mem = filled ct sk mem0 1280 := by
    refine Design.Leads.step (fun p h => end_working h) ?_
    rintro p start ⟨b, gb, h⟩
    have hnext := h.next start (by simp) rfl
    refine ⟨?_, hnext.poly⟩
    rw [hnext.ctl]
    rfl
  exact (((phase_leads.trans hfirst).trans phase_leads).trans hsecond).trans (phase_leads.trans hlast)

end Runs

section Slots

variable (ct : BitVec 8 → BitVec 32) (sk : BitVec 9 → BitVec 32) (mem0 : BitVec 12 → BitVec 16) {i : ℕ}

theorem filled_slot {slot : BitVec 4} (hs : slot.toNat < 5) (hi : i < 256) :
    filled ct sk mem0 1280 (slotAddr slot i) = unpacked ct sk (slot.toNat * 256 + i) := by
  rw [filled, slotAddr, fillWords_ofNat _ _ (by omega), if_pos (by omega), Nat.sub_zero]

/-- The slots 0 to 2 after an unpacking. -/
structure Unpacked (mem : BitVec 12 → BitVec 16) : Prop where
  u0 : ∀ i < 256, mem (slotAddr 0 i) = decompressD10 (byteDecode 10 (WordRam.byte ct) i)
  u1 : ∀ i < 256, mem (slotAddr 1 i) = decompressD10 (byteDecode 10 (WordRam.byte ct) (256 + i))
  v : ∀ i < 256, mem (slotAddr 2 i) = decompressD4 (byteDecode 4 (fun n => WordRam.byte ct (640 + n)) i)

theorem unpacked_filled : Unpacked ct (filled ct sk mem0 1280) := by
  have hsource : source ct sk .d10 = WordRam.byte ct := by
    funext n
    exact congrArg (WordRam.byte ct) (Nat.zero_add n)
  have h0 : (0 : BitVec 4).toNat = 0 := rfl
  have h1 : (1 : BitVec 4).toNat = 1 := rfl
  have h2 : (2 : BitVec 4).toNat = 2 := rfl
  refine ⟨fun i hi => ?_, fun i hi => ?_, fun i hi => ?_⟩
  · rw [filled_slot ct sk mem0 (by omega) hi, h0, Nat.zero_mul, Nat.zero_add, unpacked, if_pos (by omega), word, hsource]
  · rw [filled_slot ct sk mem0 (by omega) hi, h1, Nat.one_mul, unpacked, if_pos (by omega), word, hsource]
  · rw [filled_slot ct sk mem0 (by omega) hi, h2, unpacked, if_neg (by omega), if_pos (by omega),
      show 2 * 256 + i - 512 = i by omega, word]
    rfl

/-- Unpacking from any idle state, whatever the memories hold. -/
theorem unpack_exact (q : Sys) (hidle : busy q.ctl = false) : design.Leads Working (fun p => p = design.next q true)
    fun p => done p.ctl = true ∧ Unpacked q.ct.mem p.poly.mem := by
  have hstate : q.ctl.state = .idle := by simpa [busy] using hidle
  refine (@unpack_leads q.ct.mem q.sk.mem q.poly.mem).mono ?_ ?_
  · rintro p rfl
    refine ⟨q.ctl.writeIndex, 0, ⟨?_, rfl, rfl, ?_⟩, fun j hj => absurd hj (Nat.not_lt_zero j)⟩
    · simp only [design, next, hstate, if_true]
      rfl
    · have hwe : (polyPort q.ctl).we = false := by simp [polyPort, hstate]
      refine (next_mem_of_not_we hwe).trans ?_
      exact (fillWords_zero _ _).symm
  · rintro p ⟨hdone, hmem⟩
    rw [hmem]
    exact ⟨hdone, unpacked_filled _ _ _⟩

end Slots

end Unpack

namespace PackCompare

open Unpack (Unpacked)

variable {ct : BitVec 8 → BitVec 32} {mem : BitVec 12 → BitVec 16} {u0 u1 v : ℕ → BitVec 16}

/-- The polynomials are those of the slots 0 to 2. -/
structure FromSlots (mem : BitVec 12 → BitVec 16) (u0 u1 v : ℕ → BitVec 16) : Prop where
  u0 : ∀ i < 256, u0 i = mem (slotAddr 0 i)
  u1 : ∀ i < 256, u1 i = mem (slotAddr 1 i)
  v : ∀ i < 256, v i = mem (slotAddr 2 i)

theorem canonical_unpacked (h : Unpacked ct mem) (hu : FromSlots mem u0 u1 v) :
    Canonical u0 ∧ Canonical u1 ∧ Canonical v := by
  refine ⟨fun i hi => ?_, fun i hi => ?_, fun i hi => ?_⟩
  · rw [hu.u0 i hi, h.u0 i hi, toNat_decompressD10]
    exact decompress_lt (by decide) _
  · rw [hu.u1 i hi, h.u1 i hi, toNat_decompressD10]
    exact decompress_lt (by decide) _
  · rw [hu.v i hi, h.v i hi, toNat_decompressD4]
    exact decompress_lt (by decide) _

/-- Compression and encoding undo what unpacking has done. -/
theorem matches_unpacked (h : Unpacked ct mem) (hu : FromSlots mem u0 u1 v) : Matches ct u0 u1 v := by
  refine ⟨fun n hn => ?_, fun n hn => ?_, fun n hn => ?_⟩
  · refine Eq.trans (byteEncode_congr fun j hj => ?_) ((byteEncode_byteDecode (by decide) (WordRam.byte ct) 0 n).trans ?_)
    · rw [hu.u0 _ (by omega), h.u0 _ (by omega), toNat_decompressD10, compress_decompress (by decide), Nat.mul_zero,
        Nat.zero_add]
    · rw [Nat.mul_zero, Nat.zero_add]
  · refine Eq.trans (byteEncode_congr fun j hj => ?_) (byteEncode_byteDecode (by decide) (WordRam.byte ct) 32 n)
    rw [hu.u1 _ (by omega), h.u1 _ (by omega), toNat_decompressD10, compress_decompress (by decide)]
  · refine Eq.trans (byteEncode_congr fun j hj => ?_)
      ((byteEncode_byteDecode (by decide) (fun n => WordRam.byte ct (640 + n)) 0 n).trans ?_)
    · rw [hu.v _ (by omega), h.v _ (by omega), toNat_decompressD4, compress_decompress (by decide), Nat.mul_zero,
        Nat.zero_add]
    · rw [Nat.mul_zero, Nat.zero_add]

/-- The three commands find no mismatch exactly if the encodings are the ciphertext, and they find none in the
polynomials that were unpacked from it. -/
theorem reencryption_check (p : Sys) (q : Unpack.Sys) (s0 s1 s2 : BitVec 4) (hp : busy p.ctl = false)
    (hq : Unpack.busy q.ctl = false) (hct : p.ct.mem = q.ct.mem) :
    (Verdict s0 s1 s2 p fun u0 u1 v mis =>
      Canonical u0 → Canonical u1 → Canonical v → (mis = false ↔ Matches p.ct.mem u0 u1 v)) ∧
    Unpack.design.Leads Unpack.Working (fun r => r = Unpack.design.next q true) fun r => Unpack.done r.ctl = true ∧
      Verdict s0 s1 s2 p fun u0 u1 v mis => FromSlots r.poly.mem u0 u1 v → mis = false := by
  have hverdict := verdict_exact s0 s1 s2 hp
  refine ⟨hverdict, (Unpack.unpack_exact q hq).mono (fun r hr => hr) ?_⟩
  rintro r ⟨hdone, hunpacked⟩
  refine ⟨hdone, hverdict.mono fun u0 u1 v mis hmis hu => ?_⟩
  rw [← hct] at hunpacked
  obtain ⟨h0, h1, h2⟩ := canonical_unpacked hunpacked hu
  exact (hmis h0 h1 h2).mpr (matches_unpacked hunpacked hu)

def sampleCt : WordRam 8 := ⟨fun a => a.setWidth 32 * 0x01020408, 0⟩

def sampleCompare : Sys := ⟨⟨.idle, 0, 0, 0, false, 0, 0, 0, true, true⟩, sampleCt, ⟨fun a => a.setWidth 16, 0⟩⟩

def sampleUnpack : Unpack.Sys := ⟨Unpack.reset, sampleCt, ⟨fun a => a.setWidth 32, 0⟩, ⟨fun _ => 0, 0⟩⟩

/-- The flags are set before the first command. -/
theorem reencryption_check_set :
    (Verdict 10 10 11 sampleCompare fun u0 u1 v mis =>
      Canonical u0 → Canonical u1 → Canonical v → (mis = false ↔ Matches sampleCompare.ct.mem u0 u1 v)) ∧
    Unpack.design.Leads Unpack.Working (fun r => r = Unpack.design.next sampleUnpack true) fun r =>
      Unpack.done r.ctl = true ∧
        Verdict 10 10 11 sampleCompare fun u0 u1 v mis => FromSlots r.poly.mem u0 u1 v → mis = false :=
  reencryption_check sampleCompare sampleUnpack 10 10 11 rfl rfl rfl

end PackCompare

end ZedSecure
