import ZedSecure.Clocked.Handshakes
import ZedSecure.Proofs.CodecGroups

/-! The compare controller. A command leaves the flags as they were if every byte of its polynomial agrees with
the ciphertext, and sets them otherwise. -/

namespace ZedSecure

open Clocked Fips203 PolyRam

namespace PackCompare

section Command

variable (c : Command) (ct : BitVec 8 → BitVec 32) (pm : BitVec 12 → BitVec 16)

/-- Coefficient `i` of the source. -/
def coeff (i : ℕ) : BitVec 16 := pm (slotAddr c.srcSlot i)

/-- The byte the source is encoded to. -/
def encoded (n : ℕ) : BitVec 8 :=
  if c.mode then byteEncode (fun i => compressD4 (coeff c pm i)) n
  else byteEncode (fun i => compressD10 (coeff c pm i)) n

/-- The first `k` bytes agree. -/
def agrees (k : ℕ) : Bool := (List.range k).all fun n => WordRam.byte ct (c.ctBase.toNat + n) == encoded c pm n

theorem agrees_succ (k : ℕ) : agrees c ct pm (k + 1) =
    (agrees c ct pm k && (WordRam.byte ct (c.ctBase.toNat + k) == encoded c pm k)) := by
  simp [agrees, List.range_succ, List.all_append]

theorem agrees_iff (k : ℕ) : agrees c ct pm k = true ↔
    ∀ n < k, WordRam.byte ct (c.ctBase.toNat + n) = encoded c pm n := by
  simp [agrees]

variable (m0 b0 : Bool)

/-- The controller on a command, `k` bytes compared. -/
def onJob (st : St) (g i b : ℕ) (cs : BitVec 64) (k : ℕ) : State :=
  ⟨st, g, i, b, c.mode, c.srcSlot, c.ctBase, cs, m0 || !agrees c ct pm k, b0 && agrees c ct pm k⟩

/-- The first `i` coefficients of group `g` are in their lanes. -/
def Lanes (g i : ℕ) (cs : BitVec 64) : Prop :=
  ∀ k < i, slice cs (16 * k) 16 = coeff c pm (g * groupCoeffs c.mode + k)

structure On (st : St) (g i b : ℕ) (cs : BitVec 64) (k : ℕ) (p : Sys) : Prop where
  ctl : p.ctl = onJob c ct pm m0 b0 st g i b cs k
  ct : p.ct.mem = ct
  poly : p.poly.mem = pm

def AtCoeff (g i : ℕ) (p : Sys) : Prop :=
  ∃ b cs, On c ct pm m0 b0 .pReq g i b cs (g * groupBytes c.mode) p ∧ Lanes c pm g i cs

def AtCoeffWait (g i : ℕ) (p : Sys) : Prop :=
  ∃ b cs, On c ct pm m0 b0 .pWait g i b cs (g * groupBytes c.mode) p ∧ Lanes c pm g i cs ∧
    p.poly.rdata = coeff c pm (g * groupCoeffs c.mode + i)

def AtPrep (g : ℕ) (p : Sys) : Prop :=
  ∃ b cs, On c ct pm m0 b0 .cPrep g 0 b cs (g * groupBytes c.mode) p ∧ Lanes c pm g (groupCoeffs c.mode) cs

def AtByte (g b : ℕ) (p : Sys) : Prop :=
  ∃ cs, On c ct pm m0 b0 .cReq g 0 b cs (g * groupBytes c.mode + b) p ∧ Lanes c pm g (groupCoeffs c.mode) cs

def AtByteWait (g b : ℕ) (p : Sys) : Prop :=
  ∃ cs, On c ct pm m0 b0 .cWait g 0 b cs (g * groupBytes c.mode + b) p ∧ Lanes c pm g (groupCoeffs c.mode) cs ∧
    p.ct.rdata = ct (BitVec.ofNat 8 ((c.ctBase.toNat + g * groupBytes c.mode + b) / 4))

def AtNext (g : ℕ) (p : Sys) : Prop :=
  ∃ b cs, On c ct pm m0 b0 .nextGroup g 0 b cs ((g + 1) * groupBytes c.mode) p

def Working (p : Sys) : Prop := busy p.ctl = true ∧ done p.ctl = false

variable {c ct pm m0 b0} {g i b : ℕ}

theorem lanes_patch {cs : BitVec 64} (hi : i < 4) (h : Lanes c pm g i cs) :
    Lanes c pm g (i + 1) (patch cs (16 * i) (coeff c pm (g * groupCoeffs c.mode + i))) := by
  intro k hk
  rcases Nat.lt_succ_iff_lt_or_eq.mp hk with hlt | rfl
  · rw [slice_patch_of_disjoint _ _ _ _ (by omega) (Or.inl (by omega))]
    exact h k hlt
  · exact slice_patch_self _ _ _ (by omega)

theorem groupCoeffs_le (mode : Bool) : 0 < groupCoeffs mode ∧ groupCoeffs mode ≤ 4 := by
  cases mode <;> decide

/-- What is compared is the encoding of the source. -/
theorem generated_eq {st : St} {cs : BitVec 64} {k : ℕ} (hb : b < groupBytes c.mode)
    (h : Lanes c pm g (groupCoeffs c.mode) cs) :
    generated (onJob c ct pm m0 b0 st g i b cs k) = encoded c pm (g * groupBytes c.mode + b) := by
  cases hm : c.mode with
  | false =>
    simp only [hm, Lanes, groupCoeffs, groupBytes, Bool.false_eq_true, if_false] at h hb
    simp only [generated, onJob, encoded, hm, groupBytes, Bool.false_eq_true, if_false]
    rw [Nat.mul_comm g 5]
    refine compressD10Group_byte (fun k hk => ?_) hb
    rw [h k hk, Nat.mul_comm g 4]
  | true =>
    simp only [hm, Lanes, groupCoeffs, groupBytes, if_true] at h hb
    simp only [generated, onJob, encoded, hm, groupBytes, if_true]
    obtain rfl : b = 0 := by omega
    rw [Nat.mul_one, Nat.add_zero]
    refine compressD4Group_byte fun k hk => ?_
    rw [slice_low _ (by omega), h k hk, Nat.mul_comm g 2]

section Step

variable {st : St} {cs : BitVec 64} {k : ℕ} {p : Sys} (h : On c ct pm m0 b0 st g i b cs k p) (hst : st ≠ .idle)
include h hst

theorem On.busy : busy p.ctl = true := by
  simpa [PackCompare.busy, h.ctl, onJob] using hst

theorem On.working (hdone : st ≠ .done) : Working p :=
  ⟨h.busy hst, by simpa [done, h.ctl, onJob] using hdone⟩

/-- The memories stay as they are, so an edge is what becomes of the controller. -/
theorem On.next {st' : St} {g' i' b' : ℕ} {cs' : BitVec 64} {k' : ℕ} (inp : In)
    (hctl : next (onJob c ct pm m0 b0 st g i b cs k) inp.start p.poly.rdata p.ct.rdata =
      onJob c ct pm m0 b0 st' g' i' b' cs' k') : On c ct pm m0 b0 st' g' i' b' cs' k' (design.next p inp) := by
  refine ⟨?_, h.ct, ?_⟩
  · rw [← hctl, ← h.ctl]
    rfl
  · simp only [design, h.busy hst, Bool.true_or, if_true]
    rw [next_mem_of_not_we rfl, h.poly]

theorem On.next_coeff (inp : In) : (design.next p inp).poly.rdata = coeff c pm (g * groupCoeffs c.mode + i) := by
  have haddr : polyAddr p.ctl = slotAddr c.srcSlot (g * groupCoeffs c.mode + i) := by
    rw [h.ctl, polyAddr, slotAddr, ← Nat.add_assoc]
    rfl
  simp only [design, h.busy hst, Bool.true_or, if_true, PolyRam.next, haddr, h.poly]
  rfl

end Step

theorem coeff_leads : design.Leads Working (AtCoeff c ct pm m0 b0 g i) (AtCoeffWait c ct pm m0 b0 g i) := by
  apply Design.Leads.step
  · rintro p ⟨b, cs, h, -⟩
    exact h.working (by decide) (by decide)
  · rintro p inp ⟨b, cs, h, hl⟩
    exact ⟨b, cs, h.next (by decide) inp rfl, hl, h.next_coeff (by decide) inp⟩

theorem coeffWait_leads (hi : i + 1 < groupCoeffs c.mode) :
    design.Leads Working (AtCoeffWait c ct pm m0 b0 g i) (AtCoeff c ct pm m0 b0 g (i + 1)) := by
  have hle := groupCoeffs_le c.mode
  apply Design.Leads.step
  · rintro p ⟨b, cs, h, -⟩
    exact h.working (by decide) (by decide)
  · rintro p inp ⟨b, cs, h, hl, hr⟩
    have hlast : ¬ i = groupCoeffs c.mode - 1 := by omega
    refine ⟨b, _, h.next (by decide) inp ?_, lanes_patch (by omega) hl⟩
    simp only [next, onJob, hlast, if_false, hr]

theorem lastCoeff_leads (hi : i + 1 = groupCoeffs c.mode) :
    design.Leads Working (AtCoeffWait c ct pm m0 b0 g i) (AtPrep c ct pm m0 b0 g) := by
  have hle := groupCoeffs_le c.mode
  apply Design.Leads.step
  · rintro p ⟨b, cs, h, -⟩
    exact h.working (by decide) (by decide)
  · rintro p inp ⟨b, cs, h, hl, hr⟩
    have hlast : i = groupCoeffs c.mode - 1 := by omega
    have hlanes := lanes_patch (by omega) hl
    rw [hi] at hlanes
    refine ⟨b, _, h.next (by decide) inp ?_, hlanes⟩
    simp only [next, onJob, if_pos hlast, hr]

theorem prep_leads : design.Leads Working (AtPrep c ct pm m0 b0 g) (AtByte c ct pm m0 b0 g 0) := by
  apply Design.Leads.step
  · rintro p ⟨b, cs, h, -⟩
    exact h.working (by decide) (by decide)
  · rintro p inp ⟨b, cs, h, hl⟩
    exact ⟨cs, h.next (by decide) inp rfl, hl⟩

theorem byte_leads : design.Leads Working (AtByte c ct pm m0 b0 g b) (AtByteWait c ct pm m0 b0 g b) := by
  apply Design.Leads.step
  · rintro p ⟨cs, h, -⟩
    exact h.working (by decide) (by decide)
  · rintro p inp ⟨cs, h, hl⟩
    refine ⟨cs, h.next (by decide) inp rfl, hl, ?_⟩
    have haddr : ctAddr p.ctl = BitVec.ofNat 8 ((c.ctBase.toNat + g * groupBytes c.mode + b) / 4) := by
      rw [h.ctl]
      rfl
    rw [← haddr, ← h.ct]
    rfl

/-- One byte more has been compared. -/
theorem compared_next {cs : BitVec 64} {p : Sys}
    (h : On c ct pm m0 b0 .cWait g 0 b cs (g * groupBytes c.mode + b) p) (hl : Lanes c pm g (groupCoeffs c.mode) cs)
    (hr : p.ct.rdata = ct (BitVec.ofNat 8 ((c.ctBase.toNat + g * groupBytes c.mode + b) / 4)))
    (hb : b < groupBytes c.mode) (inp : In) :
    if b + 1 = groupBytes c.mode then
      On c ct pm m0 b0 .nextGroup g 0 b cs (g * groupBytes c.mode + b + 1) (design.next p inp)
    else On c ct pm m0 b0 .cReq g 0 (b + 1) cs (g * groupBytes c.mode + b + 1) (design.next p inp) := by
  have hexp : expected (onJob c ct pm m0 b0 .cWait g 0 b cs (g * groupBytes c.mode + b)) p.ct.rdata =
      WordRam.byte ct (c.ctBase.toNat + (g * groupBytes c.mode + b)) := by
    rw [hr, ← Nat.add_assoc]
    rfl
  have heq : (expected (onJob c ct pm m0 b0 .cWait g 0 b cs (g * groupBytes c.mode + b)) p.ct.rdata ==
      generated (onJob c ct pm m0 b0 .cWait g 0 b cs (g * groupBytes c.mode + b))) =
      (WordRam.byte ct (c.ctBase.toNat + (g * groupBytes c.mode + b)) ==
        encoded c pm (g * groupBytes c.mode + b)) := by
    rw [hexp, generated_eq hb hl]
  simp only [onJob] at heq
  split_ifs with hlast
  · have hlast' : b = groupBytes c.mode - 1 := by omega
    apply h.next (by decide)
    simp only [next, onJob, heq, if_pos hlast', agrees_succ, Bool.not_and, Bool.or_assoc, Bool.and_assoc]
  · have hlast' : ¬ b = groupBytes c.mode - 1 := by omega
    apply h.next (by decide)
    simp only [next, onJob, heq, hlast', if_false, agrees_succ, Bool.not_and, Bool.or_assoc, Bool.and_assoc]

theorem byteWait_leads (hb : b + 1 < groupBytes c.mode) :
    design.Leads Working (AtByteWait c ct pm m0 b0 g b) (AtByte c ct pm m0 b0 g (b + 1)) := by
  apply Design.Leads.step
  · rintro p ⟨cs, h, -⟩
    exact h.working (by decide) (by decide)
  · rintro p inp ⟨cs, h, hl, hr⟩
    have hnext := compared_next h hl hr (by omega) inp
    rw [if_neg (by omega)] at hnext
    exact ⟨cs, hnext, hl⟩

theorem lastByte_leads (hb : b + 1 = groupBytes c.mode) :
    design.Leads Working (AtByteWait c ct pm m0 b0 g b) (AtNext c ct pm m0 b0 g) := by
  apply Design.Leads.step
  · rintro p ⟨cs, h, -⟩
    exact h.working (by decide) (by decide)
  · rintro p inp ⟨cs, h, hl, hr⟩
    have hnext := compared_next h hl hr (by omega) inp
    rw [if_pos hb, Nat.add_assoc, hb, ← Nat.succ_mul] at hnext
    exact ⟨b, cs, hnext⟩

/-- One group: its coefficients are read, then its bytes compared. -/
theorem group_leads : design.Leads Working (AtCoeff c ct pm m0 b0 g 0) (AtNext c ct pm m0 b0 g) := by
  obtain ⟨n, hn⟩ : ∃ n, groupCoeffs c.mode = n + 1 := ⟨groupCoeffs c.mode - 1, by have := groupCoeffs_le c.mode; omega⟩
  obtain ⟨m, hm⟩ : ∃ m, groupBytes c.mode = m + 1 := by cases c.mode <;> exact ⟨_, rfl⟩
  have hcoeffs : design.Leads Working (AtCoeff c ct pm m0 b0 g 0) (AtCoeff c ct pm m0 b0 g n) :=
    Design.Leads.iterate fun i hi => coeff_leads.trans (coeffWait_leads (by omega))
  have hbytes : design.Leads Working (AtByte c ct pm m0 b0 g 0) (AtByte c ct pm m0 b0 g m) :=
    Design.Leads.iterate fun b hb => byte_leads.trans (byteWait_leads (by omega))
  have hread := (hcoeffs.trans coeff_leads).trans (lastCoeff_leads hn.symm)
  exact (((hread.trans prep_leads).trans hbytes).trans byte_leads).trans (lastByte_leads hm.symm)

/-- Groups of a polynomial. -/
def groups (mode : Bool) : ℕ := if mode then 128 else 64

theorem next_leads (hg : g + 1 < groups c.mode) :
    design.Leads Working (AtNext c ct pm m0 b0 g) (AtCoeff c ct pm m0 b0 (g + 1) 0) := by
  have hlast : ¬ g = (if c.mode then 127 else 63) := by
    intro h
    rw [h] at hg
    revert hg
    cases c.mode <;> decide
  apply Design.Leads.step
  · rintro p ⟨b, cs, h⟩
    exact h.working (by decide) (by decide)
  · rintro p inp ⟨b, cs, h⟩
    refine ⟨b, 0, h.next (by decide) inp ?_, fun k hk => absurd hk (Nat.not_lt_zero k)⟩
    simp only [next, onJob]
    exact if_neg hlast

theorem done_leads (hg : g + 1 = groups c.mode) : design.Leads Working (AtNext c ct pm m0 b0 g) fun p =>
    ∃ b cs, On c ct pm m0 b0 .done g 0 b cs ((g + 1) * groupBytes c.mode) p := by
  have hlast : g = (if c.mode then 127 else 63) := by
    revert hg
    cases c.mode <;> exact fun h => Nat.succ_injective h
  apply Design.Leads.step
  · rintro p ⟨b, cs, h⟩
    exact h.working (by decide) (by decide)
  · rintro p inp ⟨b, cs, h⟩
    refine ⟨b, cs, h.next (by decide) inp ?_⟩
    simp only [next, onJob]
    exact if_pos hlast

/-- Bytes of a polynomial. -/
def total (mode : Bool) : ℕ := if mode then 128 else 320

/-- A command compares all bytes of its polynomial and leaves the memories alone. -/
theorem command_leads : design.Leads Working (AtCoeff c ct pm m0 b0 0 0) fun p =>
    done p.ctl = true ∧ p.ctl.mismatch = (m0 || !agrees c ct pm (total c.mode)) ∧
      p.ctl.mismatchBar = (b0 && agrees c ct pm (total c.mode)) ∧ p.ct.mem = ct := by
  obtain ⟨n, hn⟩ : ∃ n, groups c.mode = n + 1 := by cases c.mode <;> exact ⟨_, rfl⟩
  have htotal : (n + 1) * groupBytes c.mode = total c.mode := by
    rw [← hn]
    cases c.mode <;> rfl
  have hrounds : design.Leads Working (AtCoeff c ct pm m0 b0 0 0) (AtCoeff c ct pm m0 b0 n 0) :=
    @Design.Leads.iterate _ _ design Working (fun g => AtCoeff c ct pm m0 b0 g 0) n
      fun g hg => group_leads.trans (next_leads (by omega))
  refine ((hrounds.trans group_leads).trans (done_leads hn.symm)).mono (fun p h => h) ?_
  rintro p ⟨b, cs, h⟩
  rw [htotal] at h
  refine ⟨?_, ?_, ?_, h.ct⟩
  · rw [h.ctl]
    rfl
  · rw [h.ctl]
    rfl
  · rw [h.ctl]
    rfl

end Command

section Commands

/-- The flags and the ciphertext, between two commands. -/
structure Rest (ct : BitVec 8 → BitVec 32) (m b : Bool) (p : Sys) : Prop where
  mismatch : p.ctl.mismatch = m
  mismatchBar : p.ctl.mismatchBar = b
  ct : p.ct.mem = ct

variable {ct : BitVec 8 → BitVec 32} {m b : Bool} {p : Sys} {c : Command}

/-- `Q` holds at the done pulse of the command, in every run from its start, and the pulse comes. -/
def Ends (c : Command) (p : Sys) (Q : Sys → Prop) : Prop :=
  ∀ i : In, i.start = some c → design.Leads Working (fun q => q = design.next p i) fun q => done q.ctl = true ∧ Q q

/-- `Q` holds whenever the controller is free again, whatever the others have done meanwhile. -/
def Between (p : Sys) (Q : Sys → Prop) : Prop :=
  ∀ is : List In, (∀ i ∈ is, i.start = none) → busy (design.after p is).ctl = false → Q (design.after p is)

theorem Ends.mono {Q R : Sys → Prop} (h : Ends c p Q) (hQ : ∀ q, done q.ctl = true → Q q → R q) : Ends c p R := by
  intro i hi
  exact (h i hi).mono (fun q hq => hq) fun q hq => ⟨hq.1, hQ q hq.1 hq.2⟩

theorem ends_rest (hidle : busy p.ctl = false) (h : Rest ct m b p) : Ends c p fun q =>
    Rest ct ((!c.clear && m) || !agrees c ct p.poly.mem (total c.mode))
      ((c.clear || b) && agrees c ct p.poly.mem (total c.mode)) q := by
  intro i hi
  have hstate : p.ctl.state = .idle := by simpa [busy] using hidle
  have hstart : ∀ q, q = design.next p i →
      AtCoeff c ct p.poly.mem (!c.clear && m) (c.clear || b) 0 0 q := by
    rintro q rfl
    refine ⟨0, 0, ⟨?_, h.ct, ?_⟩, fun k hk => absurd hk (Nat.not_lt_zero k)⟩
    · simp only [design, next, hstate, hi, onJob, agrees, Nat.zero_mul, List.range_zero, List.all_nil]
      cases c.clear <;> simp [h.mismatch, h.mismatchBar]
    · simp only [design, hi, Option.isSome_some, Bool.or_true, if_true]
      exact next_mem_of_not_we rfl
  refine command_leads.mono hstart ?_
  rintro q ⟨hdone, hm, hb, hct⟩
  exact ⟨hdone, hm, hb, hct⟩

/-- Without a command the flags stay. -/
theorem between_rest (hdone : done p.ctl = true) (h : Rest ct m b p) : Between p (Rest ct m b) := by
  suffices hall : ∀ (is : List In) (p : Sys), (p.ctl.state = .done ∨ p.ctl.state = .idle) → Rest ct m b p →
      (∀ i ∈ is, i.start = none) → Rest ct m b (design.after p is) by
    intro is his _
    exact hall is p (Or.inl (by simpa [done] using hdone)) h his
  intro is
  induction is with
  | nil => exact fun p _ h _ => h
  | cons i is ih =>
    intro p hst h his
    have hi := his i List.mem_cons_self
    rw [Design.after_cons]
    rcases hst with hst | hst
    · exact ih _ (Or.inr (by simp [design, next, hst]))
        ⟨by simpa [design, next, hst] using h.mismatch, by simpa [design, next, hst] using h.mismatchBar, h.ct⟩
        fun j hj => his j (List.mem_cons_of_mem _ hj)
    · exact ih _ (Or.inr (by simp [design, next, hst, hi]))
        ⟨by simpa [design, next, hst, hi] using h.mismatch, by simpa [design, next, hst, hi] using h.mismatchBar, h.ct⟩
        fun j hj => his j (List.mem_cons_of_mem _ hj)

/-- The three commands of a re-encryption: both halves of `u`, then `v`. -/
def CB0 (slot : BitVec 4) : Command := ⟨true, false, slot, 0⟩

def CB1 (slot : BitVec 4) : Command := ⟨false, false, slot, 320⟩

def CV (slot : BitVec 4) : Command := ⟨false, true, slot, 640⟩

/-- What the three commands find, run one after the other from `p`: the polynomials as they stand when each of them
starts, and `mismatch_o` at the end. -/
def Verdict (s0 s1 s2 : BitVec 4) (p : Sys) (Q : (ℕ → BitVec 16) → (ℕ → BitVec 16) → (ℕ → BitVec 16) → Bool → Prop) :
    Prop :=
  Ends (CB0 s0) p fun q => Between q fun p1 => Ends (CB1 s1) p1 fun q => Between q fun p2 => Ends (CV s2) p2 fun p3 =>
    Q (coeff (CB0 s0) p.poly.mem) (coeff (CB1 s1) p1.poly.mem) (coeff (CV s2) p2.poly.mem) (mismatchOut p3.ctl)

theorem Verdict.mono {s0 s1 s2 : BitVec 4} {Q R : (ℕ → BitVec 16) → (ℕ → BitVec 16) → (ℕ → BitVec 16) → Bool → Prop}
    (h : Verdict s0 s1 s2 p Q) (hQ : ∀ u0 u1 v mis, Q u0 u1 v mis → R u0 u1 v mis) : Verdict s0 s1 s2 p R := by
  refine Ends.mono h fun q _ hq is his hb => ?_
  refine (hq is his hb).mono fun q _ hq js hjs hb => ?_
  exact (hq js hjs hb).mono fun q _ hq => hQ _ _ _ _ hq

/-- The bytes that the standard compresses and encodes the three polynomials to are those of the ciphertext. -/
structure Matches (ct : BitVec 8 → BitVec 32) (u0 u1 v : ℕ → BitVec 16) : Prop where
  u0 : ∀ n < 320, byteEncode (fun i => compress 10 (u0 i).toNat) n = WordRam.byte ct n
  u1 : ∀ n < 320, byteEncode (fun i => compress 10 (u1 i).toNat) n = WordRam.byte ct (320 + n)
  v : ∀ n < 128, byteEncode (fun i => compress 4 (v i).toNat) n = WordRam.byte ct (640 + n)

/-- A polynomial with coefficients below `q`. -/
def Canonical (u : ℕ → BitVec 16) : Prop := ∀ i < 256, (u i).toNat < q

theorem encoded_ten {pm : BitVec 12 → BitVec 16} (hmode : c.mode = false) (hu : Canonical (coeff c pm)) {n : ℕ}
    (hn : n < 320) : encoded c pm n = byteEncode (fun i => compress 10 (coeff c pm i).toNat) n := by
  rw [encoded, hmode, if_neg (by decide)]
  exact byteEncode_congr fun j hj => compressD10_eq (hu _ (by omega))

theorem encoded_four {pm : BitVec 12 → BitVec 16} (hmode : c.mode = true) (hu : Canonical (coeff c pm)) {n : ℕ}
    (hn : n < 128) : encoded c pm n = byteEncode (fun i => compress 4 (coeff c pm i).toNat) n := by
  rw [encoded, hmode, if_pos rfl]
  exact byteEncode_congr fun j hj => compressD4_eq (hu _ (by omega))

theorem mismatchOut_eq {s : State} {a : Bool} (hm : s.mismatch = !a) (hb : s.mismatchBar = a) :
    mismatchOut s = !a := by
  rw [mismatchOut, hm, hb]
  cases a <;> rfl

theorem matches_iff {pm0 pm1 pm2 : BitVec 12 → BitVec 16} {s0 s1 s2 : BitVec 4}
    (h0 : Canonical (coeff (CB0 s0) pm0)) (h1 : Canonical (coeff (CB1 s1) pm1)) (h2 : Canonical (coeff (CV s2) pm2)) :
    Matches ct (coeff (CB0 s0) pm0) (coeff (CB1 s1) pm1) (coeff (CV s2) pm2) ↔
      agrees (CB0 s0) ct pm0 320 = true ∧ agrees (CB1 s1) ct pm1 320 = true ∧ agrees (CV s2) ct pm2 128 = true := by
  rw [agrees_iff, agrees_iff, agrees_iff]
  constructor
  · rintro ⟨hu0, hu1, hv⟩
    refine ⟨fun n hn => ?_, fun n hn => ?_, fun n hn => ?_⟩
    · rw [encoded_ten rfl h0 hn, hu0 n hn]
      exact congrArg (WordRam.byte ct) (Nat.zero_add n)
    · rw [encoded_ten rfl h1 hn, hu1 n hn]
      rfl
    · rw [encoded_four rfl h2 hn, hv n hn]
      rfl
  · rintro ⟨hu0, hu1, hv⟩
    refine ⟨fun n hn => ?_, fun n hn => ?_, fun n hn => ?_⟩
    · rw [← encoded_ten rfl h0 hn, ← hu0 n hn]
      exact congrArg (WordRam.byte ct) (Nat.zero_add n)
    · rw [← encoded_ten rfl h1 hn, ← hu1 n hn]
      rfl
    · rw [← encoded_four rfl h2 hn, ← hv n hn]
      rfl

/-- The three commands find a mismatch exactly if some byte of the three encodings differs, whatever the flags were. -/
theorem verdict_exact (s0 s1 s2 : BitVec 4) (hidle : busy p.ctl = false) :
    Verdict s0 s1 s2 p fun u0 u1 v mis =>
      Canonical u0 → Canonical u1 → Canonical v → (mis = false ↔ Matches p.ct.mem u0 u1 v) := by
  refine Ends.mono (ends_rest hidle ⟨rfl, rfl, rfl⟩) fun q hd hq is his hb => ?_
  have hrest := between_rest hd hq is his hb
  refine Ends.mono (ends_rest hb hrest) fun q hd hq js hjs hb => ?_
  have hrest := between_rest hd hq js hjs hb
  refine Ends.mono (ends_rest hb hrest) fun q hd hq h0 h1 h2 => ?_
  obtain ⟨hm, hbar, -⟩ := hq
  simp only [CB0, CB1, CV, total, Bool.not_true, Bool.false_and, Bool.false_or, Bool.not_false, Bool.true_and,
    Bool.true_or, if_true, Bool.false_eq_true, if_false] at hm hbar
  rw [← Bool.not_and, ← Bool.not_and] at hm
  rw [mismatchOut_eq (hm.trans (congrArg not rfl)) hbar, matches_iff h0 h1 h2, Bool.not_eq_false', Bool.and_eq_true,
    Bool.and_eq_true, and_assoc]
  rfl

end Commands

end PackCompare

end ZedSecure
