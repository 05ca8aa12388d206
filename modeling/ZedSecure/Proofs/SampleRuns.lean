import ZedSecure.Proofs.HashRuns
import ZedSecure.Proofs.SampleGroups
import ZedSecure.Rtl.PolyRam

/-! Runs of the two sampling commands: what they write is the polynomial of the standard, word by word, whenever the
bytes come out of the sponge. -/

namespace ZedSecure

open Clocked LittleEndian Fips202 Fips203

theorem Bytewise.patch {b : ℕ → BitVec 8} {base n m : ℕ} {x : BitVec m} (h : Bytewise b base n x)
    (hn : 8 * n + 8 ≤ m) : Bytewise b base (n + 1) (patch x (8 * n) (b (base + n))) := by
  intro j hj
  rcases Nat.lt_succ_iff_lt_or_eq.mp hj with hlt | rfl
  · rw [slice_patch_of_disjoint _ _ _ _ (by omega) (by omega), h j hlt]
  · exact slice_patch_self _ _ _ hn

theorem Bytewise.low {b : ℕ → BitVec 8} {base n m : ℕ} {x : BitVec m} (h : Bytewise b base n x) :
    Bytewise b base n (slice x 0 (8 * n)) := by
  intro j hj
  rw [slice_low _ (by omega), h j hj]

theorem toNat_succ {w : ℕ} {x : BitVec w} (h : x.toNat + 1 < 2 ^ w) : (x + 1#w).toNat = x.toNat + 1 := by
  rw [BitVec.toNat_add, BitVec.toNat_ofNat, Nat.add_mod_mod, Nat.mod_eq_of_lt h]

namespace SharedHashEngine

variable {κ : Type} {P : StartDone keccakF κ}

section Trace

/-- The words written, in order, at a slot. -/
def stored (slot : BitVec 4) (vs : List (BitVec 16)) : List (BitVec 12 × BitVec 16) :=
  vs.mapIdx fun j v => (PolyRam.slotAddr slot j, v)

theorem stored_concat (slot : BitVec 4) (vs : List (BitVec 16)) (v : BitVec 16) :
    stored slot (vs ++ [v]) = stored slot vs ++ [(PolyRam.slotAddr slot vs.length, v)] := List.mapIdx_concat

/-- The polynomial memory after a write. -/
def store (mem : BitVec 12 → BitVec 16) (w : BitVec 12 × BitVec 16) : BitVec 12 → BitVec 16 :=
  ((PolyRam.mk mem 0).next ⟨true, w.1, w.2⟩).mem

/-- They fill the slot from its first word on. -/
theorem foldl_stored {slot : BitVec 4} (hslot : slot.toNat < 12) (mem : BitVec 12 → BitVec 16)
    (vs : List (BitVec 16)) (hlen : vs.length ≤ 256) :
    (stored slot vs).foldl store mem = PolyRam.fillSlot mem slot vs.length fun j => vs.getD j 0 := by
  induction vs using List.reverseRecOn with
  | nil => exact (PolyRam.fillWords_zero _ _).symm
  | append_singleton vs v ih =>
    rw [List.length_append, List.length_singleton] at hlen ⊢
    have hprev : PolyRam.fillSlot mem slot vs.length (fun j => vs.getD j 0) =
        PolyRam.fillSlot mem slot vs.length fun j => (vs ++ [v]).getD j 0 := by
      funext a
      simp only [PolyRam.fillSlot, PolyRam.fillWords]
      split_ifs with ha
      · rw [List.getD_append _ _ _ _ (by omega)]
      · rfl
    rw [stored_concat, List.foldl_append, ih (by omega), hprev]
    refine PolyRam.next_fillWords _ _ rfl (by omega) rfl rfl ?_
    rw [List.getD_append_right _ _ _ _ le_rfl, Nat.sub_self]
    rfl

/-- What a cycle writes into the polynomial memory. -/
def wrote (s : State P) : List (BitVec 12 × BitVec 16) :=
  if (polyPort s).we then [((polyPort s).addr, (polyPort s).wdata)] else []

variable (P) in
/-- The writes before cycle `t`. -/
def written (s : State P) (ins : ℕ → HashIn × κ) : ℕ → List (BitVec 12 × BitVec 16) :=
  (design P).gather (fun s _ => wrote s) s ins

end Trace

section Source

variable (o : Source)

/-- The bytes of the output. -/
def Source.stream (n : ℕ) : BitVec 8 := (o.output.getD n 0).toBitVec

/-- The bytes of a group. -/
def Source.width : ℕ := if o.job.command = C_MATRIX then 3 else if o.job.eta3 then 3 else 4

/-- The parameter of the noise. -/
def Source.eta : ℕ := if o.job.eta3 then 3 else 2

/-- The coefficients of a group of the noise. -/
def Source.share : ℕ := if o.job.eta3 then 4 else 8

/-- Coefficient `i` of the noise. -/
def Source.noise (i : ℕ) : BitVec 16 := BitVec.ofInt 16 (samplePolyCbd o.stream o.eta i)

/-- The values the command writes: those of `SampleNTT` from 341 groups, or the 256 of `SamplePolyCBD`. -/
def Source.values : List (BitVec 16) :=
  if o.job.command = C_MATRIX then (sampleNtt o.stream 341).map (BitVec.ofNat 16)
  else (List.range 256).map o.noise

/-- The matrix command finds too few values. -/
def Source.short : Bool :=
  o.job.command = C_MATRIX && decide ((accepted o.stream 341).length < 256)

end Source

section Edges

variable {o : Source} {s : State P} {i : HashIn} {k : κ} {c : ℕ}

/-- The sponge has given `c` bytes; with the last one it rests, and the engine knows or is told. -/
def Given (o : Source) (s : State P) (c : ℕ) : Prop :=
  (s.hashFinished = false ∧ Sha3ShakeStream.Rel s.hash (squeezing s o.message c)) ∨
    (Sha3ShakeStream.Rel s.hash .idle ∧ c = o.outputs ∧ (hdone s = true ∨ s.hashFinished = true))

/-- The byte at the output is taken. -/
def taken (s : State P) : Bool := oready s && Sha3ShakeStream.outputValid s.hash

theorem emits_taken (k : κ) : Sha3ShakeStream.emits s.hash (hashPins s k) = taken s := Bool.and_comm _ _

theorem Given.le (hholds : Holds o s) (h : Given o s c) : c ≤ o.outputs := by
  rcases h with ⟨-, h⟩ | ⟨-, rfl, -⟩
  · rw [← (mode_eq hholds).2]
    exact Sha3ShakeStream.count_le h
  · exact le_rfl

theorem Given.next (hs : s.state.gives = true) (hholds : Holds o s) (h : Given o s c) :
    Given o (next s i k) (c + if taken s then 1 else 0) := by
  have hne : s.state ≠ .idle ∧ s.state ≠ .hstart := by
    constructor <;> intro hc <;> simp [hc, St.gives] at hs
  obtain ⟨hcmd, -, -, -, -, -, -, heta, -⟩ := next_job (i := i) (k := k) hne.1
  have hfin := (gives_next (i := i) (k := k) hs).1
  rcases h with ⟨hnot, hrel⟩ | ⟨hrel, hend, hd⟩
  · have hmove := squeezing_next (i := i) (k := k) hholds hrel
    rw [emits_taken] at hmove
    rcases hmove with hgo | ⟨hidle, hlast, hcount⟩
    · left
      rw [hfin, hnot, show hdone s = false from hrel.2.1, squeezing, hcmd, heta]
      exact ⟨rfl, hgo⟩
    · exact Or.inr ⟨hidle, hcount, Or.inl hlast⟩
  · have hno : taken s = false := by simp [taken, Sha3ShakeStream.outputValid, hrel.1]
    obtain ⟨hidle, -, -⟩ := sponge_rest (i := i) (k := k) hrel hne.2
    rw [hno]
    refine Or.inr ⟨hidle, hend, Or.inr ?_⟩
    rw [hfin]
    rcases hd with hd | hd <;> simp [hd]

/-- The byte taken is the next one of the output. -/
theorem Given.byte (k : κ) (hholds : Holds o s) (h : Given o s c) (ht : taken s = true) :
    Sha3ShakeStream.outputByte s.hash = o.stream c := by
  rcases h with ⟨-, hrel⟩ | ⟨hrel, -, -⟩
  · have hemit : Sha3ShakeStream.emits s.hash (hashPins s k) = true := by rw [emits_taken, ht]
    obtain ⟨hlt, hbyte⟩ := Sha3ShakeStream.emits_eq hrel hemit
    rw [(mode_eq hholds).2] at hlt
    rw [Source.stream, output_next hholds hlt, ← hbyte]
  · simp [taken, Sha3ShakeStream.outputValid, hrel.1] at ht

/-- Before its last byte the sponge gives. -/
theorem Given.flying (h : Given o s c) (hc : c ≠ o.outputs) : hdone s = false ∧ s.hashFinished = false := by
  rcases h with ⟨hfin, hrel⟩ | ⟨-, hend, -⟩
  · exact ⟨hrel.2.1, hfin⟩
  · exact absurd hend hc

/-- An edge of `OUT` of a command that is sampled. -/
theorem out_next (hs : s.state = .out) (hholds : Holds o s) (hsample : o.sampled) : next s i k =
    if taken s then
      if s.byteCount.toNat + 1 = o.width then
        { frame s k with
          group := patch s.group (8 * s.byteCount.toNat) (Sha3ShakeStream.outputByte s.hash)
          byteCount := 0, writeIndex := 0, state := if o.job.command = C_MATRIX then .check else .nwrite }
      else
        { frame s k with
          group := patch s.group (8 * s.byteCount.toNat) (Sha3ShakeStream.outputByte s.hash)
          byteCount := s.byteCount + 1 }
    else if hdone s then { frame s k with error := s.error || o.job.command = C_MATRIX, state := .done }
    else frame s k := by
  have ht : taken s = Sha3ShakeStream.outputValid s.hash := by simp [taken, oready, hs]
  have hcmd : s.cmd = C_MATRIX ∨ s.cmd = C_NOISE := by
    rw [hholds.cmd]
    exact hsample
  have hlast : (s.byteCount = if s.cmd = C_MATRIX then (2 : BitVec 2) else if s.eta then 2 else 3) ↔
      s.byteCount.toNat + 1 = o.width := by
    rw [Source.width, ← hholds.cmd, ← hholds.eta]
    generalize s.byteCount = n
    split_ifs <;> revert n <;> decide
  have hnext : next s i k = outNext s (frame s k) := by simp only [next, hs, frame]
  rw [hnext, outNext, ht, ← hholds.cmd]
  simp only [hcmd, if_true, hlast, Bool.or_eq_true, decide_eq_true_eq]

end Edges

section Matrix

variable {o : Source} {s : State P} {i : HashIn} {k : κ} {c : ℕ} {found : List ℕ}

/-- The pair under test. -/
def pair (s : State P) : (BitVec 12 × Bool) × (BitVec 12 × Bool) := rejectionPair (slice s.group 0 24)

def first (s : State P) : List ℕ := if (pair s).1.2 then [(pair s).1.1.toNat] else []

def second (s : State P) : List ℕ := if (pair s).2.2 then [(pair s).2.1.toNat] else []

/-- A group of three bytes is in, behind `g` groups. -/
structure Grouped (o : Source) (s : State P) (c g : ℕ) : Prop where
  count : c = 3 * g + 3
  bytes : Bytewise o.stream (3 * g) 3 s.group
  zero : s.byteCount = 0#2

theorem Grouped.accepted {g : ℕ} (h : Grouped o s c g) :
    accepted o.stream (g + 1) = Fips203.accepted o.stream g ++ (first s ++ second s) := by
  rw [accepted_succ, rejectionPair_accepted h.bytes.low]
  rfl

/-- Where the matrix command stands, with `c` bytes taken and `found` written. -/
def MatrixAt (o : Source) (s : State P) (c : ℕ) (found : List ℕ) : Prop :=
  match s.state with
  | .out => s.coeffCount.toNat = found.length ∧ s.hashFinished = false ∧ ∃ g, c = 3 * g + s.byteCount.toNat ∧
      s.byteCount.toNat < 3 ∧ Bytewise o.stream (3 * g) s.byteCount.toNat s.group ∧ found = accepted o.stream g
  | .check => s.coeffCount.toNat = found.length ∧ ∃ g, Grouped o s c g ∧ found = accepted o.stream g
  | .w0 => s.coeffCount.toNat = found.length ∧ (pair s).1.2 = true ∧
      ∃ g, Grouped o s c g ∧ found = accepted o.stream g
  | .w1 => s.coeffCount.toNat = found.length ∧ (pair s).2.2 = true ∧
      ∃ g, Grouped o s c g ∧ found = accepted o.stream g ++ first s
  | .drain => found.length = 256 ∧ ∃ g, 3 * g ≤ c ∧ found <+: accepted o.stream g
  | .done => found = sampleNtt o.stream 341 ∧ s.error = decide ((accepted o.stream 341).length < 256)
  | _ => False

/-- The value written at the edge. -/
def tested (s : State P) : List ℕ :=
  match s.state with
  | .w0 => [(pair s).1.1.toNat]
  | .w1 => [(pair s).2.1.toNat]
  | _ => []

/-- The last byte of the output belongs to no group. -/
theorem Grouped.inside {g : ℕ} (hmat : o.job.command = C_MATRIX) (hholds : Holds o s) (hgiven : Given o s c)
    (h : Grouped o s c g) : g < 341 ∧ hdone s = false ∧ s.hashFinished = false := by
  have hle := hgiven.le hholds
  have hout : o.outputs = 1024 := by simp [Source.outputs, hmat, C_MATRIX, C_G]
  have hcount := h.count
  exact ⟨by omega, hgiven.flying (by omega)⟩

theorem width_matrix (hmat : o.job.command = C_MATRIX) : o.width = 3 := by rw [Source.width, if_pos hmat]

/-- The count after one more value, where it is not the last one. -/
theorem count_succ {n : BitVec 8} {found : List ℕ} (h : n.toNat = found.length) (hlast : n ≠ 255) (v : ℕ) :
    (n + 1).toNat = (found ++ [v]).length := by
  have hlt := n.isLt
  have hne : n.toNat ≠ 255 := fun heq => hlast (BitVec.eq_of_toNat_eq heq)
  rw [List.length_append, List.length_singleton, ← h]
  exact toNat_succ (by omega)

theorem matrix_out (hs : s.state = .out) (hmat : o.job.command = C_MATRIX) (hholds : Holds o s)
    (hgiven : Given o s c) (hclear : s.error = false) (h : MatrixAt o s c found) :
    MatrixAt o (next s i k) (c + if taken s then 1 else 0) found := by
  simp only [MatrixAt, hs] at h
  obtain ⟨hcount, hfin, g, hc, hlt, hbytes, hfound⟩ := h
  rw [out_next hs hholds (Or.inl hmat), width_matrix hmat]
  cases ht : taken s with
  | true =>
    have hpatch := hbytes.patch (m := 32) (by omega)
    have hbyte : Sha3ShakeStream.outputByte s.hash = o.stream (3 * g + s.byteCount.toNat) := by
      rw [← hc]
      exact hgiven.byte k hholds ht
    rw [← hbyte] at hpatch
    have hquiet : hdone s = false := by
      rcases hgiven with ⟨-, hrel⟩ | ⟨hrel, -, -⟩
      · exact hrel.2.1
      · simp [taken, Sha3ShakeStream.outputValid, hrel.1] at ht
    by_cases hlast : s.byteCount.toNat + 1 = 3
    · simp only [if_true, hlast, hmat, MatrixAt]
      refine ⟨hcount, g, ⟨by omega, ?_, rfl⟩, hfound⟩
      rw [hlast] at hpatch
      exact hpatch
    · have hsucc : (s.byteCount + 1).toNat = s.byteCount.toNat + 1 := toNat_succ (by omega)
      simp only [if_true, if_neg hlast, MatrixAt, frame, hs]
      refine ⟨hcount, by simp [hfin, hquiet], g, by omega, by omega, ?_, hfound⟩
      rw [hsucc]
      exact hpatch
  | false =>
    simp only [Bool.false_eq_true, if_false, Nat.add_zero]
    cases hd : hdone s with
    | true =>
      -- the sponge has given its last byte, which is the first one of a group that does not end
      have hlen := BitVec.isLt s.coeffCount
      have hend : c = 1024 := by
        rcases hgiven with ⟨-, hrel⟩ | ⟨-, hend, -⟩
        · exact absurd hrel.2.1 (by rw [show s.hash.done = true from hd]; decide)
        · rw [hend]
          simp [Source.outputs, hmat, C_MATRIX, C_G]
      obtain rfl : g = 341 := by omega
      simp only [if_true, MatrixAt]
      refine ⟨?_, ?_⟩
      · rw [hfound, sampleNtt, List.take_of_length_le (by rw [← hfound]; omega)]
      · rw [hclear, decide_eq_true hmat, decide_eq_true (by rw [← hfound]; omega)]
        rfl
    | false =>
      simp only [Bool.false_eq_true, if_false, MatrixAt, frame, hs, hd, hfin, Bool.or_false]
      exact ⟨hcount, trivial, g, hc, hlt, hbytes, hfound⟩

/-- The group that has been worked off opens the way to the next one. -/
theorem Grouped.out {g : ℕ} (hmat : o.job.command = C_MATRIX) (hholds : Holds o s) (hgiven : Given o s c)
    (h : Grouped o s c g) {s' : State P} (hs' : s'.state = .out) (hcount : s'.coeffCount.toNat = found.length)
    (hzero : s'.byteCount = s.byteCount) (hfin : s'.hashFinished = (s.hashFinished || hdone s))
    (hfound : found = Fips203.accepted o.stream (g + 1)) : MatrixAt o s' c found := by
  obtain ⟨-, hquiet, hnot⟩ := h.inside hmat hholds hgiven
  simp only [MatrixAt, hs', hzero, h.zero]
  refine ⟨hcount, by rw [hfin, hnot, hquiet]; rfl, g + 1, h.count, by decide, ?_, hfound⟩
  intro j hj
  exact absurd hj (Nat.not_lt_zero j)

theorem matrix_check (hs : s.state = .check) (hmat : o.job.command = C_MATRIX) (hholds : Holds o s)
    (hgiven : Given o s c) (h : MatrixAt o s c found) : MatrixAt o (next s i k) c found := by
  simp only [MatrixAt, hs] at h
  obtain ⟨hcount, g, hgroup, hfound⟩ := h
  have hnext : next s i k = { frame s k with
      state := if (pair s).1.2 then .w0 else if (pair s).2.2 then .w1 else .out } := by
    simp only [next, hs, frame, pair]
    rfl
  have hall := hgroup.accepted
  rw [hnext]
  cases h0 : (pair s).1.2 with
  | true => exact ⟨hcount, h0, g, ⟨hgroup.count, hgroup.bytes, hgroup.zero⟩, hfound⟩
  | false =>
    have hfirst : first s = [] := by simp [first, h0]
    cases h1 : (pair s).2.2 with
    | true =>
      refine ⟨hcount, h1, g, ⟨hgroup.count, hgroup.bytes, hgroup.zero⟩, ?_⟩
      change found = Fips203.accepted o.stream g ++ first s
      rw [hfound, hfirst, List.append_nil]
    | false =>
      have hsecond : second s = [] := by simp [second, h1]
      refine hgroup.out hmat hholds hgiven rfl hcount rfl rfl ?_
      rw [hall, hfirst, hsecond, List.append_nil, List.append_nil, hfound]

/-- The 256th value ends the search. -/
theorem matrix_full {g : ℕ} (hgroup : Grouped o s c g) (hcount : s.coeffCount.toNat = found.length)
    (hlast : s.coeffCount = 255) {v : ℕ} (hfound : found ++ [v] <+: Fips203.accepted o.stream (g + 1))
    {s' : State P} (hs' : s'.state = .drain) : MatrixAt o s' c (found ++ [v]) := by
  have hc := hgroup.count
  rw [hlast] at hcount
  simp only [MatrixAt, hs']
  refine ⟨?_, g + 1, by omega, hfound⟩
  rw [List.length_append, ← hcount]
  rfl

theorem matrix_w0 (hs : s.state = .w0) (hmat : o.job.command = C_MATRIX) (hholds : Holds o s)
    (hgiven : Given o s c) (h : MatrixAt o s c found) :
    MatrixAt o (next s i k) c (found ++ [(pair s).1.1.toNat]) := by
  simp only [MatrixAt, hs] at h
  obtain ⟨hcount, h0, g, hgroup, hfound⟩ := h
  have hfirst : first s = [(pair s).1.1.toNat] := by simp [first, h0]
  have hall := hgroup.accepted
  rw [hfirst, ← List.append_assoc, ← hfound] at hall
  have hnext : next s i k = if s.coeffCount = 255 then { frame s k with state := .drain } else
      { frame s k with coeffCount := s.coeffCount + 1, state := if (pair s).2.2 then .w1 else .out } := by
    simp only [next, hs, frame, pair]
    rfl
  rw [hnext]
  split_ifs with hlast h1
  · exact matrix_full hgroup hcount hlast (hall ▸ List.prefix_append _ _) rfl
  · refine ⟨count_succ hcount hlast _, h1, g, ⟨hgroup.count, hgroup.bytes, hgroup.zero⟩, ?_⟩
    change _ = Fips203.accepted o.stream g ++ first s
    rw [hfirst, hfound]
  · have hsecond : second s = [] := by simp [second, h1]
    refine hgroup.out hmat hholds hgiven rfl (count_succ hcount hlast _) rfl rfl ?_
    rw [hall, hsecond, List.append_nil]

theorem matrix_w1 (hs : s.state = .w1) (hmat : o.job.command = C_MATRIX) (hholds : Holds o s)
    (hgiven : Given o s c) (h : MatrixAt o s c found) :
    MatrixAt o (next s i k) c (found ++ [(pair s).2.1.toNat]) := by
  simp only [MatrixAt, hs] at h
  obtain ⟨hcount, h1, g, hgroup, hfound⟩ := h
  have hsecond : second s = [(pair s).2.1.toNat] := by simp [second, h1]
  have hall := hgroup.accepted
  rw [← List.append_assoc, ← hfound, hsecond] at hall
  have hnext : next s i k = if s.coeffCount = 255 then { frame s k with state := .drain } else
      { frame s k with coeffCount := s.coeffCount + 1, state := .out } := by
    simp only [next, hs, frame]
  rw [hnext]
  split_ifs with hlast
  · exact matrix_full hgroup hcount hlast (hall ▸ List.prefix_rfl) rfl
  · exact hgroup.out hmat hholds hgiven rfl (count_succ hcount hlast _) rfl rfl hall.symm

theorem matrix_drain (hs : s.state = .drain) (hmat : o.job.command = C_MATRIX) (hholds : Holds o s)
    (hgiven : Given o s c) (hclear : s.error = false) (h : MatrixAt o s c found) :
    MatrixAt o (next s i k) (c + if taken s then 1 else 0) found := by
  simp only [MatrixAt, hs] at h
  obtain ⟨hlen, g, hg, hprefix⟩ := h
  have hnext : next s i k = if hdone s || s.hashFinished then { frame s k with state := .done } else frame s k := by
    simp only [next, hs, frame]
  rw [hnext]
  by_cases hend : (hdone s || s.hashFinished) = true
  · have hle := hgiven.le hholds
    have hout : o.outputs = 1024 := by simp [Source.outputs, hmat, C_MATRIX, C_G]
    have hg : g ≤ 341 := by omega
    have hmany := ( hprefix.trans ( accepted_prefix o.stream hg)).length_le
    simp only [if_pos hend, MatrixAt, frame, hclear]
    refine ⟨(sampleNtt_eq o.stream hg hprefix hlen).symm, ?_⟩
    rw [decide_eq_false (by omega)]
  · simp only [if_neg hend, MatrixAt, frame, hs]
    exact ⟨hlen, g, by omega, hprefix⟩

end Matrix

section Noise

variable {o : Source} {s : State P} {i : HashIn} {k : κ} {c n : ℕ}

/-- Where the noise command stands, with `c` bytes taken and `n` coefficients written. -/
def NoiseAt (o : Source) (s : State P) (c n : ℕ) : Prop :=
  match s.state with
  | .out => s.coeffCount.toNat = n ∧ ∃ g, c = o.width * g + s.byteCount.toNat ∧ s.byteCount.toNat < o.width ∧
      Bytewise o.stream (o.width * g) s.byteCount.toNat s.group ∧ n = o.share * g
  | .nwrite => s.coeffCount.toNat = n ∧ s.byteCount = 0#2 ∧ ∃ g, c = o.width * (g + 1) ∧
      Bytewise o.stream (o.width * g) o.width s.group ∧ n = o.share * g + s.writeIndex.toNat ∧
      s.writeIndex.toNat < o.share
  | .drain => n = 256
  | .done => n = 256 ∧ s.error = false
  | _ => False

/-- The sizes of the two kinds of noise. -/
theorem noise_sizes (hno : o.job.command = C_NOISE) :
    (o.job.eta3 = true ∧ o.width = 3 ∧ o.share = 4 ∧ o.eta = 3 ∧ o.outputs = 192) ∨
      (o.job.eta3 = false ∧ o.width = 4 ∧ o.share = 8 ∧ o.eta = 2 ∧ o.outputs = 128) := by
  cases h : o.job.eta3
  · exact Or.inr (by simp [Source.width, Source.share, Source.eta, Source.outputs, hno, h, C_NOISE, C_MATRIX, C_G])
  · exact Or.inl (by simp [Source.width, Source.share, Source.eta, Source.outputs, hno, h, C_NOISE, C_MATRIX, C_G])

theorem not_matrix (hno : o.job.command = C_NOISE) : ¬ o.job.command = C_MATRIX := by
  rw [hno]
  decide

/-- Between the groups of the noise bytes are left. -/
theorem noise_flying (hs : s.state = .out) (hno : o.job.command = C_NOISE) (h : NoiseAt o s c n) :
    c ≠ o.outputs := by
  simp only [NoiseAt, hs] at h
  obtain ⟨hcount, g, hc, hlt, -, hn⟩ := h
  have hsmall := s.coeffCount.isLt
  rcases noise_sizes hno with ⟨-, hw, hshare, -, hout⟩ | ⟨-, hw, hshare, -, hout⟩ <;> rw [hw] at hc hlt <;>
    rw [hshare] at hn <;> omega

theorem noise_out (hs : s.state = .out) (hno : o.job.command = C_NOISE) (hholds : Holds o s)
    (hgiven : Given o s c) (h : NoiseAt o s c n) :
    NoiseAt o (next s i k) (c + if taken s then 1 else 0) n := by
  have hquiet := (hgiven.flying (noise_flying hs hno h)).1
  have hsizes := noise_sizes hno
  simp only [NoiseAt, hs] at h
  obtain ⟨hcount, g, hc, hlt, hbytes, hn⟩ := h
  rw [out_next hs hholds (Or.inr hno)]
  cases ht : taken s with
  | true =>
    have hwidth : o.width ≤ 4 := by
      rcases hsizes with ⟨-, hw, -⟩ | ⟨-, hw, -⟩ <;> omega
    have hpatch := hbytes.patch (m := 32) (by omega)
    have hbyte : Sha3ShakeStream.outputByte s.hash = o.stream (o.width * g + s.byteCount.toNat) := by
      rw [← hc]
      exact hgiven.byte k hholds ht
    rw [← hbyte] at hpatch
    by_cases hlast : s.byteCount.toNat + 1 = o.width
    · simp only [if_true, hlast, if_neg (not_matrix hno), NoiseAt]
      refine ⟨hcount, rfl, g, by rw [Nat.mul_succ]; omega, ?_, hn, ?_⟩
      · rw [hlast] at hpatch
        exact hpatch
      · change 0 < o.share
        rcases hsizes with ⟨-, -, hshare, -⟩ | ⟨-, -, hshare, -⟩ <;> omega
    · have hsucc : (s.byteCount + 1).toNat = s.byteCount.toNat + 1 := toNat_succ (by omega)
      simp only [if_true, if_neg hlast, NoiseAt, frame, hs]
      refine ⟨hcount, g, by omega, by omega, ?_, hn⟩
      rw [hsucc]
      exact hpatch
  | false =>
    simp only [Bool.false_eq_true, if_false, Nat.add_zero, hquiet, NoiseAt, frame, hs]
    exact ⟨hcount, g, hc, hlt, hbytes, hn⟩

/-- The value written is the coefficient in turn. -/
theorem noise_value (hs : s.state = .nwrite) (hno : o.job.command = C_NOISE) (hholds : Holds o s)
    (h : NoiseAt o s c n) : (polyPort s).wdata = o.noise n := by
  simp only [NoiseAt, hs] at h
  obtain ⟨-, -, g, -, hbytes, hn, hlt⟩ := h
  simp only [polyPort, hs, hholds.eta, Source.noise, hn]
  rcases noise_sizes hno with ⟨he, hw, hshare, heta, -⟩ | ⟨he, hw, hshare, heta, -⟩
  · rw [hw] at hbytes
    rw [hshare] at hlt ⊢
    rw [heta, ← cbdEta3_eq hbytes.low hlt]
    simp [he]
  · rw [hw] at hbytes
    rw [hshare] at hlt ⊢
    rw [heta, ← cbdEta2_eq hbytes hlt]
    simp [he]

theorem share_le (o : Source) : o.share ≤ 8 := by
  rw [Source.share]
  split_ifs <;> decide

/-- An edge of `NWRITE`. -/
theorem nwrite_next (hs : s.state = .nwrite) (hholds : Holds o s) : next s i k =
    if s.coeffCount = 255 then { frame s k with state := .drain } else
      if s.writeIndex.toNat + 1 = o.share then
        { frame s k with coeffCount := s.coeffCount + 1, writeIndex := 0, state := .out }
      else { frame s k with coeffCount := s.coeffCount + 1, writeIndex := s.writeIndex + 1 } := by
  have hlast : (s.writeIndex = if s.eta then (3 : BitVec 3) else 7) ↔ s.writeIndex.toNat + 1 = o.share := by
    rw [Source.share, ← hholds.eta]
    generalize s.writeIndex = m
    split_ifs <;> revert m <;> decide
  simp only [next, hs, frame, hlast]

theorem noise_nwrite (hs : s.state = .nwrite) (hno : o.job.command = C_NOISE) (hholds : Holds o s)
    (h : NoiseAt o s c n) : NoiseAt o (next s i k) c (n + 1) := by
  simp only [NoiseAt, hs] at h
  obtain ⟨hcount, hzero, g, hc, hbytes, hn, hlt⟩ := h
  have hsucc : s.coeffCount ≠ 255 → (s.coeffCount + 1).toNat = n + 1 := by
    intro hne
    have h255 : s.coeffCount.toNat ≠ 255 := fun heq => hne (BitVec.eq_of_toNat_eq heq)
    have hsmall := s.coeffCount.isLt
    rw [← hcount]
    exact toNat_succ (by omega)
  rw [nwrite_next hs hholds]
  split_ifs with hfull hend
  · rw [hfull] at hcount
    change n + 1 = 256
    rw [← hcount]
    rfl
  · refine ⟨hsucc hfull, g + 1, ?_, ?_, ?_, ?_⟩
    · rw [hc, frame, hzero]
      rfl
    · rw [frame, hzero]
      change 0 < o.width
      rcases noise_sizes hno with ⟨-, hw, -⟩ | ⟨-, hw, -⟩ <;> omega
    · rw [frame, hzero]
      intro j hj
      exact absurd hj (Nat.not_lt_zero j)
    · rw [Nat.mul_succ]
      omega
  · have hindex : (s.writeIndex + 1).toNat = s.writeIndex.toNat + 1 := by
      have hshare := share_le o
      exact toNat_succ (by omega)
    simp only [NoiseAt, frame, hs, hindex]
    exact ⟨hsucc hfull, hzero, g, hc, hbytes, by omega, by omega⟩

theorem noise_drain (hs : s.state = .drain) (hclear : s.error = false) (h : NoiseAt o s c n) (c' : ℕ) :
    NoiseAt o (next s i k) c' n := by
  simp only [NoiseAt, hs] at h
  have hnext : next s i k = if hdone s || s.hashFinished then { frame s k with state := .done } else frame s k := by
    simp only [next, hs, frame]
  rw [hnext]
  by_cases hend : (hdone s || s.hashFinished) = true
  · rw [if_pos hend]
    exact ⟨h, hclear⟩
  · simp only [if_neg hend, NoiseAt, frame, hs]
    exact h

end Noise

section Step

variable {o : Source} {s : State P} {i : HashIn} {k : κ} {c : ℕ} {vs : List (BitVec 16)}

/-- Outside of a start the slot stays, and the error flag until the done pulse. -/
theorem next_slot (h : s.state ≠ .idle) : (next s i k).slot = s.slot ∧
    ((next s i k).state ≠ .done → (next s i k).error = s.error) := by
  cases hc : s.state
  case idle => exact absurd hc h
  case feed =>
    rw [feed_next hc]
    exact ⟨rfl, fun _ => rfl⟩
  all_goals simp only [next, hc, outNext]
  all_goals try split_ifs
  all_goals simp

/-- Where a sampled command stands, with `c` bytes taken and `vs` written. -/
structure Sampling (o : Source) (s : State P) (c : ℕ) (vs : List (BitVec 16)) : Prop where
  holds : Holds o s
  slot : s.slot = o.job.dstSlot
  given : Given o s c
  clear : s.state ≠ .done → s.error = false
  place : (o.job.command = C_MATRIX ∧ ∃ found, vs = found.map (BitVec.ofNat 16) ∧ MatrixAt o s c found) ∨
    (o.job.command = C_NOISE ∧ vs = (List.range vs.length).map o.noise ∧ NoiseAt o s c vs.length)

/-- The value of the write of a cycle. -/
def value (s : State P) : List (BitVec 16) := if (polyPort s).we then [(polyPort s).wdata] else []

theorem value_quiet (h : s.state = .out ∨ s.state = .check ∨ s.state = .drain) : value s = [] := by
  rcases h with h | h | h <;> simp [value, polyPort, h]

theorem matrix_next (hs : s.state.gives = true) (hmat : o.job.command = C_MATRIX) (hholds : Holds o s)
    (hgiven : Given o s c) (hclear : s.error = false) {found : List ℕ} (h : MatrixAt o s c found) :
    ∃ found', MatrixAt o (next s i k) (c + if taken s then 1 else 0) found' ∧
      found'.map (BitVec.ofNat 16) = found.map (BitVec.ofNat 16) ++ value s := by
  have hwait : s.state ≠ .out → s.state ≠ .drain → taken s = false := by
    intro h1 h2
    simp [taken, oready, h1, h2]
  cases hc : s.state <;> simp only [St.gives, hc, Bool.false_eq_true] at hs
  case out =>
    rw [value_quiet (Or.inl hc)]
    exact ⟨found, matrix_out hc hmat hholds hgiven hclear h, by simp⟩
  case check =>
    rw [value_quiet (Or.inr (Or.inl hc)), hwait (by simp [hc]) (by simp [hc])]
    exact ⟨found, matrix_check hc hmat hholds hgiven h, by simp⟩
  case w0 =>
    rw [hwait (by simp [hc]) (by simp [hc])]
    refine ⟨_, matrix_w0 hc hmat hholds hgiven h, ?_⟩
    simp [value, polyPort, hc, pair, BitVec.ofNat_toNat]
  case w1 =>
    rw [hwait (by simp [hc]) (by simp [hc])]
    refine ⟨_, matrix_w1 hc hmat hholds hgiven h, ?_⟩
    simp [value, polyPort, hc, pair, BitVec.ofNat_toNat]
  case nwrite => simp [MatrixAt, hc] at h
  case drain =>
    rw [value_quiet (Or.inr (Or.inr hc))]
    exact ⟨found, matrix_drain hc hmat hholds hgiven hclear h, by simp⟩

theorem noise_next (hs : s.state.gives = true) (hno : o.job.command = C_NOISE) (hholds : Holds o s)
    (hgiven : Given o s c) (hclear : s.error = false) {n : ℕ} (h : NoiseAt o s c n) :
    ∃ n', NoiseAt o (next s i k) (c + if taken s then 1 else 0) n' ∧
      (List.range n').map o.noise = (List.range n).map o.noise ++ value s := by
  cases hc : s.state <;> simp only [St.gives, hc, Bool.false_eq_true] at hs
  case out =>
    rw [value_quiet (Or.inl hc)]
    exact ⟨n, noise_out hc hno hholds hgiven h, by simp⟩
  case nwrite =>
    have hwait : taken s = false := by simp [taken, oready, hc]
    have hvalue : value s = [o.noise n] := by
      rw [← noise_value hc hno hholds h]
      simp [value, polyPort, hc]
    rw [hwait, hvalue]
    refine ⟨n + 1, noise_nwrite hc hno hholds h, ?_⟩
    rw [List.range_succ, List.map_append]
    rfl
  case drain =>
    rw [value_quiet (Or.inr (Or.inr hc))]
    exact ⟨n, noise_drain hc hclear h _, by simp⟩
  all_goals simp [NoiseAt, hc] at h

/-- A write goes to the word behind those written. -/
theorem Sampling.wrote (h : Sampling o s c vs) :
    stored o.job.dstSlot (vs ++ value s) = stored o.job.dstSlot vs ++ wrote s := by
  cases hwe : (polyPort s).we with
  | false => simp [value, SharedHashEngine.wrote, hwe]
  | true =>
    have hcount : s.coeffCount.toNat = vs.length := by
      have hst : s.state = .w0 ∨ s.state = .w1 ∨ s.state = .nwrite := by simpa [polyPort, or_assoc] using hwe
      rcases h.place with ⟨-, found, rfl, hat⟩ | ⟨-, -, hat⟩
      · rw [List.length_map]
        rcases hst with hst | hst | hst <;> simp only [MatrixAt, hst] at hat
        · exact hat.1
        · exact hat.1
      · rcases hst with hst | hst | hst <;> simp only [NoiseAt, hst] at hat
        exact hat.1
    simp only [value, SharedHashEngine.wrote, hwe, if_true, stored_concat, ← hcount, ← h.slot]
    rfl

theorem Sampling.next (hs : s.state.gives = true) (h : Sampling o s c vs) :
    Sampling o (next s i k) (c + if taken s then 1 else 0) (vs ++ value s) := by
  have hne : s.state ≠ .idle ∧ s.state ≠ .done := by
    constructor <;> intro hc <;> simp [hc, St.gives] at hs
  obtain ⟨hslot, herror⟩ := next_slot (i := i) (k := k) hne.1
  have hclear := h.clear hne.2
  refine ⟨Holds.step hne.1 h.holds, hslot.trans h.slot, h.given.next hs h.holds,
    fun hd => (herror hd).trans hclear, ?_⟩
  rcases h.place with ⟨hmat, found, hvs, hat⟩ | ⟨hno, hvs, hat⟩
  · obtain ⟨found', hat', hvs'⟩ := matrix_next (i := i) (k := k) hs hmat h.holds h.given hclear hat
    exact Or.inl ⟨hmat, found', by rw [hvs', hvs], hat'⟩
  · obtain ⟨n', hat', hvs'⟩ := noise_next (i := i) (k := k) hs hno h.holds h.given hclear hat
    rw [← hvs] at hvs'
    have hlen : (vs ++ value s).length = n' := by rw [← hvs', List.length_map, List.length_range]
    exact Or.inr ⟨hno, by rw [hlen, hvs'], by rw [hlen]; exact hat'⟩

end Step

section Progress

variable {o : Source} {s : State P} {i : HashIn} {k : κ} {c : ℕ} {vs : List (BitVec 16)} (T : P.Timed)

/-- The edges until the next byte is asked for. -/
def workLeft (s : State P) : ℕ :=
  match s.state with
  | .check => 3
  | .w0 => 2
  | .w1 => 1
  | .nwrite => 8 - s.writeIndex.toNat
  | _ => 0

theorem workLeft_le (s : State P) : workLeft s ≤ 8 := by
  unfold workLeft
  split <;> omega

/-- A bound for the edges of the sponge. -/
def spongeLeft (o : Source) (s : State P) (c : ℕ) : ℕ :=
  if s.hash.controlState = .idle then 0 else Sha3ShakeStream.left T s.hash (o.outputs - c) + 1

/-- A bound for the edges until the done pulse, nearly. -/
def sampleLeft (o : Source) (s : State P) (c : ℕ) : ℕ := 16 * spongeLeft T o s c + workLeft s

theorem squeeze_busy {mode : BitVec 2} {length : BitVec 16} {message : Bytes} {count : ℕ}
    {h : Sha3ShakeStream.State P} (hrel : Sha3ShakeStream.Rel h (.squeeze mode length message count)) :
    h.controlState ≠ .idle := by
  intro hc
  obtain ⟨-, -, hst⟩ := hrel
  simp [hc] at hst

/-- The sponge never falls behind, and comes closer to its end whenever it is listened to. -/
theorem spongeLeft_next (hs : s.state.gives = true) (hholds : Holds o s) (hgiven : Given o s c) :
    spongeLeft T o (next s i k) (c + if taken s then 1 else 0) ≤ spongeLeft T o s c ∧
      (oready s = true → s.hash.controlState ≠ .idle →
        spongeLeft T o (next s i k) (c + if taken s then 1 else 0) < spongeLeft T o s c) := by
  have hst : s.state ≠ .hstart := by
    intro hc
    simp [hc, St.gives] at hs
  rcases hgiven with ⟨-, hrel⟩ | ⟨hrel, -, -⟩
  · have hbusy := squeeze_busy hrel
    have hnow : spongeLeft T o s c = Sha3ShakeStream.left T s.hash (o.outputs - c) + 1 := if_neg hbusy
    cases hd : (Sha3ShakeStream.next s.hash (hashPins s k)).done with
    | true =>
      have hedge := Sha3ShakeStream.rel_next (i := hashPins s k) hrel
      rw [Sha3ShakeStream.phaseNext, if_pos hd] at hedge
      have hidle : (next s i k).hash.controlState = .idle := by
        rw [next_hash]
        exact hedge.1
      rw [spongeLeft, if_pos hidle, hnow]
      exact ⟨Nat.zero_le _, fun _ _ => Nat.succ_pos _⟩
    | false =>
      have hstay := squeeze_busy (Sha3ShakeStream.squeeze_stays hrel hd)
      have hlater : spongeLeft T o (next s i k) (c + if taken s then 1 else 0) =
          Sha3ShakeStream.left T (Sha3ShakeStream.next s.hash (hashPins s k))
            (o.outputs - (c + if taken s then 1 else 0)) + 1 := by
        rw [spongeLeft, next_hash, if_neg hstay]
      rw [hnow, hlater]
      rcases Sha3ShakeStream.left_next T hrel hd with ⟨hwait, hready⟩ | hlt
      · have hno : oready s = false := hready
        have htaken : taken s = false := by simp [taken, hno]
        have hsame : (Sha3ShakeStream.next s.hash (hashPins s k)).controlState = .squeeze := by
          simp [Sha3ShakeStream.next, Sha3ShakeStream.fsm, hwait, hready]
        rw [htaken, hno, Sha3ShakeStream.left, Sha3ShakeStream.left, hsame, hwait]
        exact ⟨le_rfl, fun h => absurd h (by decide)⟩
      · rw [emits_taken, (mode_eq hholds).2] at hlt
        exact ⟨by omega, fun _ _ => by omega⟩
  · obtain ⟨hidle, -, -⟩ := sponge_rest (i := i) (k := k) hrel hst
    rw [spongeLeft, if_pos hidle.1]
    exact ⟨Nat.zero_le _, fun _ h => absurd hrel.1 h⟩

theorem workLeft_next (hwork : s.state = .check ∨ s.state = .w0 ∨ s.state = .w1 ∨ s.state = .nwrite)
    (h : Sampling o s c vs) : workLeft (next s i k) < workLeft s := by
  rcases hwork with hs | hs | hs | hs
  · simp only [next, hs, workLeft]
    split_ifs <;> simp
  · simp only [next, hs, workLeft]
    split_ifs <;> simp
  · simp only [next, hs, workLeft]
    split_ifs <;> simp
  · rcases h.place with ⟨-, found, -, hat⟩ | ⟨hno, -, hat⟩
    · simp [MatrixAt, hs] at hat
    · simp only [NoiseAt, hs] at hat
      obtain ⟨-, -, g, -, -, -, hlt⟩ := hat
      have hshare := share_le o
      have hsame : (frame s k).state = .nwrite := hs
      rw [nwrite_next hs h.holds]
      split_ifs with hfull hend
      · simp only [workLeft, hs]
        omega
      · simp only [workLeft, hs]
        omega
      · have hindex : (s.writeIndex + 1).toNat = s.writeIndex.toNat + 1 := toNat_succ (by omega)
        simp only [workLeft, hs, hsame, hindex]
        omega

/-- A sampled command comes closer to its done pulse at every edge. -/
theorem sampleLeft_next (hs : s.state.gives = true) (h : Sampling o s c vs) :
    (next s i k).state = .done ∨
      sampleLeft T o (next s i k) (c + if taken s then 1 else 0) < sampleLeft T o s c := by
  obtain ⟨hle, hlt⟩ := spongeLeft_next (i := i) (k := k) T hs h.holds h.given
  have hbound := workLeft_le (next s i k)
  have hgo : oready s = true → s.hash.controlState ≠ .idle →
      sampleLeft T o (next s i k) (c + if taken s then 1 else 0) < sampleLeft T o s c := by
    intro hready hbusy
    have := hlt hready hbusy
    unfold sampleLeft
    omega
  have hwork : (s.state = .check ∨ s.state = .w0 ∨ s.state = .w1 ∨ s.state = .nwrite) →
      sampleLeft T o (next s i k) (c + if taken s then 1 else 0) < sampleLeft T o s c := by
    intro hw
    have := workLeft_next (i := i) (k := k) hw h
    unfold sampleLeft
    omega
  by_cases hidle : s.hash.controlState = .idle
  · -- a sponge at rest has given its last byte
    have hlast : c = o.outputs ∧ (hdone s = true ∨ s.hashFinished = true) := by
      rcases h.given with ⟨-, hrel⟩ | ⟨-, hend, hd⟩
      · exact absurd hidle (squeeze_busy hrel)
      · exact ⟨hend, hd⟩
    have hno : taken s = false := by simp [taken, Sha3ShakeStream.outputValid, hidle]
    cases hc : s.state <;> simp only [St.gives, hc, Bool.false_eq_true] at hs
    case out =>
      left
      rcases h.place with ⟨hmat, found, -, hat⟩ | ⟨hnoise, -, hat⟩
      · simp only [MatrixAt, hc] at hat
        have hd : hdone s = true := by simpa [hat.2.1] using hlast.2
        rw [out_next hc h.holds (Or.inl hmat), hno, hd]
        rfl
      · exact absurd hlast.1 (noise_flying hc hnoise hat)
    case drain =>
      left
      have hend : (hdone s || s.hashFinished) = true := by simpa using hlast.2
      simp [next, hc, hend]
    case check => exact Or.inr (hwork (Or.inl hc))
    case w0 => exact Or.inr (hwork (Or.inr (Or.inl hc)))
    case w1 => exact Or.inr (hwork (Or.inr (Or.inr (Or.inl hc))))
    case nwrite => exact Or.inr (hwork (Or.inr (Or.inr (Or.inr hc))))
  · right
    cases hc : s.state <;> simp only [St.gives, hc, Bool.false_eq_true] at hs
    case out | drain => exact hgo (by simp [oready, hc]) hidle
    case check => exact hwork (Or.inl hc)
    case w0 => exact hwork (Or.inr (Or.inl hc))
    case w1 => exact hwork (Or.inr (Or.inr (Or.inl hc)))
    case nwrite => exact hwork (Or.inr (Or.inr (Or.inr hc)))

end Progress

section Runs

variable {o : Source} {s : State P} {ins : ℕ → HashIn × κ} {t : ℕ}

/-- Before the first byte comes out. -/
structure Fresh (o : Source) (s : State P) : Prop where
  state : s.state = .hstart ∨ s.state = .feed ∨ s.state = .final
  error : s.error = false
  count : s.coeffCount = 0#8
  slot : s.slot = o.job.dstSlot

theorem Fresh.step {i : HashIn} {k : κ} (h : Fresh o s) (hs : s.state ≠ .final) : Fresh o (next s i k) := by
  obtain ⟨hstate, herror, hcount, hslot⟩ := h
  rcases hstate with hc | hc | hc
  · have hnext : next s i k = { frame s k with state := .feed } := by simp only [next, hc, frame]
    rw [hnext]
    exact ⟨Or.inr (Or.inl rfl), herror, hcount, hslot⟩
  · rw [feed_next hc]
    refine ⟨?_, herror, hcount, hslot⟩
    dsimp only
    split_ifs
    · exact Or.inr (Or.inr rfl)
    · exact Or.inr (Or.inl rfl)
  · exact absurd hc hs

/-- The end of the message opens the sampling. -/
theorem Fresh.opens {i : HashIn} {k : κ} {bytes : Bytes} (h : Fresh o s) (hs : s.state = .final)
    (hsample : o.sampled) (hstage : Stage s bytes) (hholds : Holds o s) (hbytes : bytes = o.message) :
    Sampling o (next s i k) 0 [] := by
  obtain ⟨hrel, -, hfin⟩ := final_next (i := i) (k := k) hs hstage
  obtain ⟨hcmd, -, -, -, -, -, -, heta, -⟩ := next_job (i := i) (k := k) (s := s) (by simp [hs])
  have hholds' := Holds.step (i := i) (k := k) (by simp [hs]) hholds
  have hgiven : Given o (next s i k) 0 := by
    left
    rw [squeezing, hcmd, heta, ← hbytes]
    exact ⟨hfin, hrel⟩
  have hnext : next s i k = { frame s k with outIndex := 0, byteCount := 0, group := 0, state := .out } := by
    simp only [next, hs, frame]
  have hnone : ∀ (base : ℕ) (x : BitVec 32), Bytewise o.stream base 0 x := fun _ _ j hj => absurd hj (Nat.not_lt_zero j)
  rw [hnext] at hholds' hgiven hfin ⊢
  refine ⟨hholds', h.slot, hgiven, fun _ => h.error, ?_⟩
  rcases hsample with hmat | hno
  · refine Or.inl ⟨hmat, [], rfl, ?_, hfin, 0, rfl, Nat.succ_pos 2, hnone _ _, rfl⟩
    rw [frame, h.count]
    rfl
  · refine Or.inr ⟨hno, rfl, ?_, 0, rfl, ?_, hnone _ _, rfl⟩
    · rw [frame, h.count]
      rfl
    · change 0 < o.width
      rcases noise_sizes hno with ⟨-, hw, -⟩ | ⟨-, hw, -⟩ <;> omega

/-- The registers of the job stay up to the done pulse. -/
theorem At.holds (h : At o s ins t) (hd : ((design P).stream s ins t).state ≠ .done) :
    Holds o ((design P).stream s ins t) := by
  have hcourse := h.course
  cases hc : ((design P).stream s ins t).state <;> simp only [Course, hc] at hcourse
  case idle => exact absurd hc h.busy
  case hstart | feed => exact hcourse.1.holds
  case done => exact absurd hc hd
  all_goals exact hcourse.1

/-- What has been written of the polynomial at cycle `t`. -/
def Writes (o : Source) (s : State P) (ins : ℕ → HashIn × κ) (t : ℕ) : Prop :=
  (Fresh o ((design P).stream s ins t) ∧ written P s ins t = []) ∨
    ((((design P).stream s ins t).state.gives = true ∨ ((design P).stream s ins t).state = .done) ∧
      ∃ c vs, Sampling o ((design P).stream s ins t) c vs ∧ written P s ins t = stored o.job.dstSlot vs)

theorem written_succ : written P s ins (t + 1) = written P s ins t ++ wrote ((design P).stream s ins t) := rfl

theorem Writes.step (hsample : o.sampled) (hat : At o s ins t) (h : Writes o s ins t)
    (hd : ((design P).stream s ins t).state ≠ .done) : Writes o s ins (t + 1) := by
  rcases h with ⟨hfresh, hnone⟩ | ⟨hgives | hdone, c, vs, hsampling, hwritten⟩
  · have hquiet : wrote ((design P).stream s ins t) = [] := by
      rcases hfresh.state with hc | hc | hc <;> simp [wrote, polyPort, hc]
    by_cases hfinal : ((design P).stream s ins t).state = .final
    · have hcourse := hat.course
      simp only [Course, hfinal] at hcourse
      refine Or.inr ⟨Or.inl ?_, 0, [], ?_, ?_⟩
      · rw [stream_succ]
        simp [next, hfinal, St.gives]
      · rw [stream_succ]
        exact hfresh.opens hfinal hsample hat.stage hcourse.1 hcourse.2.1
      · rw [written_succ, hnone, hquiet]
        rfl
    · refine Or.inl ⟨?_, ?_⟩
      · rw [stream_succ]
        exact hfresh.step hfinal
      · rw [written_succ, hnone, hquiet, List.append_nil]
  · refine Or.inr ⟨?_, _, _, hsampling.next (i := (ins t).1) (k := (ins t).2) hgives, ?_⟩
    · rw [stream_succ]
      rcases (gives_next (i := (ins t).1) (k := (ins t).2) hgives).2 with hgo | ⟨hend, -⟩
      · exact Or.inl hgo
      · exact Or.inr hend
    · rw [written_succ, hwritten, hsampling.wrote]
  · exact absurd hdone hd

theorem Writes.run (hsample : o.sampled) (hat : At o s ins 0) (hserve : Serves o s ins) (h : Fresh o s)
    (hbefore : Before P s ins t) : Writes o s ins t := by
  induction t with
  | zero => exact Or.inl ⟨h, rfl⟩
  | succ t ih =>
    have hearlier := hbefore.of_le (Nat.le_succ t)
    have hd : ((design P).stream s ins t).state ≠ .done := by
      simpa [output] using hbefore t (Nat.lt_succ_self t)
    exact (ih hearlier).step hsample (hat.run hserve hearlier) hd

theorem Sampling.done {c : ℕ} {vs : List (BitVec 16)} (h : Sampling o s c vs) (hs : s.state = .done) :
    vs = o.values ∧ s.error = o.short := by
  rcases h.place with ⟨hmat, found, rfl, hat⟩ | ⟨hno, hvs, hat⟩
  · simp only [MatrixAt, hs] at hat
    rw [Source.values, Source.short, if_pos hmat, hat.1, hat.2, decide_eq_true hmat, Bool.true_and]
    exact ⟨rfl, rfl⟩
  · simp only [NoiseAt, hs] at hat
    rw [Source.values, Source.short, if_neg (not_matrix hno), hat.2, decide_eq_false (not_matrix hno), ← hat.1]
    exact ⟨hvs, rfl⟩

/-- From the first byte on the command comes to its done pulse. -/
theorem Writes.done_comes (T : P.Timed) (hsample : o.sampled) (hserve : Serves o s ins) (hat : At o s ins t)
    (h : Writes o s ins t) (hbefore : Before P s ins t) (hgives : ((design P).stream s ins t).state.gives = true) :
    ∃ d, Before P s ins d ∧ ((design P).stream s ins d).state = .done := by
  have hc : ∃ c vs, Sampling o ((design P).stream s ins t) c vs := by
    rcases h with ⟨hfresh, -⟩ | ⟨-, c, vs, hsampling, -⟩
    · rcases hfresh.state with hc | hc | hc <;> simp [hc, St.gives] at hgives
    · exact ⟨c, vs, hsampling⟩
  obtain ⟨c, vs, hsampling⟩ := hc
  generalize hm : sampleLeft T o ((design P).stream s ins t) c = m
  induction m using Nat.strong_induction_on generalizing t c vs with
  | _ m ih =>
    have hd : ((design P).stream s ins t).state ≠ .done := by
      intro hc
      simp [hc, St.gives] at hgives
    have hbefore' := hbefore.succ hd
    rcases sampleLeft_next (i := (ins t).1) (k := (ins t).2) T hgives hsampling with hend | hlt
    · exact ⟨t + 1, hbefore', hend⟩
    · rcases (gives_next (i := (ins t).1) (k := (ins t).2) hgives).2 with hgo | ⟨hend, -⟩
      · exact ih _ (hm ▸ hlt) (hat.step hserve hd) (h.step hsample hat hd) hbefore' hgo _ _ (hsampling.next hgives) rfl
      · exact ⟨t + 1, hbefore', hend⟩

/-- A sampled command never looks at its memories. -/
theorem next_still {s : State P} {i : HashIn} {k : κ} (hs : s.state ≠ .idle)
    (hcmd : s.cmd = C_MATRIX ∨ s.cmd = C_NOISE) : next s { i with skRdata := 0, ctRdata := 0 } k = next s i k := by
  cases hc : s.state
  case idle => exact absurd hc hs
  case feed =>
    have hno : fetchEn s = false := by
      rcases hcmd with h | h <;> simp [fetchEn, memoryInput, h, C_MATRIX, C_NOISE, C_HPK, C_J, C_TRANSCRIPT]
    rw [feed_next hc, feed_next hc, hno]
    rfl
  all_goals simp only [next, hc]

/-- The inputs with the memories at rest. -/
def still (ins : ℕ → HashIn × κ) : ℕ → HashIn × κ :=
  fun t => ({ (ins t).1 with skRdata := 0, ctRdata := 0 }, (ins t).2)

theorem stream_still (hsample : o.sampled) (hat : At o s (still ins) 0) (hserve : Serves o s (still ins))
    (hbefore : Before P s (still ins) t) : (design P).stream s (still ins) t = (design P).stream s ins t ∧
      written P s (still ins) t = written P s ins t := by
  induction t with
  | zero => exact ⟨rfl, rfl⟩
  | succ t ih =>
    have hearlier := hbefore.of_le (Nat.le_succ t)
    obtain ⟨hstream, hwritten⟩ := ih hearlier
    have hnow := hat.run hserve hearlier
    have hd := hbefore t (Nat.lt_succ_self t)
    refine ⟨?_, ?_⟩
    · rw [stream_succ, stream_succ, ← hstream]
      refine next_still hnow.busy ?_
      have hcmd := hnow.holds (by simpa [output] using hd)
      rw [hcmd.cmd]
      exact hsample
    · rw [written_succ, written_succ, hstream, hwritten]

/-- A start finds the counts clear. -/
theorem Fresh.start {s : State P} {i : HashIn} {k : κ} (hidle : s.state = .idle) (hstart : i.start = true)
    (sid : BitVec 32) (sk : BitVec 9 → BitVec 32) (ct : BitVec 8 → BitVec 32) :
    Fresh ⟨i.job, sid, sk, ct⟩ (next s i k) := by
  have hnext : next s i k = loaded (frame s k) i := by simp [next, hidle, hstart, frame]
  rw [hnext]
  exact ⟨Or.inl rfl, rfl, rfl, rfl⟩

/-- The run of a sampled command up to its done pulse. -/
theorem At.samples (T : P.Timed) (hat : At o s (still ins) 0) (hserve : Serves o s (still ins))
    (hs : s.state = .hstart) (hsample : o.sampled) (hfresh : Fresh o s) :
    ∃ t, Before P s ins t ∧ ((design P).stream s ins t).state = .done ∧
      ((design P).stream s ins t).error = o.short ∧ written P s ins t = stored o.job.dstSlot o.values := by
  obtain ⟨f, hbefore, hfin⟩ := (hat.feeds hserve hs).comes ⟨T⟩
  have hst : ((design P).stream s (still ins) f).state = .final := by simpa [finalizes, hashPins] using hfin
  have hbefore' := hbefore.succ (by simp [hst])
  have hout : ((design P).stream s (still ins) (f + 1)).state.gives = true := by
    rw [stream_succ]
    simp [next, hst, St.gives]
  obtain ⟨d, hd, hdone⟩ := (Writes.run hsample hat hserve hfresh hbefore').done_comes T hsample hserve
    (hat.run hserve hbefore') hbefore' hout
  obtain ⟨hstream, hwritten⟩ := stream_still hsample hat hserve hd
  have hend : ∃ c vs, Sampling o ((design P).stream s (still ins) d) c vs ∧
      written P s (still ins) d = stored o.job.dstSlot vs := by
    rcases Writes.run hsample hat hserve hfresh hd with ⟨hearly, -⟩ | ⟨-, hend⟩
    · rcases hearly.state with hc | hc | hc <;> simp [hc] at hdone
    · exact hend
  obtain ⟨c, vs, hsampling, hvs⟩ := hend
  obtain ⟨rfl, herror⟩ := hsampling.done hdone
  rw [hstream] at hdone herror
  refine ⟨d, fun j hj => ?_, hdone, herror, by rw [← hwritten, hvs]⟩
  rw [← (stream_still hsample hat hserve (hd.of_le hj.le)).1]
  exact hd j hj

theorem length_values (o : Source) : o.values.length ≤ 256 := by
  rw [Source.values]
  split_ifs
  · rw [List.length_map, sampleNtt]
    exact List.length_take_le _ _
  · rw [List.length_map, List.length_range]

/-- A sampling command, whatever came before it and whatever its pins show, comes to its done pulse; until then it
has written the values of the standard into the words of its slot, in order and each once, and nothing else. -/
theorem sampling_exact {s : State KeccakF1600.unit} (hs : (design KeccakF1600.unit).Reachable s)
    (hidle : (output s).busy = false) {first : HashIn × Unit} (hstart : first.1.start = true)
    (hcommand : first.1.job.command = C_MATRIX ∨ first.1.job.command = C_NOISE) (ins : ℕ → HashIn × Unit) :
    let o : Source := ⟨first.1.job, first.1.sessionId, fun _ => 0, fun _ => 0⟩
    ∃ t, Before KeccakF1600.unit (next s first.1 first.2) ins t ∧
      (output ((design KeccakF1600.unit).stream (next s first.1 first.2) ins t)).done = true ∧
      (output ((design KeccakF1600.unit).stream (next s first.1 first.2) ins t)).error = o.short ∧
      written KeccakF1600.unit (next s first.1 first.2) ins t = stored o.job.dstSlot o.values ∧
      (o.job.dstSlot.toNat < 12 → ∀ mem, (written KeccakF1600.unit (next s first.1 first.2) ins t).foldl store mem =
        PolyRam.fillSlot mem o.job.dstSlot o.values.length fun j => o.values.getD j 0) := by
  intro o
  have hst : s.state = .idle := by simpa [output] using hidle
  obtain ⟨hgo, hat⟩ := At.start (k := first.2) hs hst hstart (fun _ => 0) (fun _ => 0) (still ins)
  obtain ⟨t, hbefore, hdone, herror, hwritten⟩ := hat.samples KeccakF1600.timed (fun _ _ => ⟨rfl, rfl⟩) hgo hcommand
    (Fresh.start hst hstart _ _ _)
  refine ⟨t, hbefore, by simp [output, hdone], herror, hwritten, fun hslot mem => ?_⟩
  rw [hwritten]
  exact foldl_stored hslot mem _ (length_values o)

/-- A matrix entry into slot 11, on an engine that has just been reset. -/
theorem sampling_exact_first :
    let job : HashJob := { HashJob.zero with command := C_MATRIX, dstSlot := 11 }
    ∃ t, written KeccakF1600.unit (next (.init _) ⟨true, job, 0, 0, 0⟩ ()) (fun _ => (zeroPins, ())) t =
      stored 11 (Source.values ⟨job, 0, fun _ => 0, fun _ => 0⟩) := by
  obtain ⟨t, -, -, -, h, -⟩ := @sampling_exact (.init KeccakF1600.unit) ⟨.init _, [], rfl⟩ rfl
    (⟨true, { HashJob.zero with command := C_MATRIX, dstSlot := 11 }, 0, 0, 0⟩, ()) rfl (Or.inl rfl)
    fun _ => (zeroPins, ())
  exact ⟨t, h⟩

end Runs

end SharedHashEngine

end ZedSecure
