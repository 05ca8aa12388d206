import ZedSecure.Proofs.HashFeed

/-! Whole runs of the shared hash engine: what its sponge takes from a start to the done pulse is
the message of the command, and the digest is the output of the hash function. -/

namespace ZedSecure

open Clocked LittleEndian Fips202

namespace SharedHashEngine

variable {κ : Type} {P : StartDone keccakF κ}

section Digest

variable {o : Source} {s : State P} {i : HashIn} {k : κ} {bytes : Bytes} {n : ℕ}

/-- The output the command asks for. -/
def Source.output (o : Source) : Bytes := hash o.function o.message o.outputs

theorem length_output (o : Source) : o.output.length = o.outputs := by
  rw [Source.output, hash_eq, List.length_map, List.length_range]

/-- The sponge runs the function of the command. -/
theorem mode_eq (h : Holds o s) :
    Sha3ShakeStream.modeOf (mode s.cmd) = o.function ∧ (outLen s.cmd s.eta).toNat = o.outputs := by
  rw [h.cmd, h.eta]
  simp only [Source.function, Source.outputs]
  generalize o.job.command = c
  generalize o.job.eta3 = e
  revert c e
  decide

/-- `outputByte` is the next byte of the output. -/
theorem output_next (h : Holds o s) {j : ℕ} (hj : j < o.outputs) :
    o.output.getD j 0 = outByte (Sha3ShakeStream.modeOf (mode s.cmd))
      (Sha3ShakeStream.final (mode s.cmd) o.message) j := by
  rw [Source.output, hash_eq, (mode_eq h).1, List.getD_eq_getElem?_getD, List.getElem?_map,
    List.getElem?_range hj, Sha3ShakeStream.final, Sha3ShakeStream.taken, (mode_eq h).1]
  rfl

/-- The first `n` bytes of the output are in the digest, the rest is zero. -/
def Digest (o : Source) (s : State P) (n : ℕ) : Prop :=
  ∀ j < 72, slice s.digest (8 * j) 8 = if j < n then (o.output.getD j 0).toBitVec else 0#8

theorem outputs_le (h : ¬ o.sampled) : o.outputs ≤ 72 := by
  simp only [Source.sampled, not_or] at h
  simp only [Source.outputs, h.1, h.2, if_false]
  split_ifs <;> decide

/-- The bytes of the digest. -/
theorem Digest.lanes_eq (h : Digest o s o.outputs) (hle : o.outputs ≤ 72) :
    lanes (k := 72) s.digest = o.output ++ List.replicate (72 - o.outputs) 0 := by
  have hlen : (o.output ++ List.replicate (72 - o.outputs) 0).length = 72 := by
    rw [List.length_append, length_output, List.length_replicate]
    omega
  refine List.ext_getElem (by rw [length_lanes, hlen]) fun j hj hj' => ?_
  rw [length_lanes] at hj
  rw [← List.getD_eq_getElem _ 0, ← List.getD_eq_getElem _ 0, getD_lanes _ hj, h j hj]
  split_ifs with hin
  · rw [List.getD_append _ _ _ _ (by rw [length_output]; exact hin)]
  · rw [List.getD_append_right _ _ _ _ (by rw [length_output]; omega), length_output,
      List.getD_eq_getElem?_getD, List.getElem?_replicate]
    split_ifs <;> rfl

/-- One more byte goes in behind the first `n`. -/
theorem Digest.patched (h : Digest o s n) (hn : n < 72) {b : BitVec 8} (hb : b = (o.output.getD n 0).toBitVec)
    {s' : State P} (hs' : s'.digest = patch s.digest (8 * n) b) : Digest o s' (n + 1) := by
  intro j hj
  rw [hs']
  rcases lt_trichotomy j n with hlt | rfl | hgt
  · rw [slice_patch_of_disjoint _ _ _ _ (by omega) (by omega), h j hj, if_pos hlt, if_pos (by omega)]
  · rw [slice_patch_self _ _ _ (by omega), if_pos (by omega), hb]
  · rw [slice_patch_of_disjoint _ _ _ _ (by omega) (by omega), h j hj, if_neg (by omega), if_neg (by omega)]

end Digest

section Course

variable {o : Source} {s : State P} {i i' : HashIn} {k : κ} {bytes : Bytes}

/-- Where the output of a command that is not sampled stands. -/
def Giving (o : Source) (s : State P) : Prop :=
  ∃ n, Digest o s n ∧ s.outIndex.toNat = min n 71 ∧
    (Sha3ShakeStream.Rel s.hash (squeezing s o.message n) ∨
      (Sha3ShakeStream.Rel s.hash .idle ∧ hdone s = true ∧ n = o.outputs))

/-- What holds in each state from a start to the done pulse, with `bytes` taken. -/
def Course (o : Source) (s : State P) (i : HashIn) (bytes : Bytes) : Prop :=
  match s.state with
  | .idle => True
  | .hstart => Filling o s bytes ∧ s.fetchWait = false ∧ s.digest = 0#576
  | .feed => Filling o s bytes ∧ Shows o s i ∧ s.digest = 0#576
  | .final => Holds o s ∧ bytes = o.message ∧ s.digest = 0#576
  | .done => Holds o s ∧ bytes = o.message ∧ (¬ o.sampled → Digest o s o.outputs)
  | _ => Holds o s ∧ bytes = o.message ∧ (¬ o.sampled → s.state = .out ∧ Giving o s)

theorem Holds.step (hs : s.state ≠ .idle) (h : Holds o s) : Holds o (next s i k) := by
  obtain ⟨hcmd, hd0, hd1, hsid, hx, hy, hnonce, heta, hlen⟩ := next_job (i := i) (k := k) hs
  obtain ⟨h1, h2, h3, h4, h5, h6, h7, h8, h9⟩ := h
  exact ⟨hcmd.trans h1, hd0.trans h2, hd1.trans h3, hsid.trans h4, hx.trans h5, hy.trans h6,
    hnonce.trans h7, heta.trans h8, hlen.trans h9⟩

theorem course_hstart (hs : s.state = .hstart) (hstage : Stage s bytes) (h : Course o s i bytes)
    (hans : Answers o s i') : Course o (next s i k) i' (bytes ++ passed s k) := by
  simp only [Course, hs] at h
  obtain ⟨hf, hwait, hzero⟩ := h
  have hshow := shows_next (i := i) (k := k) (Or.inl ⟨hs, hwait⟩) hf hans
  have hnone : passed s k = [] := by
    simp only [Stage, hs] at hstage
    simp [passed, Sha3ShakeStream.accepts, Sha3ShakeStream.inputReady, hstage.1.1.1]
  have hnext : next s i k = { frame s k with state := .feed } := by simp only [next, hs, frame]
  have hholds := Holds.step (i := i) (k := k) (by simp [hs]) hf.holds
  rw [hnone, List.append_nil]
  rw [hnext] at hshow hholds ⊢
  exact ⟨⟨hholds, hf.fed, hf.order, hf.queued, hf.fetch⟩, hshow, hzero⟩

theorem course_feed (hs : s.state = .feed) (h : Course o s i bytes) (hans : Answers o s i') :
    Course o (next s i k) i' (bytes ++ passed s k) := by
  simp only [Course, hs] at h
  obtain ⟨hf, hshow, hzero⟩ := h
  have hstep := hf.step (k := k) hs hshow
  have hzero' : (next s i k).digest = 0#576 := by rw [feed_next hs]; exact hzero
  by_cases hend : (s.inIndex = s.inputLen && !s.feedValid) = true
  · have hst : (next s i k).state = .final := by rw [feed_next hs]; simp [hend]
    simp only [Bool.and_eq_true, decide_eq_true_eq, Bool.not_eq_true'] at hend
    have htake : take s = false := by simp [take, avail, hend.1]
    have hfed := hstep.fed
    have hpend : pending (next s i k) = [] := by
      rw [feed_next hs]
      simp [pending, htake, load, hs, hend.2]
    have hindex : (next s i k).inIndex = s.inputLen := by
      rw [feed_next hs]
      simp [htake, hend.1]
    rw [hpend, List.append_nil, hindex, hf.holds.inputLen, ← length_message, List.take_length] at hfed
    simp only [Course, hst]
    exact ⟨hstep.holds, hfed, hzero'⟩
  · have hst : (next s i k).state = .feed := by rw [feed_next hs]; simp [hend]
    simp only [Course, hst]
    exact ⟨hstep, shows_next (Or.inr hs) hf hans, hzero'⟩

theorem course_final (hs : s.state = .final) (hstage : Stage s bytes) (h : Course o s i bytes) :
    Course o (next s i k) i' (bytes ++ passed s k) := by
  simp only [Course, hs] at h
  obtain ⟨hholds, rfl, hzero⟩ := h
  obtain ⟨hrel, hnone, -⟩ := final_next (i := i) (k := k) hs hstage
  have hnext : next s i k = { frame s k with outIndex := 0, byteCount := 0, group := 0, state := .out } := by
    simp only [next, hs, frame]
  have hholds' := Holds.step (i := i) (k := k) (by simp [hs]) hholds
  rw [hnone, List.append_nil]
  rw [hnext] at hrel hholds' ⊢
  refine ⟨hholds', rfl, fun _ => ⟨rfl, 0, fun j hj => ?_, rfl, Or.inl hrel⟩⟩
  have hdigest : (frame s k).digest = 0#576 := hzero
  simp [hdigest, slice]

/-- The sponge of an output, over one edge: `n` counts the bytes out. -/
theorem squeezing_next (hholds : Holds o s) {n : ℕ} (hrel : Sha3ShakeStream.Rel s.hash (squeezing s o.message n)) :
    let out := Sha3ShakeStream.emits s.hash (hashPins s k)
    let m := n + if out then 1 else 0
    Sha3ShakeStream.Rel (next s i k).hash (squeezing s o.message m) ∨
      (Sha3ShakeStream.Rel (next s i k).hash .idle ∧ (next s i k).hash.done = true ∧ m = o.outputs) := by
  intro out m
  have hedge := Sha3ShakeStream.rel_next (i := hashPins s k) hrel
  rw [next_hash]
  cases hd : (Sha3ShakeStream.next s.hash (hashPins s k)).done
  · exact Or.inl (Sha3ShakeStream.squeeze_stays hrel hd)
  · rw [Sha3ShakeStream.phaseNext, if_pos hd] at hedge
    exact Or.inr ⟨hedge, rfl, by rw [← (mode_eq hholds).2]; exact Sha3ShakeStream.done_next hrel hd⟩

/-- An edge of the output of a command that is not sampled. -/
theorem giving_next (hs : s.state = .out) (hholds : Holds o s) (hsample : ¬ o.sampled) (hg : Giving o s) :
    ((next s i k).state = .out ∧ Giving o (next s i k)) ∨
      ((next s i k).state = .done ∧ Digest o (next s i k) o.outputs) := by
  have hle := outputs_le hsample
  have hcmd : ¬ s.cmd = C_MATRIX ∧ ¬ s.cmd = C_NOISE := by
    rw [hholds.cmd]
    exact not_or.mp hsample
  obtain ⟨hsame, -, -, -, -, -, -, hsame', -⟩ := next_job (i := i) (k := k) (s := s) (by simp [hs])
  have hsqueezing : ∀ m, squeezing (next s i k) o.message m = squeezing s o.message m := by
    intro m
    rw [squeezing, squeezing, hsame, hsame']
  obtain ⟨n, hdigest, hindex, hrel | ⟨hrel, hd, rfl⟩⟩ := hg
  · have hquiet : hdone s = false := hrel.2.1
    have hmove := squeezing_next (i := i) (k := k) hholds hrel
    have hready : oready s = true := by simp [oready, hs]
    cases hv : Sha3ShakeStream.outputValid s.hash
    · have hno : Sha3ShakeStream.emits s.hash (hashPins s k) = false := by simp [Sha3ShakeStream.emits, hv]
      have hnext : next s i k = frame s k := by simp [next, hs, outNext, hv, hquiet, frame]
      rw [hno] at hmove
      refine Or.inl ⟨by rw [hnext]; exact hs, n, by rw [hnext]; exact hdigest, by rw [hnext]; exact hindex, ?_⟩
      rw [hsqueezing]
      exact hmove
    · have hemit : Sha3ShakeStream.emits s.hash (hashPins s k) = true := by
        simp [Sha3ShakeStream.emits, hv, hashPins, hready]
      obtain ⟨hlt, hbyte⟩ := Sha3ShakeStream.emits_eq hrel hemit
      rw [(mode_eq hholds).2] at hlt
      have hbyte' : Sha3ShakeStream.outputByte s.hash = (o.output.getD n 0).toBitVec := by
        rw [output_next hholds hlt, ← hbyte]
      have hn : s.outIndex.toNat = n := by omega
      have hnext : next s i k = { frame s k with
          digest := patch s.digest (8 * s.outIndex.toNat) (Sha3ShakeStream.outputByte s.hash)
          outIndex := if s.outIndex < 71 then s.outIndex + 1 else s.outIndex } := by
        simp only [next, hs, outNext, hv, hcmd.1, hcmd.2, hquiet, frame]
        by_cases h71 : s.outIndex < 71#7 <;> simp [h71]
      have hindex' : (next s i k).outIndex.toNat = min (n + 1) 71 := by
        rw [hnext]
        by_cases h71 : s.outIndex < 71#7
        · have h71' := BitVec.lt_def.mp h71
          simp [h71, hn] at h71' ⊢
          omega
        · have h71' := mt BitVec.lt_def.mpr h71
          simp [h71, hn] at h71' ⊢
          omega
      rw [hemit] at hmove
      refine Or.inl ⟨by rw [hnext]; exact hs, n + 1, ?_, hindex', ?_⟩
      · exact hdigest.patched (by omega) hbyte' (by rw [hnext, ← hn])
      · rw [hsqueezing]
        exact hmove
  · have hv : Sha3ShakeStream.outputValid s.hash = false := by
      simp [Sha3ShakeStream.outputValid, hrel.1]
    have hnext : next s i k = { frame s k with error := s.error || s.cmd = C_MATRIX, state := .done } := by
      simp [next, hs, outNext, hv, hd, frame]
    rw [hnext]
    exact Or.inr ⟨rfl, hdigest⟩

theorem course_gives (hs : s.state.gives = true) (hstage : Stage s bytes) (h : Course o s i bytes) :
    Course o (next s i k) i' (bytes ++ passed s k) := by
  have hcourse : Holds o s ∧ bytes = o.message ∧ (¬ o.sampled → s.state = .out ∧ Giving o s) := by
    cases hc : s.state <;> simp [St.gives, hc] at hs <;> simpa only [Course, hc] using h
  obtain ⟨hholds, rfl, hgive⟩ := hcourse
  have hidle : s.state ≠ .idle := by
    intro hc
    simp [hc, St.gives] at hs
  have hstart : s.state ≠ .hstart := by
    intro hc
    simp [hc, St.gives] at hs
  have hholds' := Holds.step (i := i) (k := k) hidle hholds
  obtain ⟨-, hnone⟩ := sponge_squeeze (i := i) (k := k) hstart ((stage_gives hs).mp hstage)
  rw [hnone, List.append_nil]
  rcases (gives_next (i := i) (k := k) hs).2 with hstate | ⟨hstate, -⟩
  · have hgoal : Holds o (next s i k) ∧ o.message = o.message ∧
        (¬ o.sampled → (next s i k).state = .out ∧ Giving o (next s i k)) := by
      refine ⟨hholds', rfl, fun hsample => ?_⟩
      obtain ⟨hout, hg⟩ := hgive hsample
      rcases giving_next (i := i) (k := k) hout hholds hsample hg with hgo | ⟨hend, -⟩
      · exact hgo
      · simp [hend, St.gives] at hstate
    cases hc : (next s i k).state <;> simp [St.gives, hc] at hstate <;> simpa only [Course, hc] using hgoal
  · simp only [Course, hstate]
    refine ⟨hholds', trivial, fun hsample => ?_⟩
    obtain ⟨hout, hg⟩ := hgive hsample
    rcases giving_next (i := i) (k := k) hout hholds hsample hg with ⟨hgo, -⟩ | ⟨-, hdigest⟩
    · rw [hstate] at hgo
      cases hgo
    · exact hdigest

/-- Every edge of a run keeps its course. -/
theorem course_next (hs : s.state ≠ .idle) (hstage : Stage s bytes) (h : Course o s i bytes)
    (hans : Answers o s i') : Course o (next s i k) i' (bytes ++ passed s k) := by
  cases hc : s.state
  case idle => exact absurd hc hs
  case hstart => exact course_hstart hc hstage h hans
  case feed => exact course_feed hc h hans
  case final => exact course_final hc hstage h
  case done =>
    have hnext : (next s i k).state = .idle := by simp [next, hc]
    simp only [Course, hnext]
  all_goals exact course_gives (by simp [hc, St.gives]) hstage h

end Course

section Progress

variable {o : Source} {s : State P} {i : HashIn} {k : κ} {bytes : Bytes} (T : P.Timed)

/-- The edges until a byte waits in the queue, at most. -/
def queueLeft (s : State P) : ℕ := if s.curVal then 0 else if s.fetchWait then 2 else 1

/-- A bound for the edges until the message is in. -/
def feedLeft (s : State P) : ℕ :=
  (2 * (s.inputLen.toNat - s.inIndex.toNat) + s.feedValid.toNat) * (T.bound + 6) +
    Sha3ShakeStream.absorbLeft T s.hash + queueLeft s

theorem queueLeft_le (s : State P) : queueLeft s ≤ 2 := by
  unfold queueLeft
  split_ifs <;> omega

/-- Without a byte taken the queue comes closer to its next word. -/
theorem queueLeft_next (hs : s.state = .feed) (ht : take s = false) : queueLeft (next s i k) ≤ queueLeft s := by
  have hw : wordShift s = false := by simp [wordShift, ht]
  rw [feed_next hs]
  unfold queueLeft
  cases hc : s.curVal <;> cases he : fetchEn s <;> simp [hc, hw, frontFree]
  split_ifs <;> omega

/-- A byte that waits for its word waits three edges at most. -/
theorem queueLeft_lt (hs : s.state = .feed) (hf : Filling o s bytes) (hlt : s.inIndex < s.inputLen)
    (ht : avail s = false) : queueLeft (next s i k) < queueLeft s := by
  have hmem : memoryInput s.cmd s.inIndex = true ∧ s.curVal = false := by
    simpa [avail, hlt] using ht
  have hw : wordShift s = false := by simp [wordShift, take, ht]
  have hlen : s.inputLen = inputLenOf s.cmd := by rw [hf.holds.inputLen, hf.holds.cmd]
  rw [hlen] at hlt
  obtain ⟨hfrom, hto⟩ := (memoryInput_iff hlt).mp hmem.1
  have hindex := hf.fetch
  simp only [queue, hmem.2, Bool.false_eq_true, if_false, List.length_nil, Nat.add_zero,
    front_inside hfrom hto] at hindex
  have hbelow : s.fetchIndex < inputLenOf s.cmd := by
    rw [BitVec.lt_def] at hlt ⊢
    omega
  have hregion : memoryInput s.cmd s.fetchIndex = true := by
    have := mem_bounds s.cmd
    exact (memoryInput_iff hbelow).mpr (by omega)
  rw [← hlen] at hbelow
  rw [feed_next hs]
  unfold queueLeft
  cases hwait : s.fetchWait
  · have he : fetchEn s = true := by simp [fetchEn, hs, hwait, hregion, hbelow, hmem.2]
    simp [he, frontFree, hmem.2]
  · have he : fetchEn s = false := by simp [fetchEn, hwait]
    simp [he, hw, hmem.2]

/-- Every edge of the feed comes closer to the end of the message. -/
theorem feedLeft_next (hs : s.state = .feed) (hstage : Stage s bytes) (hf : Filling o s bytes) :
    (next s i k).state = .final ∨ ((next s i k).state = .feed ∧ feedLeft T (next s i k) < feedLeft T s) := by
  by_cases hend : (s.inIndex = s.inputLen && !s.feedValid) = true
  · left
    rw [feed_next hs]
    simp [hend]
  right
  refine ⟨by rw [feed_next hs]; simp [hend], ?_⟩
  simp only [Stage, hs] at hstage
  obtain ⟨hrel, -, -, hle, -⟩ := hstage
  have habsorb := Sha3ShakeStream.absorbLeft_next T (i := hashPins s k) hrel
  rw [← next_hash (i := i)] at habsorb
  have hq := queueLeft_le (next s i k)
  obtain ⟨-, -, -, -, -, -, -, -, hlen⟩ := next_job (i := i) (k := k) (s := s) (by simp [hs])
  have hindex : (next s i k).inIndex = if take s then s.inIndex + 1 else s.inIndex := by rw [feed_next hs]
  have hvalid : (next s i k).feedValid = if take s then true else if load s then false else s.feedValid := by
    rw [feed_next hs]
  simp only [feedLeft]
  rw [hlen, hindex, hvalid]
  cases ht : take s
  · have hq' := queueLeft_next (i := i) (k := k) hs ht
    cases hl : load s
    · -- the sponge is in its permutation
      have hstall : s.feedValid = true ∧ iready s = false := by simpa [load, hs] using hl
      have hno : Sha3ShakeStream.inputReady s.hash = false := hstall.2
      rcases habsorb with ⟨hacc, -⟩ | ⟨-, -, hlt⟩
      · simp [Sha3ShakeStream.accepts, hno] at hacc
      · have := hlt hno
        simp only [Bool.false_eq_true, if_false]
        omega
    · cases hv : s.feedValid
      · -- nothing in front, so the byte waits for its word
        have havail : avail s = false := by simpa [take, hl] using ht
        have hlt : s.inIndex < s.inputLen := by
          have hne : ¬ s.inIndex = s.inputLen := by simpa [hv] using hend
          exact BitVec.lt_of_le_ne hle hne
        have hq'' := queueLeft_lt (i := i) (k := k) hs hf hlt havail
        rcases habsorb with ⟨hacc, -⟩ | ⟨-, hkeep, -⟩
        · simp [Sha3ShakeStream.accepts, hashPins, hv] at hacc
        · simp only [Bool.false_eq_true, if_false, if_true]
          omega
      · simp only [Bool.false_eq_true, if_false, if_true, Bool.toNat_true, Bool.toNat_false, Nat.add_mul]
        omega
  · obtain ⟨hlt, -, -, hsucc⟩ := take_lt ht
    rw [BitVec.lt_def] at hlt
    have hrest : 2 * (s.inputLen.toNat - s.inIndex.toNat) + s.feedValid.toNat =
        2 * (s.inputLen.toNat - (s.inIndex.toNat + 1)) + 1 + (1 + s.feedValid.toNat) := by omega
    have hstep : T.bound + 6 ≤ (1 + s.feedValid.toNat) * (T.bound + 6) := Nat.le_mul_of_pos_left _ (by omega)
    rw [if_pos rfl, if_pos rfl, hsucc, hrest, Nat.add_mul _ (1 + s.feedValid.toNat), Bool.toNat_true]
    omega

end Progress

section Runs

variable {o : Source} {s : State P} {ins : ℕ → HashIn × κ}

variable (P) in
/-- What the sponge has taken before cycle `t`. -/
def fed (s : State P) (ins : ℕ → HashIn × κ) : ℕ → Bytes :=
  (design P).gather (fun s i => passed s i.2) s ins

variable (P) in
/-- No done pulse shows before cycle `t`. -/
def Before (s : State P) (ins : ℕ → HashIn × κ) (t : ℕ) : Prop :=
  ∀ i < t, (output ((design P).stream s ins i)).done = false

variable (P) in
/-- Cycle `t` ends the message. -/
def finalizes (s : State P) (ins : ℕ → HashIn × κ) (t : ℕ) : Bool :=
  (hashPins ((design P).stream s ins t) (ins t).2).finalize

/-- Synchronous memories: the words at the addresses of a cycle show in the next one. -/
def Serves (o : Source) (s : State P) (ins : ℕ → HashIn × κ) : Prop :=
  ∀ t, (output ((design P).stream s ins t)).busy = true → Answers o ((design P).stream s ins t) (ins (t + 1)).1

/-- A run over a command: what goes into the sponge, its end, and what comes out. -/
structure Feeds (o : Source) (s : State P) (ins : ℕ → HashIn × κ) : Prop where
  prefixes : ∀ t, Before P s ins t → fed P s ins t <+: o.message
  ends : ∀ t, Before P s ins t → finalizes P s ins t = true → fed P s ins t = o.message ∧
    (hashPins ((design P).stream s ins t) (ins t).2).inputValid = false ∧
      Sha3ShakeStream.inputReady ((design P).stream s ins t).hash = true
  whole : ∀ t, Before P s ins t → (output ((design P).stream s ins t)).done = true →
    fed P s ins t = o.message ∧ (∃ f < t, finalizes P s ins f = true) ∧ (¬ o.sampled →
      lanes (k := 72) (output ((design P).stream s ins t)).digest =
        o.output ++ List.replicate (72 - o.outputs) 0)
  comes : Nonempty P.Timed → ∃ f, Before P s ins f ∧ finalizes P s ins f = true
  answers : Nonempty P.Timed → ¬ o.sampled →
    ∃ t, Before P s ins t ∧ (output ((design P).stream s ins t)).done = true

theorem fed_succ (t : ℕ) : fed P s ins (t + 1) =
    fed P s ins t ++ passed ((design P).stream s ins t) (ins t).2 := rfl

theorem stream_succ (t : ℕ) : (design P).stream s ins (t + 1) =
    next ((design P).stream s ins t) (ins t).1 (ins t).2 := rfl

theorem Before.of_le {t u : ℕ} (h : Before P s ins u) (hle : t ≤ u) : Before P s ins t :=
  fun i hi => h i (by omega)

theorem Before.succ {t : ℕ} (h : Before P s ins t) (hs : ((design P).stream s ins t).state ≠ .done) :
    Before P s ins (t + 1) := by
  intro i hi
  rcases Nat.lt_succ_iff_lt_or_eq.mp hi with hlt | rfl
  · exact h i hlt
  · simp [output, hs]

/-- Only the done state leads back to idle. -/
theorem next_busy {s : State P} {i : HashIn} {k : κ} (hs : s.state ≠ .idle) (hd : s.state ≠ .done) :
    (next s i k).state ≠ .idle := by
  cases hc : s.state
  case idle => exact absurd hc hs
  case done => exact absurd hc hd
  case feed =>
    rw [feed_next hc]
    split_ifs <;> simp
  all_goals simp only [next, hc, outNext, ne_eq, reduceCtorEq, not_false_eq_true]
  all_goals split_ifs <;> simp_all

/-- The output states come after the end of the message. -/
theorem gives_after {s : State P} {i : HashIn} {k : κ} (hs : s.state ≠ .idle)
    (h : (next s i k).state.gives = true ∨ (next s i k).state = .done) :
    s.state = .final ∨ s.state.gives = true ∨ s.state = .done := by
  cases hc : s.state
  case idle => exact absurd hc hs
  case hstart => simp [next, hc, St.gives] at h
  case feed =>
    rw [feed_next hc] at h
    simp only at h
    split_ifs at h <;> simp [St.gives] at h
  all_goals simp [St.gives]

/-- What holds of a command at each cycle up to its done pulse. -/
structure At (o : Source) (s : State P) (ins : ℕ → HashIn × κ) (t : ℕ) : Prop where
  busy : ((design P).stream s ins t).state ≠ .idle
  stage : Stage ((design P).stream s ins t) (fed P s ins t)
  course : Course o ((design P).stream s ins t) (ins t).1 (fed P s ins t)
  ended : ((design P).stream s ins t).state.gives = true ∨ ((design P).stream s ins t).state = .done →
    ∃ f < t, finalizes P s ins f = true

theorem At.step {t : ℕ} (h : At o s ins t) (hserve : Serves o s ins)
    (hd : ((design P).stream s ins t).state ≠ .done) : At o s ins (t + 1) := by
  have hans := hserve t (by simp [output, h.busy])
  refine ⟨next_busy h.busy hd, stage_next h.busy h.stage, course_next h.busy h.stage h.course hans, ?_⟩
  intro hgives
  rcases gives_after h.busy hgives with hfinal | hgave | hdone
  · exact ⟨t, Nat.lt_succ_self t, by simp [finalizes, hashPins, hfinal]⟩
  · obtain ⟨f, hlt, hfin⟩ := h.ended (Or.inl hgave)
    exact ⟨f, by omega, hfin⟩
  · exact absurd hdone hd

theorem At.run (h : At o s ins 0) (hserve : Serves o s ins) {t : ℕ} (hbefore : Before P s ins t) :
    At o s ins t := by
  induction t with
  | zero => exact h
  | succ t ih =>
    have hd := hbefore t (Nat.lt_succ_self t)
    exact (ih (hbefore.of_le (Nat.le_succ t))).step hserve (by simpa [output] using hd)

/-- What is in is the front of the message. -/
theorem At.bytes {t : ℕ} (h : At o s ins t) : fed P s ins t <+: o.message := by
  have hcourse := h.course
  cases hc : ((design P).stream s ins t).state <;> simp only [Course, hc] at hcourse
  case idle => exact absurd hc h.busy
  case hstart | feed =>
    have hfed := hcourse.1.fed
    exact (List.prefix_append _ _).trans (hfed ▸ List.take_prefix _ _)
  case final | done => rw [hcourse.2.1]
  all_goals rw [hcourse.2.1]

/-- The message comes to its end. -/
theorem At.final_comes {t : ℕ} (T : P.Timed) (h : At o s ins t) (hserve : Serves o s ins)
    (hbefore : Before P s ins t) (hs : ((design P).stream s ins t).state = .feed) :
    ∃ f, Before P s ins f ∧ ((design P).stream s ins f).state = .final := by
  generalize hm : feedLeft T ((design P).stream s ins t) = m
  induction m using Nat.strong_induction_on generalizing t with
  | _ m ih =>
    have hcourse := h.course
    simp only [Course, hs] at hcourse
    have hd : ((design P).stream s ins t).state ≠ .done := by simp [hs]
    rcases feedLeft_next T (i := (ins t).1) (k := (ins t).2) hs h.stage hcourse.1 with hfinal | ⟨hfeed, hlt⟩
    · exact ⟨t + 1, hbefore.succ hd, hfinal⟩
    · exact ih _ (by rw [← hm]; exact hlt) (h.step hserve hd) (hbefore.succ hd) hfeed rfl

/-- A sponge that is done ends the command. -/
theorem out_done {s : State P} {i : HashIn} {k : κ} (hs : s.state = .out)
    (hrel : Sha3ShakeStream.Rel s.hash .idle) (hd : hdone s = true) : (next s i k).state = .done := by
  have hv : Sha3ShakeStream.outputValid s.hash = false := by simp [Sha3ShakeStream.outputValid, hrel.1]
  simp [next, hs, outNext, hv, hd]

/-- The output of a command that is not sampled comes to its end. -/
theorem At.done_comes {t n : ℕ} (T : P.Timed) (hsample : ¬ o.sampled) (h : At o s ins t)
    (hserve : Serves o s ins) (hbefore : Before P s ins t) (hs : ((design P).stream s ins t).state = .out)
    (hrel : Sha3ShakeStream.Rel ((design P).stream s ins t).hash
      (squeezing ((design P).stream s ins t) o.message n)) :
    ∃ d, Before P s ins d ∧ ((design P).stream s ins d).state = .done := by
  generalize hm : Sha3ShakeStream.left T ((design P).stream s ins t).hash (o.outputs - n) = m
  induction m using Nat.strong_induction_on generalizing t n with
  | _ m ih =>
    have hcourse := h.course
    simp only [Course, hs] at hcourse
    obtain ⟨hholds, -, hgive⟩ := hcourse
    have hd : ((design P).stream s ins t).state ≠ .done := by simp [hs]
    have hnext := h.step hserve hd
    have hbefore' := hbefore.succ hd
    rcases giving_next (i := (ins t).1) (k := (ins t).2) hs hholds hsample (hgive hsample).2 with
      ⟨hout, -⟩ | ⟨hend, -⟩
    · have hlen := (mode_eq hholds).2
      rcases squeezing_next (i := (ins t).1) (k := (ins t).2) hholds hrel with hgo | ⟨hidle, hlast, -⟩
      · -- the engine takes every byte, so the sponge comes closer to its last one
        have hquiet : (Sha3ShakeStream.next ((design P).stream s ins t).hash
            (hashPins ((design P).stream s ins t) (ins t).2)).done = false := by
          rw [← next_hash (i := (ins t).1)]
          exact hgo.2.1
        rcases Sha3ShakeStream.left_next T hrel hquiet with ⟨-, hwait⟩ | hlt
        · simp [hashPins, oready, hs] at hwait
        · rw [hlen, hm, ← next_hash (i := (ins t).1)] at hlt
          obtain ⟨hcmd, -, -, -, -, -, -, heta, -⟩ := next_job (i := (ins t).1) (k := (ins t).2) h.busy
          refine ih _ hlt hnext hbefore' hout ?_ rfl
          rw [stream_succ, squeezing, hcmd, heta]
          exact hgo
      · have hdone : ((design P).stream s ins (t + 2)).state = .done := out_done hout hidle hlast
        exact ⟨t + 2, hbefore'.succ (by rw [stream_succ, hout]; simp), hdone⟩
    · exact ⟨t + 1, hbefore', hend⟩

/-- The run of a command that has just been started. -/
theorem At.feeds (h : At o s ins 0) (hserve : Serves o s ins) (hs : s.state = .hstart) : Feeds o s ins := by
  have hone : At o s ins 1 ∧ Before P s ins 1 ∧ ((design P).stream s ins 1).state = .feed := by
    have hd : ((design P).stream s ins 0).state ≠ .done := by
      change s.state ≠ .done
      simp [hs]
    refine ⟨h.step hserve hd, Before.succ (fun i hi => absurd hi (Nat.not_lt_zero i)) hd, ?_⟩
    rw [stream_succ]
    change (next s (ins 0).1 (ins 0).2).state = .feed
    simp [next, hs]
  have hcomes : Nonempty P.Timed → ∃ f, Before P s ins f ∧ ((design P).stream s ins f).state = .final := by
    rintro ⟨T⟩
    exact hone.1.final_comes T hserve hone.2.1 hone.2.2
  constructor
  · intro t hbefore
    exact (h.run hserve hbefore).bytes
  · intro t hbefore hfin
    have hat := h.run hserve hbefore
    have hst : ((design P).stream s ins t).state = .final := by simpa [finalizes, hashPins] using hfin
    have hstage := hat.stage
    have hcourse := hat.course
    simp only [Stage, hst] at hstage
    simp only [Course, hst] at hcourse
    exact ⟨hcourse.2.1, hstage.2.2.1, final_ready hst hat.stage⟩
  · intro t hbefore hdone
    have hat := h.run hserve hbefore
    have hst : ((design P).stream s ins t).state = .done := by simpa [output] using hdone
    have hcourse := hat.course
    simp only [Course, hst] at hcourse
    exact ⟨hcourse.2.1, hat.ended (Or.inr hst), fun hsample =>
      (hcourse.2.2 hsample).lanes_eq (outputs_le hsample)⟩
  · intro hT
    obtain ⟨f, hbefore, hfinal⟩ := hcomes hT
    exact ⟨f, hbefore, by simp [finalizes, hashPins, hfinal]⟩
  · intro hT hsample
    obtain ⟨f, hbefore, hfinal⟩ := hcomes hT
    obtain ⟨T⟩ := hT
    have hat := h.run hserve hbefore
    have hd : ((design P).stream s ins f).state ≠ .done := by simp [hfinal]
    have hcourse := hat.course
    simp only [Course, hfinal] at hcourse
    obtain ⟨hrel, -, -⟩ := final_next (i := (ins f).1) (k := (ins f).2) hfinal hat.stage
    obtain ⟨hcmd, -, -, -, -, -, -, heta, -⟩ := next_job (i := (ins f).1) (k := (ins f).2) hat.busy
    have hout : ((design P).stream s ins (f + 1)).state = .out := by
      rw [stream_succ]
      simp [next, hfinal]
    have hrel' : Sha3ShakeStream.Rel ((design P).stream s ins (f + 1)).hash
        (squeezing ((design P).stream s ins (f + 1)) o.message 0) := by
      rw [stream_succ, squeezing, hcmd, heta, ← hcourse.2.1]
      exact hrel
    obtain ⟨d, hbefore', hdone⟩ := (hat.step hserve hd).done_comes T hsample hserve (hbefore.succ hd) hout hrel'
    exact ⟨d, hbefore', by simp [output, hdone]⟩

/-- A start finds the engine ready, whatever ran before. -/
theorem At.start {s : State P} (hs : (design P).Reachable s) (hidle : s.state = .idle) {i : HashIn} {k : κ}
    (hstart : i.start = true) (sk : BitVec 9 → BitVec 32) (ct : BitVec 8 → BitVec 32)
    (ins : ℕ → HashIn × κ) : (next s i k).state = .hstart ∧ At ⟨i.job, i.sessionId, sk, ct⟩ (next s i k) ins 0 := by
  obtain ⟨bytes, hstage⟩ := reachable_stage hs
  have hnext : next s i k = loaded (frame s k) i := by simp [next, hidle, hstart, frame]
  have hstage' := idle_next (i := i) (k := k) hidle hstage
  have hst : (next s i k).state = .hstart := by rw [hnext]; rfl
  refine ⟨hst, ⟨by change (next s i k).state ≠ .idle; simp [hst], hstage', ?_, ?_⟩⟩
  · change Course _ (next s i k) (ins 0).1 []
    rw [hnext]
    refine ⟨⟨⟨rfl, rfl, rfl, rfl, rfl, rfl, rfl, rfl, rfl⟩, rfl, fun h => h, Numbered.nil, ?_⟩, rfl, rfl⟩
    simp only [loaded, queue, front, memFrom]
    split_ifs <;> simp_all
  · intro h
    change (next s i k).state.gives = true ∨ (next s i k).state = .done at h
    simp [hst, St.gives] at h

/-- A command started on an idle engine feeds its sponge its message, each byte once and in
order, ends it when all of it is in, and shows the output of the hash function. -/
theorem command_feeds {s : State P} (hs : (design P).Reachable s) (hidle : (output s).busy = false)
    {first : HashIn × κ} (hstart : first.1.start = true) {sk : BitVec 9 → BitVec 32}
    {ct : BitVec 8 → BitVec 32} {ins : ℕ → HashIn × κ}
    (hserve : Serves ⟨first.1.job, first.1.sessionId, sk, ct⟩ (next s first.1 first.2) ins) :
    Feeds ⟨first.1.job, first.1.sessionId, sk, ct⟩ (next s first.1 first.2) ins := by
  have hst : s.state = .idle := by simpa [output] using hidle
  obtain ⟨hgo, hat⟩ := At.start (k := first.2) hs hst hstart sk ct ins
  exact hat.feeds hserve hgo

/-- Pins of a memory whose words are all zero. -/
def zeroPins : HashIn := ⟨false, HashJob.zero, 0, 0, 0⟩

theorem command_feeds_zero : Feeds ⟨HashJob.zero, 0, fun _ => 0, fun _ => 0⟩
    (next (.init KeccakF1600.unit) { zeroPins with start := true } ()) fun _ => (zeroPins, ()) :=
  @command_feeds _ KeccakF1600.unit (.init KeccakF1600.unit) ⟨.init _, [], rfl⟩ rfl
    ({ zeroPins with start := true }, ()) rfl (fun _ => 0) (fun _ => 0) (fun _ => (zeroPins, ()))
    (fun _ _ => ⟨rfl, rfl⟩)

end Runs

end SharedHashEngine

end ZedSecure
