import ZedSecure.Proofs.SpongeRuns
import ZedSecure.Spec.HashMessages

/-! The input of the shared hash engine: over memories that answer in one cycle, the bytes its
sponge takes are the message of the command, however long the permutation holds it up. -/

namespace ZedSecure

open Clocked LittleEndian Fips202

namespace SharedHashEngine

variable {κ : Type} {P : StartDone keccakF κ}

/-- The registers that hold the job. -/
structure Holds (o : Source) (s : State P) : Prop where
  cmd : s.cmd = o.job.command
  d0 : s.d0 = o.job.data0
  d1 : s.d1 = o.job.data1
  sid : s.sid = o.sessionId
  x : s.x = o.job.x
  y : s.y = o.job.y
  nonce : s.nonce = o.job.nonce
  eta : s.eta = o.job.eta3
  inputLen : s.inputLen = inputLenOf o.job.command

section Bytes

variable {o : Source} {s : State P}

theorem getD_data0 {n : ℕ} (h : n < 32) : o.data0.getD n 0 = ⟨slice o.job.data0 (8 * n) 8⟩ :=
  getD_lanes (k := 32) o.job.data0 h

theorem getD_data1 {n : ℕ} (h : n < 32) : o.data1.getD n 0 = ⟨slice o.job.data1 (8 * n) 8⟩ :=
  getD_lanes (k := 32) o.job.data1 h

/-- The first operand in front of anything. -/
theorem getD_front {n : ℕ} (h : n < 32) (rest : Bytes) :
    (o.data0 ++ rest).getD n 0 = ⟨slice o.job.data0 (8 * (n % 32)) 8⟩ := by
  rw [List.getD_append _ _ _ _ (by simpa using h), getD_data0 h, Nat.mod_eq_of_lt h]

/-- Behind the first operand. -/
theorem getD_behind {n : ℕ} (h : 32 ≤ n) (rest : Bytes) :
    (o.data0 ++ rest).getD n 0 = rest.getD (n - 32) 0 := by
  rw [List.getD_append_right _ _ _ _ (by simpa using h), length_data0]

theorem getD_sid {n : ℕ} (h : n < 4) : o.sid.getD n 0 = ⟨slice o.sessionId (8 * (3 - n)) 8⟩ := by
  have hlen := length_lanes (k := 4) o.sessionId
  rw [Source.sid, List.getD_eq_getElem?_getD, List.getElem?_reverse (by omega), hlen,
    ← List.getD_eq_getElem?_getD, getD_lanes (k := 4) _ (by omega)]

theorem getD_domain : ∀ n < 11, domain.getD n 0 = ⟨domainByte n⟩ := by decide

/-- The byte selected from the operands. -/
theorem getD_operand (h : Holds o s) (hlt : s.inIndex < s.inputLen)
    (hmem : memoryInput s.cmd s.inIndex = false) :
    o.message.getD s.inIndex.toNat 0 = ⟨operandByte s⟩ := by
  rw [h.inputLen] at hlt
  rw [h.cmd] at hmem
  have hiff := memoryInput_iff hlt
  rw [BitVec.lt_def] at hlt
  simp only [operandByte, h.cmd, h.d0, h.d1, h.sid, h.x, h.y, h.nonce]
  generalize s.inIndex = m at *
  generalize hn : m.toNat = n at *
  rw [hmem] at hiff
  rcases command_cases o.job.command with hc | hc | hc | hc | hc | hc | hc | hc
  all_goals simp only [hc, inputLenOf, memFrom, memTo] at hlt hiff ⊢
  all_goals simp [-List.getD_eq_getElem?_getD, C_HPK, C_G, C_J, C_MATRIX, C_NOISE, C_TRANSCRIPT, C_KDF]
    at hlt hiff ⊢
  · omega
  · have hmsg : o.message = o.data0 ++ o.data1 := by simp [Source.message, hc, C_HPK, C_G]
    rw [hmsg]
    split_ifs with h32
    · exact getD_front h32 _
    · rw [getD_behind (by omega), getD_data1 (by omega), show n - 32 = n % 32 by omega]
  · have hmsg : o.message = o.data0 ++ o.ciphertext := by simp [Source.message, hc, C_HPK, C_G, C_J]
    rw [hmsg]
    exact getD_front (by omega) _
  · have hmsg : o.message = o.data0 ++ [⟨o.job.x⟩, ⟨o.job.y⟩] := by
      simp [Source.message, hc, C_HPK, C_G, C_J, C_MATRIX]
    rw [hmsg]
    split_ifs with h32 heq
    · exact getD_front h32 _
    · rw [getD_behind (by omega), heq]
      rfl
    · rw [getD_behind (by omega), show n - 32 = 1 by omega]
      rfl
  · have hmsg : o.message = o.data0 ++ [⟨o.job.nonce⟩] := by
      simp [Source.message, hc, C_HPK, C_G, C_J, C_MATRIX, C_NOISE]
    rw [hmsg]
    split_ifs with h32
    · exact getD_front h32 _
    · rw [getD_behind (by omega), show n - 32 = 0 by omega]
      rfl
  · have hmsg : o.message = o.ek ++ o.ciphertext ++ o.sid := by
      simp [Source.message, hc, C_HPK, C_G, C_J, C_MATRIX, C_NOISE, C_TRANSCRIPT]
    have hlen : (o.ek ++ o.ciphertext).length = 1568 := by simp
    rw [hmsg, List.getD_append_right _ _ _ _ (by omega), hlen, getD_sid (by omega)]
    split_ifs with h0 h1 h2
    · rw [h0]
    · rw [h1]
    · rw [h2]
    · rw [show 8 * (3 - (n - 1568)) = 0 by omega]
  all_goals
    have hmsg : o.message = domain ++ (o.data0 ++ o.data1) := by
      simp [Source.message, hc, C_HPK, C_G, C_J, C_MATRIX, C_NOISE, C_TRANSCRIPT, C_KDF]
    have hlen : domain.length = 11 := rfl
    rw [hmsg]
    split_ifs with h11 h43
    · rw [List.getD_append _ _ _ _ (by omega), getD_domain n h11]
    · rw [List.getD_append_right _ _ _ _ (by omega), hlen, getD_front (by omega),
        Nat.mod_eq_of_lt (by omega)]
    · rw [List.getD_append_right _ _ _ _ (by omega), hlen, getD_behind (by omega), getD_data1 (by omega),
        show n - 11 - 32 = n - 43 by omega]

/-- The byte selected into the register in front of the sponge. -/
theorem getD_inbyte (h : Holds o s) (hlt : s.inIndex < s.inputLen)
    (hcur : memoryInput s.cmd s.inIndex = true → s.wordCur = o.word (s.inIndex.toNat / 4)) :
    o.message.getD s.inIndex.toNat 0 = ⟨inbyte s⟩ := by
  cases hmem : memoryInput s.cmd s.inIndex
  · rw [getD_operand h hlt hmem, inbyte, hmem]
    rfl
  · have hin := hmem
    rw [h.cmd] at hin
    obtain ⟨hfrom, hto⟩ := (memoryInput_iff (h.inputLen ▸ hlt)).mp hin
    rw [getD_memory o hfrom hto, inbyte, hmem, hcur hmem]
    rfl

end Bytes

section Edges

variable {s : State P} {i : HashIn} {k : κ}

/-- The edge of the sponge and the latched done pulse. -/
def frame (s : State P) (k : κ) : State P :=
  { s with
    hashFinished := s.hashFinished || hdone s, hash := Sha3ShakeStream.next s.hash (hashPins s k) }

theorem queueNext_eq (f : State P) : queueNext s f i = { f with
    fetchWait := fetchEn s
    fetchIndex := if fetchEn s then s.fetchIndex + 4 else f.fetchIndex
    wordCur := if fetchEn s && frontFree s then fetchWord s i else if wordShift s then s.wordNxt else f.wordCur
    wordNxt := if fetchEn s && !frontFree s then fetchWord s i else f.wordNxt
    curVal := if fetchEn s && frontFree s then true else if wordShift s then s.nxtVal else f.curVal
    nxtVal := if fetchEn s && !frontFree s then true else if wordShift s then false else f.nxtVal } := by
  by_cases hf : fetchEn s = true <;> by_cases hw : wordShift s = true <;> by_cases hc : frontFree s = true <;>
    simp [queueNext, hf, hw, hc]

theorem feed_next (h : s.state = .feed) : next s i k = { frame s k with
    fetchWait := fetchEn s
    fetchIndex := if fetchEn s then s.fetchIndex + 4 else s.fetchIndex
    wordCur := if fetchEn s && frontFree s then fetchWord s i else if wordShift s then s.wordNxt else s.wordCur
    wordNxt := if fetchEn s && !frontFree s then fetchWord s i else s.wordNxt
    curVal := if fetchEn s && frontFree s then true else if wordShift s then s.nxtVal else s.curVal
    nxtVal := if fetchEn s && !frontFree s then true else if wordShift s then false else s.nxtVal
    feedByte := if take s then inbyte s else s.feedByte
    feedValid := if take s then true else if load s then false else s.feedValid
    inIndex := if take s then s.inIndex + 1 else s.inIndex
    state := if s.inIndex = s.inputLen && !s.feedValid then .final else .feed } := by
  have hnext : next s i k = feedNext s (frame s k) i := by simp [next, h, frame]
  rw [hnext, feedNext, queueNext_eq]
  by_cases ht : take s = true <;> by_cases hl : load s = true <;>
    by_cases he : (s.inIndex = s.inputLen && !s.feedValid) = true <;>
      simp [byteNext, ht, hl, he, frame, h]

/-- The words read and not yet used. -/
def queue (s : State P) : List (BitVec 32) :=
  if s.curVal then s.wordCur :: if s.nxtVal then [s.wordNxt] else [] else []

/-- A used word leaves the queue in front, a word read enters behind. -/
theorem queue_next (h : s.state = .feed) (horder : s.nxtVal = true → s.curVal = true) :
    queue (next s i k) = (if wordShift s then (queue s).tail else queue s) ++
      (if fetchEn s then [fetchWord s i] else []) ∧
    ((next s i k).nxtVal = true → (next s i k).curVal = true) := by
  have hcur : wordShift s = true → s.curVal = true := by
    intro hw
    simp only [wordShift, take, avail, Bool.and_eq_true, Bool.or_eq_true, Bool.not_eq_true'] at hw
    rcases hw.1.1.2.2 with hmem | hcur
    · rw [hw.1.2] at hmem
      exact absurd hmem (by decide)
    · exact hcur
  have hroom : fetchEn s = true → wordShift s = false → s.curVal = false ∨ s.nxtVal = false := by
    intro hf hw
    simp only [fetchEn, hw, Bool.and_eq_true, Bool.or_eq_true, Bool.not_eq_true', Bool.or_false] at hf
    exact hf.2
  rw [feed_next h]
  by_cases hf : fetchEn s = true <;> by_cases hw : wordShift s = true <;> by_cases hc : s.curVal = true <;>
    by_cases hn : s.nxtVal = true <;> simp_all [queue, frontFree]

/-- Outside of a start the registers of the job stay. -/
theorem next_job (h : s.state ≠ .idle) :
    (next s i k).cmd = s.cmd ∧ (next s i k).d0 = s.d0 ∧ (next s i k).d1 = s.d1 ∧ (next s i k).sid = s.sid ∧
      (next s i k).x = s.x ∧ (next s i k).y = s.y ∧ (next s i k).nonce = s.nonce ∧ (next s i k).eta = s.eta ∧
      (next s i k).inputLen = s.inputLen := by
  cases hc : s.state
  case idle => exact absurd hc h
  case feed =>
    rw [feed_next hc]
    exact ⟨rfl, rfl, rfl, rfl, rfl, rfl, rfl, rfl, rfl⟩
  all_goals simp only [next, hc, outNext, and_self]
  all_goals split_ifs <;> exact ⟨rfl, rfl, rfl, rfl, rfl, rfl, rfl, rfl, rfl⟩

/-- The sponge moves by its pins. -/
theorem next_hash : (next s i k).hash = Sha3ShakeStream.next s.hash (hashPins s k) := by
  cases hc : s.state
  case feed => rw [feed_next hc]; rfl
  all_goals simp only [next, hc, outNext]
  all_goals split_ifs <;> rfl

end Edges

section Stages

variable {s : State P} {i : HashIn} {k : κ} {bytes : Bytes}

/-- The byte that goes into the sponge at this edge. -/
def passed (s : State P) (k : κ) : Bytes :=
  if Sha3ShakeStream.accepts s.hash (hashPins s k) then [⟨s.feedByte⟩] else []

/-- The sponge has taken `bytes` for the command in the registers. -/
abbrev absorbing (s : State P) (bytes : Bytes) : Sha3ShakeStream.Phase :=
  .absorb (mode s.cmd) (outLen s.cmd s.eta) bytes

/-- The sponge has taken all of `bytes`, and gives. -/
abbrev squeezing (s : State P) (bytes : Bytes) (count : ℕ) : Sha3ShakeStream.Phase :=
  .squeeze (mode s.cmd) (outLen s.cmd s.eta) bytes count

/-- The engine and its sponge go together, with `bytes` taken since the start. -/
def Stage (s : State P) (bytes : Bytes) : Prop :=
  match s.state with
  | .idle | .done => Sha3ShakeStream.Rel s.hash .idle ∧ s.hash.done = false
  | .hstart => (Sha3ShakeStream.Rel s.hash .idle ∧ s.hash.done = false) ∧ s.hashFinished = false ∧ bytes = [] ∧
      s.inIndex = 0#11 ∧ s.feedValid = false ∧ s.inputLen = inputLenOf s.cmd
  | .feed => Sha3ShakeStream.Rel s.hash (absorbing s bytes) ∧ s.hashFinished = false ∧
      bytes.length + s.feedValid.toNat = s.inIndex.toNat ∧ s.inIndex ≤ s.inputLen ∧
      s.inputLen = inputLenOf s.cmd
  | .final => Sha3ShakeStream.Rel s.hash (absorbing s bytes) ∧ s.hashFinished = false ∧ s.feedValid = false ∧
      bytes.length = (inputLenOf s.cmd).toNat
  | _ => Sha3ShakeStream.Rel s.hash .idle ∨
      (s.hashFinished = false ∧ ∃ count, Sha3ShakeStream.Rel s.hash (squeezing s bytes count))

/-- No message fills its last block. -/
theorem inputLen_part (c : BitVec 3) :
    (inputLenOf c).toNat % (Sha3ShakeStream.modeOf (mode c)).rate ≠ 0 := by
  revert c
  decide

/-- A resting sponge rests on. -/
theorem sponge_rest (h : Sha3ShakeStream.Rel s.hash .idle) (hs : s.state ≠ .hstart) :
    Sha3ShakeStream.Rel (next s i k).hash .idle ∧ (next s i k).hash.done = false ∧ passed s k = [] := by
  have hoff : (hashPins s k).start = false := by simp [hashPins, hs]
  have hrel := Sha3ShakeStream.rel_next (i := hashPins s k) h
  rw [Sha3ShakeStream.phaseNext, hoff] at hrel
  rw [next_hash]
  refine ⟨hrel, Sha3ShakeStream.idle_done h.1, ?_⟩
  simp [passed, Sha3ShakeStream.accepts, Sha3ShakeStream.inputReady, h.1]

theorem idle_next (h : s.state = .idle) (hstage : Stage s bytes) : Stage (next s i k) [] := by
  simp only [Stage, h] at hstage
  obtain ⟨hrel, hquiet, -⟩ := sponge_rest (i := i) (k := k) hstage.1 (by simp [h])
  have hnext : next s i k = if i.start then loaded (frame s k) i else frame s k := by
    simp only [next, h, frame]
  cases hs : i.start
  · rw [hs] at hnext
    rw [hnext] at hrel hquiet ⊢
    simp only [Stage, frame, h]
    exact ⟨hrel, hquiet⟩
  · rw [hs] at hnext
    rw [hnext] at hrel hquiet ⊢
    exact ⟨⟨hrel, hquiet⟩, rfl, rfl, rfl, rfl, rfl⟩

theorem hstart_next (h : s.state = .hstart) (hstage : Stage s bytes) :
    Stage (next s i k) (bytes ++ passed s k) := by
  simp only [Stage, h] at hstage
  obtain ⟨⟨hrel, hquiet⟩, hfin, rfl, hin, hvalid, hlen⟩ := hstage
  have hnone : passed s k = [] := by
    simp [passed, Sha3ShakeStream.accepts, Sha3ShakeStream.inputReady, hrel.1]
  have hnext : next s i k = { frame s k with state := .feed } := by simp only [next, h, frame]
  have hon : (hashPins s k).start = true := by simp [hashPins, h]
  have hedge := Sha3ShakeStream.rel_next (i := hashPins s k) hrel
  rw [Sha3ShakeStream.phaseNext, if_pos hon] at hedge
  rw [hnone, hnext]
  refine ⟨hedge, ?_, ?_, ?_, hlen⟩
  · simp [frame, hdone, hquiet, hfin]
  · simp [frame, hin, hvalid]
  · simp [frame, hin, BitVec.le_def]

/-- The sponge of an engine that feeds, over one edge. -/
theorem sponge_feed (h : Sha3ShakeStream.Rel s.hash (absorbing s bytes)) (hs : s.state = .feed) :
    Sha3ShakeStream.Rel (next s i k).hash (absorbing s (bytes ++ passed s k)) := by
  have hoff : (hashPins s k).finalize = false := by simp [hashPins, hs]
  have hphase : Sha3ShakeStream.phaseNext s.hash (hashPins s k) (absorbing s bytes) =
      absorbing s (bytes ++ passed s k) := by
    rw [Sha3ShakeStream.phaseNext, passed, hoff]
    cases Sha3ShakeStream.accepts s.hash (hashPins s k)
    · simp
    · rfl
  rw [next_hash, ← hphase]
  exact Sha3ShakeStream.rel_next h

/-- Every edge keeps count of the bytes on the way. -/
theorem count_next (hs : s.state = .feed) (hcount : bytes.length + s.feedValid.toNat = s.inIndex.toNat)
    (hle : s.inIndex ≤ s.inputLen) :
    (bytes ++ passed s k).length + (next s i k).feedValid.toNat = (next s i k).inIndex.toNat ∧
      (next s i k).inIndex ≤ s.inputLen := by
  have hin : take s = true → (s.inIndex + 1).toNat = s.inIndex.toNat + 1 ∧ s.inIndex < s.inputLen := by
    intro ht
    simp only [take, avail, Bool.and_eq_true, decide_eq_true_eq] at ht
    have hlt := ht.2.1
    rw [BitVec.lt_def] at hlt
    have := s.inputLen.isLt
    refine ⟨?_, ht.2.1⟩
    rw [BitVec.toNat_add]
    exact Nat.mod_eq_of_lt (by simp; omega)
  have hload : load s = (!s.feedValid || iready s) := by simp [load, hs]
  have hpass : (passed s k).length = (iready s && s.feedValid).toNat := by
    cases ha : (iready s && s.feedValid) <;> simp_all [passed, Sha3ShakeStream.accepts, hashPins, iready]
  rw [BitVec.le_def] at hle ⊢
  rw [feed_next hs]
  cases ht : take s
  · cases hv : s.feedValid <;> cases hr : iready s <;> simp_all
  · obtain ⟨hsucc, hlt⟩ := hin ht
    rw [BitVec.lt_def] at hlt
    have hld : load s = true := by
      simp only [take, Bool.and_eq_true] at ht
      exact ht.1
    cases hv : s.feedValid <;> cases hr : iready s <;> simp_all <;> omega

theorem feed_stage (h : s.state = .feed) (hstage : Stage s bytes) :
    Stage (next s i k) (bytes ++ passed s k) := by
  simp only [Stage, h] at hstage
  obtain ⟨hrel, hfin, hcount, hle, hlen⟩ := hstage
  have hedge := sponge_feed (i := i) (k := k) hrel h
  obtain ⟨hcount', hle'⟩ := count_next (i := i) (k := k) h hcount hle
  have hfin' : (next s i k).hashFinished = false := by
    rw [feed_next h]
    simp [frame, hdone, hrel.2.1, hfin]
  obtain ⟨hcmd, -, -, -, -, -, -, heta, hsame⟩ := next_job (i := i) (k := k) (s := s) (by simp [h])
  have hphase : absorbing s (bytes ++ passed s k) = absorbing (next s i k) (bytes ++ passed s k) := by
    rw [absorbing, absorbing, hcmd, heta]
  rw [hphase] at hedge
  by_cases hend : (s.inIndex = s.inputLen && !s.feedValid) = true
  · have hst : (next s i k).state = .final := by rw [feed_next h]; simp [hend]
    simp only [Bool.and_eq_true, decide_eq_true_eq, Bool.not_eq_true'] at hend
    have htake : take s = false := by simp [take, avail, hend.1]
    have hvalid : (next s i k).feedValid = false := by
      rw [feed_next h]
      simp [htake, load, h, hend.2]
    have hindex : (next s i k).inIndex = s.inputLen := by
      rw [feed_next h]
      simp [htake, hend.1]
    simp only [Stage, hst]
    rw [hvalid, hindex] at hcount'
    exact ⟨hedge, hfin', hvalid, by rw [hcmd, ← hlen]; exact hcount'⟩
  · have hst : (next s i k).state = .feed := by rw [feed_next h]; simp [hend]
    simp only [Stage, hst]
    exact ⟨hedge, hfin', hcount', by rw [hsame]; exact hle', by rw [hsame, hcmd]; exact hlen⟩

/-- The end of the message finds the sponge ready. -/
theorem final_ready (h : s.state = .final) (hstage : Stage s bytes) :
    Sha3ShakeStream.inputReady s.hash = true := by
  simp only [Stage, h] at hstage
  obtain ⟨hrel, -, -, hlen⟩ := hstage
  have hready := Sha3ShakeStream.absorb_ready hrel (by rw [hlen]; exact inputLen_part s.cmd)
  simp [Sha3ShakeStream.inputReady, hready]

theorem final_next (h : s.state = .final) (hstage : Stage s bytes) :
    Sha3ShakeStream.Rel (next s i k).hash (squeezing s bytes 0) ∧ passed s k = [] ∧
      (next s i k).hashFinished = false := by
  have hready := final_ready h hstage
  simp only [Stage, h] at hstage
  obtain ⟨hrel, hfin, hvalid, -⟩ := hstage
  have hno : Sha3ShakeStream.accepts s.hash (hashPins s k) = false := by
    simp [Sha3ShakeStream.accepts, hashPins, hvalid]
  have hon : (hashPins s k).finalize = true := by simp [hashPins, h]
  have hedge := Sha3ShakeStream.rel_next (i := hashPins s k) hrel
  rw [Sha3ShakeStream.phaseNext, hno, hready, hon] at hedge
  rw [next_hash]
  refine ⟨hedge, by simp [passed, hno], ?_⟩
  simp [next, h, hdone, hrel.2.1, hfin]

/-- The sponge of an engine that takes its output, over one edge. -/
theorem sponge_squeeze (hs : s.state ≠ .hstart) (h : Sha3ShakeStream.Rel s.hash .idle ∨
    (s.hashFinished = false ∧ ∃ count, Sha3ShakeStream.Rel s.hash (squeezing s bytes count))) :
    (Sha3ShakeStream.Rel (next s i k).hash .idle ∨ (s.hashFinished || hdone s) = false ∧
      ∃ count, Sha3ShakeStream.Rel (next s i k).hash (squeezing s bytes count)) ∧ passed s k = [] := by
  rcases h with h | ⟨hfin, count, h⟩
  · obtain ⟨hrel, -, hnone⟩ := sponge_rest (i := i) (k := k) h hs
    exact ⟨Or.inl hrel, hnone⟩
  · have hno : Sha3ShakeStream.accepts s.hash (hashPins s k) = false := by
      obtain ⟨-, -, hst⟩ := h
      cases hc : s.hash.controlState <;> simp only [hc] at hst <;>
        simp [Sha3ShakeStream.accepts, Sha3ShakeStream.inputReady, hc]
    refine ⟨?_, by simp [passed, hno]⟩
    rw [next_hash]
    cases hd : (Sha3ShakeStream.next s.hash (hashPins s k)).done
    · exact Or.inr ⟨by simp [hfin, hdone, h.2.1], _, Sha3ShakeStream.squeeze_stays h hd⟩
    · have hedge := Sha3ShakeStream.rel_next (i := hashPins s k) h
      rw [Sha3ShakeStream.phaseNext, if_pos hd] at hedge
      exact Or.inl hedge

/-- The states that take output and work on it. -/
def St.gives : St → Bool
  | .out | .check | .w0 | .w1 | .nwrite | .drain => true
  | _ => false

theorem stage_gives (h : s.state.gives = true) : Stage s bytes ↔ Sha3ShakeStream.Rel s.hash .idle ∨
    (s.hashFinished = false ∧ ∃ count, Sha3ShakeStream.Rel s.hash (squeezing s bytes count)) := by
  cases hc : s.state <;> simp [St.gives, hc] at h <;> simp only [Stage, hc]

/-- The output ends with the sponge. -/
theorem gives_next (h : s.state.gives = true) :
    (next s i k).hashFinished = (s.hashFinished || hdone s) ∧
      ((next s i k).state.gives = true ∨
        ((next s i k).state = .done ∧ (hdone s = true ∨ s.hashFinished = true))) := by
  cases hc : s.state <;> simp [St.gives, hc] at h
  all_goals
    simp only [next, hc, outNext]
  all_goals
    split_ifs <;> simp_all [St.gives]

theorem gives_stage (h : s.state.gives = true) (hstage : Stage s bytes) :
    Stage (next s i k) (bytes ++ passed s k) := by
  have hs : s.state ≠ .hstart := by
    intro hc
    simp [hc, St.gives] at h
  have hne : s.state ≠ .idle := by
    intro hc
    simp [hc, St.gives] at h
  rw [stage_gives h] at hstage
  obtain ⟨hsponge, hnone⟩ := sponge_squeeze (i := i) (k := k) hs hstage
  obtain ⟨hfin, hstate⟩ := gives_next (i := i) (k := k) h
  obtain ⟨hcmd, -, -, -, -, -, -, heta, -⟩ := next_job (i := i) (k := k) hne
  have hsqueezing : ∀ count, squeezing s bytes count = squeezing (next s i k) bytes count := by
    intro count
    rw [squeezing, squeezing, hcmd, heta]
  simp only [hsqueezing, ← hfin] at hsponge
  rw [hnone, List.append_nil]
  rcases hstate with hstate | ⟨hstate, hend⟩
  · exact (stage_gives hstate).mpr hsponge
  · -- a sponge that is done or was done before rests
    have hidle : Sha3ShakeStream.Rel s.hash .idle := by
      rcases hstage with hidle | ⟨hnot, count, hrel⟩
      · exact hidle
      · simp [hdone, hrel.2.1, hnot] at hend
    obtain ⟨hrel, hquiet, -⟩ := sponge_rest (i := i) (k := k) hidle hs
    simp only [Stage, hstate]
    exact ⟨hrel, hquiet⟩

/-- Every edge keeps engine and sponge together. -/
theorem stage_next (h : s.state ≠ .idle) (hstage : Stage s bytes) :
    Stage (next s i k) (bytes ++ passed s k) := by
  cases hc : s.state
  case idle => exact absurd hc h
  case hstart => exact hstart_next hc hstage
  case feed => exact feed_stage hc hstage
  case final =>
    obtain ⟨hrel, hnone, hfin⟩ := final_next (i := i) (k := k) hc hstage
    have hnext : (next s i k).state = .out := by simp [next, hc]
    obtain ⟨hcmd, -, -, -, -, -, -, heta, -⟩ := next_job (i := i) (k := k) h
    rw [hnone, List.append_nil]
    simp only [Stage, hnext]
    exact Or.inr ⟨hfin, 0, by rw [squeezing, hcmd, heta]; exact hrel⟩
  case done =>
    simp only [Stage, hc] at hstage
    obtain ⟨hrel, hquiet, -⟩ := sponge_rest (i := i) (k := k) hstage.1 (by simp [hc])
    have hnext : (next s i k).state = .idle := by simp [next, hc]
    simp only [Stage, hnext]
    exact ⟨hrel, hquiet⟩
  all_goals exact gives_stage (by simp [hc, St.gives]) hstage

theorem reachable_stage (h : (design P).Reachable s) : ∃ bytes, Stage s bytes := by
  refine (design P).reachable_induct (P := fun s => ∃ bytes, Stage s bytes) (fun _ => ?_) (fun s i hs => ?_) h
  · exact ⟨[], ⟨rfl, rfl, P.init_idle⟩, rfl⟩
  · obtain ⟨bytes, hs⟩ := hs
    by_cases hc : s.state = .idle
    · exact ⟨[], idle_next hc hs⟩
    · exact ⟨_, stage_next hc hs⟩

end Stages

section Queue

variable {o : Source} {s : State P} {i i' : HashIn} {k : κ} {bytes : Bytes}

/-- The word that byte `n` of the message is in, or the next one that comes from memory. -/
def front (c : BitVec 3) (n : ℕ) : ℕ := max (memFrom c / 4) (min (memTo c / 4) (n / 4))

theorem mem_bounds : ∀ c : BitVec 3, (memFrom c = 0 ∨ memFrom c = 32) ∧
    (memTo c = 0 ∨ memTo c = 800 ∨ memTo c = 1568) ∧ (memTo c = 0 → memFrom c = 0) := by
  decide

theorem front_succ {c : BitVec 3} {n : BitVec 11} (h : n < inputLenOf c) : front c (n.toNat + 1) =
    front c n.toNat + if memoryInput c n && n.toNat % 4 = 3 then 1 else 0 := by
  obtain ⟨hfrom, hto, hzero⟩ := mem_bounds c
  have hiff := memoryInput_iff h
  rw [front, front]
  cases hm : memoryInput c n
  · rw [hm] at hiff
    simp only [Bool.false_eq_true, false_iff, Bool.false_and, if_false] at hiff ⊢
    omega
  · have hin := hiff.mp hm
    by_cases hlast : n.toNat % 4 = 3
    · simp only [hlast, decide_true, Bool.and_self, if_true]
      omega
    · simp only [hlast, decide_false, Bool.and_false, Bool.false_eq_true, if_false]
      omega

theorem front_inside {c : BitVec 3} {n : ℕ} (hfrom : memFrom c ≤ n) (hto : n < memTo c) : front c n = n / 4 := by
  rw [front]
  omega

/-- The byte in front of the sponge. -/
def pending (s : State P) : Bytes := if s.feedValid then [⟨s.feedByte⟩] else []

/-- What has been read of the message, and what the queue holds of it. -/
structure Filling (o : Source) (s : State P) (bytes : Bytes) : Prop where
  holds : Holds o s
  fed : bytes ++ pending s = o.message.take s.inIndex.toNat
  order : s.nxtVal = true → s.curVal = true
  queued : Numbered (fun j => o.word (front s.cmd s.inIndex.toNat + j)) (queue s)
  fetch : s.fetchIndex.toNat = 4 * (front s.cmd s.inIndex.toNat + (queue s).length)

/-- Unless the address has just moved, the memories show the word at it. -/
def Shows (o : Source) (s : State P) (i : HashIn) : Prop := s.fetchWait = false →
  memFrom s.cmd ≤ s.fetchIndex.toNat → s.fetchIndex.toNat < memTo s.cmd →
    fetchWord s i = o.word (s.fetchIndex.toNat / 4)

/-- The memories answer the addresses of the cycle before. -/
def Answers (o : Source) (s : State P) (i' : HashIn) : Prop :=
  i'.skRdata = o.sk (skAddr s) ∧ i'.ctRdata = o.ct (ctAddr s)

/-- The byte in front leaves when its place is loaded, and only then. -/
theorem passed_eq (hs : s.state = .feed) : passed s k = if load s then pending s else [] := by
  cases hr : iready s <;> cases hv : s.feedValid <;>
    simp_all [passed, pending, load, Sha3ShakeStream.accepts, hashPins, iready]

theorem take_lt (ht : take s = true) : s.inIndex < s.inputLen ∧ load s = true ∧
    (memoryInput s.cmd s.inIndex = true → s.curVal = true) ∧ (s.inIndex + 1).toNat = s.inIndex.toNat + 1 := by
  simp only [take, avail, Bool.and_eq_true, decide_eq_true_eq, Bool.or_eq_true, Bool.not_eq_true'] at ht
  have hlt := ht.2.1
  rw [BitVec.lt_def] at hlt
  have := s.inputLen.isLt
  refine ⟨ht.2.1, ht.1, fun hmem => ?_, ?_⟩
  · rw [hmem] at ht
    simpa using ht.2.2
  · rw [BitVec.toNat_add]
    exact Nat.mod_eq_of_lt (by simp; omega)

/-- The front of the queue is the word the next byte from memory is in. -/
theorem Filling.wordCur (hf : Filling o s bytes) (hlt : s.inIndex < s.inputLen)
    (hmem : memoryInput s.cmd s.inIndex = true) (hcur : s.curVal = true) :
    s.wordCur = o.word (s.inIndex.toNat / 4) := by
  have hlt' : s.inIndex < inputLenOf s.cmd := by
    rw [hf.holds.cmd, ← hf.holds.inputLen]
    exact hlt
  obtain ⟨hfrom, hto⟩ := (memoryInput_iff hlt').mp hmem
  have hq := hf.queued
  simp only [queue, hcur, if_true] at hq
  have hhead := hq.head
  rw [front_inside hfrom hto] at hhead
  exact hhead

theorem Filling.fed_next (hs : s.state = .feed) (hf : Filling o s bytes) :
    (bytes ++ passed s k) ++ pending (next s i k) = o.message.take (next s i k).inIndex.toNat := by
  have hpend : pending (next s i k) =
      if take s then [⟨inbyte s⟩] else if load s then [] else pending s := by
    rw [feed_next hs, pending]
    cases ht : take s <;> cases hl : load s <;> simp [pending]
  have hindex : (next s i k).inIndex = if take s then s.inIndex + 1 else s.inIndex := by rw [feed_next hs]
  rw [hpend, hindex, passed_eq hs]
  cases ht : take s
  · cases hl : load s
    · simpa using hf.fed
    · simpa using hf.fed
  · obtain ⟨hlt, hload, hcur, hsucc⟩ := take_lt ht
    have hbyte := getD_inbyte hf.holds hlt fun hmem => hf.wordCur hlt hmem (hcur hmem)
    have hin : s.inIndex.toNat < o.message.length := by
      rw [length_message, ← hf.holds.inputLen]
      exact BitVec.lt_def.mp hlt
    simp only [hload, if_true]
    rw [hsucc, List.take_add_one, ← hf.fed, ← hbyte]
    simp [hin]

theorem front_next (hs : s.state = .feed) (hf : Filling o s bytes) :
    front s.cmd (next s i k).inIndex.toNat = front s.cmd s.inIndex.toNat + if wordShift s then 1 else 0 := by
  have hindex : (next s i k).inIndex = if take s then s.inIndex + 1 else s.inIndex := by rw [feed_next hs]
  rw [hindex]
  cases ht : take s
  · simp [wordShift, ht]
  · obtain ⟨hlt, -, -, hsucc⟩ := take_lt ht
    rw [hf.holds.inputLen, ← hf.holds.cmd] at hlt
    rw [if_pos rfl, hsucc, front_succ hlt]
    simp [wordShift, ht]

/-- A used word was in front, the rest moves up. -/
theorem Filling.shifted (hf : Filling o s bytes) (hlen : wordShift s = true → s.curVal = true) :
    Numbered (fun j => o.word (front s.cmd s.inIndex.toNat + (if wordShift s then 1 else 0) + j))
      (if wordShift s then (queue s).tail else queue s) ∧
    front s.cmd s.inIndex.toNat + (if wordShift s then 1 else 0) +
      (if wordShift s then (queue s).tail else queue s).length =
        front s.cmd s.inIndex.toNat + (queue s).length := by
  cases hw : wordShift s
  · simp only [Bool.false_eq_true, if_false, Nat.add_zero]
    exact ⟨hf.queued, trivial⟩
  · have hpos : 0 < (queue s).length := by simp [queue, hlen hw]
    have htail := hf.queued.tail
    simp only [if_true, List.length_tail]
    refine ⟨?_, by omega⟩
    simpa only [Nat.add_assoc, Nat.add_comm 1] using htail

theorem fetchEn_lt (he : fetchEn s = true) (hf : Filling o s bytes) (hshow : Shows o s i) :
    fetchWord s i = o.word (s.fetchIndex.toNat / 4) ∧ (s.fetchIndex + 4).toNat = s.fetchIndex.toNat + 4 := by
  simp only [fetchEn, Bool.and_eq_true, Bool.not_eq_true', decide_eq_true_eq] at he
  obtain ⟨⟨⟨⟨-, hwait⟩, hmem⟩, hlt⟩, -⟩ := he
  have hlt' : s.fetchIndex < inputLenOf s.cmd := by
    rw [hf.holds.cmd, ← hf.holds.inputLen]
    exact hlt
  obtain ⟨hfrom, hto⟩ := (memoryInput_iff hlt').mp hmem
  refine ⟨hshow hwait hfrom hto, ?_⟩
  have := (mem_bounds s.cmd).2.1
  rw [BitVec.toNat_add]
  exact Nat.mod_eq_of_lt (by simp; omega)

/-- The queue after an edge, and the address. -/
theorem Filling.queue_next (hs : s.state = .feed) (hf : Filling o s bytes) (hshow : Shows o s i) :
    Numbered (fun j => o.word (front s.cmd (next s i k).inIndex.toNat + j)) (queue (next s i k)) ∧
      (next s i k).fetchIndex.toNat =
        4 * (front s.cmd (next s i k).inIndex.toNat + (queue (next s i k)).length) := by
  have hcur : wordShift s = true → s.curVal = true := by
    intro hw
    simp only [wordShift, Bool.and_eq_true] at hw
    obtain ⟨-, -, hcur, -⟩ := take_lt hw.1.1
    exact hcur hw.1.2
  obtain ⟨hnum, hlen⟩ := hf.shifted hcur
  have hindex : (next s i k).fetchIndex = if fetchEn s then s.fetchIndex + 4 else s.fetchIndex := by
    rw [feed_next hs]
  rw [front_next hs hf, (SharedHashEngine.queue_next hs hf.order).1, hindex]
  cases he : fetchEn s
  · simp only [Bool.false_eq_true, if_false, List.append_nil]
    exact ⟨hnum, by rw [hf.fetch, hlen]⟩
  · obtain ⟨hword, hplus⟩ := fetchEn_lt he hf hshow
    simp only [if_true, List.length_append, List.length_singleton]
    refine ⟨hnum.snoc ?_, ?_⟩
    · rw [hword, hf.fetch, hlen, Nat.mul_div_cancel_left _ (by decide)]
    · rw [hplus, hf.fetch]
      omega

/-- Every edge of the feed keeps the message in order. -/
theorem Filling.step (hs : s.state = .feed) (hf : Filling o s bytes) (hshow : Shows o s i) :
    Filling o (next s i k) (bytes ++ passed s k) := by
  obtain ⟨hcmd, hd0, hd1, hsid, hx, hy, hnonce, heta, hlen⟩ := next_job (i := i) (k := k) (s := s) (by simp [hs])
  obtain ⟨hqueued, hfetch⟩ := hf.queue_next (k := k) hs hshow
  obtain ⟨h1, h2, h3, h4, h5, h6, h7, h8, h9⟩ := hf.holds
  constructor
  · exact ⟨hcmd.trans h1, hd0.trans h2, hd1.trans h3, hsid.trans h4, hx.trans h5, hy.trans h6,
      hnonce.trans h7, heta.trans h8, hlen.trans h9⟩
  · exact hf.fed_next hs
  · exact (SharedHashEngine.queue_next hs hf.order).2
  · rw [hcmd]
    exact hqueued
  · rw [hcmd]
    exact hfetch

theorem sk_address {f : BitVec 11} {j : ℕ} (hf : f.toNat = 4 * j) :
    ((768 + f.setWidth 32) >>> 2).setWidth 9 = BitVec.ofNat 9 (192 + j) := by
  have := f.isLt
  apply BitVec.eq_of_toNat_eq
  simp [Nat.shiftRight_eq_div_pow]
  omega

theorem ct_address {f : BitVec 11} {j c : ℕ} (hf : f.toNat = 4 * j) (hc : c ≤ j) :
    ((f.setWidth 32 - BitVec.ofNat 32 (4 * c)) >>> 2).setWidth 8 = BitVec.ofNat 8 (j - c) := by
  have := f.isLt
  have hcw : 4 * c % 2 ^ 32 = 4 * c := Nat.mod_eq_of_lt (by omega)
  have hfw : f.toNat % 2 ^ 32 = f.toNat := Nat.mod_eq_of_lt (by omega)
  have hsub : (2 ^ 32 - 4 * c + f.toNat) % 2 ^ 32 = f.toNat - 4 * c := by omega
  apply BitVec.eq_of_toNat_eq
  rw [BitVec.toNat_setWidth, BitVec.toNat_ushiftRight, BitVec.toNat_sub, BitVec.toNat_ofNat, hcw,
    BitVec.toNat_setWidth, hfw, hsub, BitVec.toNat_ofNat, Nat.shiftRight_eq_div_pow]
  congr 1
  omega

/-- The address of a cycle is the address of its word. -/
theorem word_read (h : Holds o s) {j : ℕ} (hj : s.fetchIndex.toNat = 4 * j)
    (hfrom : memFrom s.cmd ≤ s.fetchIndex.toNat) (hto : s.fetchIndex.toNat < memTo s.cmd) :
    (if fetchesCt s then o.ct (ctAddr s) else o.sk (skAddr s)) = o.word j := by
  have hcmd := h.cmd
  have hread : s.cmd = C_HPK ∨ s.cmd = C_J ∨ s.cmd = C_TRANSCRIPT := by
    by_contra hno
    simp only [not_or] at hno
    simp [memTo, hno.1, hno.2.1, hno.2.2] at hto
  rcases hread with hc | hc | hc <;>
    simp only [hc, memFrom, memTo, C_HPK, C_J, C_TRANSCRIPT] at hfrom hto <;> simp at hfrom hto <;>
    rw [hc] at hcmd
  · have hsk := sk_address hj
    simp [fetchesCt, skAddr, hc, Source.word, ← hcmd, C_HPK, C_J, C_TRANSCRIPT]
    exact congrArg o.sk hsk
  · have hct := ct_address (c := 8) hj (by omega)
    simp [fetchesCt, ctAddr, hc, Source.word, ← hcmd]
    exact congrArg o.ct hct
  · by_cases hek : s.fetchIndex.toNat < 800
    · have hsk := sk_address hj
      simp [fetchesCt, skAddr, hc, Source.word, ← hcmd, C_HPK, C_J, C_TRANSCRIPT, BitVec.le_def, BitVec.lt_def,
        hek, show ¬ 200 ≤ j by omega, show ¬ 800 ≤ s.fetchIndex.toNat by omega]
      exact congrArg o.sk hsk
    · have hct := ct_address (c := 200) hj (by omega)
      simp [fetchesCt, ctAddr, hc, Source.word, ← hcmd, C_J, C_TRANSCRIPT, BitVec.le_def, BitVec.lt_def, hto,
        show 200 ≤ j by omega, show 800 ≤ s.fetchIndex.toNat by omega]
      exact congrArg o.ct hct

/-- With the address at rest the next cycle shows its word. -/
theorem shows_next (hs : s.state = .hstart ∧ s.fetchWait = false ∨ s.state = .feed) (hf : Filling o s bytes)
    (hans : Answers o s i') : Shows o (next s i k) i' := by
  intro hwait hfrom hto
  obtain ⟨hcmd, -⟩ := next_job (i := i) (k := k) (s := s) (by rcases hs with ⟨hs, -⟩ | hs <;> simp [hs])
  have hsame : (next s i k).fetchIndex = s.fetchIndex := by
    rcases hs with ⟨hs, -⟩ | hs
    · simp [next, hs]
    · rw [feed_next hs] at hwait ⊢
      have hno : fetchEn s = false := hwait
      simp [hno]
  have hct : fetchesCt (next s i k) = fetchesCt s := by rw [fetchesCt, fetchesCt, hcmd, hsame]
  rw [hsame, hcmd] at hfrom hto
  have hread := word_read hf.holds hf.fetch hfrom hto
  rw [fetchWord, hct, hans.1, hans.2, hsame, hread, hf.fetch, Nat.mul_div_cancel_left _ (by decide)]

end Queue

end SharedHashEngine

end ZedSecure
