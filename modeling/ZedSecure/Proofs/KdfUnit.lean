import ZedSecure.Proofs.SpongeRuns
import ZedSecure.Rtl.SessionKdf
import ZedSecure.Spec.HashMessages

/-! The key derivation as a unit: whatever the timing of its permutation, a start is answered by 72
bytes of SHAKE256 over the label, the secret and the transcript hash. -/

namespace ZedSecure

open Clocked Fips202 LittleEndian

namespace SessionKdf

open Sha3ShakeStream (Rel)

section Message

/-- "ZYNQ-PQC-v1" ‖ shared secret ‖ transcript hash -/
def message (x : KdfIn) : Bytes :=
  SharedHashEngine.domain ++ lanes (k := 32) x.sharedSecret ++ lanes (k := 32) x.transcriptHash

def sessionKdf (x : KdfIn) : BitVec 576 := BitVec.ofNat (8 * 72) (num (hash .shake256 (message x) 72))

theorem length_domain : SharedHashEngine.domain.length = 11 := rfl

@[simp] theorem length_message (x : KdfIn) : (message x).length = 75 := by
  simp [message, length_domain]

/-- Byte `n` of the output, as the sponge shows it. -/
def outputByte (x : KdfIn) (n : ℕ) : UInt8 := outByte .shake256 (Sha3ShakeStream.final 3 (message x)) n

theorem lanes_sessionKdf (x : KdfIn) :
    lanes (k := 72) (sessionKdf x) = (List.range 72).map (outputByte x) := by
  have hmode : Sha3ShakeStream.modeOf 3 = .shake256 := rfl
  rw [sessionKdf, hash_eq, lanes_ofNat (by simp)]
  rfl

/-- Bytes stored one by one are the derived material. -/
theorem material_eq {x : KdfIn} {material : BitVec 576}
    (h : ∀ j < 72, (⟨slice material (8 * j) 8⟩ : UInt8) = outputByte x j) : material = sessionKdf x := by
  apply lanes_inj (k := 72)
  rw [lanes_sessionKdf]
  apply List.ext_getElem
  · simp
  · intro j hj hj'
    have hlt : j < 72 := by simpa using hj'
    have hget := getD_lanes (k := 72) material hlt
    rw [List.getD_eq_getElem _ _ hj] at hget
    rw [hget, h j hlt, List.getElem_map, List.getElem_range]

variable {κ : Type} {P : StartDone keccakF κ}

/-- Past the label come the secret and the transcript hash. -/
theorem hashInputByte_after {s : State P} (h : 11 ≤ s.index.toNat) : hashInputByte s =
    if s.index.toNat < 43 then slice s.secretReg (8 * (s.index.toNat - 11)) 8
    else slice s.hashReg (8 * (s.index.toNat - 43)) 8 := by
  unfold hashInputByte
  split <;> first | omega | rfl

/-- The byte offered at an index is the message's. -/
theorem hashInputByte_eq {x : KdfIn} {s : State P} (hsecret : s.secretReg = x.sharedSecret)
    (hhash : s.hashReg = x.transcriptHash) (h : s.index.toNat < 75) :
    (⟨hashInputByte s⟩ : UInt8) = (message x).getD s.index.toNat 0 := by
  rcases Nat.lt_or_ge s.index.toNat 11 with hlabel | hafter
  · rw [message, List.append_assoc, List.getD_append _ _ _ _ (by simpa [length_domain] using hlabel)]
    unfold hashInputByte
    generalize s.index.toNat = n at hlabel
    interval_cases n <;> rfl
  · rw [hashInputByte_after hafter, hsecret, hhash, message, List.append_assoc,
      List.getD_append_right _ _ _ _ (by simpa [length_domain] using hafter), length_domain]
    split_ifs with hsec
    · rw [List.getD_append _ _ _ _ (by simp; omega), getD_lanes _ (by omega)]
    · rw [List.getD_append_right _ _ _ _ (by simp; omega), length_lanes, getD_lanes _ (by omega),
        Nat.sub_sub]

end Message

section Steps

variable {κ : Type} {P : StartDone keccakF κ}

/-- The bytes of the output stored so far. -/
def Stored (x : KdfIn) (material : BitVec 576) (count : ℕ) : Prop :=
  ∀ j < count, (⟨slice material (8 * j) 8⟩ : UInt8) = outputByte x j

/-- What the registers of a derivation on `x` hold in each state. -/
def Stage (x : KdfIn) (s : State P) : Prop :=
  match s.state with
  | .idle => False
  | .start => s.index = 0#7 ∧ s.hashStart = false ∧ s.hashFinalize = false ∧ Rel s.hash .idle
  | .feed => s.hashFinalize = false ∧ s.index.toNat < 75 ∧
      ((s.hashStart = true ∧ s.index = 0#7 ∧ Rel s.hash .idle) ∨
        (s.hashStart = false ∧ Rel s.hash (.absorb 3 72 ((message x).take s.index.toNat))))
  | .final => s.hashStart = false ∧ s.hashFinalize = false ∧ Rel s.hash (.absorb 3 72 (message x))
  | .collect => s.hashStart = false ∧
      ((s.hashFinalize = true ∧ s.index = 0#7 ∧ Rel s.hash (.absorb 3 72 (message x))) ∨
        (s.hashFinalize = false ∧ Rel s.hash (.squeeze 3 72 (message x) s.index.toNat) ∧
          Stored x s.material s.index.toNat) ∨
        (s.hashFinalize = false ∧ Rel s.hash .idle ∧ s.hash.done = true ∧ Stored x s.material 72))

def Working (x : KdfIn) (s : State P) : Prop :=
  s.done = false ∧ s.secretReg = x.sharedSecret ∧ s.hashReg = x.transcriptHash ∧ Stage x s

/-- At rest, with the sponge at rest. -/
def Idle (s : State P) : Prop :=
  s.state = .idle ∧ s.hashStart = false ∧ s.hashFinalize = false ∧ Rel s.hash .idle

variable {s : State P} {x : KdfIn} {k : κ}

theorem idle_wait (h : Idle s) : Idle (next s none k) ∧ (next s none k).done = false := by
  obtain ⟨hst, hs, hf, hrel⟩ := h
  have hnext := Sha3ShakeStream.rel_next (i := hashPins s k) hrel
  rw [Sha3ShakeStream.phaseNext, show (hashPins s k).start = false from hs] at hnext
  simp only [next, hst]
  exact ⟨⟨rfl, rfl, rfl, hnext⟩, trivial⟩

theorem idle_start (h : Idle s) :
    Working x (next s (some x) k) ∧ (next s (some x) k).done = false := by
  obtain ⟨hst, hs, hf, hrel⟩ := h
  have hnext := Sha3ShakeStream.rel_next (i := hashPins s k) hrel
  rw [Sha3ShakeStream.phaseNext, show (hashPins s k).start = false from hs] at hnext
  simp only [next, hst]
  exact ⟨⟨rfl, rfl, rfl, rfl, rfl, rfl, hnext⟩, trivial⟩

/-- The start state raises the sponge's start pulse. -/
theorem start_next (y : Option KdfIn) (h : Working x s) (hst : s.state = .start) :
    Working x (next s y k) := by
  obtain ⟨-, hsecret, hhash, hstage⟩ := h
  simp only [Stage, hst] at hstage
  obtain ⟨hi, hs, hf, hrel⟩ := hstage
  have hnext := Sha3ShakeStream.rel_next (i := hashPins s k) hrel
  rw [Sha3ShakeStream.phaseNext, show (hashPins s k).start = false from hs] at hnext
  simp only [next, hst]
  exact ⟨rfl, hsecret, hhash, rfl, by simp [hi], Or.inl ⟨rfl, hi, hnext⟩⟩

/-- The index moves on by one. -/
theorem index_succ {i : BitVec 7} {n : ℕ} (h : i.toNat < n) (hn : n < 128) : (i + 1#7).toNat = i.toNat + 1 := by
  rw [BitVec.toNat_add, BitVec.toNat_ofNat]
  omega

/-- While bytes are fed the sponge takes one whenever it can. -/
theorem feed_next (y : Option KdfIn) (h : Working x s) (hst : s.state = .feed) :
    Working x (next s y k) := by
  obtain ⟨-, hsecret, hhash, hstage⟩ := h
  simp only [Stage, hst] at hstage
  obtain ⟨hf, hlt, ⟨hs, hi, hrel⟩ | ⟨hs, hrel⟩⟩ := hstage
  · have hnext := Sha3ShakeStream.rel_next (i := hashPins s k) hrel
    rw [Sha3ShakeStream.phaseNext, show (hashPins s k).start = true from hs, if_pos rfl] at hnext
    have hready : Sha3ShakeStream.inputReady s.hash = false := by
      simp [Sha3ShakeStream.inputReady, hrel.1]
    simp only [next, hst, hready, Bool.false_eq_true, if_false]
    refine ⟨rfl, hsecret, hhash, rfl, hlt, Or.inr ⟨rfl, ?_⟩⟩
    rw [hi]
    exact hnext
  · have hnext := Sha3ShakeStream.rel_next (i := hashPins s k) hrel
    have hvalid : (hashPins s k).inputValid = true := by simp [hashPins, hst]
    have hfinal : (hashPins s k).finalize = false := hf
    cases hready : Sha3ShakeStream.inputReady s.hash
    · simp only [Sha3ShakeStream.phaseNext, Sha3ShakeStream.accepts, hready, Bool.false_and, Bool.false_eq_true,
        if_false] at hnext
      simp only [next, hst, hready, Bool.false_eq_true, if_false]
      exact ⟨rfl, hsecret, hhash, rfl, hlt, Or.inr ⟨rfl, hnext⟩⟩
    · have hbyte : (⟨(hashPins s k).inputByte⟩ : UInt8) = (message x).getD s.index.toNat 0 :=
        hashInputByte_eq hsecret hhash hlt
      have hlen : s.index.toNat < (message x).length := by simpa using hlt
      have htake : (message x).take s.index.toNat ++ [(message x).getD s.index.toNat 0] =
          (message x).take (s.index.toNat + 1) := by
        rw [List.getD_eq_getElem _ _ hlen, List.take_append_getElem hlen]
      simp only [Sha3ShakeStream.phaseNext, Sha3ShakeStream.accepts, hready, hvalid, Bool.and_self, if_true,
        hbyte, htake] at hnext
      by_cases hlast : s.index = 74#7
      · have hall : (message x).take (s.index.toNat + 1) = message x := by
          rw [hlast]
          exact List.take_of_length_le (by simp)
        rw [hall] at hnext
        simp only [next, hst, hready, if_true, hlast]
        exact ⟨rfl, hsecret, hhash, rfl, rfl, hnext⟩
      · have hne : s.index.toNat ≠ 74 := fun h => hlast (BitVec.eq_of_toNat_eq h)
        have hinc := index_succ hlt (by decide)
        rw [← hinc] at hnext
        simp only [next, hst, hready, if_true, if_neg hlast]
        have hlt' : (s.index + 1#7).toNat < 75 := by omega
        exact ⟨rfl, hsecret, hhash, rfl, hlt', Or.inr ⟨rfl, hnext⟩⟩

/-- The last byte is in, and the finalize pulse goes up. -/
theorem final_next (y : Option KdfIn) (h : Working x s) (hst : s.state = .final) :
    Working x (next s y k) := by
  obtain ⟨-, hsecret, hhash, hstage⟩ := h
  simp only [Stage, hst] at hstage
  obtain ⟨hs, hf, hrel⟩ := hstage
  have hnext := Sha3ShakeStream.rel_next (i := hashPins s k) hrel
  have hvalid : (hashPins s k).inputValid = false := by simp [hashPins, hst]
  have hfinal : (hashPins s k).finalize = false := hf
  simp only [Sha3ShakeStream.phaseNext, Sha3ShakeStream.accepts, hvalid, hfinal, Bool.and_false,
    Bool.false_eq_true, if_false] at hnext
  simp only [next, hst]
  exact ⟨rfl, hsecret, hhash, rfl, Or.inl ⟨rfl, rfl, hnext⟩⟩

/-- A sponge that is to give 72 bytes has not given the last. -/
theorem squeeze_lt {h : Sha3ShakeStream.State P} {m : Bytes} {count : ℕ}
    (hrel : Rel h (.squeeze 3 72 m count)) : count < 72 := by
  obtain ⟨-, -, hst⟩ := hrel
  cases hc : h.controlState <;> simp only [hc] at hst
  case padFinal => omega
  case permFinal => omega
  case squeeze => exact hst.2.1
  case permSqueeze => exact hst.2.1

/-- A byte of the output goes to its place. -/
theorem Stored.snoc {material : BitVec 576} {count : ℕ} (h : Stored x material count) (hlt : count < 72)
    {b : BitVec 8} (hb : (⟨b⟩ : UInt8) = outputByte x count) :
    Stored x (patch material (8 * count) b) (count + 1) := by
  intro j hj
  rcases Nat.lt_succ_iff_lt_or_eq.mp hj with hbefore | rfl
  · rw [slice_patch_of_disjoint _ _ _ _ (by omega) (Or.inl (by omega))]
    exact h j hbefore
  · rw [slice_patch_self _ _ _ (by omega)]
    exact hb

/-- The sponge's last phase: the bytes come out and are stored until its done pulse. -/
theorem collect_next (y : Option KdfIn) (h : Working x s) (hst : s.state = .collect) :
    Working x (next s y k) ∨ (Idle (next s y k) ∧ (next s y k).done = true ∧
      (next s y k).material = sessionKdf x) := by
  obtain ⟨-, hsecret, hhash, hstage⟩ := h
  simp only [Stage, hst] at hstage
  obtain ⟨hs, ⟨hf, hi, hrel⟩ | ⟨hf, hrel, hstored⟩ | ⟨hf, hrel, hdone, hstored⟩⟩ := hstage
  · -- the finalize pulse is on the pin, and the sponge takes it
    left
    have hnext := Sha3ShakeStream.rel_next (i := hashPins s k) hrel
    have hready := Sha3ShakeStream.absorb_ready hrel (by rw [length_message]; decide)
    have hvalid : (hashPins s k).inputValid = false := by simp [hashPins, hst]
    have hfinal : (hashPins s k).finalize = true := hf
    have hdone : s.hash.done = false := hrel.2.1
    simp only [Sha3ShakeStream.phaseNext, Sha3ShakeStream.accepts, Sha3ShakeStream.inputReady, hready, hvalid,
      hfinal, Bool.and_false, Bool.false_eq_true, if_false, decide_true, Bool.and_self, if_true] at hnext
    simp only [next, hst, Sha3ShakeStream.outputValid, hready, hdone, decide_false, reduceCtorEq,
      Bool.false_eq_true, if_false]
    refine ⟨rfl, hsecret, hhash, rfl, Or.inr (Or.inl ⟨rfl, ?_, ?_⟩)⟩
    · rw [hi]
      exact hnext
    · intro j hj
      rw [hi] at hj
      exact absurd hj (Nat.not_lt_zero j)
  · left
    have hnext := Sha3ShakeStream.rel_next (i := hashPins s k) hrel
    have hdone : s.hash.done = false := hrel.2.1
    have htake : (hashPins s k).outputReady = true := rfl
    have hlt : s.index.toNat < 72 := squeeze_lt hrel
    cases hv : Sha3ShakeStream.outputValid s.hash
    · have hemit : Sha3ShakeStream.emits s.hash (hashPins s k) = false := by simp [Sha3ShakeStream.emits, hv]
      have hno : (Sha3ShakeStream.next s.hash (hashPins s k)).done = false := by
        cases hd : (Sha3ShakeStream.next s.hash (hashPins s k)).done
        · rfl
        · have hcount := Sha3ShakeStream.done_next hrel hd
          rw [hemit] at hcount
          exact absurd hcount (Nat.ne_of_lt hlt)
      simp only [Sha3ShakeStream.phaseNext, hno, hemit, Bool.false_eq_true, if_false] at hnext
      simp only [next, hst, hv, hdone, Bool.false_eq_true, if_false]
      exact ⟨rfl, hsecret, hhash, rfl, Or.inr (Or.inl ⟨rfl, hnext, hstored⟩)⟩
    · have hemit : Sha3ShakeStream.emits s.hash (hashPins s k) = true := by
        simp [Sha3ShakeStream.emits, hv, htake]
      have hbyte := (Sha3ShakeStream.emits_eq hrel hemit).2
      have hstored' := hstored.snoc hlt hbyte
      simp only [next, hst, hv, hdone, if_true, Bool.false_eq_true, if_false]
      cases hd : (Sha3ShakeStream.next s.hash (hashPins s k)).done
      · have hstays := Sha3ShakeStream.squeeze_stays hrel hd
        rw [hemit, if_pos rfl] at hstays
        have hlt' : s.index.toNat + 1 < 72 := squeeze_lt hstays
        have hinc := index_succ hlt (by decide)
        rw [← hinc] at hstays hstored'
        have hmore : s.index < 71#7 := by
          rw [BitVec.lt_def, BitVec.toNat_ofNat]
          omega
        simp only [if_pos hmore]
        exact ⟨rfl, hsecret, hhash, rfl, Or.inr (Or.inl ⟨rfl, hstays, hstored'⟩)⟩
      · have hcount := Sha3ShakeStream.done_next hrel hd
        rw [hemit, if_pos rfl] at hcount
        simp only [Sha3ShakeStream.phaseNext, hd, if_true] at hnext
        rw [hcount] at hstored'
        exact ⟨rfl, hsecret, hhash, rfl, Or.inr (Or.inr ⟨rfl, hnext, hd, hstored'⟩)⟩
  · right
    have hnext := Sha3ShakeStream.rel_next (i := hashPins s k) hrel
    rw [Sha3ShakeStream.phaseNext, show (hashPins s k).start = false from hs] at hnext
    have hv : Sha3ShakeStream.outputValid s.hash = false := by
      simp [Sha3ShakeStream.outputValid, hrel.1]
    simp only [next, hst, hv, hdone, Bool.false_eq_true, if_false, if_true]
    exact ⟨⟨rfl, rfl, rfl, hnext⟩, trivial, material_eq hstored⟩

theorem working_next (y : Option KdfIn) (h : Working x s) : Working x (next s y k) ∨
    (Idle (next s y k) ∧ (next s y k).done = true ∧ (next s y k).material = sessionKdf x) := by
  cases hst : s.state with
  | idle =>
    obtain ⟨-, -, -, hstage⟩ := h
    simp only [Stage, hst] at hstage
  | start => exact Or.inl (start_next y h hst)
  | feed => exact Or.inl (feed_next y h hst)
  | final => exact Or.inl (final_next y h hst)
  | collect => exact collect_next y h hst

end Steps

section Unit

variable {κ : Type} (P : StartDone keccakF κ)

/-- The derivation over any permutation unit. -/
def unit : StartDone sessionKdf κ where
  σ := State P
  init := .init P
  next := next
  done s := s.done
  result s := s.material
  idle := Idle
  working := Working
  init_idle := ⟨rfl, rfl, rfl, rfl, rfl, P.init_idle⟩
  init_done := rfl
  idle_wait _ _ h := idle_wait h
  idle_start _ _ _ h := idle_start h
  working_done _ _ h := h.1
  working_next _ _ y _ h := working_next y h

variable {P} (T : P.Timed)

/-- The edges a derivation still takes, at most. -/
def left (s : State P) : ℕ :=
  let weight := T.bound + 5
  match s.state with
  | .idle => 0
  | .start => 151 * weight
  | .feed => (75 - s.index.toNat) * weight + Sha3ShakeStream.absorbLeft T s.hash + s.hashStart.toNat + 75 * weight
  | .final => 75 * weight
  | .collect =>
    if s.hashFinalize then 74 * weight
    else if s.hash.done then 0
    else Sha3ShakeStream.left T s.hash (72 - s.index.toNat) + 1

variable {s : State P} {x : KdfIn} {k : κ}

theorem left_feed (y : Option KdfIn) (h : Working x s) (hst : s.state = .feed) :
    left T (next s y k) < left T s := by
  obtain ⟨-, -, -, hstage⟩ := h
  simp only [Stage, hst] at hstage
  obtain ⟨-, hlt, ⟨hs, hi, hrel⟩ | ⟨hs, hrel⟩⟩ := hstage
  · have hready : Sha3ShakeStream.inputReady s.hash = false := by
      simp [Sha3ShakeStream.inputReady, hrel.1]
    have hstart : (hashPins s k).start = true := hs
    have hzero : Sha3ShakeStream.absorbLeft T s.hash = 0 := by simp [Sha3ShakeStream.absorbLeft, hrel.1]
    have hzero' : Sha3ShakeStream.absorbLeft T (Sha3ShakeStream.next s.hash (hashPins s k)) = 0 := by
      simp [Sha3ShakeStream.absorbLeft, Sha3ShakeStream.next, Sha3ShakeStream.fsm, hrel.1, hstart]
    simp [left, next, hst, hready, hs, hzero, hzero']
  · have hmove := Sha3ShakeStream.absorbLeft_next T (i := hashPins s k) hrel
    have hvalid : (hashPins s k).inputValid = true := by simp [hashPins, hst]
    cases hready : Sha3ShakeStream.inputReady s.hash
    · rcases hmove with ⟨haccept, -⟩ | ⟨-, -, hlower⟩
      · simp [Sha3ShakeStream.accepts, hready] at haccept
      · have hlow := hlower hready
        simp only [left, next, hst, hready, hs, Bool.false_eq_true, if_false, Bool.toNat_false]
        omega
    · rcases hmove with ⟨-, hle⟩ | ⟨haccept, -⟩
      · by_cases hlast : s.index = 74#7
        · have hone : 75 - s.index.toNat = 1 := by rw [hlast]; rfl
          simp only [left, next, hst, hready, hlast, if_true]
          rw [hlast] at hone
          rw [hone]
          omega
        · have hinc := index_succ hlt (by decide)
          have hne : s.index.toNat ≠ 74 := fun h => hlast (BitVec.eq_of_toNat_eq h)
          have hrest : 75 - s.index.toNat = 75 - (s.index + 1#7).toNat + 1 := by omega
          simp only [left, next, hst, hready, if_true, if_neg hlast, hs, Bool.toNat_false]
          rw [hrest, Nat.add_mul, Nat.one_mul]
          omega
      · simp [Sha3ShakeStream.accepts, hready, hvalid] at haccept

theorem left_collect (y : Option KdfIn) (h : Working x s) (hst : s.state = .collect)
    (hw : Working x (next s y k)) : left T (next s y k) < left T s := by
  obtain ⟨-, -, -, hstage⟩ := h
  simp only [Stage, hst] at hstage
  obtain ⟨-, ⟨hf, hi, hrel⟩ | ⟨hf, hrel, -⟩ | ⟨-, -, hdone, -⟩⟩ := hstage
  · have hready := Sha3ShakeStream.absorb_ready hrel (by rw [length_message]; decide)
    have hvalid : (hashPins s k).inputValid = false := by simp [hashPins, hst]
    have hfinal : (hashPins s k).finalize = true := hf
    have hdone : s.hash.done = false := hrel.2.1
    simp [left, next, hst, hf, hi, hdone, Sha3ShakeStream.outputValid, hready, Sha3ShakeStream.next,
      Sha3ShakeStream.fsm, hvalid, hfinal, Sha3ShakeStream.left]
    omega
  · have hdone : s.hash.done = false := hrel.2.1
    have hlt := squeeze_lt hrel
    have hlen : (72#16).toNat = 72 := rfl
    cases hd : (Sha3ShakeStream.next s.hash (hashPins s k)).done
    · have hmove := (Sha3ShakeStream.left_next T hrel hd).resolve_left fun hwait => by
        have htake : (hashPins s k).outputReady = true := rfl
        simp [htake] at hwait
      have hstays := Sha3ShakeStream.squeeze_stays hrel hd
      have hlt' := squeeze_lt hstays
      have htake : (hashPins s k).outputReady = true := rfl
      cases hv : Sha3ShakeStream.outputValid s.hash
      · simp only [Sha3ShakeStream.emits, hv, Bool.false_and, Bool.false_eq_true, if_false, Nat.add_zero] at hmove
        simp only [left, next, hst, hf, hdone, hv, hd, Bool.false_eq_true, if_false]
        exact Nat.succ_lt_succ hmove
      · simp only [Sha3ShakeStream.emits, hv, htake, Bool.and_self, if_true] at hmove hlt'
        have hmore : s.index < 71#7 := by
          rw [BitVec.lt_def, BitVec.toNat_ofNat]
          omega
        have hinc := index_succ hlt (by decide)
        simp only [left, next, hst, hf, hdone, hv, hd, if_true, Bool.false_eq_true, if_false, if_pos hmore, hinc]
        exact Nat.succ_lt_succ hmove
    · cases hv : Sha3ShakeStream.outputValid s.hash <;>
        simp [left, next, hst, hf, hdone, hd, hv]
  · obtain ⟨-, -, -, hidle⟩ := hw
    simp [Stage, next, hst, hdone] at hidle

/-- A derivation over a timed permutation ends. -/
def timed : (unit P).Timed where
  left := left T
  bound := 151 * (T.bound + 5)
  start_le s x k h := by
    have hst : s.state = .idle := h.1
    change left T (next s (some x) k) ≤ _
    simp only [next, hst, left]
    exact le_rfl
  next_lt s x y k h hw := by
    change left T (next s y k) < left T s
    obtain ⟨-, -, -, hstage⟩ := id h
    cases hst : s.state with
    | idle => simp only [Stage, hst] at hstage
    | start =>
      simp only [Stage, hst] at hstage
      obtain ⟨hi, hs, -, hrel⟩ := hstage
      have hstart : (hashPins s k).start = false := hs
      have hzero : Sha3ShakeStream.absorbLeft T (Sha3ShakeStream.next s.hash (hashPins s k)) = 0 := by
        simp [Sha3ShakeStream.absorbLeft, Sha3ShakeStream.next, Sha3ShakeStream.fsm, hrel.1, hstart]
      simp [left, next, hst, hi, hzero]
      omega
    | feed => exact left_feed T y h hst
    | final =>
      simp only [next, hst, left, if_true]
      omega
    | collect => exact left_collect T y h hst hw

end Unit

end SessionKdf

end ZedSecure
