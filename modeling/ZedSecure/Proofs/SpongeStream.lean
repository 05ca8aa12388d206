import ZedSecure.Crypto.SpongeBytes
import ZedSecure.Rtl.Sha3ShakeStream

/-! The byte-wide sponge against FIPS 202. A phase says which bytes went in and how many came
out; every edge moves the phase by what the handshakes show, and the registers always fit it. -/

namespace ZedSecure

open Clocked Fips202 LittleEndian

namespace Sha3ShakeStream

variable {κ : Type} {P : StartDone keccakF κ}

def modeOf (mode : BitVec 2) : Mode :=
  if mode = 0 then .sha3_256 else if mode = 1 then .sha3_512 else if mode = 2 then .shake128 else .shake256

theorem selected_eq : ∀ mode : BitVec 2, (selectedRateBytes mode - 1).toNat + 1 = (modeOf mode).rate ∧
    selectedSuffix mode = (modeOf mode).suffixByte.toBitVec := by
  decide

/-- Where an operation with a mode and an output length is: how much it has taken, or taken whole
and given back. -/
inductive Phase where
  | idle
  | absorb (mode : BitVec 2) (length : BitVec 16) (message : Bytes)
  | squeeze (mode : BitVec 2) (length : BitVec 16) (message : Bytes) (count : ℕ)

/-- The bytes taken so far, as a sponge state and a position. -/
abbrev taken (mode : BitVec 2) (message : Bytes) : BitVec 1600 × ℕ :=
  pushAll (modeOf mode).rate (0, 0) message

/-- The state the output of a message is read from. -/
abbrev final (mode : BitVec 2) (message : Bytes) : BitVec 1600 :=
  finish (modeOf mode) (taken mode message)

/-- The permutation rests. -/
def Quiet (s : State P) : Prop := s.permutationStart = false ∧ P.idle s.permutation

/-- The permutation is on the sponge state. -/
def Permuting (s : State P) : Prop := P.Issued s.spongeState s.permutationStart s.permutation

/-- The registers a start loads. -/
def Loaded (s : State P) (mode : BitVec 2) (length : BitVec 16) : Prop :=
  s.outputLength = length ∧ s.rateLast = selectedRateBytes mode - 1 ∧ s.suffix = selectedSuffix mode

def Rel (s : State P) : Phase → Prop
  | .idle => s.controlState = .idle ∧ Quiet s
  | .absorb mode length message => Loaded s mode length ∧ s.done = false ∧
      match s.controlState with
      | .absorb => Quiet s ∧ (s.spongeState, s.absorbPosition.toNat) = taken mode message
      | .permAbsorb => Permuting s ∧ s.absorbPosition = 0#8 ∧
          (keccakF s.spongeState, s.absorbPosition.toNat) = taken mode message
      | _ => False
  | .squeeze mode length message count => Loaded s mode length ∧ s.done = false ∧
      match s.controlState with
      | .padFinal => Quiet s ∧ count = 0 ∧ s.spongeState =
          (taken mode message).1 ^^^ byteAt (taken mode message).2 (modeOf mode).suffixByte
      | .permFinal => Permuting s ∧ count = 0 ∧ keccakF s.spongeState = final mode message
      | .squeeze => Quiet s ∧ count < length.toNat ∧ s.outputCount.toNat = count ∧
          s.squeezePosition.toNat = count % (modeOf mode).rate ∧
          s.spongeState = keccakF^[count / (modeOf mode).rate] (final mode message)
      | .permSqueeze => Permuting s ∧ count < length.toNat ∧ s.outputCount.toNat = count ∧
          s.squeezePosition.toNat = count % (modeOf mode).rate ∧
          keccakF s.spongeState = keccakF^[count / (modeOf mode).rate] (final mode message)
      | _ => False

/-- A byte goes in. -/
def accepts (s : State P) (i : In κ) : Bool := inputReady s && i.inputValid

/-- A byte goes out. -/
def emits (s : State P) (i : In κ) : Bool := outputValid s && i.outputReady

/-- What an edge does to the phase. -/
def phaseNext (s : State P) (i : In κ) : Phase → Phase
  | .idle => if i.start then .absorb i.mode i.outputLength [] else .idle
  | .absorb mode length message =>
    if accepts s i then .absorb mode length (message ++ [⟨i.inputByte⟩])
    else if inputReady s && i.finalize then .squeeze mode length message 0
    else .absorb mode length message
  | .squeeze mode length message count =>
    if (next s i).done then .idle
    else if emits s i then .squeeze mode length message (count + 1)
    else .squeeze mode length message count

/-- The byte-wide XOR puts one byte at its position. -/
theorem patch_eq (S : BitVec 1600) (p : ℕ) (b : BitVec 8) :
    patch S (8 * p) (slice S (8 * p) 8 ^^^ b) = S ^^^ byteAt p ⟨b⟩ := by
  apply BitVec.eq_of_getLsbD_eq
  intro i hi
  rw [getLsbD_patch _ _ _ _ hi]
  simp only [BitVec.getLsbD_xor]
  rw [getLsbD_byteAt _ hi]
  by_cases hin : i / 8 = p
  · have hmod : i - 8 * p = i % 8 := by omega
    have hplace : 8 * p + i % 8 = i := by omega
    rw [if_pos (by omega), if_pos hin, hmod, getLsbD_slice, hplace]
    simp [Nat.mod_lt]
  · rw [if_neg (by omega), if_neg hin, Bool.xor_false]

section Steps

/-- The edge of the permutation and the falling pulses, without the control state. -/
def frame (s : State P) (i : In κ) : State P :=
  { s with
    permutationStart := false, done := false
    permutation := P.next s.permutation (if s.permutationStart then some s.spongeState else none)
      i.permutation }

variable {s : State P} {i : In κ} {mode : BitVec 2} {length : BitVec 16} {message : Bytes} {count : ℕ}

theorem Quiet.wait (h : Quiet s) : P.idle (frame s i).permutation ∧ P.done (frame s i).permutation = false := by
  obtain ⟨hstart, hidle⟩ := h
  simp only [frame, hstart]
  exact P.idle_wait s.permutation i.permutation hidle

theorem Quiet.rest (h : Quiet s) : Quiet (frame s i) := ⟨rfl, h.wait.1⟩

/-- A start pulse for the permutation, over a resting one. -/
theorem Quiet.issued (h : Quiet s) (x : BitVec 1600) : P.Issued x true (frame s i).permutation :=
  P.issued_of_idle h.wait.1 h.wait.2

/-- The permutation goes on while its operand stays. -/
theorem Permuting.stay (h : Permuting s) (hd : P.done s.permutation = false) :
    Permuting (frame s i) := StartDone.Issued.next h hd i.permutation

/-- The permutation's answer, and rest after it. -/
theorem Permuting.answer (h : Permuting s) (hd : P.done s.permutation = true) :
    P.result s.permutation = keccakF s.spongeState ∧ Quiet s := by
  obtain ⟨hoff, hidle, hres⟩ := StartDone.Issued.answer h hd
  exact ⟨hres, hoff, hidle⟩

/-- `rate_last` is the last place of the rate. -/
theorem Loaded.rateLast (hL : Loaded s mode length) : s.rateLast.toNat + 1 = (modeOf mode).rate := by
  rw [hL.2.1]
  exact (selected_eq mode).1

/-- The position is inside the rate, and tells when the rate is full. -/
theorem Loaded.position (hL : Loaded s mode length) (hpos : s.absorbPosition.toNat = (taken mode message).2) :
    (taken mode message).2 < (modeOf mode).rate ∧
      (s.absorbPosition = s.rateLast ↔ (taken mode message).2 + 1 = (modeOf mode).rate) := by
  have hrate := hL.rateLast
  have hlt : (taken mode message).2 < (modeOf mode).rate := by
    rw [pushAll_pos (by omega)]
    exact Nat.mod_lt _ (by omega)
  refine ⟨hlt, ?_⟩
  rw [← BitVec.toNat_inj, hpos]
  omega

theorem idle_next (h : Rel s .idle) : Rel (next s i) (phaseNext s i .idle) := by
  obtain ⟨hc, hq⟩ := h
  cases hs : i.start
  · have hnext : next s i = frame s i := by simp [next, fsm, frame, hc, hs]
    rw [phaseNext, hs, hnext]
    exact ⟨hc, hq.rest⟩
  · have hnext : next s i = { frame s i with
        spongeState := 0, absorbPosition := 0, squeezePosition := 0, outputCount := 0
        outputLength := i.outputLength, rateLast := selectedRateBytes i.mode - 1
        suffix := selectedSuffix i.mode, controlState := .absorb } := by
      simp [next, fsm, frame, hc, hs]
    rw [phaseNext, hs, hnext]
    exact ⟨⟨rfl, rfl, rfl⟩, rfl, hq.rest, rfl⟩

/-- A byte of the message, into the state or into the permutation with the full rate. -/
theorem absorb_take (hL : Loaded s mode length) (hc : s.controlState = .absorb) (hq : Quiet s)
    (ht : (s.spongeState, s.absorbPosition.toNat) = taken mode message) (hv : i.inputValid = true) :
    Rel (next s i) (.absorb mode length (message ++ [⟨i.inputByte⟩])) := by
  have hS : s.spongeState = (taken mode message).1 := congrArg Prod.fst ht
  have hpos : s.absorbPosition.toNat = (taken mode message).2 := congrArg Prod.snd ht
  obtain ⟨hlt, hlast⟩ := hL.position hpos
  have hbound := (modeOf mode).rate_bounds
  have hpush : taken mode (message ++ [⟨i.inputByte⟩]) =
      push (modeOf mode).rate (taken mode message) ⟨i.inputByte⟩ := pushAll_snoc _ _ _ _
  have hxor : spongeXored s i = (taken mode message).1 ^^^ byteAt (taken mode message).2 ⟨i.inputByte⟩ := by
    rw [← hS, ← hpos, ← patch_eq]
    simp [spongeXored, hc, hv]
  by_cases hfull : s.absorbPosition = s.rateLast
  · have hnext : next s i = { frame s i with
        spongeState := spongeXored s i, permutationStart := true, absorbPosition := 0
        controlState := .permAbsorb } := by
      simp [next, fsm, frame, hc, hv, hfull]
    rw [hnext]
    refine ⟨hL, rfl, hq.issued _, rfl, ?_⟩
    rw [hpush, push, if_pos (hlast.mp hfull), ← hxor]
    rfl
  · have hinc : (s.absorbPosition + 1).toNat = (taken mode message).2 + 1 := by
      rw [BitVec.toNat_add, hpos]
      exact Nat.mod_eq_of_lt (by simp; omega)
    have hnext : next s i = { frame s i with
        spongeState := spongeXored s i, absorbPosition := s.absorbPosition + 1 } := by
      simp [next, fsm, frame, hc, hv, hfull]
    have hc' : (next s i).controlState = .absorb := by rw [hnext]; exact hc
    refine ⟨by rw [hnext]; exact hL, by rw [hnext]; rfl, ?_⟩
    rw [hc', hpush, push, if_neg fun h => hfull (hlast.mpr h), ← hxor, ← hinc, hnext]
    exact ⟨hq.rest, rfl⟩

theorem absorb_next (h : Rel s (.absorb mode length message)) :
    Rel (next s i) (phaseNext s i (.absorb mode length message)) := by
  obtain ⟨hL, hd, hst⟩ := h
  cases hc : s.controlState <;> simp only [hc] at hst
  case absorb =>
    obtain ⟨hq, ht⟩ := hst
    cases hv : i.inputValid
    · cases hf : i.finalize
      · have hnext : next s i = frame s i := by simp [next, fsm, frame, hc, hv, hf]
        have hphase : phaseNext s i (.absorb mode length message) = .absorb mode length message := by
          simp [phaseNext, accepts, hv, hf]
        have hc' : (frame s i).controlState = .absorb := hc
        rw [hphase, hnext]
        refine ⟨hL, rfl, ?_⟩
        rw [hc']
        exact ⟨hq.rest, ht⟩
      · have hS : s.spongeState = (taken mode message).1 := congrArg Prod.fst ht
        have hpos : s.absorbPosition.toNat = (taken mode message).2 := congrArg Prod.snd ht
        have hxor : spongeXored s i = (taken mode message).1 ^^^
            byteAt (taken mode message).2 (modeOf mode).suffixByte := by
          have hsuf : (⟨s.suffix⟩ : UInt8) = (modeOf mode).suffixByte := by
            rw [hL.2.2, (selected_eq mode).2]
          rw [← hS, ← hpos, ← hsuf, ← patch_eq]
          simp [spongeXored, hc, hv]
        have hnext : next s i = { frame s i with
            spongeState := spongeXored s i, controlState := .padFinal } := by
          simp [next, fsm, frame, hc, hv, hf]
        have hphase : phaseNext s i (.absorb mode length message) = .squeeze mode length message 0 := by
          simp [phaseNext, accepts, inputReady, hc, hv, hf]
        rw [hphase, hnext]
        exact ⟨hL, rfl, hq.rest, rfl, hxor⟩
    · have hphase : phaseNext s i (.absorb mode length message) =
          .absorb mode length (message ++ [⟨i.inputByte⟩]) := by
        simp [phaseNext, accepts, inputReady, hc, hv]
      rw [hphase]
      exact absorb_take hL hc hq ht hv
  case permAbsorb =>
    obtain ⟨hp, hzero, ht⟩ := hst
    have hphase : phaseNext s i (.absorb mode length message) = .absorb mode length message := by
      simp [phaseNext, accepts, inputReady, hc]
    rw [hphase]
    cases hdone : P.done s.permutation
    · have hnext : next s i = frame s i := by simp [next, fsm, frame, hc, hdone]
      have hc' : (frame s i).controlState = .permAbsorb := hc
      rw [hnext]
      refine ⟨hL, rfl, ?_⟩
      rw [hc']
      exact ⟨hp.stay hdone, hzero, ht⟩
    · obtain ⟨hres, hq⟩ := hp.answer hdone
      have hnext : next s i = { frame s i with
          spongeState := P.result s.permutation, controlState := .absorb } := by
        simp [next, fsm, frame, hc, hdone]
      rw [hnext]
      refine ⟨hL, rfl, hq.rest, ?_⟩
      rw [← ht, ← hres]
      rfl

/-- The last pad byte, and the permutation of the padded block. -/
theorem padFinal_next (hL : Loaded s mode length) (hc : s.controlState = .padFinal) (hq : Quiet s)
    (hS : s.spongeState = (taken mode message).1 ^^^ byteAt (taken mode message).2 (modeOf mode).suffixByte) :
    Rel (next s i) (.squeeze mode length message 0) := by
  have hrate := hL.rateLast
  have hlast : s.rateLast.toNat = (modeOf mode).rate - 1 := by omega
  have hxor : spongeXored s i = s.spongeState ^^^ byteAt ((modeOf mode).rate - 1) 0x80 := by
    rw [← hlast]
    refine Eq.trans ?_ (patch_eq s.spongeState s.rateLast.toNat 0x80)
    simp [spongeXored, hc]
  have hnext : next s i = { frame s i with
      spongeState := spongeXored s i, permutationStart := true, controlState := .permFinal } := by
    simp [next, fsm, frame, hc]
  rw [hnext]
  refine ⟨hL, rfl, hq.issued _, rfl, ?_⟩
  rw [hxor, hS]
  rfl

theorem permFinal_next (hL : Loaded s mode length) (hc : s.controlState = .permFinal) (hp : Permuting s)
    (hS : keccakF s.spongeState = final mode message) :
    Rel (next s i) (phaseNext s i (.squeeze mode length message 0)) := by
  have hemit : emits s i = false := by simp [emits, outputValid, hc]
  cases hdone : P.done s.permutation
  · have hnext : next s i = frame s i := by simp [next, fsm, frame, hc, hdone]
    have hc' : (frame s i).controlState = .permFinal := hc
    have hphase : phaseNext s i (.squeeze mode length message 0) = .squeeze mode length message 0 := by
      simp [phaseNext, hnext, hemit, frame]
    rw [hphase, hnext]
    refine ⟨hL, rfl, ?_⟩
    rw [hc']
    exact ⟨hp.stay hdone, rfl, hS⟩
  · obtain ⟨hres, hq⟩ := hp.answer hdone
    by_cases hzero : s.outputLength = 0#16
    · have hnext : next s i = { frame s i with
          spongeState := P.result s.permutation, squeezePosition := 0, outputCount := 0
          done := true, controlState := .idle } := by
        simp [next, fsm, frame, hc, hdone, hzero]
      have hphase : phaseNext s i (.squeeze mode length message 0) = .idle := by
        simp [phaseNext, hnext]
      rw [hphase, hnext]
      exact ⟨rfl, hq.rest⟩
    · have hnext : next s i = { frame s i with
          spongeState := P.result s.permutation, squeezePosition := 0, outputCount := 0
          controlState := .squeeze } := by
        simp [next, fsm, frame, hc, hdone, hzero]
      have hphase : phaseNext s i (.squeeze mode length message 0) = .squeeze mode length message 0 := by
        simp [phaseNext, hnext, hemit, frame]
      have hpos : 0 < length.toNat := by
        rw [← hL.1]
        exact Nat.pos_of_ne_zero fun h => hzero (BitVec.eq_of_toNat_eq h)
      rw [hphase, hnext]
      refine ⟨hL, rfl, hq.rest, hpos, rfl, (Nat.zero_mod _).symm, ?_⟩
      rw [Nat.zero_div]
      exact hres.trans hS

/-- The output of one cycle is byte `count` of the output. -/
theorem outputByte_eq (hpos : s.squeezePosition.toNat = count % (modeOf mode).rate)
    (hS : s.spongeState = keccakF^[count / (modeOf mode).rate] (final mode message)) :
    (⟨outputByte s⟩ : UInt8) = outByte (modeOf mode) (final mode message) count := by
  rw [outputByte, hpos, hS]
  rfl

theorem squeeze_next (hL : Loaded s mode length) (hc : s.controlState = .squeeze) (hq : Quiet s)
    (hlt : count < length.toNat) (hcount : s.outputCount.toNat = count)
    (hpos : s.squeezePosition.toNat = count % (modeOf mode).rate)
    (hS : s.spongeState = keccakF^[count / (modeOf mode).rate] (final mode message)) :
    Rel (next s i) (phaseNext s i (.squeeze mode length message count)) := by
  cases hr : i.outputReady
  · have hnext : next s i = frame s i := by simp [next, fsm, frame, hc, hr]
    have hc' : (frame s i).controlState = .squeeze := hc
    have hphase : phaseNext s i (.squeeze mode length message count) = .squeeze mode length message count := by
      simp [phaseNext, hnext, emits, hr, frame]
    rw [hphase, hnext]
    refine ⟨hL, rfl, ?_⟩
    rw [hc']
    exact ⟨hq.rest, hlt, hcount, hpos, hS⟩
  · have hemit : emits s i = true := by simp [emits, outputValid, hc, hr]
    have hlen := length.isLt
    have hinc : (s.outputCount + 1#16).toNat = count + 1 := by
      rw [BitVec.toNat_add, hcount]
      exact Nat.mod_eq_of_lt (by simp; omega)
    have hend : s.outputCount + 1#16 = s.outputLength ↔ count + 1 = length.toNat := by
      rw [← BitVec.toNat_inj, hinc, hL.1]
    by_cases hstop : count + 1 = length.toNat
    · have hnext : next s i = { frame s i with done := true, controlState := .idle } := by
        simp [next, fsm, frame, hc, hr, hend.mpr hstop]
      have hphase : phaseNext s i (.squeeze mode length message count) = .idle := by
        simp [phaseNext, hnext]
      rw [hphase, hnext]
      exact ⟨rfl, hq.rest⟩
    · have hrate := hL.rateLast
      have hbound := (modeOf mode).rate_bounds
      have hmod := Nat.mod_lt count (y := (modeOf mode).rate) (by omega)
      have hsum := Nat.div_add_mod count (modeOf mode).rate
      have hlast : s.squeezePosition = s.rateLast ↔ count % (modeOf mode).rate + 1 = (modeOf mode).rate := by
        rw [← BitVec.toNat_inj, hpos]
        omega
      by_cases hfull : count % (modeOf mode).rate + 1 = (modeOf mode).rate
      · have hnext : next s i = { frame s i with
            permutationStart := true, squeezePosition := 0, outputCount := s.outputCount + 1
            controlState := .permSqueeze } := by
          simp [next, fsm, frame, hc, hr, mt hend.mp hstop, hlast.mpr hfull]
        have hphase : phaseNext s i (.squeeze mode length message count) =
            .squeeze mode length message (count + 1) := by
          simp [phaseNext, hnext, hemit, frame]
        obtain ⟨hdiv, hmod'⟩ := succ_full hfull
        rw [hphase, hnext]
        refine ⟨hL, rfl, hq.issued _, by omega, hinc, hmod'.symm, ?_⟩
        rw [hdiv, Function.iterate_succ_apply', ← hS]
        rfl
      · have hnext : next s i = { frame s i with
            squeezePosition := s.squeezePosition + 1, outputCount := s.outputCount + 1 } := by
          simp [next, fsm, frame, hc, hr, mt hend.mp hstop, mt hlast.mp hfull]
        have hphase : phaseNext s i (.squeeze mode length message count) =
            .squeeze mode length message (count + 1) := by
          simp [phaseNext, hnext, hemit, frame]
        have hc' : (next s i).controlState = .squeeze := by rw [hnext]; exact hc
        have hpos' : (s.squeezePosition + 1).toNat = count % (modeOf mode).rate + 1 := by
          rw [BitVec.toNat_add, hpos]
          exact Nat.mod_eq_of_lt (by simp; omega)
        obtain ⟨hdiv, hmod'⟩ := succ_inside (by omega) hfull
        rw [hphase]
        refine ⟨by rw [hnext]; exact hL, by rw [hnext]; rfl, ?_⟩
        rw [hc', hdiv, hmod', ← hpos', hnext]
        exact ⟨hq.rest, by omega, hinc, rfl, hS⟩

theorem permSqueeze_next (hL : Loaded s mode length) (hc : s.controlState = .permSqueeze)
    (hp : Permuting s) (hlt : count < length.toNat) (hcount : s.outputCount.toNat = count)
    (hpos : s.squeezePosition.toNat = count % (modeOf mode).rate)
    (hS : keccakF s.spongeState = keccakF^[count / (modeOf mode).rate] (final mode message)) :
    Rel (next s i) (phaseNext s i (.squeeze mode length message count)) := by
  have hphase : phaseNext s i (.squeeze mode length message count) = .squeeze mode length message count := by
    cases hdone : P.done s.permutation <;>
      simp [phaseNext, emits, outputValid, next, fsm, hc, hdone]
  rw [hphase]
  cases hdone : P.done s.permutation
  · have hnext : next s i = frame s i := by simp [next, fsm, frame, hc, hdone]
    have hc' : (frame s i).controlState = .permSqueeze := hc
    rw [hnext]
    refine ⟨hL, rfl, ?_⟩
    rw [hc']
    exact ⟨hp.stay hdone, hlt, hcount, hpos, hS⟩
  · obtain ⟨hres, hq⟩ := hp.answer hdone
    have hnext : next s i = { frame s i with
        spongeState := P.result s.permutation, controlState := .squeeze } := by
      simp [next, fsm, frame, hc, hdone]
    rw [hnext]
    exact ⟨hL, rfl, hq.rest, hlt, hcount, hpos, hres.trans hS⟩

/-- Every edge keeps the registers to the phase. -/
theorem rel_next {ph : Phase} (h : Rel s ph) : Rel (next s i) (phaseNext s i ph) := by
  cases ph with
  | idle => exact idle_next h
  | absorb mode length message => exact absorb_next h
  | squeeze mode length message count =>
    obtain ⟨hL, hd, hst⟩ := h
    cases hc : s.controlState <;> simp only [hc] at hst
    case padFinal =>
      obtain ⟨hq, rfl, hS⟩ := hst
      have hphase : phaseNext s i (.squeeze mode length message 0) = .squeeze mode length message 0 := by
        simp [phaseNext, emits, outputValid, next, fsm, hc]
      rw [hphase]
      exact padFinal_next hL hc hq hS
    case permFinal =>
      obtain ⟨hp, rfl, hS⟩ := hst
      exact permFinal_next hL hc hp hS
    case squeeze => exact squeeze_next hL hc hst.1 hst.2.1 hst.2.2.1 hst.2.2.2.1 hst.2.2.2.2
    case permSqueeze => exact permSqueeze_next hL hc hst.1 hst.2.1 hst.2.2.1 hst.2.2.2.1 hst.2.2.2.2

/-- Short of a full rate the sponge takes bytes. -/
theorem absorb_ready (h : Rel s (.absorb mode length message))
    (hpart : message.length % (modeOf mode).rate ≠ 0) : s.controlState = .absorb := by
  obtain ⟨-, -, hst⟩ := h
  cases hc : s.controlState <;> simp only [hc] at hst
  case absorb => rfl
  case permAbsorb =>
    obtain ⟨-, hzero, ht⟩ := hst
    have hpos : s.absorbPosition.toNat = (taken mode message).2 := congrArg Prod.snd ht
    have hrate := (modeOf mode).rate_bounds
    rw [hzero, pushAll_pos (by omega)] at hpos
    exact absurd hpos.symm hpart

end Steps

end Sha3ShakeStream

end ZedSecure
