import ZedSecure.Proofs.KeccakRounds
import ZedSecure.Proofs.SpongeStream

/-! Whole operations of the byte-wide sponge: the bytes it gives back, under any timing of the
handshakes, are the hash of the bytes it took, and one done pulse follows the last of them. -/

namespace ZedSecure

open Clocked Fips202 LittleEndian

namespace Sha3ShakeStream

variable {κ : Type} {P : StartDone keccakF κ}

section Edges

variable {s : State P} {i : In κ} {mode : BitVec 2} {length : BitVec 16} {message : Bytes} {count : ℕ}

/-- A byte that goes out is the next one of the output. -/
theorem emits_eq (h : Rel s (.squeeze mode length message count)) (he : emits s i = true) :
    count < length.toNat ∧
      (⟨outputByte s⟩ : UInt8) = outByte (modeOf mode) (final mode message) count := by
  obtain ⟨-, -, hst⟩ := h
  have hc : s.controlState = .squeeze := by
    simp [emits, outputValid] at he
    exact he.1
  simp only [hc] at hst
  obtain ⟨-, hlt, -, hpos, hS⟩ := hst
  exact ⟨hlt, outputByte_eq hpos hS⟩

/-- The done pulse comes with the last byte out, or at once when there is none. -/
theorem done_next (h : Rel s (.squeeze mode length message count)) (hd : (next s i).done = true) :
    count + (if emits s i then 1 else 0) = length.toNat := by
  obtain ⟨hL, -, hst⟩ := h
  cases hc : s.controlState <;> simp only [hc] at hst
  case padFinal => simp [next, fsm, hc] at hd
  case permFinal =>
    obtain ⟨-, rfl, -⟩ := hst
    have hemit : emits s i = false := by simp [emits, outputValid, hc]
    have hzero : s.outputLength = 0#16 := by
      by_contra hne
      cases hdone : P.done s.permutation <;> simp [next, fsm, hc, hdone, hne] at hd
    rw [hemit, ← hL.1, hzero]
    rfl
  case squeeze =>
    obtain ⟨-, hlt, hcount, -⟩ := hst
    have hlen := length.isLt
    cases hr : i.outputReady
    · simp [next, fsm, hc, hr] at hd
    · have hend : s.outputCount + 1#16 = s.outputLength := by
        by_contra hne
        by_cases hlast : s.squeezePosition = s.rateLast <;> simp [next, fsm, hc, hr, hne, hlast] at hd
      have hemit : emits s i = true := by simp [emits, outputValid, hc, hr]
      rw [hemit, ← hL.1, ← hend, BitVec.toNat_add, hcount]
      exact (Nat.mod_eq_of_lt (by simp; omega)).symm
  case permSqueeze =>
    cases hdone : P.done s.permutation <;> simp [next, fsm, hc, hdone] at hd

theorem idle_done (h : s.controlState = .idle) : (next s i).done = false := by
  cases hs : i.start <;> simp [next, fsm, h, hs]

theorem count_le (h : Rel s (.squeeze mode length message count)) : count ≤ length.toNat := by
  obtain ⟨-, -, hst⟩ := h
  cases hc : s.controlState <;> simp only [hc] at hst
  case padFinal => omega
  case permFinal => omega
  case squeeze => omega
  case permSqueeze => omega

/-- Short of the done pulse the output goes on. -/
theorem squeeze_stays (h : Rel s (.squeeze mode length message count)) (hd : (next s i).done = false) :
    Rel (next s i) (.squeeze mode length message (count + if emits s i then 1 else 0)) := by
  have hnext := rel_next (i := i) h
  cases he : emits s i
  · have hphase : phaseNext s i (.squeeze mode length message count) = .squeeze mode length message count := by
      simp [phaseNext, hd, he]
    rw [hphase] at hnext
    exact hnext
  · have hphase : phaseNext s i (.squeeze mode length message count) =
        .squeeze mode length message (count + 1) := by
      simp [phaseNext, hd, he]
    rw [hphase] at hnext
    exact hnext

variable (T : P.Timed)

/-- The edges until the next byte can go out, at most, and as many for every byte after it. -/
def left (s : State P) (rest : ℕ) : ℕ :=
  rest * (T.bound + 5) + match s.controlState with
    | .padFinal => T.bound + 4
    | .permFinal | .permSqueeze => T.togo s.permutationStart s.permutation + 1
    | _ => 0

/-- An edge that does not wait for the receiver comes closer to the end. -/
theorem left_next (h : Rel s (.squeeze mode length message count)) (hd : (next s i).done = false) :
    (s.controlState = .squeeze ∧ i.outputReady = false) ∨
      left T (next s i) (length.toNat - (count + if emits s i then 1 else 0)) <
        left T s (length.toNat - count) := by
  have hle := count_le h
  obtain ⟨hL, -, hst⟩ := h
  cases hc : s.controlState <;> simp only [hc] at hst
  case padFinal =>
    right
    simp [left, next, fsm, hc, emits, outputValid, StartDone.Timed.togo]
  case permFinal =>
    right
    obtain ⟨hp, -, -⟩ := hst
    cases hdone : P.done s.permutation
    · have hlt := T.togo_lt hp hdone i.permutation
      simp [left, next, fsm, hc, hdone, emits, outputValid, hlt]
    · have hne : ¬ s.outputLength = 0#16 := by
        intro hzero
        simp [next, fsm, hc, hdone, hzero] at hd
      simp [left, next, fsm, hc, hdone, hne, emits, outputValid]
  case squeeze =>
    obtain ⟨-, hlt, -⟩ := hst
    cases hr : i.outputReady
    · exact Or.inl ⟨rfl, rfl⟩
    · right
      have hemit : emits s i = true := by simp [emits, outputValid, hc, hr]
      have hne : ¬ s.outputCount + 1#16 = s.outputLength := by
        intro hend
        simp [next, fsm, hc, hr, hend] at hd
      have hrest : length.toNat - count = length.toNat - (count + 1) + 1 := by omega
      rw [hemit, hrest, left, left, hc, Nat.add_mul, Nat.one_mul]
      by_cases hlast : s.squeezePosition = s.rateLast <;>
        simp [next, fsm, hc, hr, hne, hlast, StartDone.Timed.togo]
  case permSqueeze =>
    right
    obtain ⟨hp, -⟩ := hst
    cases hdone : P.done s.permutation
    · have hlt := T.togo_lt hp hdone i.permutation
      simp [left, next, fsm, hc, hdone, emits, outputValid, hlt]
    · simp [left, next, fsm, hc, hdone, emits, outputValid]

/-- The edges until the next byte can go in, at most. -/
def absorbLeft (s : State P) : ℕ :=
  if s.controlState = .permAbsorb then T.togo s.permutationStart s.permutation + 1 else 0

/-- A permutation that holds the message up comes closer to its end. -/
theorem absorbLeft_next (h : Rel s (.absorb mode length message)) :
    (accepts s i = true ∧ absorbLeft T (next s i) ≤ T.bound + 3) ∨
      (accepts s i = false ∧ absorbLeft T (next s i) ≤ absorbLeft T s ∧
        (inputReady s = false → absorbLeft T (next s i) < absorbLeft T s)) := by
  obtain ⟨-, -, hst⟩ := h
  cases hc : s.controlState <;> simp only [hc] at hst
  case absorb =>
    cases hv : i.inputValid
    · right
      cases hf : i.finalize <;> simp [absorbLeft, accepts, inputReady, next, fsm, hc, hv, hf]
    · left
      by_cases hfull : s.absorbPosition = s.rateLast <;>
        simp [absorbLeft, accepts, inputReady, next, fsm, hc, hv, hfull, StartDone.Timed.togo]
  case permAbsorb =>
    right
    obtain ⟨hp, -⟩ := hst
    cases hdone : P.done s.permutation
    · have hlt := T.togo_lt hp hdone i.permutation
      simp [absorbLeft, accepts, inputReady, next, fsm, hc, hdone, hlt, hlt.le]
    · simp [absorbLeft, accepts, inputReady, next, fsm, hc, hdone]

end Edges

section Runs

variable (P) in
/-- The bytes taken and given back before cycle `n`. -/
def accepted (s : State P) (ins : ℕ → In κ) : ℕ → Bytes :=
  (design P).gather (fun s i => if accepts s i then [⟨i.inputByte⟩] else []) s ins

variable (P) in
def emitted (s : State P) (ins : ℕ → In κ) : ℕ → Bytes :=
  (design P).gather (fun s i => if emits s i then [⟨outputByte s⟩] else []) s ins

variable {s : State P} {ins : ℕ → In κ} {mode : BitVec 2} {length : BitVec 16} {message : Bytes}

theorem accepted_succ (t : ℕ) : accepted P s ins (t + 1) = accepted P s ins t ++
    if accepts ((design P).stream s ins t) (ins t) then [⟨(ins t).inputByte⟩] else [] := rfl

theorem emitted_succ (t : ℕ) : emitted P s ins (t + 1) = emitted P s ins t ++
    if emits ((design P).stream s ins t) (ins t) then [⟨outputByte ((design P).stream s ins t)⟩]
    else [] := rfl

/-- Until the message ends, the sponge holds what it has taken, and gives nothing. -/
theorem absorb_run (h : Rel s (.absorb mode length [])) {f : ℕ} (honce : ∀ t < f, (ins t).finalize = false)
    {t : ℕ} (ht : t ≤ f) : Rel ((design P).stream s ins t) (.absorb mode length (accepted P s ins t)) ∧
      emitted P s ins t = [] := by
  induction t with
  | zero => exact ⟨h, rfl⟩
  | succ t ih =>
    obtain ⟨hrel, hout⟩ := ih (by omega)
    have hfin := honce t (by omega)
    have hnext := rel_next (i := ins t) hrel
    have hno : emits ((design P).stream s ins t) (ins t) = false := by
      obtain ⟨-, -, hst⟩ := hrel
      cases hc : ((design P).stream s ins t).controlState <;> simp only [hc] at hst <;>
        simp [emits, outputValid, hc]
    refine ⟨?_, by rw [emitted_succ, hout, hno]; rfl⟩
    rw [accepted_succ]
    cases ha : accepts ((design P).stream s ins t) (ins t)
    · simp only [phaseNext, ha, hfin, Bool.and_false, Bool.false_eq_true, if_false] at hnext
      rw [if_neg (by decide), List.append_nil]
      exact hnext
    · simp only [phaseNext, ha, if_true] at hnext
      exact hnext

/-- What the whole message gives. -/
def outputs (mode : BitVec 2) (message : Bytes) (n : ℕ) : Bytes :=
  (List.range n).map (outByte (modeOf mode) (final mode message))

theorem outputs_succ (mode : BitVec 2) (message : Bytes) (n : ℕ) : outputs mode message (n + 1) =
    outputs mode message n ++ [outByte (modeOf mode) (final mode message) n] := by
  rw [outputs, List.range_succ, List.map_append]
  rfl

/-- What an edge of the output adds to it. -/
theorem outputs_edge {t count : ℕ}
    (hrel : Rel ((design P).stream s ins t) (.squeeze mode length message count))
    (hout : emitted P s ins t = outputs mode message count) : emitted P s ins (t + 1) =
      outputs mode message (count + if emits ((design P).stream s ins t) (ins t) then 1 else 0) := by
  rw [emitted_succ, hout]
  split_ifs with he
  · rw [outputs_succ, (emits_eq hrel he).2]
  · rw [List.append_nil, Nat.add_zero]

/-- After the message, the bytes come in order until the done pulse. -/
theorem squeeze_run {a : ℕ} (h : Rel ((design P).stream s ins a) (.squeeze mode length message 0))
    (hempty : emitted P s ins a = []) {t : ℕ} (hat : a ≤ t)
    (hd : ∀ i, a < i → i ≤ t → ((design P).stream s ins i).done = false) :
    ∃ count ≤ length.toNat, Rel ((design P).stream s ins t) (.squeeze mode length message count) ∧
      emitted P s ins t = outputs mode message count := by
  induction t, hat using Nat.le_induction with
  | base => exact ⟨0, Nat.zero_le _, h, hempty⟩
  | succ t hat ih =>
    obtain ⟨count, -, hrel, hout⟩ := ih fun i hi hit => hd i hi (by omega)
    have hnext := squeeze_stays hrel (hd (t + 1) (by omega) le_rfl)
    exact ⟨_, count_le hnext, hnext, outputs_edge hrel hout⟩

/-- A byte the receiver does not take keeps showing. -/
theorem wait_run {a d count : ℕ}
    (h : Rel ((design P).stream s ins a) (.squeeze mode length message count))
    (hc : ((design P).stream s ins a).controlState = .squeeze)
    (hwait : ∀ i, a ≤ i → i < a + d → (ins i).outputReady = false) :
    Rel ((design P).stream s ins (a + d)) (.squeeze mode length message count) ∧
      ((design P).stream s ins (a + d)).controlState = .squeeze := by
  induction d with
  | zero => exact ⟨h, hc⟩
  | succ d ih =>
    obtain ⟨hrel, hcd⟩ := ih fun i hi hid => hwait i hi (by omega)
    have hr := hwait (a + d) (by omega) (by omega)
    have hnext : (design P).stream s ins (a + (d + 1)) =
        next ((design P).stream s ins (a + d)) (ins (a + d)) := rfl
    have hdone : (next ((design P).stream s ins (a + d)) (ins (a + d))).done = false := by
      simp [next, fsm, hcd, hr]
    have hstay := squeeze_stays hrel hdone
    have hno : emits ((design P).stream s ins (a + d)) (ins (a + d)) = false := by simp [emits, hr]
    rw [hno] at hstay
    rw [hnext]
    exact ⟨hstay, by simp [next, fsm, hcd, hr]⟩

/-- With a receiver that keeps coming back the done pulse comes. -/
theorem done_comes (T : P.Timed) (hready : ∀ k, ∃ j ≥ k, (ins j).outputReady = true) {a count : ℕ}
    (h : Rel ((design P).stream s ins a) (.squeeze mode length message count)) :
    ∃ t > a, ((design P).stream s ins t).done = true := by
  generalize hm : left T ((design P).stream s ins a) (length.toNat - count) = m
  induction m using Nat.strong_induction_on generalizing a count with
  | _ m ih =>
    -- an edge that does not wait for the receiver
    have hmove : ∀ b, Rel ((design P).stream s ins b) (.squeeze mode length message count) →
        left T ((design P).stream s ins b) (length.toNat - count) = m →
        ¬ (((design P).stream s ins b).controlState = .squeeze ∧ (ins b).outputReady = false) →
        ∃ t > b, ((design P).stream s ins t).done = true := by
      intro b hrel hleft hgo
      cases hd : (next ((design P).stream s ins b) (ins b)).done
      · rcases left_next T hrel hd with hwait | hlt
        · exact absurd hwait hgo
        · rw [hleft] at hlt
          obtain ⟨t, hbt, hdone⟩ := ih _ hlt (a := b + 1) (squeeze_stays hrel hd) rfl
          exact ⟨t, by omega, hdone⟩
      · exact ⟨b + 1, by omega, hd⟩
    by_cases hc : ((design P).stream s ins a).controlState = .squeeze
    · -- the receiver comes back at the first ready cycle
      have hex : ∃ d, (ins (a + d)).outputReady = true := by
        obtain ⟨j, hj, hr⟩ := hready a
        obtain ⟨d, rfl⟩ := Nat.exists_eq_add_of_le hj
        exact ⟨d, hr⟩
      have hbefore : ∀ i, a ≤ i → i < a + Nat.find hex → (ins i).outputReady = false := by
        intro i hi hlt
        obtain ⟨d, rfl⟩ := Nat.exists_eq_add_of_le hi
        simpa using Nat.find_min hex (by omega : d < Nat.find hex)
      obtain ⟨hrel, hcd⟩ := wait_run h hc hbefore
      have hsame : left T ((design P).stream s ins (a + Nat.find hex)) (length.toNat - count) = m := by
        rw [← hm, left, left, hcd, hc]
      obtain ⟨t, ht, hdone⟩ := hmove _ hrel hsame fun hw => by simp [Nat.find_spec hex] at hw
      exact ⟨t, by omega, hdone⟩
    · exact hmove a h hm fun hw => hc hw.1

/-- An idle sponge rests until the next start. -/
theorem idle_run {a : ℕ} (h : Rel ((design P).stream s ins a) .idle) {t : ℕ} (hat : a ≤ t)
    (hstart : ∀ i, a ≤ i → i < t → (ins i).start = false) :
    Rel ((design P).stream s ins t) .idle ∧ emitted P s ins t = emitted P s ins a ∧
      (a < t → ((design P).stream s ins t).done = false) := by
  induction t, hat using Nat.le_induction with
  | base => exact ⟨h, rfl, fun hlt => absurd hlt (lt_irrefl a)⟩
  | succ t hat ih =>
    obtain ⟨hrel, hout, -⟩ := ih fun i hi hit => hstart i hi (by omega)
    have hnext := rel_next (i := ins t) hrel
    rw [phaseNext, hstart t hat (by omega)] at hnext
    have hno : emits ((design P).stream s ins t) (ins t) = false := by
      simp [emits, outputValid, hrel.1]
    exact ⟨hnext, by rw [emitted_succ, hno, if_neg (by decide), List.append_nil, hout],
      fun _ => idle_done hrel.1⟩

/-- Whatever ran before, the registers of an idle sponge fit the idle phase. -/
theorem rel_idle (hs : (design P).Reachable s) (hidle : s.controlState = .idle) : Rel s .idle := by
  have hany : ∃ ph, Rel s ph := by
    refine (design P).reachable_induct (P := fun s => ∃ ph, Rel s ph) (fun _ => ?_) (fun s i h => ?_) hs
    · exact ⟨.idle, rfl, rfl, P.init_idle⟩
    · obtain ⟨ph, hrel⟩ := h
      exact ⟨_, rel_next hrel⟩
  obtain ⟨ph, hrel⟩ := hany
  cases ph with
  | idle => exact hrel
  | absorb mode length message =>
    obtain ⟨-, -, hst⟩ := hrel
    simp [hidle] at hst
  | squeeze mode length message count =>
    obtain ⟨-, -, hst⟩ := hrel
    simp [hidle] at hst

/-- The cycle of a run in which the message ends: the sponge takes bytes and none is offered. -/
structure Ends (s : State P) (ins : ℕ → In κ) (f : ℕ) : Prop where
  ready : inputReady ((design P).stream s ins f) = true
  quiet : (ins f).inputValid = false
  finalize : (ins f).finalize = true
  once : ∀ t < f, (ins t).finalize = false

theorem Ends.squeeze {f : ℕ} (h : Rel s (.absorb mode length [])) (he : Ends s ins f) :
    Rel ((design P).stream s ins (f + 1)) (.squeeze mode length (accepted P s ins f) 0) ∧
      emitted P s ins (f + 1) = [] ∧ ∀ t ≤ f + 1, ((design P).stream s ins t).done = false := by
  obtain ⟨hrel, hout⟩ := absorb_run h he.once le_rfl
  have hnext := rel_next (i := ins f) hrel
  have htake : accepts ((design P).stream s ins f) (ins f) = false := by simp [accepts, he.quiet]
  have hno : emits ((design P).stream s ins f) (ins f) = false := by
    have hr := he.ready
    simp [inputReady] at hr
    simp [emits, outputValid, hr]
  simp only [phaseNext, htake, he.ready, he.finalize, Bool.false_eq_true, if_false, Bool.and_self, if_true]
    at hnext
  refine ⟨hnext, by rw [emitted_succ, hno, hout]; rfl, fun t ht => ?_⟩
  rcases Nat.lt_or_ge f t with hlt | hge
  · have heq : t = f + 1 := by omega
    rw [heq]
    exact hnext.2.1
  · exact (absorb_run h he.once hge).1.2.1

/-- The run gives back `out` byte by byte, pulses done once when all of it is out, and rests. -/
structure Gives (s : State P) (ins : ℕ → In κ) (f : ℕ) (out : Bytes) : Prop where
  prefixes : ∀ t, (∀ i ≤ t, ((design P).stream s ins i).done = false) → emitted P s ins t <+: out
  whole : ∀ t, (∀ i < t, ((design P).stream s ins i).done = false) →
    ((design P).stream s ins t).done = true → f < t ∧ emitted P s ins t = out
  after : ∀ t, ((design P).stream s ins t).done = true → (∀ i < t, ((design P).stream s ins i).done = false) →
    ∀ j > t, (∀ i, t ≤ i → i < j → (ins i).start = false) →
      ((design P).stream s ins j).done = false ∧ emitted P s ins j = out
  done : (∀ k, ∃ j ≥ k, (ins j).outputReady = true) →
    ∃ t, ((design P).stream s ins t).done = true ∧ ∀ i < t, ((design P).stream s ins i).done = false

theorem outputs_prefix {m n : ℕ} (h : m ≤ n) : outputs mode message m <+: outputs mode message n := by
  obtain ⟨d, rfl⟩ := Nat.exists_eq_add_of_le h
  rw [outputs, outputs, List.range_add, List.map_append]
  exact List.prefix_append _ _

theorem gives_hash (T : P.Timed) (h : Rel s (.absorb mode length [])) {f : ℕ} (he : Ends s ins f) :
    Gives s ins f (hash (modeOf mode) (accepted P s ins f) length.toNat) := by
  obtain ⟨hrel, hempty, hquiet⟩ := he.squeeze h
  have hout : hash (modeOf mode) (accepted P s ins f) length.toNat =
      outputs mode (accepted P s ins f) length.toNat := hash_eq _ _ _
  have hwhole : ∀ t, (∀ i < t, ((design P).stream s ins i).done = false) →
      ((design P).stream s ins t).done = true →
      f < t ∧ emitted P s ins t = outputs mode (accepted P s ins f) length.toNat ∧
        Rel ((design P).stream s ins t) .idle := by
    intro t hbefore hd
    have hft : f + 1 < t := by
      by_contra hle
      rw [hquiet t (by omega)] at hd
      exact absurd hd (by decide)
    obtain ⟨t, rfl⟩ : ∃ u, t = u + 1 := ⟨t - 1, by omega⟩
    obtain ⟨count, -, hr, ho⟩ := squeeze_run hrel hempty (t := t) (by omega) fun i _ hi => hbefore i (by omega)
    have hnext := rel_next (i := ins t) hr
    have hd' : (next ((design P).stream s ins t) (ins t)).done = true := hd
    rw [phaseNext, if_pos hd'] at hnext
    exact ⟨by omega, by rw [outputs_edge hr ho, done_next hr hd'], hnext⟩
  rw [hout]
  constructor
  · intro t hd
    rcases Nat.lt_or_ge f t with hlt | hge
    · obtain ⟨count, hle, -, ho⟩ := squeeze_run hrel hempty (t := t) (by omega) fun i _ hi => hd i hi
      rw [ho]
      exact outputs_prefix hle
    · rw [(absorb_run h he.once hge).2]
      exact List.nil_prefix
  · intro t hbefore hd
    obtain ⟨hlt, ho, -⟩ := hwhole t hbefore hd
    exact ⟨hlt, ho⟩
  · intro t hd hbefore j hj hstart
    obtain ⟨-, ho, hr⟩ := hwhole t hbefore hd
    obtain ⟨-, hsame, hlow⟩ := idle_run hr (Nat.le_of_lt hj) hstart
    exact ⟨hlow hj, hsame.trans ho⟩
  · intro hready
    have hex : ∃ t, ((design P).stream s ins t).done = true := by
      obtain ⟨t, -, hd⟩ := done_comes T hready hrel
      exact ⟨t, hd⟩
    exact ⟨Nat.find hex, Nat.find_spec hex, fun i hi => by simpa using Nat.find_min hex hi⟩

/-- The sponge over the permutation unit is FIPS 202: an operation started on the idle unit gives
the first bytes of the hash of what it took, and the unit inside answers with Keccak-f. -/
theorem sponge_hash {s : State KeccakF1600.unit} (hs : (design KeccakF1600.unit).Reachable s)
    (hidle : s.controlState = .idle) {first : In Unit} (hstart : first.start = true) {ins : ℕ → In Unit}
    {f : ℕ} (he : Ends (next s first) ins f) :
    Gives (next s first) ins f (hash (modeOf first.mode)
        (accepted KeccakF1600.unit (next s first) ins f) first.outputLength.toNat) ∧
      ∀ (u : KeccakF1600.State) (x : BitVec 1600) (later : ℕ → Option (BitVec 1600) × Unit),
        u.busy = false → ∃ n ≤ 24,
          (KeccakF1600.unit.after (KeccakF1600.next u (some x)) later n).done = true ∧
            (KeccakF1600.unit.after (KeccakF1600.next u (some x)) later n).stateO = keccakF x := by
  refine ⟨gives_hash KeccakF1600.timed ?_ he, fun u x later hu => ?_⟩
  · have hnext := rel_next (i := first) (rel_idle hs hidle)
    rw [phaseNext, if_pos hstart] at hnext
    exact hnext
  · obtain ⟨hw, -⟩ := KeccakF1600.unit.idle_start u x () hu
    obtain ⟨n, hn, -, -, hdone, hres⟩ := KeccakF1600.timed.answers hw later
    have hle := KeccakF1600.timed.start_le u x () hu
    exact ⟨n, hn.trans (Nat.succ_le_succ hle), hdone, hres⟩

/-- The pins of a cycle that only ends the message. -/
def endPins : In Unit := ⟨false, 0, 0, 0, false, true, true, ()⟩

theorem sponge_hash_empty :
    Gives (next (.init KeccakF1600.unit) { endPins with start := true, outputLength := 32 })
      (fun _ => endPins) 0 (hash .sha3_256 [] 32) :=
  (@sponge_hash (.init KeccakF1600.unit) ⟨.init _, [], rfl⟩ rfl
    { endPins with start := true, outputLength := 32 } rfl (fun _ => endPins) 0
    ⟨rfl, rfl, rfl, fun _ h => absurd h (Nat.not_lt_zero _)⟩).1

end Runs

end Sha3ShakeStream

end ZedSecure
