import ZedSecure.Firmware.AeadHw
import ZedSecure.Proofs.TrafficRuns

/-! The driver of the traffic port: under any timing of its accesses a call hands over the request
its arguments describe, and returns the session table's answer to it. -/

namespace ZedSecure

open Clocked LittleEndian SessionManager SessionTable

variable {n : ℕ} {aead : EngineIn → EngineOut} {κ : Type} {E : StartDone aead κ}

namespace AeadHw

open TrafficPort

section Registers

variable {p : TrafficPort.State n E} {T : Slots n} {q : Request n} {k : κ}

/-- The operand registers of the port. -/
structure Regs (n : ℕ) where
  slot : BitVec (slotWidth n)
  length : BitVec 8
  counter : BitVec 64
  data : ℕ → BitVec 32
  tag : ℕ → BitVec 32

def regs (f : TrafficFrontend.State n) : Regs n :=
  ⟨f.slotReg, f.lengthReg, f.counterReg, f.inputData, f.inputTag⟩

/-- The request a START makes of the registers. -/
def Regs.request (g : Regs n) (decrypt : Bool) : Request n :=
  ⟨g.slot, decrypt, g.length, g.counter, TrafficFrontend.packWords 16 g.data, TrafficFrontend.packWords 4 g.tag⟩

/-- The registers after a write of a whole word. -/
def Regs.written (g : Regs n) (offset : BitVec 9) (value : BitVec 32) : Regs n :=
  if offset = TrafficFrontend.REG_CONTROL then g
  else if offset = TrafficFrontend.REG_SLOT then { g with slot := value.setWidth _ }
  else if offset = TrafficFrontend.REG_LENGTH then { g with length := value.setWidth 8 }
  else if offset = TrafficFrontend.REG_COUNTER_LO then { g with counter := patch g.counter 0 value }
  else if offset = TrafficFrontend.REG_COUNTER_HI then { g with counter := patch g.counter 32 value }
  else
    { g with
      data := fun k => if k < 16 ∧ offset = TrafficFrontend.wordReg TrafficFrontend.REG_INPUT_DATA k then value
        else g.data k
      tag := fun k => if k < 4 ∧ offset = TrafficFrontend.wordReg TrafficFrontend.REG_INPUT_TAG k then value
        else g.tag k }

theorem mergeBytes_full (old new : BitVec 32) : mergeBytes old new 0xf = new := by
  apply BitVec.eq_of_getLsbD_eq
  intro i hi
  have h4 : List.range 4 = [0, 1, 2, 3] := rfl
  simp only [mergeBytes, h4, List.foldl_cons, List.foldl_nil]
  simp [getLsbD_patch _ _ _ _ hi, getLsbD_slice]
  split_ifs with h3 h2 h1 h0
  · simp [show 24 + (i - 24) = i by omega, show i - 24 < 8 by omega]
  · simp [show 16 + (i - 16) = i by omega, show i - 16 < 8 by omega]
  · simp [show 8 + (i - 8) = i by omega, show i - 8 < 8 by omega]
  · simp [h0]
  · omega

/-- The port with a write held at its edge. -/
def held (f : TrafficFrontend.State n) (offset : BitVec 9) (value : BitVec 32) : TrafficFrontend.State n :=
  { f with awaddrQ := offset, wdataQ := value, wstrbQ := 0xf, writeCommit := true }

theorem next_held {f : TrafficFrontend.State n} {c : TrafficFrontend.CoreOut n} (ha : f.awHold = false)
    (hp : f.pending = false) (hi : f.inflight = false) (offset : BitVec 9) (value : BitVec 32) :
    TrafficFrontend.next (held f offset value) rest c = TrafficFrontend.commit (held f offset value)
      { held f offset value with writeCommit := false } := by
  simp [TrafficFrontend.next, rest, held, ha, hp, hi]

/-- A write that starts nothing moves the operand registers. -/
theorem commit_held {f : TrafficFrontend.State n} (hc : f.awHold = false) (hp : f.pending = false)
    (hi : f.inflight = false) {offset : BitVec 9} {value : BitVec 32}
    (hno : offset = TrafficFrontend.REG_CONTROL → value.getLsbD 0 = false) :
    let f' := TrafficFrontend.commit (held f offset value) { held f offset value with writeCommit := false }
    (f'.awHold = false ∧ f'.writeCommit = false) ∧ f'.pending = false ∧ f'.inflight = false ∧
      regs f' = (regs f).written offset value := by
  intro f'
  by_cases hctl : offset = TrafficFrontend.REG_CONTROL
  · have hzero := hno hctl
    simp only [f', TrafficFrontend.commit, held, hctl, hzero, if_true, Bool.and_false, Bool.false_and,
      Bool.false_eq_true, if_false, regs, Regs.written]
    split_ifs <;> simp [hc, hp, hi]
  · by_cases h1 : offset = TrafficFrontend.REG_SLOT
    · simp only [f', TrafficFrontend.commit, held, hctl, if_pos h1, if_false, regs, Regs.written, mergeBytes_full]
      exact ⟨⟨hc, trivial⟩, hp, hi, trivial⟩
    by_cases h2 : offset = TrafficFrontend.REG_LENGTH
    · simp only [f', TrafficFrontend.commit, held, hctl, if_neg h1, if_pos h2, if_false, regs, Regs.written,
        mergeBytes_full]
      exact ⟨⟨hc, trivial⟩, hp, hi, trivial⟩
    by_cases h3 : offset = TrafficFrontend.REG_COUNTER_LO
    · simp only [f', TrafficFrontend.commit, held, hctl, if_neg h1, if_neg h2, if_pos h3, if_false, regs,
        Regs.written, mergeBytes_full]
      exact ⟨⟨hc, trivial⟩, hp, hi, trivial⟩
    by_cases h4 : offset = TrafficFrontend.REG_COUNTER_HI
    · simp only [f', TrafficFrontend.commit, held, hctl, if_neg h1, if_neg h2, if_neg h3, if_pos h4, if_false,
        regs, Regs.written, mergeBytes_full]
      exact ⟨⟨hc, trivial⟩, hp, hi, trivial⟩
    · simp only [f', TrafficFrontend.commit, held, hctl, if_neg h1, if_neg h2, if_neg h3, if_neg h4, if_false,
        regs, Regs.written, mergeBytes_full]
      exact ⟨⟨hc, trivial⟩, hp, hi, trivial⟩

theorem write_quiet (h : Quiet p T) {offset : BitVec 9} {value : BitVec 32}
    (hno : offset = TrafficFrontend.REG_CONTROL → value.getLsbD 0 = false) :
    Quiet (TrafficPort.write p offset value k) T ∧
      regs (TrafficPort.write p offset value k).front = (regs p.front).written offset value := by
  obtain ⟨hclear, hpend, hin, hregs⟩ := commit_held h.clear.1 h.pending h.inflight hno
  have hfront : (TrafficPort.write p offset value k).front = _ :=
    next_held (c := coreOut { p with front := held p.front offset value } k) h.clear.1 h.pending h.inflight
      offset value
  obtain ⟨hidle, hrel⟩ := sessions_rest (p := { p with front := held p.front offset value }) (k := k)
    h.pending h.idle h.rel
  rw [← hfront] at hclear hpend hin hregs
  exact ⟨⟨hclear, hpend, hin, hidle, hrel⟩, hregs⟩

/-- START hands over the registers. -/
theorem write_start (h : Quiet p T) {value : BitVec 32} (hgo : value.getLsbD 0 = true)
    (hkeep : value.getLsbD 8 = false) :
    Working (TrafficPort.write p TrafficFrontend.REG_CONTROL value k) T
        ((regs p.front).request (value.getLsbD 1)) ∧
      (TrafficPort.write p TrafficFrontend.REG_CONTROL value k).front.pending = true := by
  have hfront : (TrafficPort.write p TrafficFrontend.REG_CONTROL value k).front = _ :=
    next_held (c := coreOut { p with front := held p.front TrafficFrontend.REG_CONTROL value } k) h.clear.1
      h.pending h.inflight TrafficFrontend.REG_CONTROL value
  obtain ⟨hidle, hrel⟩ := sessions_rest
    (p := { p with front := held p.front TrafficFrontend.REG_CONTROL value }) (k := k) h.pending h.idle h.rel
  have hlane : ∀ j < 4, (0xf : BitVec 4).getLsbD j = true := by decide
  simp only [TrafficFrontend.commit, held, if_true, hlane 0 (by decide), hlane 1 (by decide), hgo, hkeep,
    h.pending, h.inflight, Bool.and_true, Bool.and_false, Bool.not_false, Bool.false_eq_true, if_false] at hfront
  refine ⟨⟨?_, ?_, ?_, ?_⟩, ?_⟩
  · rw [Clear, hfront]
    exact ⟨h.clear.1, rfl⟩
  · rw [hfront]
  · rw [hfront]
  · exact Or.inl ⟨by rw [hfront], by rw [hfront]; rfl, hidle, hrel⟩
  · rw [hfront]

end Registers

section Packing

theorem store32Le_eq (v : BitVec 32) : store32Le v = lanes (k := 4) v := by
  simp only [store32Le, lanes, bytes, List.cons.injEq, and_true]
  refine ⟨?_, ?_, ?_, ?_⟩ <;> apply UInt8.toNat_inj.mp <;>
    simp [Nat.shiftRight_eq_div_pow, Nat.div_div_eq_div_mul, UInt8.toNat_ofNat']

theorem lanes_load32Le (bs : Bytes) :
    lanes (k := 4) (load32Le bs) = (List.range 4).map fun j => bs.getD j 0 := by
  have hbyte : ∀ j < 4, slice (load32Le bs) (8 * j) 8 = (bs.getD j 0).toBitVec := by
    intro j hj
    apply BitVec.eq_of_getLsbD_eq
    intro i hi
    rw [getLsbD_slice]
    interval_cases j <;>
      simp (disch := omega) [load32Le, -List.getD_eq_getElem?_getD, hi, BitVec.getLsbD_of_ge] <;> grind
  have hlane : ∀ j < 4, lanes (k := 1) (slice (load32Le bs) (8 * (1 * j)) (8 * 1)) = [bs.getD j 0] := by
    intro j hj
    have hj := hbyte j hj
    rw [Nat.one_mul]
    exact (lanes_byte _).trans (by rw [hj])
  rw [lanes_words (w := 1) (m := 4)]
  simp only [show List.range 4 = [0, 1, 2, 3] from rfl, List.flatMap_cons, List.flatMap_nil, List.map_cons,
    List.map_nil]
  rw [hlane 0 (by decide), hlane 1 (by decide), hlane 2 (by decide), hlane 3 (by decide)]
  rfl

/-- The message with zeros behind it, as the 64 bytes of a packet. -/
def padded (message : Bytes) (messageLength : ℕ) : Bytes :=
  (List.range 64).map fun i => if i < messageLength then message.getD i 0 else 0

theorem length_padded (message : Bytes) (messageLength : ℕ) : (padded message messageLength).length = 64 := by
  simp [padded]

theorem padded_eq {message : Bytes} (h : message.length ≤ 64) :
    padded message message.length = message ++ List.replicate (64 - message.length) 0 := by
  apply List.ext_getElem
  · simp [padded]
    omega
  · intro i hi hi'
    rw [length_padded] at hi
    by_cases hm : i < message.length
    · simp [padded, hm]
    · rw [List.getElem_append_right (by omega)]
      simp [padded, hm]

theorem padded_full {packet : Bytes} (h : packet.length = 64) : padded packet 64 = packet := by
  have hall := @padded_eq packet (by omega)
  simpa [h] using hall

theorem packWords_congr {count : ℕ} {f g : ℕ → BitVec 32} (h : ∀ k < count, f k = g k) :
    TrafficFrontend.packWords count f = TrafficFrontend.packWords count g := by
  apply eq_of_slices
  intro j hj
  rw [TrafficFrontend.packWords, TrafficFrontend.packWords]
  exact (slice_join f hj).trans ((h j hj).trans (slice_join g hj).symm)

/-- A vector by the bytes of its words. -/
theorem lanes_of_words {m : ℕ} {x : BitVec (8 * (4 * m))} {byte : ℕ → UInt8}
    (h : ∀ i < m, lanes (k := 4) (slice x (32 * i) 32) = (List.range 4).map fun j => byte (4 * i + j)) :
    lanes x = (List.range (4 * m)).map byte := by
  have hwords : lanes x = (List.range m).flatMap fun i => (List.range 4).map fun j => byte (4 * i + j) := by
    rw [lanes_words]
    refine List.flatMap_congr fun i hi => ?_
    rw [show 8 * (4 * i) = 32 * i by omega]
    exact h i (List.mem_range.mp hi)
  have hrange : ∀ m : ℕ, ((List.range m).flatMap fun i => (List.range 4).map fun j => byte (4 * i + j)) =
      (List.range (4 * m)).map byte := by
    intro m
    induction m with
    | zero => rfl
    | succ m ih =>
      rw [List.range_succ (n := m), List.flatMap_append, ih, Nat.mul_succ, List.range_add, List.map_append, List.map_map]
      simp [Function.comp_def]
  rw [hwords, hrange]

theorem lanes_packet (message : Bytes) (messageLength : ℕ) :
    lanes (k := 64) (TrafficFrontend.packWords 16 (packetWord message messageLength)) =
      padded message messageLength := by
  refine lanes_of_words (m := 16) fun i hi => ?_
  rw [show slice (TrafficFrontend.packWords 16 _) (32 * i) 32 = _ from slice_join _ hi, packetWord,
    lanes_load32Le]
  rfl

theorem lanes_tag {tag : Bytes} (h : tag.length = 16) :
    lanes (k := 16) (TrafficFrontend.packWords 4 fun i => load32Le (tag.drop (4 * i))) = tag := by
  have hbytes : (List.range (4 * 4)).map (fun i => tag.getD i 0) = tag := by
    apply List.ext_getElem
    · simp [h]
    · intro i hi hi'
      simp [hi']
  rw [← hbytes]
  refine lanes_of_words (m := 4) fun i hi => ?_
  rw [hbytes, show slice (TrafficFrontend.packWords 4 _) (32 * i) 32 = _ from slice_join _ hi, lanes_load32Le]
  simp [List.getElem?_drop]

theorem setWidth_length (length : ℕ) :
    (BitVec.ofNat 32 length).setWidth 8 = BitVec.ofNat 8 length := by
  apply BitVec.eq_of_toNat_eq
  simp

end Packing

theorem written_data (g : Regs n) {m : ℕ} (hm : m < 16) (value : BitVec 32) :
    g.written (TrafficFrontend.wordReg REG_INPUT_DATA_BASE m) value =
      { g with data := fun k => if k < 16 ∧ k = m then value else g.data k } := by
  have hne : ∀ m < 16, TrafficFrontend.wordReg REG_INPUT_DATA_BASE m ≠ TrafficFrontend.REG_CONTROL ∧
      TrafficFrontend.wordReg REG_INPUT_DATA_BASE m ≠ TrafficFrontend.REG_SLOT ∧
      TrafficFrontend.wordReg REG_INPUT_DATA_BASE m ≠ TrafficFrontend.REG_LENGTH ∧
      TrafficFrontend.wordReg REG_INPUT_DATA_BASE m ≠ TrafficFrontend.REG_COUNTER_LO ∧
      TrafficFrontend.wordReg REG_INPUT_DATA_BASE m ≠ TrafficFrontend.REG_COUNTER_HI := by decide
  have hdata : ∀ m < 16, ∀ k < 16, TrafficFrontend.wordReg REG_INPUT_DATA_BASE m =
      TrafficFrontend.wordReg TrafficFrontend.REG_INPUT_DATA k ↔ k = m := by decide
  have htag : ∀ m < 16, ∀ k < 4, TrafficFrontend.wordReg REG_INPUT_DATA_BASE m ≠
      TrafficFrontend.wordReg TrafficFrontend.REG_INPUT_TAG k := by decide
  obtain ⟨h0, h1, h2, h3, h4⟩ := hne m hm
  rw [Regs.written, if_neg h0, if_neg h1, if_neg h2, if_neg h3, if_neg h4]
  congr 1
  · funext k
    by_cases hk : k < 16
    · simp [hk, hdata m hm k hk]
    · simp [hk]
  · funext k
    by_cases hk : k < 4
    · simp [hk, htag m hm k hk]
    · simp [hk]

theorem written_tag (g : Regs n) {m : ℕ} (hm : m < 4) (value : BitVec 32) :
    g.written (TrafficFrontend.wordReg REG_INPUT_TAG_BASE m) value =
      { g with tag := fun k => if k < 4 ∧ k = m then value else g.tag k } := by
  have hne : ∀ m < 4, TrafficFrontend.wordReg REG_INPUT_TAG_BASE m ≠ TrafficFrontend.REG_CONTROL ∧
      TrafficFrontend.wordReg REG_INPUT_TAG_BASE m ≠ TrafficFrontend.REG_SLOT ∧
      TrafficFrontend.wordReg REG_INPUT_TAG_BASE m ≠ TrafficFrontend.REG_LENGTH ∧
      TrafficFrontend.wordReg REG_INPUT_TAG_BASE m ≠ TrafficFrontend.REG_COUNTER_LO ∧
      TrafficFrontend.wordReg REG_INPUT_TAG_BASE m ≠ TrafficFrontend.REG_COUNTER_HI := by decide
  have hdata : ∀ m < 4, ∀ k < 16, TrafficFrontend.wordReg REG_INPUT_TAG_BASE m ≠
      TrafficFrontend.wordReg TrafficFrontend.REG_INPUT_DATA k := by decide
  have htag : ∀ m < 4, ∀ k < 4, TrafficFrontend.wordReg REG_INPUT_TAG_BASE m =
      TrafficFrontend.wordReg TrafficFrontend.REG_INPUT_TAG k ↔ k = m := by decide
  obtain ⟨h0, h1, h2, h3, h4⟩ := hne m hm
  rw [Regs.written, if_neg h0, if_neg h1, if_neg h2, if_neg h3, if_neg h4]
  congr 1
  · funext k
    by_cases hk : k < 16
    · simp [hk, hdata m hm k hk]
    · simp [hk]
  · funext k
    by_cases hk : k < 4
    · simp [hk, htag m hm k hk]
    · simp [hk]

/-- The operands of a request: words above the packet and the tag do not matter. -/
structure Regs.Same (g g' : Regs n) : Prop where
  slot : g.slot = g'.slot
  length : g.length = g'.length
  counter : g.counter = g'.counter
  data : ∀ k < 16, g.data k = g'.data k
  tag : ∀ k < 4, g.tag k = g'.tag k

theorem Regs.same_of_eq {g g' : Regs n} (h : g = g') : g.Same g' := by
  subst h
  exact ⟨rfl, rfl, rfl, fun _ _ => rfl, fun _ _ => rfl⟩

theorem Regs.Same.request {g g' : Regs n} (h : g.Same g') (decrypt : Bool) :
    g.request decrypt = g'.request decrypt := by
  rw [Regs.request, Regs.request, h.slot, h.length, h.counter, packWords_congr h.data, packWords_congr h.tag]

/-- What a read shows without a fault flagged. -/
def shown (f : TrafficFrontend.State n) (offset : BitVec 9) : BitVec 32 :=
  TrafficFrontend.readMux f ⟨false, false, default, false, 0⟩ offset

/-- `Q` is a state of rest: edges keep it and the front-end, a write that starts nothing keeps it and
moves the operand registers, and reads show the front-end. -/
structure AtRest {σ κ : Type} [Device σ κ] (Q : σ → Prop) (front : σ → TrafficFrontend.State n) : Prop where
  tick : ∀ p k, Q p → Q (Device.tick p k) ∧ front (Device.tick p k) = front p
  write : ∀ p offset value k, Q p → (offset = TrafficFrontend.REG_CONTROL → value.getLsbD 0 = false) →
    Q (Device.write p offset value k) ∧
      regs (front (Device.write p offset value k)) = (regs (front p)).written offset value
  read : ∀ p offset k, Q p → offset ≠ TrafficFrontend.REG_STATUS → offset ≠ TrafficFrontend.REG_FAULT →
    Device.read p offset k = shown (front p) offset

/-- The port rests on the table `T`. -/
theorem quiet_atRest (T : Slots n) : AtRest (fun p : TrafficPort.State n E => Quiet p T) TrafficPort.State.front where
  tick p k h := ⟨h.tick.2, h.tick.1⟩
  write p offset value k h hno := write_quiet h hno
  read p offset k _ hstatus hfault := by
    change TrafficFrontend.readMux p.front (coreOut p k) offset = TrafficFrontend.readMux p.front _ offset
    simp only [TrafficFrontend.readMux, if_neg hstatus, if_neg hfault]

section Accesses

variable {σ κ : Type} [Device σ κ] {Q : σ → Prop} {front : σ → TrafficFrontend.State n} (hA : AtRest Q front)
  (time : ℕ → Access κ) {b : BusOf σ}

include hA

theorem AtRest.waited (hq : Q b.port) : Q (b.waited time) ∧ front (b.waited time) = front b.port := by
  have key : ∀ (ks : List κ) (p : σ), Q p →
      Q (ks.foldl Device.tick p) ∧ front (ks.foldl Device.tick p) = front p := by
    intro ks
    induction ks with
    | nil => exact fun p hp => ⟨hp, rfl⟩
    | cons k ks ih =>
      intro p hp
      obtain ⟨hquiet, hfront⟩ := hA.tick p k hp
      obtain ⟨hlast, hsame⟩ := ih _ hquiet
      exact ⟨hlast, hsame.trans hfront⟩
  exact key _ _ hq

theorem AtRest.mmioRead (hq : Q b.port) (offset : BitVec 9) :
    Q (mmioRead time b offset).1.port ∧ front (mmioRead time b offset).1.port = front b.port := by
  obtain ⟨hquiet, hfront⟩ := hA.waited time hq
  obtain ⟨hnext, hsame⟩ := hA.tick _ (time b.accesses).edge hquiet
  exact ⟨hnext, hsame.trans hfront⟩

theorem AtRest.value (hq : Q b.port) (offset : BitVec 9) (hstatus : offset ≠ TrafficFrontend.REG_STATUS)
    (hfault : offset ≠ TrafficFrontend.REG_FAULT) : (AeadHw.mmioRead time b offset).2 = shown (front b.port) offset := by
  obtain ⟨hquiet, hfront⟩ := hA.waited time hq
  rw [← hfront]
  exact hA.read _ offset _ hquiet hstatus hfault

theorem AtRest.mmioWrite {g : Regs n} (hq : Q b.port) (hg : regs (front b.port) = g) (offset : BitVec 9)
    (value : BitVec 32) (hno : offset = TrafficFrontend.REG_CONTROL → value.getLsbD 0 = false) :
    Q (mmioWrite time b offset value).port ∧
      regs (front (mmioWrite time b offset value).port) = g.written offset value := by
  obtain ⟨hquiet, hfront⟩ := hA.waited time hq
  rw [← hg, ← hfront]
  exact hA.write _ offset value _ hquiet hno

omit hA

/-- A loop of writes: `fill m` are the registers after `m` of them. -/
theorem mmioWrites_rests (hA : AtRest Q front) {offset : ℕ → BitVec 9} (value : ℕ → BitVec 32) (fill : ℕ → Regs n)
    (count : ℕ) (hq : Q b.port) (hg : regs (front b.port) = fill 0)
    (hno : ∀ m < count, offset m ≠ TrafficFrontend.REG_CONTROL)
    (hfill : ∀ m < count, (fill m).written (offset m) (value m) = fill (m + 1)) :
    let b' := (List.range count).foldl (fun b i => mmioWrite time b (offset i) (value i)) b
    Q b'.port ∧ regs (front b'.port) = fill count := by
  induction count with
  | zero => exact ⟨hq, hg⟩
  | succ m ih =>
    obtain ⟨hquiet, hregs⟩ := ih (fun i hi => hno i (by omega)) fun i hi => hfill i (by omega)
    rw [List.range_succ, List.foldl_append, List.foldl_cons, List.foldl_nil]
    obtain ⟨hquiet', hregs'⟩ := hA.mmioWrite time hquiet hregs (offset m) (value m)
      fun h => absurd h (hno m (by omega))
    exact ⟨hquiet', hregs'.trans (hfill m (by omega))⟩

theorem writePacket_rests (hA : AtRest Q front) {g : Regs n} (hq : Q b.port) (hg : (regs (front b.port)).Same g)
    (message : Bytes) (messageLength : ℕ) : Q (writePacket time b message messageLength).port ∧
      (regs (front (writePacket time b message messageLength).port)).Same
        { g with data := packetWord message messageLength } := by
  have hno : ∀ m < 16, TrafficFrontend.wordReg REG_INPUT_DATA_BASE m ≠ TrafficFrontend.REG_CONTROL := by decide
  have hfill := mmioWrites_rests time hA (packetWord message messageLength)
    (fun m => { regs (front b.port) with
      data := fun k => if k < m then packetWord message messageLength k else (regs (front b.port)).data k })
    16 hq (by simp) hno fun m hm => ?_
  · refine ⟨hfill.1, ?_⟩
    have hregs : regs (front (writePacket time b message messageLength).port) = _ := hfill.2
    rw [hregs]
    exact ⟨hg.slot, hg.length, hg.counter, fun k hk => if_pos hk, hg.tag⟩
  · rw [written_data _ hm]
    congr 1
    funext k
    by_cases hk : k = m
    · subst hk
      simp [hm]
    · simp [hk, show k < m + 1 ↔ k < m by omega]

theorem writeTag_rests (hA : AtRest Q front) {g : Regs n} (hq : Q b.port) (hg : (regs (front b.port)).Same g)
    (tag : Bytes) : Q (writeTag time b tag).port ∧ (regs (front (writeTag time b tag).port)).Same
      { g with tag := fun i => load32Le (tag.drop (4 * i)) } := by
  have hno : ∀ m < 4, TrafficFrontend.wordReg REG_INPUT_TAG_BASE m ≠ TrafficFrontend.REG_CONTROL := by decide
  have hfill := mmioWrites_rests time hA (fun i => load32Le (tag.drop (4 * i)))
    (fun m => { regs (front b.port) with
      tag := fun k => if k < m then load32Le (tag.drop (4 * k)) else (regs (front b.port)).tag k })
    4 hq (by simp) hno fun m hm => ?_
  · refine ⟨hfill.1, ?_⟩
    have hregs : regs (front (writeTag time b tag).port) = _ := hfill.2
    rw [hregs]
    exact ⟨hg.slot, hg.length, hg.counter, hg.data, fun k hk => if_pos hk⟩
  · rw [written_tag _ hm]
    congr 1
    funext k
    by_cases hk : k = m
    · subst hk
      simp [hm]
    · simp [hk, show k < m + 1 ↔ k < m by omega]

/-- The slot, the length and the counter of a request. -/
theorem writeHead_rests (hA : AtRest Q front) (hq : Q b.port) (slot messageLength : ℕ) :
    Q (writeHead time b slot messageLength).port ∧
      regs (front (writeHead time b slot messageLength).port) =
        { regs (front b.port) with
          slot := (BitVec.ofNat 32 slot).setWidth _, length := (BitVec.ofNat 32 messageLength).setWidth 8 } := by
  obtain ⟨hq, hg⟩ := hA.mmioWrite time hq rfl REG_CONTROL CONTROL_CLEAR_DONE
    fun _ => by decide
  obtain ⟨hq, hg⟩ := hA.mmioWrite time hq hg REG_REQUEST_SLOT (BitVec.ofNat 32 slot)
    fun h => absurd h (by decide)
  obtain ⟨hq, hg⟩ := hA.mmioWrite time hq hg REG_DATA_LEN (BitVec.ofNat 32 messageLength)
    fun h => absurd h (by decide)
  exact ⟨hq, hg⟩

theorem writeCounter_rests (hA : AtRest Q front) {g : Regs n} (hq : Q b.port) (hg : regs (front b.port) = g)
    (packetCounter : BitVec 64) :
    let b' := mmioWrite time b REG_COUNTER_LO (packetCounter.setWidth 32)
    let b'' := mmioWrite time b' REG_COUNTER_HI ((packetCounter >>> 32).setWidth 32)
    Q b''.port ∧ regs (front b''.port) = { g with counter := packetCounter } := by
  obtain ⟨hq, hg⟩ := hA.mmioWrite time hq hg REG_COUNTER_LO (packetCounter.setWidth 32)
    fun h => absurd h (by decide)
  obtain ⟨hq, hg⟩ := hA.mmioWrite time hq hg REG_COUNTER_HI ((packetCounter >>> 32).setWidth 32)
    fun h => absurd h (by decide)
  have hwritten : ∀ lo hi : BitVec 32, (g.written REG_COUNTER_LO lo).written REG_COUNTER_HI hi =
      { g with counter := patch (patch g.counter 0 lo) 32 hi } := fun _ _ => rfl
  have hboth : patch (patch g.counter 0 (packetCounter.setWidth 32)) 32 ((packetCounter >>> 32).setWidth 32) =
      packetCounter := by
    apply BitVec.eq_of_getLsbD_eq
    intro i hi
    rw [getLsbD_patch _ _ _ _ hi, getLsbD_patch _ _ _ _ hi]
    split_ifs with hhigh hlow
    · simp [show i - 32 < 32 by omega, show 32 + (i - 32) = i by omega]
    · simp [show i < 32 by omega]
    · omega
  exact ⟨hq, hg.trans (by rw [hwritten, hboth])⟩

/-- Above the single registers a read goes to the arrays. -/
theorem shown_array (f : TrafficFrontend.State n) {offset : BitVec 9} (h : TrafficFrontend.REG_RSP_SLOT < offset) :
    shown f offset =
      TrafficFrontend.readArray TrafficFrontend.REG_INPUT_DATA 16 f.inputData offset
        (TrafficFrontend.readArray TrafficFrontend.REG_OUTPUT_DATA 16 (fun k => slice f.rspDataQ (32 * k) 32) offset
          (TrafficFrontend.readArray TrafficFrontend.REG_INPUT_TAG 4 f.inputTag offset
            (TrafficFrontend.readArray TrafficFrontend.REG_OUTPUT_TAG 4 (fun k => slice f.rspTagQ (32 * k) 32)
              offset 0))) := by
  have hne : ∀ r ≤ TrafficFrontend.REG_RSP_SLOT, offset ≠ r := by
    rintro r hr rfl
    exact absurd h (BitVec.not_lt.mpr hr)
  rw [shown, TrafficFrontend.readMux]
  repeat rw [if_neg (hne _ (by decide))]

theorem readArray_hit {base offset : BitVec 9} {count i : ℕ} {word : ℕ → BitVec 32} {other : BitVec 32}
    (h : ((List.range count).find? fun k => offset = TrafficFrontend.wordReg base k) = some i) :
    TrafficFrontend.readArray base count word offset other = word i := by
  rw [TrafficFrontend.readArray, h]

theorem readArray_miss {base offset : BitVec 9} {count : ℕ} {word : ℕ → BitVec 32} {other : BitVec 32}
    (h : ((List.range count).find? fun k => offset = TrafficFrontend.wordReg base k) = none) :
    TrafficFrontend.readArray base count word offset other = other := by
  rw [TrafficFrontend.readArray, h]

/-- The words of the response registers. -/
theorem shown_output (f : TrafficFrontend.State n) {i : ℕ} (hi : i < 16) :
    shown f (TrafficFrontend.wordReg REG_OUTPUT_DATA_BASE i) = slice f.rspDataQ (32 * i) 32 := by
  have hhigh : ∀ i < 16, TrafficFrontend.REG_RSP_SLOT < TrafficFrontend.wordReg REG_OUTPUT_DATA_BASE i := by decide
  have hmiss : ∀ i < 16, ((List.range 16).find? fun k => TrafficFrontend.wordReg REG_OUTPUT_DATA_BASE i =
      TrafficFrontend.wordReg TrafficFrontend.REG_INPUT_DATA k) = none := by decide
  have hhit : ∀ i < 16, ((List.range 16).find? fun k => TrafficFrontend.wordReg REG_OUTPUT_DATA_BASE i =
      TrafficFrontend.wordReg TrafficFrontend.REG_OUTPUT_DATA k) = some i := by decide
  rw [shown_array f (hhigh i hi), readArray_miss (hmiss i hi), readArray_hit (hhit i hi)]

theorem shown_tag (f : TrafficFrontend.State n) {i : ℕ} (hi : i < 4) :
    shown f (TrafficFrontend.wordReg REG_OUTPUT_TAG_BASE i) = slice f.rspTagQ (32 * i) 32 := by
  have hhigh : ∀ i < 4, TrafficFrontend.REG_RSP_SLOT < TrafficFrontend.wordReg REG_OUTPUT_TAG_BASE i := by decide
  have hdata : ∀ i < 4, ∀ base ∈ [TrafficFrontend.REG_INPUT_DATA, TrafficFrontend.REG_OUTPUT_DATA],
      ((List.range 16).find? fun k => TrafficFrontend.wordReg REG_OUTPUT_TAG_BASE i =
        TrafficFrontend.wordReg base k) = none := by decide
  have hmiss : ∀ i < 4, ((List.range 4).find? fun k => TrafficFrontend.wordReg REG_OUTPUT_TAG_BASE i =
      TrafficFrontend.wordReg TrafficFrontend.REG_INPUT_TAG k) = none := by decide
  have hhit : ∀ i < 4, ((List.range 4).find? fun k => TrafficFrontend.wordReg REG_OUTPUT_TAG_BASE i =
      TrafficFrontend.wordReg TrafficFrontend.REG_OUTPUT_TAG k) = some i := by decide
  rw [shown_array f (hhigh i hi), readArray_miss (hdata i hi _ (by simp)), readArray_miss (hdata i hi _ (by simp)),
    readArray_miss (hmiss i hi), readArray_hit (hhit i hi)]

/-- The loop over words that are not single registers. -/
theorem readWords_rests (hA : AtRest Q front) (hq : Q b.port) (base : BitVec 9) (count : ℕ)
    (hhigh : ∀ i < count, TrafficFrontend.REG_RSP_SLOT < TrafficFrontend.wordReg base i) :
    Q (readWords time base count b).1.port ∧ front (readWords time base count b).1.port = front b.port ∧
      (readWords time base count b).2 =
        (List.range count).flatMap fun i => lanes (k := 4) (shown (front b.port) (TrafficFrontend.wordReg base i)) := by
  induction count with
  | zero => exact ⟨hq, rfl, rfl⟩
  | succ count ih =>
    obtain ⟨hrests, hfront, hout⟩ := ih fun i hi => hhigh i (by omega)
    have hsucc : readWords time base (count + 1) b =
        ((mmioRead time (readWords time base count b).1 (TrafficFrontend.wordReg base count)).1,
          (readWords time base count b).2 ++
            store32Le (mmioRead time (readWords time base count b).1 (TrafficFrontend.wordReg base count)).2) := by
      rw [readWords, List.range_succ, List.foldl_append]
      rfl
    have hne : ∀ r ≤ TrafficFrontend.REG_RSP_SLOT, TrafficFrontend.wordReg base count ≠ r := by
      rintro r hr heq
      exact absurd (heq ▸ hhigh count (by omega)) (BitVec.not_lt.mpr hr)
    obtain ⟨hrests', hfront'⟩ := hA.mmioRead time hrests (TrafficFrontend.wordReg base count)
    have hvalue := hA.value time hrests _ (hne TrafficFrontend.REG_STATUS (by decide)) (hne TrafficFrontend.REG_FAULT (by decide))
    rw [hsucc, List.range_succ, List.flatMap_append, hout, hvalue, store32Le_eq, hfront]
    exact ⟨hrests', hfront'.trans hfront, by simp⟩

theorem readPacket_rests (hA : AtRest Q front) (hq : Q b.port) :
    Q (readPacket time b).1.port ∧ front (readPacket time b).1.port = front b.port ∧
      (readPacket time b).2 = lanes (k := 64) (front b.port).rspDataQ := by
  obtain ⟨hrests, hfront, hout⟩ := readWords_rests time hA hq REG_OUTPUT_DATA_BASE 16 (by decide)
  refine ⟨hrests, hfront, hout.trans ?_⟩
  have hwords := lanes_words (w := 4) (m := 16) (front b.port).rspDataQ
  refine (List.flatMap_congr fun i hi => ?_).trans hwords.symm
  rw [shown_output _ (List.mem_range.mp hi), show 8 * (4 * i) = 32 * i by omega]

theorem readTag_rests (hA : AtRest Q front) (hq : Q b.port) :
    Q (readWords time REG_OUTPUT_TAG_BASE 4 b).1.port ∧
      front (readWords time REG_OUTPUT_TAG_BASE 4 b).1.port = front b.port ∧
      (readWords time REG_OUTPUT_TAG_BASE 4 b).2 = lanes (k := 16) (front b.port).rspTagQ := by
  obtain ⟨hrests, hfront, hout⟩ := readWords_rests time hA hq REG_OUTPUT_TAG_BASE 4 (by decide)
  refine ⟨hrests, hfront, hout.trans ?_⟩
  have hwords := lanes_words (w := 4) (m := 4) (front b.port).rspTagQ
  refine (List.flatMap_congr fun i hi => ?_).trans hwords.symm
  rw [shown_tag _ (List.mem_range.mp hi), show 8 * (4 * i) = 32 * i by omega]

/-- The two halves of the response counter. -/
theorem readCounter_rests (hA : AtRest Q front) (hq : Q b.port) :
    let b₁ := mmioRead time b REG_RSP_COUNTER_LO
    let b₂ := mmioRead time b₁.1 REG_RSP_COUNTER_HI
    Q b₂.1.port ∧ front b₂.1.port = front b.port ∧
      b₁.2.setWidth 64 ||| b₂.2.setWidth 64 <<< 32 = (front b.port).rspCounterQ := by
  obtain ⟨hrests₁, hfront₁⟩ := hA.mmioRead time hq REG_RSP_COUNTER_LO
  obtain ⟨hrests₂, hfront₂⟩ := hA.mmioRead time hrests₁ REG_RSP_COUNTER_HI
  have hlo := hA.value time hq REG_RSP_COUNTER_LO (by decide) (by decide)
  have hhi := hA.value time hrests₁ REG_RSP_COUNTER_HI (by decide) (by decide)
  refine ⟨hrests₂, hfront₂.trans hfront₁, ?_⟩
  have hlo' : shown (front b.port) REG_RSP_COUNTER_LO = slice (front b.port).rspCounterQ 0 32 := rfl
  have hhi' : shown (front b.port) REG_RSP_COUNTER_HI = slice (front b.port).rspCounterQ 32 32 := rfl
  simp only [hlo, hhi, hfront₁, hlo', hhi']
  apply BitVec.eq_of_getLsbD_eq
  intro i hi
  by_cases h32 : i < 32
  · simp [hi, h32, slice]
  · simp [hi, h32, slice, show 32 + (i - 32) = i by omega]
    intro _
    omega

theorem waitStatus_succ (setMask clearMask : BitVec 32) (limit : ℕ) (b : BusOf σ) :
    waitStatus time setMask clearMask (limit + 1) b =
      if (mmioRead time b REG_STATUS).2 &&& setMask = setMask ∧ (mmioRead time b REG_STATUS).2 &&& clearMask = 0
      then ((mmioRead time b REG_STATUS).1, some (mmioRead time b REG_STATUS).2)
      else waitStatus time setMask clearMask limit (mmioRead time b REG_STATUS).1 := rfl

end Accesses

section Answers

variable (time : ℕ → Access κ) {b : Bus n E} {T : Slots n} {q : Request n}

/-- The status word without a request under way. -/
theorem shown_status {f : TrafficFrontend.State n} (hp : f.pending = false) (hi : f.inflight = false) :
    shown f REG_STATUS = BitVec.ofNat 32 (2 * f.doneQ.toNat + 4 * f.authQ.toNat + 8 * f.errorQ.toNat) := by
  simp [shown, TrafficFrontend.readMux, REG_STATUS, TrafficFrontend.REG_VERSION, TrafficFrontend.REG_STATUS, hp, hi]

/-- No fault is flagged at this port. -/
theorem read_status {p : TrafficPort.State n E} {k : κ} :
    TrafficPort.read p REG_STATUS k = shown p.front REG_STATUS := rfl

/-- At rest the wait before a request ends at its first read. -/
theorem waitRequestIdle_rests (h : Quiet b.port T) {limit : ℕ} (hl : 0 < limit) :
    ∃ b' status, waitRequestIdle time limit b = (b', some status) ∧ Quiet b'.port T ∧
      b'.port.front = b.port.front := by
  obtain ⟨limit, rfl⟩ : ∃ m, limit = m + 1 := ⟨limit - 1, by omega⟩
  obtain ⟨hwaited, hfront⟩ := (quiet_atRest T).waited time h
  have hvalue : (mmioRead time b REG_STATUS).2 = shown (b.waited time).front REG_STATUS := rfl
  have hidle : (mmioRead time b REG_STATUS).2 &&& 0 = 0 ∧
      (mmioRead time b REG_STATUS).2 &&& (STATUS_BUSY ||| STATUS_REQ_PENDING ||| STATUS_CFG_PENDING) = 0 := by
    rw [hvalue, shown_status hwaited.pending hwaited.inflight]
    cases (b.waited time).front.doneQ <;> cases (b.waited time).front.authQ <;>
      cases (b.waited time).front.errorQ <;> decide
  obtain ⟨hrests, hsame⟩ := (quiet_atRest T).mmioRead time h REG_STATUS
  exact ⟨_, _, by rw [waitRequestIdle, waitStatus_succ, if_pos hidle], hrests, hsame⟩

variable {C : E.Timed} {p : TrafficPort.State n E} {k : κ} {m : ℕ}

/-- A request answered, or under way with less than `m` edges to go. -/
def Pending (C : E.Timed) (p : TrafficPort.State n E) (T : Slots n) (q : Request n) (m : ℕ) : Prop :=
  TrafficPort.Answered p T q ∨ (Working p T q ∧ left C p < m)

theorem Pending.mono (h : Pending C p T q m) {m' : ℕ} (hm : m ≤ m') : Pending C p T q m' :=
  h.imp_right fun ⟨hw, hl⟩ => ⟨hw, hl.trans_le hm⟩

theorem answered_tick (h : TrafficPort.Answered p T q) : TrafficPort.Answered (TrafficPort.tick p k) T q := by
  obtain ⟨hfront, hquiet⟩ := h.quiet.tick (k := k)
  obtain ⟨hdone, hauth, herror, hcounter, hdata, htag⟩ := h.shows
  rw [← hfront] at hdone hauth herror hcounter hdata htag
  exact ⟨hquiet, hdone, hauth, herror, hcounter, hdata, htag⟩

theorem Pending.tick (h : Pending C p T q m) : Pending C (TrafficPort.tick p k) T q (m - 1) := by
  rcases h with ha | ⟨hw, hl⟩
  · exact Or.inl (answered_tick ha)
  · rcases hw.closer C (k := k) with ha | ⟨hw', hlt⟩
    · exact Or.inl ha
    · exact Or.inr ⟨hw', by omega⟩

theorem Pending.waited (h : Pending C b.port T q m) : Pending C (b.waited time) T q m := by
  have key : ∀ (ks : List κ) (p : TrafficPort.State n E), Pending C p T q m →
      Pending C (ks.foldl Device.tick p) T q m := by
    intro ks
    induction ks with
    | nil => exact fun p hp => hp
    | cons k ks ih => exact fun p hp => ih _ ((Pending.tick hp).mono (by omega))
  exact key _ _ h

/-- The table's answers carry an error exactly when they are not authentic. -/
theorem serve_error (T : Slots n) (q : Request n) : (serve aead T q).2.error = !(serve aead T q).2.authOk := by
  unfold serve
  cases T q.slot with
  | none => rfl
  | some e =>
    by_cases h : Refused e q
    · simp [h, refusal]
    · simp [h, answer]

theorem status_answered (h : TrafficPort.Answered p T q) :
    shown p.front REG_STATUS = if (serve aead T q).2.authOk then 6 else 10 := by
  rw [shown_status h.quiet.pending h.quiet.inflight, h.shows.done, h.shows.auth, h.shows.error, serve_error]
  cases (serve aead T q).2.authOk <;> rfl

theorem status_working (h : Working p T q) : TrafficPort.read p REG_STATUS k &&& STATUS_DONE ≠ STATUS_DONE := by
  have hstatus : TrafficPort.read p REG_STATUS k = BitVec.ofNat 32
      (1 + 4 * p.front.authQ.toNat + 8 * p.front.errorQ.toNat + 32 * p.front.pending.toNat) := by
    simp [TrafficPort.read, TrafficFrontend.readMux, coreOut, REG_STATUS, TrafficFrontend.REG_VERSION,
      TrafficFrontend.REG_STATUS, h.inflight, h.done]
  rw [hstatus]
  cases p.front.authQ <;> cases p.front.errorQ <;> cases p.front.pending <;> decide

/-- The poll loop after START ends with the answer. -/
theorem waitDone_answered {limit : ℕ} (h : Pending C b.port T q m) (hm : m < limit) :
    ∃ b' : Bus n E, TrafficPort.Answered b'.port T q ∧ waitDone time limit b =
      (b', if (serve aead T q).2.authOk then none else some .auth) := by
  have key : ∀ (limit : ℕ) (b : Bus n E) (m : ℕ), Pending C b.port T q m → m < limit → ∃ b' : Bus n E,
      TrafficPort.Answered b'.port T q ∧ waitStatus time STATUS_DONE 0 limit b =
        (b', some (if (serve aead T q).2.authOk then 6 else 10)) := by
    intro limit
    induction limit with
    | zero => exact fun _ m _ hm => absurd hm (Nat.not_lt_zero m)
    | succ limit ih =>
      intro b m hp hm
      have hwaited := Pending.waited time hp
      have hnext : Pending C (mmioRead time b REG_STATUS).1.port T q (m - 1) := hwaited.tick
      have hvalue : (mmioRead time b REG_STATUS).2 =
          TrafficPort.read (b.waited time) REG_STATUS (time b.accesses).edge := rfl
      rw [waitStatus_succ]
      rcases hwaited with ha | ⟨hw, hl⟩
      · -- the answer is there
        have hread : (mmioRead time b REG_STATUS).2 = if (serve aead T q).2.authOk then 6 else 10 :=
          (status_answered ha).symm ▸ rfl
        refine ⟨(mmioRead time b REG_STATUS).1, answered_tick ha, ?_⟩
        rw [hread, if_pos]
        cases (serve aead T q).2.authOk <;> decide
      · have hread : (mmioRead time b REG_STATUS).2 &&& STATUS_DONE ≠ STATUS_DONE := by
          rw [hvalue]
          exact status_working hw
        rw [if_neg fun hh => hread hh.1]
        exact ih _ _ hnext (by omega)
  obtain ⟨b', hb', hwait⟩ := key limit b m h hm
  refine ⟨b', hb', ?_⟩
  rw [waitDone, hwait]
  cases (serve aead T q).2.authOk <;> rfl

/-- START and the wait for the answer. -/
theorem start_answered (C : E.Timed) {g : Regs n} (hq : Quiet b.port T) (hg : (regs b.port.front).Same g)
    {limit : ℕ} (hl : C.bound + 57 < limit) {v : BitVec 32} (hgo : v.getLsbD 0 = true)
    (hkeep : v.getLsbD 8 = false) {d : Bool} (hdir : v.getLsbD 1 = d) :
    let answer := serve aead T (g.request d)
    ∃ b' : Bus n E, Quiet b'.port answer.1 ∧ Shows b'.port answer.2 ∧
      waitDone time limit (mmioWrite time b REG_CONTROL v) =
        (b', if answer.2.authOk then none else some .auth) := by
  intro answer
  obtain ⟨hquiet, hfront⟩ := (quiet_atRest T).waited time hq
  obtain ⟨hw, hpend⟩ := write_start (k := (time b.accesses).edge) hquiet hgo hkeep
  rw [hfront, hg.request, hdir] at hw
  have hleft : left C (mmioWrite time b REG_CONTROL v).port < C.bound + 57 := by
    have hpend' : (mmioWrite time b REG_CONTROL v).port.front.pending = true := hpend
    rw [left, if_pos hpend']
    omega
  obtain ⟨b', ⟨hq', hshows⟩, hwait⟩ := waitDone_answered time (C := C) (Or.inr ⟨hw, hleft⟩) hl
  exact ⟨b', hq', hshows, hwait⟩

/-- `aead_hw_decrypt` returns the table's answer to its packet. -/
theorem decrypt_served (C : E.Timed) (h : Quiet b.port T) {limit slot : ℕ} (hl : C.bound + 57 < limit)
    (hslot : slot < AEAD_HW_MAX_SESSIONS) {messageLength : ℕ} (hlen : messageLength ≤ 64) (counter : BitVec 64)
    (ciphertext tag : Bytes) :
    let answer := serve aead T ⟨(BitVec.ofNat 32 slot).setWidth _, true, (BitVec.ofNat 32 messageLength).setWidth 8,
      counter, TrafficFrontend.packWords 16 (packetWord ciphertext 64),
      TrafficFrontend.packWords 4 fun i => load32Le (tag.drop (4 * i))⟩
    ∃ b' : Bus n E, Quiet b'.port answer.1 ∧ decrypt time limit b slot counter messageLength ciphertext tag =
      (b', if answer.2.authOk then .ok (lanes (k := 64) answer.2.data) else .error .auth) := by
  intro answer
  have hA := quiet_atRest (E := E) T
  obtain ⟨b₀, status, hidle, hq₀, -⟩ := waitRequestIdle_rests time h (by omega : 0 < limit)
  obtain ⟨hq₁, hg₁⟩ := writeHead_rests time hA hq₀ slot messageLength
  obtain ⟨hq₂, hg₂⟩ := writeCounter_rests time hA hq₁ hg₁ counter
  obtain ⟨hq₃, hg₃⟩ := writePacket_rests time hA hq₂ (Regs.same_of_eq hg₂) ciphertext 64
  obtain ⟨hq₄, hg₄⟩ := writeTag_rests time hA hq₃ hg₃ tag
  obtain ⟨b', hq', hshows, hwait⟩ := start_answered time C hq₄ hg₄ hl
    (v := CONTROL_START ||| CONTROL_DECRYPT) (d := true) (by decide) (by decide) (by decide)
  rw [decrypt, if_neg (by omega), hidle]
  cases hok : answer.2.authOk with
  | false =>
    refine ⟨b', hq', ?_⟩
    have hwait : waitDone time limit _ = (b', if answer.2.authOk then none else some Err.auth) := hwait
    rw [hok] at hwait
    simp only [hwait, Bool.false_eq_true, if_false]
  | true =>
    obtain ⟨hlast, -, hdata⟩ := readPacket_rests time (quiet_atRest answer.1) hq'
    refine ⟨(readPacket time b').1, hlast, ?_⟩
    have hwait : waitDone time limit _ = (b', if answer.2.authOk then none else some Err.auth) := hwait
    rw [hok] at hwait
    simp only [hwait, if_true]
    rw [hdata, hshows.data]
    rfl

/-- `aead_hw_encrypt` returns the table's answer to its message; what stands in the counter and
tag registers goes along. -/
theorem encrypt_served (C : E.Timed) (h : Quiet b.port T) {limit slot : ℕ} (hl : C.bound + 57 < limit)
    (hslot : slot < AEAD_HW_MAX_SESSIONS) {messageLength : ℕ} (hlen : messageLength ≤ 64) (message : Bytes) :
    ∃ (counter : BitVec 64) (tag : BitVec 128),
      let answer := serve aead T ⟨(BitVec.ofNat 32 slot).setWidth _, false,
        (BitVec.ofNat 32 messageLength).setWidth 8, counter,
        TrafficFrontend.packWords 16 (packetWord message messageLength), tag⟩
      ∃ b' : Bus n E, Quiet b'.port answer.1 ∧ encrypt time limit b slot message messageLength =
        (b', if answer.2.authOk then
            .ok (lanes (k := 64) answer.2.data, lanes (k := 16) answer.2.tag, answer.2.counter)
          else .error .auth) := by
  have hA := quiet_atRest (E := E) T
  obtain ⟨b₀, status, hidle, hq₀, -⟩ := waitRequestIdle_rests time h (by omega : 0 < limit)
  obtain ⟨hq₁, hg₁⟩ := writeHead_rests time hA hq₀ slot messageLength
  obtain ⟨hq₂, hg₂⟩ := writePacket_rests time hA hq₁ (Regs.same_of_eq hg₁) message messageLength
  obtain ⟨b', hq', hshows, hwait⟩ := start_answered time C hq₂ hg₂ hl
    (v := CONTROL_START) (d := false) (by decide) (by decide) (by decide)
  refine ⟨(regs b₀.port.front).counter, TrafficFrontend.packWords 4 (regs b₀.port.front).tag, ?_⟩
  intro answer
  rw [encrypt, if_neg (by omega), hidle]
  have hwait : waitDone time limit _ = (b', if answer.2.authOk then none else some Err.auth) := hwait
  cases hok : answer.2.authOk with
  | false =>
    refine ⟨b', hq', ?_⟩
    rw [hok] at hwait
    simp only [hwait, Bool.false_eq_true, if_false]
  | true =>
    have hA' := quiet_atRest (E := E) answer.1
    obtain ⟨hq₃, hfront₃, hdata⟩ := readPacket_rests time hA' hq'
    obtain ⟨hq₄, hfront₄, htag⟩ := readTag_rests time hA' hq₃
    obtain ⟨hq₅, -, hcounter⟩ := readCounter_rests time hA' hq₄
    refine ⟨_, hq₅, ?_⟩
    rw [hok] at hwait
    simp only [hwait, if_true]
    rw [hdata, htag, hcounter, hfront₄, hfront₃, hshows.data, hshows.tag, hshows.counter]
    rfl

end Answers

end AeadHw

end ZedSecure
