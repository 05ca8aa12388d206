import ZedSecure.Clocked.RoundRobin
import ZedSecure.Firmware.Scheduler

/-! The packet scheduler is a round-robin queue over 64 slots: the three masked searches find what the
circular search finds. Its accounts and its fairness are those of the queue. -/

namespace ZedSecure

open Clocked RoundRobin

namespace Scheduler

/-- The least bit of a word that is not zero. -/
theorem firstSetBit_spec (value : BitVec 32) (bit : BitVec 8) (h : value ≠ 0) :
    ∃ k < 32, firstSetBit value bit h = bit + BitVec.ofNat 8 k ∧ value.getLsbD k = true ∧
      ∀ j < k, value.getLsbD j = false := by
  induction value, bit, h using firstSetBit.induct with
  | case1 value bit h heven ih =>
    obtain ⟨k, -, heq, hset, hleast⟩ := ih
    have hzero : value.getLsbD 0 = false := by
      have hbit := congrArg (fun v : BitVec 32 => v.getLsbD 0) heven
      simpa using hbit
    rw [BitVec.getLsbD_ushiftRight] at hset
    refine ⟨k + 1, ?_, ?_, by rwa [Nat.add_comm], fun j hj => ?_⟩
    · have := BitVec.lt_of_getLsbD hset
      omega
    · rw [firstSetBit, dif_pos heven, heq, BitVec.add_assoc]
      congr 1
      apply BitVec.eq_of_toNat_eq
      simp [Nat.add_comm]
    · cases j with
      | zero => exact hzero
      | succ j =>
        have hprev := hleast j (by omega)
        rwa [BitVec.getLsbD_ushiftRight, Nat.add_comm] at hprev
  | case2 value bit h hodd =>
    refine ⟨0, by omega, ?_, ?_, fun j hj => absurd hj (Nat.not_lt_zero j)⟩
    · rw [firstSetBit, dif_neg hodd]
      simp
    · by_contra hzero
      refine hodd (BitVec.eq_of_getLsbD_eq fun i hi => ?_)
      cases i with
      | zero => simpa using hzero
      | succ i => simp

/-- The ready bit of slot `x`. -/
def ready (s : State) (x : ℕ) : Bool := (s.readyBitmap[x / 32]?.getD 0).getLsbD (x % 32)

@[simp] theorem ready_store (s : State) (pending : Vector PacketRequest PQC_SCHEDULER_SESSIONS) (x : ℕ) :
    ready { s with pending := pending } x = ready s x := rfl

theorem ready_setWord (s : State) (index : BitVec 8) (value : BitVec 32) (h : index.toNat < 2) (x : ℕ) :
    ready (s.setWord index value) x =
      if x / 32 = index.toNat then value.getLsbD (x % 32) else ready s x := by
  unfold ready State.setWord
  rw [Vector.getElem?_setIfInBounds]
  by_cases hx : index.toNat = x / 32
  · simp [hx, hx ▸ h]
  · simp [hx, Ne.symm hx]

theorem word_bit (s : State) (index : BitVec 8) {k : ℕ} (h : k < 32) :
    (s.word index).getLsbD k = ready s (32 * index.toNat + k) := by
  unfold ready State.word
  rw [show (32 * index.toNat + k) / 32 = index.toNat by omega, show (32 * index.toNat + k) % 32 = k by omega]

theorem high (slot : BitVec 8) : (slot >>> 5).toNat = slot.toNat / 32 := by
  rw [BitVec.toNat_ushiftRight, Nat.shiftRight_eq_div_pow]

theorem low (slot : BitVec 8) : (slot &&& 31#8).toNat = slot.toNat % 32 := by
  rw [BitVec.toNat_and, show (31#8).toNat = 2 ^ 5 - 1 from rfl, Nat.and_two_pow_sub_one_eq_mod]

theorem slotMask_bit (slot : BitVec 8) {k : ℕ} (h : k < 32) :
    (slotMask slot).getLsbD k = decide (k = slot.toNat % 32) := by
  have hlow : slot.toNat % 32 < 32 := Nat.mod_lt _ (by omega)
  rw [slotMask, BitVec.shiftLeft_eq', low, BitVec.getLsbD_shiftLeft, BitVec.getLsbD_one]
  simp only [h]
  by_cases hk : k = slot.toNat % 32
  · simp [hk]
  · simp [hk]
    omega

theorem hasPending_eq {s : State} {slot : BitVec 8} (h : slot.toNat < 64) :
    hasPending s slot = ready s slot.toNat := by
  have hlow : slot.toNat % 32 < 32 := Nat.mod_lt _ (by omega)
  have hword := word_bit s (slot >>> 5) hlow
  rw [high, Nat.div_add_mod] at hword
  have hge : ¬ PQC_SCHEDULER_SESSIONS ≤ slot.toNat := Nat.not_le.mpr h
  rw [hasPending, if_neg hge, ← hword]
  cases hbit : (s.word (slot >>> 5)).getLsbD (slot.toNat % 32) with
  | false =>
    refine decide_eq_false (not_not.mpr (BitVec.eq_of_getLsbD_eq fun i hi => ?_))
    rw [BitVec.getLsbD_and, slotMask_bit slot hi]
    by_cases hx : i = slot.toNat % 32
    · simp [hx, hbit]
    · simp [hx]
  | true =>
    refine decide_eq_true fun hzero => ?_
    have hand := congrArg (fun v : BitVec 32 => v.getLsbD (slot.toNat % 32)) hzero
    simp only [BitVec.getLsbD_and, slotMask_bit slot hlow, hbit] at hand
    simp at hand

/-- The scheduler's words and array as a queue. -/
structure Holds (s : State) (q : Queue 64 PacketRequest) : Prop where
  cursor : s.nextSlot.toNat = q.cursor.val
  waiting : ∀ x : Fin 64, q.waiting x = if ready s x then s.pending[x.val]? else none

theorem holds_init : Holds init ⟨fun _ => none, 0⟩ := by
  refine ⟨rfl, fun x => ?_⟩
  have hclear : ready init x = false := by
    have hx : x.val / 32 < 2 := by omega
    simp [ready, init, hx]
  simp [hclear]

theorem Holds.idle {s : State} {q : Queue 64 PacketRequest} (h : Holds s q) (x : Fin 64) :
    q.waiting x = none ↔ ready s x = false := by
  have hx : x.val < PQC_SCHEDULER_SESSIONS := x.isLt
  rw [h.waiting]
  cases ready s x <;> simp [hx]

/-- Marking a slot ready changes no other slot. -/
theorem ready_mark (s : State) (slot : BitVec 8) (h : slot.toNat < 64) (x : ℕ) :
    ready (s.setWord (slot >>> 5) (s.word (slot >>> 5) ||| slotMask slot)) x =
      (decide (x = slot.toNat) || ready s x) := by
  have hlow : x % 32 < 32 := Nat.mod_lt _ (by omega)
  rw [ready_setWord _ _ _ (by rw [high]; omega), high]
  by_cases hx : x / 32 = slot.toNat / 32
  · rw [if_pos hx, BitVec.getLsbD_or, slotMask_bit slot hlow, word_bit s _ hlow, high, ← hx,
      Nat.div_add_mod, Bool.or_comm]
    congr 1
    exact decide_eq_decide.mpr (by omega)
  · have hne : x ≠ slot.toNat := fun heq => hx (by rw [heq])
    simp [hx, hne]

theorem ready_clear (s : State) (slot : BitVec 8) (h : slot.toNat < 64) (x : ℕ) :
    ready (s.setWord (slot >>> 5) (s.word (slot >>> 5) &&& ~~~slotMask slot)) x =
      (!decide (x = slot.toNat) && ready s x) := by
  have hlow : x % 32 < 32 := Nat.mod_lt _ (by omega)
  rw [ready_setWord _ _ _ (by rw [high]; omega), high]
  by_cases hx : x / 32 = slot.toNat / 32
  · rw [if_pos hx, BitVec.getLsbD_and, BitVec.getLsbD_not, slotMask_bit slot hlow, word_bit s _ hlow,
      high, ← hx, Nat.div_add_mod, Bool.and_comm]
    simp only [hlow, decide_true, Bool.true_and]
    congr 2
    exact decide_eq_decide.mpr (by omega)
  · have hne : x ≠ slot.toNat := fun heq => hx (by rw [heq])
    simp [hx, hne]

/-- The queue operation a call stands for; a refused argument is none. -/
def Accepts (slot : BitVec 8) (request : PacketRequest) : Prop :=
  slot.toNat < PQC_SCHEDULER_SESSIONS ∧ request.messageLength.toNat ≤ AeadHw.AEAD_HW_PACKET_BYTES

instance (slot : BitVec 8) (request : PacketRequest) : Decidable (Accepts slot request) := by
  unfold Accepts; infer_instance

def place (slot : BitVec 8) : Fin 64 := ⟨slot.toNat % 64, Nat.mod_lt _ (by decide)⟩

theorem place_val {slot : BitVec 8} (h : slot.toNat < 64) : (place slot).val = slot.toNat :=
  Nat.mod_eq_of_lt h

theorem submit_refused {s : State} {slot : BitVec 8} {request : PacketRequest}
    (h : ¬ Accepts slot request) : submit s slot (some request) = (s, -1) := by
  simp only [submit]
  rw [if_pos]
  unfold Accepts at h
  omega

theorem submit_accepts {s : State} {q : Queue 64 PacketRequest} (hs : Holds s q) {slot : BitVec 8}
    {request : PacketRequest} (h : Accepts slot request) :
    (q.waiting (place slot) ≠ none ∧ submit s slot (some request) = (s, 0)) ∨
      (q.waiting (place slot) = none ∧ (submit s slot (some request)).2 = 1 ∧
        Holds (submit s slot (some request)).1
          { q with waiting := Function.update q.waiting (place slot) (some request) }) := by
  obtain ⟨hslot, hlen⟩ := h
  have hslot : slot.toNat < 64 := hslot
  have hnot : ¬ (PQC_SCHEDULER_SESSIONS ≤ slot.toNat ∨
      AeadHw.AEAD_HW_PACKET_BYTES < request.messageLength.toNat) := by
    change ¬ (64 ≤ slot.toNat ∨ _)
    omega
  have hidle := hs.idle (place slot)
  rw [place_val hslot] at hidle
  simp only [submit]
  rw [if_neg hnot, hasPending_eq hslot]
  cases hready : ready s slot.toNat with
  | true =>
    refine Or.inl ⟨fun hnone => ?_, rfl⟩
    simp [hidle.mp hnone] at hready
  | false =>
    refine Or.inr ⟨hidle.mpr hready, rfl, hs.cursor, fun x => ?_⟩
    simp only [Bool.false_eq_true, if_false]
    have hmark := ready_mark { s with pending := s.pending.setIfInBounds slot.toNat request } slot hslot x
    simp only [State.word] at hmark ⊢
    simp only [hmark, ready_store]
    simp only [State.setWord, Vector.getElem?_setIfInBounds]
    by_cases hx : x = place slot
    · have hval : x.val = slot.toNat := hx ▸ place_val hslot
      have hin : slot.toNat < PQC_SCHEDULER_SESSIONS := hslot
      simp [hx, place_val hslot, hin]
    · have hval : x.val ≠ slot.toNat := fun heq => hx (Fin.ext (heq.trans (place_val hslot).symm))
      rw [Function.update_of_ne hx, hs.waiting x]
      simp [hval, Ne.symm hval]

/-- Taking the waiting request nearest to the cursor is one turn of the queue. -/
theorem take_pick {s : State} {q : Queue 64 PacketRequest} (hs : Holds s q) {candidate : BitVec 8}
    (hslot : candidate.toNat < 64) (hready : ready s candidate.toNat = true)
    (hmin : ∀ y : Fin 64, ready s y = true → distance q.cursor (place candidate) ≤ distance q.cursor y) :
    ∃ request, q.pick = some (place candidate, request) ∧
      (take s candidate).2 = some (candidate, request) ∧
      Holds (take s candidate).1
        ⟨Function.update q.waiting (place candidate) none, place candidate + 1⟩ := by
  have hval := place_val hslot
  have hin : candidate.toNat < PQC_SCHEDULER_SESSIONS := hslot
  refine ⟨s.pending[candidate.toNat], pick_eq_some.mpr ⟨?_, fun y hy => hmin y ?_⟩, ?_, ?_, fun x => ?_⟩
  · rw [hs.waiting, hval, hready]
    simp [hin]
  · by_contra hidle
    exact hy ((hs.idle y).mpr (Bool.eq_false_iff.mpr hidle))
  · simp [take, State.setWord, hin]
  · rw [val_succ, hval]
    have hmask : ((candidate + 1) &&& 63#8).toNat = (candidate.toNat + 1) % 64 := by
      rw [BitVec.toNat_and, show (63#8).toNat = 2 ^ 6 - 1 from rfl, Nat.and_two_pow_sub_one_eq_mod,
        BitVec.toNat_add]
      change (candidate.toNat + 1) % 256 % 64 = _
      omega
    change ((candidate + 1) &&& 63#8).toNat = _
    rw [hmask]
    split <;> omega
  · change Function.update q.waiting (place candidate) none x =
      if ready (s.setWord (candidate >>> 5) (s.word (candidate >>> 5) &&& ~~~slotMask candidate)) x
      then s.pending[x.val]? else none
    rw [ready_clear s candidate hslot]
    by_cases hx : x = place candidate
    · simp [hx, hval]
    · have hne : x.val ≠ candidate.toNat := fun heq => hx (Fin.ext (heq.trans hval.symm))
      rw [Function.update_of_ne hx, hs.waiting x]
      simp [hne]

/-- The bit of word `index` found by the loop, as a slot. -/
theorem search {value : BitVec 32} (h : value ≠ 0) (index : BitVec 8) (hindex : index.toNat < 2) :
    ∃ k < 32, (32 * index + firstSetBit value 0 h).toNat = 32 * index.toNat + k ∧
      value.getLsbD k = true ∧ ∀ j < k, value.getLsbD j = false := by
  obtain ⟨k, hk, heq, hset, hleast⟩ := firstSetBit_spec value 0 h
  refine ⟨k, hk, ?_, hset, hleast⟩
  rw [heq, show (0 : BitVec 8) + BitVec.ofNat 8 k = BitVec.ofNat 8 k from BitVec.zero_add _,
    BitVec.toNat_add, BitVec.toNat_mul, BitVec.toNat_ofNat]
  change (32 * index.toNat % 256 + k % 256) % 256 = _
  omega

theorem no_bit {value : BitVec 32} (h : ¬ value ≠ 0) (k : ℕ) : value.getLsbD k = false := by
  rw [not_not.mp h]
  exact BitVec.getLsbD_zero

theorem upper_bit (start : BitVec 8) {k : ℕ} (hk : k < 32) :
    (0xffffffff#32 <<< (start &&& 31)).getLsbD k = decide (start.toNat % 32 ≤ k) := by
  have hlow : start.toNat % 32 < 32 := Nat.mod_lt _ (by omega)
  rw [BitVec.shiftLeft_eq', show start &&& 31 = start &&& 31#8 from rfl, low, BitVec.getLsbD_shiftLeft,
    show 0xffffffff#32 = BitVec.allOnes 32 from rfl, BitVec.getLsbD_allOnes]
  simp only [hk, decide_true, Bool.true_and]
  by_cases hle : start.toNat % 32 ≤ k
  · simp [hle]
    omega
  · simp [hle]

/-- The three searches find the waiting request nearest to the cursor, or there is none. -/
theorem takeNext_cases {s : State} {q : Queue 64 PacketRequest} (hs : Holds s q) :
    (takeNext s = (s, none) ∧ ∀ x : Fin 64, ready s x = false) ∨
      ∃ candidate : BitVec 8, candidate.toNat < 64 ∧ ready s candidate.toNat = true ∧
        (∀ y : Fin 64, ready s y = true → distance q.cursor (place candidate) ≤ distance q.cursor y) ∧
        takeNext s = take s candidate := by
  have hcursor := hs.cursor
  have hstart : s.nextSlot.toNat < 64 := by
    have := q.cursor.isLt
    omega
  have hword : (s.nextSlot >>> 5).toNat = s.nextSlot.toNat / 32 := high _
  have hother : (s.nextSlot >>> 5 ^^^ 1).toNat = 1 - s.nextSlot.toNat / 32 := by
    have hcase : s.nextSlot >>> 5 = 0#8 ∨ s.nextSlot >>> 5 = 1#8 := by
      have hlt : (s.nextSlot >>> 5).toNat = 0 ∨ (s.nextSlot >>> 5).toNat = 1 := by omega
      exact hlt.imp BitVec.eq_of_toNat_eq BitVec.eq_of_toNat_eq
    rw [← hword]
    rcases hcase with hcase | hcase <;> rw [hcase] <;> rfl
  -- a waiting slot as a bit of one of the two words
  have hbit : ∀ y : Fin 64, ready s y = true → ∀ index : BitVec 8, y.val / 32 = index.toNat →
      (s.word index).getLsbD (y.val % 32) = true := by
    intro y hy index hindex
    rw [word_bit s index (Nat.mod_lt _ (by omega)), ← hindex, Nat.div_add_mod]
    exact hy
  -- no bit of the start word at or above the cursor
  have hupper : ∀ y : Fin 64, ready s y = true →
      ¬ s.word (s.nextSlot >>> 5) &&& (0xffffffff#32 <<< (s.nextSlot &&& 31)) ≠ 0 →
      y.val / 32 = s.nextSlot.toNat / 32 → y.val % 32 < s.nextSlot.toNat % 32 := by
    intro y hy h hin
    have hzero := no_bit h (y.val % 32)
    rw [BitVec.getLsbD_and, hbit y hy _ (hin.trans hword.symm), upper_bit _ (Nat.mod_lt _ (by omega)),
      Bool.true_and] at hzero
    exact not_le.mp (of_decide_eq_false hzero)
  have hdistance : ∀ {candidate : BitVec 8} (y : Fin 64), candidate.toNat < 64 →
      (if s.nextSlot.toNat ≤ candidate.toNat then candidate.toNat - s.nextSlot.toNat
        else candidate.toNat + 64 - s.nextSlot.toNat) ≤
      (if s.nextSlot.toNat ≤ y.val then y.val - s.nextSlot.toNat else y.val + 64 - s.nextSlot.toNat) →
      distance q.cursor (place candidate) ≤ distance q.cursor y := by
    intro candidate y hslot hle
    unfold distance
    rwa [place_val hslot, ← hcursor]
  unfold takeNext
  dsimp only
  split
  · rename_i h
    obtain ⟨k, hk, hval, hset, hleast⟩ := search h (s.nextSlot >>> 5) (by omega)
    rw [BitVec.getLsbD_and, upper_bit _ hk, word_bit s _ hk, hword] at hset
    rw [hword] at hval
    obtain ⟨hready, hle⟩ := Bool.and_eq_true_iff.mp hset
    have hlt : s.nextSlot.toNat % 32 ≤ k := of_decide_eq_true hle
    refine Or.inr ⟨_, by omega, by rw [hval]; exact hready, fun y hy => ?_, rfl⟩
    have hbefore : y.val / 32 = s.nextSlot.toNat / 32 → y.val % 32 < k →
        y.val % 32 < s.nextSlot.toNat % 32 := by
      intro hin hlow
      have hzero := hleast _ hlow
      rw [BitVec.getLsbD_and, hbit y hy _ (hin.trans hword.symm),
        upper_bit _ (Nat.mod_lt _ (by omega)), Bool.true_and] at hzero
      exact not_le.mp (of_decide_eq_false hzero)
    refine hdistance y (by omega) ?_
    rw [hval]
    split <;> split <;> omega
  · rename_i hnone
    split
    · rename_i h
      obtain ⟨k, hk, hval, hset, hleast⟩ := search h (s.nextSlot >>> 5 ^^^ 1) (by omega)
      rw [word_bit s _ hk, hother] at hset
      rw [hother] at hval
      refine Or.inr ⟨_, by omega, by rw [hval]; exact hset, fun y hy => ?_, rfl⟩
      have hlow := hupper y hy hnone
      have hbefore : y.val / 32 = 1 - s.nextSlot.toNat / 32 → k ≤ y.val % 32 := by
        intro hin
        by_contra hlt
        have hzero := hleast _ (not_le.mp hlt)
        rw [hbit y hy _ (hin.trans hother.symm)] at hzero
        exact Bool.noConfusion hzero
      refine hdistance y (by omega) ?_
      rw [hval]
      split <;> split <;> omega
    · rename_i hempty
      have hother' : ∀ y : Fin 64, ready s y = true → y.val / 32 ≠ 1 - s.nextSlot.toNat / 32 := by
        intro y hy hin
        have hzero := no_bit hempty (y.val % 32)
        rw [hbit y hy _ (hin.trans hother.symm)] at hzero
        exact Bool.noConfusion hzero
      have hlower : ∀ y : Fin 64, ready s y = true →
          (s.word (s.nextSlot >>> 5) &&& ~~~(0xffffffff#32 <<< (s.nextSlot &&& 31))).getLsbD (y.val % 32) =
            true := by
        intro y hy
        have hlow := hupper y hy hnone
        have hne := hother' y hy
        rw [BitVec.getLsbD_and, BitVec.getLsbD_not, hbit y hy _ (by omega),
          upper_bit _ (Nat.mod_lt _ (by omega))]
        simp
        omega
      split
      · rename_i h
        obtain ⟨k, hk, hval, hset, hleast⟩ := search h (s.nextSlot >>> 5) (by omega)
        rw [BitVec.getLsbD_and, word_bit s _ hk, hword] at hset
        rw [hword] at hval
        refine Or.inr ⟨_, by omega, by rw [hval]; exact (Bool.and_eq_true_iff.mp hset).1,
          fun y hy => ?_, rfl⟩
        have hlow := hupper y hy hnone
        have hne := hother' y hy
        have hfirst : k ≤ y.val % 32 := by
          by_contra hlt
          have hzero := hleast _ (not_le.mp hlt)
          rw [hlower y hy] at hzero
          exact Bool.noConfusion hzero
        refine hdistance y (by omega) ?_
        rw [hval]
        split <;> split <;> omega
      · rename_i h
        refine Or.inl ⟨rfl, fun y => Bool.eq_false_iff.mpr fun hy => ?_⟩
        have hzero := no_bit h (y.val % 32)
        rw [hlower y hy] at hzero
        exact Bool.noConfusion hzero

inductive Call where
  | submit (slot : BitVec 8) (request : Option PacketRequest)
  | takeNext

/-- The scheduler in use; noted are the requests whose submit returned 1 and the requests handed out. -/
def machine : Server State Call (Event (BitVec 8) PacketRequest) where
  step s
    | .submit slot request =>
      let (s, result) := submit s slot request
      (s, if result = 1 then request.toList.map (.accepted slot) else [])
    | .takeNext =>
      let (s, next) := takeNext s
      (s, next.toList.map fun p => .delivered p.1 p.2)

/-- The queue operation a call stands for: none where an argument is refused. -/
def Call.ops : Call → List (Op 64 PacketRequest)
  | .submit slot (some request) => if Accepts slot request then [.submit (place slot) request] else []
  | .submit _ none => []
  | .takeNext => [.take]

def number (x : Fin 64) : BitVec 8 := BitVec.ofNat 8 x

theorem number_val (x : Fin 64) : (number x).toNat = x.val := by
  rw [number, BitVec.toNat_ofNat, Nat.mod_eq_of_lt (by omega)]

theorem number_injective : Function.Injective number := by
  intro x y h
  have hval := congrArg BitVec.toNat h
  rwa [number_val, number_val, ← Fin.ext_iff] at hval

theorem number_place {slot : BitVec 8} (h : slot.toNat < 64) : number (place slot) = slot :=
  BitVec.eq_of_toNat_eq ((number_val _).trans (place_val h))

theorem step_holds {s : State} {q : Queue 64 PacketRequest} (hs : Holds s q) (c : Call) :
    Holds (machine.step s c).1 (server.run q c.ops).1 ∧
      (machine.step s c).2 = (server.run q c.ops).2.map (Event.map number) := by
  cases c with
  | submit slot request =>
    cases request with
    | none => exact ⟨hs, rfl⟩
    | some request =>
      by_cases h : Accepts slot request
      · rw [Call.ops, if_pos h, Server.run_singleton]
        rcases submit_accepts hs h with ⟨hw, heq⟩ | ⟨hw, hone, hnext⟩
        · simp only [machine, server, heq, if_neg hw]
          exact ⟨hs, rfl⟩
        · simp only [machine, server, hone, if_pos hw, if_true]
          refine ⟨hnext, ?_⟩
          simp [Event.map, number_place h.1]
      · simp only [machine, Call.ops, submit_refused h, if_neg h]
        exact ⟨hs, rfl⟩
  | takeNext =>
    rw [Call.ops, Server.run_singleton]
    rcases takeNext_cases hs with ⟨heq, hidle⟩ | ⟨candidate, hslot, hready, hmin, heq⟩
    · have hpick : q.pick = none := pick_eq_none.mpr fun x => (hs.idle x).mpr (hidle x)
      simp only [machine, server, heq, hpick]
      exact ⟨hs, rfl⟩
    · obtain ⟨request, hpick, hout, hnext⟩ := take_pick hs hslot hready hmin
      simp only [machine, server, heq, hpick, hout]
      refine ⟨hnext, ?_⟩
      simp [Event.map, number_place hslot]

/-- Every run of the scheduler is a run of the queue. -/
theorem run_holds {s : State} {q : Queue 64 PacketRequest} (hs : Holds s q) (calls : List Call) :
    Holds (machine.run s calls).1 (server.run q (calls.flatMap Call.ops)).1 ∧
      (machine.run s calls).2 =
        (server.run q (calls.flatMap Call.ops)).2.map (Event.map number) := by
  induction calls generalizing s q with
  | nil => exact ⟨hs, rfl⟩
  | cons c calls ih =>
    obtain ⟨hnext, hout⟩ := step_holds hs c
    obtain ⟨hrun, hlog⟩ := ih hnext
    rw [List.flatMap_cons, Server.run_append, List.map_append, ← hout, ← hlog]
    exact ⟨hrun, rfl⟩

theorem Holds.hasPending {s : State} {q : Queue 64 PacketRequest} (hs : Holds s q) (x : Fin 64) :
    Scheduler.hasPending s (number x) = (q.waiting x).isSome := by
  rw [hasPending_eq (by rw [number_val]; exact x.isLt), number_val]
  have hidle := hs.idle x
  cases hw : q.waiting x with
  | none => simp [hidle.mp hw]
  | some r =>
    cases hready : ready s x with
    | false => simp [hidle.mpr hready] at hw
    | true => rfl

theorem Holds.takeNext {s : State} {q : Queue 64 PacketRequest} (hs : Holds s q) :
    (Scheduler.takeNext s).2 = q.pick.map fun p => (number p.1, p.2) := by
  rcases takeNext_cases hs with ⟨heq, hidle⟩ | ⟨candidate, hslot, hready, hmin, heq⟩
  · rw [heq, pick_eq_none.mpr fun x => (hs.idle x).mpr (hidle x)]
    rfl
  · obtain ⟨request, hpick, hout, -⟩ := take_pick hs hslot hready hmin
    rw [heq, hout, hpick, Option.map_some, number_place hslot]

theorem submit_unchanged (s : State) (slot : BitVec 8) (request : Option PacketRequest) :
    (submit s slot request).2 = 1 ∨ (submit s slot request).1 = s := by
  cases request with
  | none => exact Or.inr rfl
  | some request =>
    simp only [submit]
    split
    · exact Or.inr rfl
    · split
      · exact Or.inr rfl
      · exact Or.inl rfl

/-- The account of a run: per slot the requests handed out are the requests taken in, in order and
unchanged, up to at most one that still waits; and the two queries tell exactly which wait. -/
theorem scheduler_exact (calls : List Call) :
    let s := (machine.run init calls).1
    let log := (machine.run init calls).2
    (∀ slot, delivered slot log <+: accepted slot log ∧
      (accepted slot log).length ≤ (delivered slot log).length + 1) ∧
    ((takeNext s).2 = none ↔ ∀ slot, delivered slot log = accepted slot log) ∧
    (∀ slot, hasPending s slot = true ↔ delivered slot log ≠ accepted slot log) ∧
    ∀ slot request, (submit s slot request).2 = 1 ∨ (submit s slot request).1 = s := by
  intro s log
  obtain ⟨hs, hlog⟩ := run_holds holds_init calls
  set q := (server.run ⟨fun _ => none, 0⟩ (calls.flatMap Call.ops)).1 with hq
  set events := (server.run ⟨fun _ => none, 0⟩ (calls.flatMap Call.ops)).2 with hevents
  have haccount : ∀ x : Fin 64, accepted (number x) log = delivered (number x) log ++ (q.waiting x).toList := by
    intro x
    have hx := account (⟨fun _ => none, 0⟩ : Queue 64 PacketRequest) (calls.flatMap Call.ops) x
    simp only [Option.toList_none, List.nil_append, ← hq, ← hevents] at hx
    rw [show log = _ from hlog, accepted_map number_injective, delivered_map number_injective, hx]
  have houtside : ∀ slot : BitVec 8, ¬ slot.toNat < 64 → accepted slot log = [] ∧ delivered slot log = [] := by
    intro slot hslot
    have hne : ∀ x, number x ≠ slot := by
      rintro x rfl
      exact hslot (by rw [number_val]; exact x.isLt)
    rw [show log = _ from hlog]
    exact ⟨accepted_outside hne _, delivered_outside hne _⟩
  have hequal : ∀ x : Fin 64, delivered (number x) log = accepted (number x) log ↔ q.waiting x = none := by
    intro x
    rw [haccount]
    cases q.waiting x <;> simp
  refine ⟨fun slot => ?_, ?_, fun slot => ?_, submit_unchanged s⟩
  · by_cases hslot : slot.toNat < 64
    · rw [← number_place hslot, haccount]
      refine ⟨List.prefix_append _ _, ?_⟩
      rw [List.length_append]
      cases q.waiting (place slot) <;> simp
    · simp [houtside slot hslot]
  · rw [hs.takeNext, Option.map_eq_none_iff, pick_eq_none]
    constructor
    · intro h slot
      by_cases hslot : slot.toNat < 64
      · rw [← number_place hslot, hequal]
        exact h _
      · rw [(houtside slot hslot).1, (houtside slot hslot).2]
    · intro h x
      exact (hequal x).mp (h _)
  · by_cases hslot : slot.toNat < 64
    · rw [← number_place hslot, hs.hasPending, Option.isSome_iff_ne_none, ne_eq, ne_eq, not_iff_not,
        hequal]
    · rw [(houtside slot hslot).1, (houtside slot hslot).2]
      have hge : PQC_SCHEDULER_SESSIONS ≤ slot.toNat := Nat.not_lt.mp hslot
      simp [hasPending, hge]

/-- The slots from the cursor on, once around. -/
def circular (s : State) : List (BitVec 8) :=
  (List.range PQC_SCHEDULER_SESSIONS).map fun k =>
    BitVec.ofNat 8 ((s.nextSlot.toNat + k) % PQC_SCHEDULER_SESSIONS)

theorem Holds.circular {s : State} {q : Queue 64 PacketRequest} (hs : Holds s q) :
    Scheduler.circular s = ((List.finRange 64).map (q.cursor + ·)).map number := by
  rw [Scheduler.circular, show PQC_SCHEDULER_SESSIONS = 64 from rfl, ← List.map_coe_finRange_eq_range,
    List.map_map, List.map_map]
  refine List.map_congr_left fun k _ => ?_
  simp [number, hs.cursor, Fin.val_add]

/-- The order of service: always the first waiting slot from the cursor on, so that every other slot
is served at most once before a request that waits. -/
theorem scheduler_fair (calls : List Call) :
    let s := (machine.run init calls).1
    s.nextSlot.toNat < PQC_SCHEDULER_SESSIONS ∧
    (takeNext s).2.map Prod.fst = (circular s).find? (hasPending s) ∧
    ∀ slot request, (submit s slot request).2 = 1 → ∀ later,
      let order := turns (machine.run (submit s slot request).1 later).2
      slot ∉ order → order.Nodup ∧ order.length ≤ PQC_SCHEDULER_SESSIONS - 1 := by
  intro s
  obtain ⟨hs, -⟩ := run_holds holds_init calls
  set q := (server.run ⟨fun _ => none, 0⟩ (calls.flatMap Call.ops)).1
  refine ⟨?_, ?_, fun slot request hone later => ?_⟩
  · rw [hs.cursor]
    exact q.cursor.isLt
  · rw [hs.takeNext, hs.circular, List.find?_map, Option.map_map,
      show Prod.fst ∘ (fun p : Fin 64 × PacketRequest => (number p.1, p.2)) = number ∘ Prod.fst from rfl,
      ← Option.map_map, pick_slot]
    congr 2
    funext x
    exact (hs.hasPending x).symm
  · intro order hslot
    obtain ⟨r, rfl, hr⟩ : ∃ r, request = some r ∧ Accepts slot r := by
      cases request with
      | none => exact absurd hone (show ¬ (-1 : ℤ) = 1 by decide)
      | some r =>
        refine ⟨r, rfl, ?_⟩
        by_contra hr
        rw [submit_refused hr] at hone
        exact absurd hone (show ¬ (-1 : ℤ) = 1 by decide)
    rcases submit_accepts hs hr with ⟨-, heq⟩ | ⟨-, -, hnext⟩
    · rw [heq] at hone
      exact absurd hone (show ¬ (0 : ℤ) = 1 by decide)
    · obtain ⟨-, hlog⟩ := run_holds hnext later
      obtain ⟨served, hserved⟩ : ∃ served, turns (server.run
          { q with waiting := Function.update q.waiting (place slot) (some r) }
          (later.flatMap Call.ops)).2 = served := ⟨_, rfl⟩
      have hturns : order = served.map number := by
        rw [← hserved]
        exact (congrArg turns hlog).trans (turns_map _)
      rw [hturns] at hslot ⊢
      have hx : place slot ∉ served := by
        intro hin
        exact hslot (List.mem_map.mpr ⟨_, hin, number_place hr.1⟩)
      rw [← hserved] at hx
      obtain ⟨honce, hlen⟩ := bypassed_once (by simp) _ hx
      rw [hserved] at honce hlen
      refine ⟨honce.map number_injective, ?_⟩
      rw [List.length_map]
      exact Nat.le_sub_one_of_lt hlen

/-- Slot 3 comes before slot 5, whose request was there first. -/
theorem scheduler_fair_bypassed :
    let later : List Call := [.submit 3 (some .zero), .takeNext]
    let order := turns (machine.run (submit init 5 (some .zero)).1 later).2
    order = [3] ∧ order.Nodup ∧ order.length ≤ PQC_SCHEDULER_SESSIONS - 1 := by
  intro later order
  have horder : order = [3] := by decide +kernel
  exact ⟨horder, (scheduler_fair []).2.2 5 (some .zero) (by decide +kernel) later
    (by change 5 ∉ order; rw [horder]; decide)⟩

end Scheduler

end ZedSecure
