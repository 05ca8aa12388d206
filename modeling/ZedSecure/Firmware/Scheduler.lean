import Mathlib
import ZedSecure.Firmware.AeadHw

/-! `pqc_session_scheduler.c`: one packet per session waits for the engine, and the ready bits of the
sessions stand in two 32-bit words. The scheduler and the places for results are never NULL. -/

namespace ZedSecure

namespace Scheduler

def PQC_SCHEDULER_SESSIONS : ℕ := AeadHw.AEAD_HW_MAX_SESSIONS

structure PacketRequest where
  decrypt : BitVec 8
  messageLength : BitVec 8
  packetCounter : BitVec 64
  data : Vector (BitVec 8) AeadHw.AEAD_HW_PACKET_BYTES
  tag : Vector (BitVec 8) AeadHw.AEAD_HW_TAG_BYTES
  deriving DecidableEq

structure State where
  readyBitmap : Vector (BitVec 32) 2
  nextSlot : BitVec 8
  pending : Vector PacketRequest PQC_SCHEDULER_SESSIONS

/-- An access outside the arrays is undefined in C; here it reads zero and writes nothing. -/
def State.word (s : State) (index : BitVec 8) : BitVec 32 := s.readyBitmap[index.toNat]?.getD 0

def State.setWord (s : State) (index : BitVec 8) (value : BitVec 32) : State :=
  { s with readyBitmap := s.readyBitmap.setIfInBounds index.toNat value }

def PacketRequest.zero : PacketRequest := ⟨0, 0, 0, Vector.replicate _ 0, Vector.replicate _ 0⟩

theorem shift_ne_zero {value : BitVec 32} (h : value ≠ 0) (heven : value &&& 1 = 0) :
    value >>> 1 ≠ 0 ∧ (value >>> 1).toNat < value.toNat := by
  have hbit : value.toNat % 2 = 0 := by
    have := congrArg BitVec.toNat heven
    rwa [BitVec.toNat_and, show (1 : BitVec 32).toNat = 2 ^ 1 - 1 from rfl, Nat.and_two_pow_sub_one_eq_mod] at this
  have hhalf : (value >>> 1).toNat = value.toNat / 2 := by
    rw [BitVec.toNat_ushiftRight, Nat.shiftRight_eq_div_pow]
  have hpos : value.toNat ≠ 0 := fun hz => h (BitVec.eq_of_toNat_eq hz)
  refine ⟨fun hz => ?_, by omega⟩
  rw [hz] at hhalf
  change 0 = _ at hhalf
  omega

def slotMask (slot : BitVec 8) : BitVec 32 := 1#32 <<< (slot &&& 31#8)

/-- The loop never ends on zero, so a caller hands over the proof of its check. -/
def firstSetBit (value : BitVec 32) (bit : BitVec 8) (h : value ≠ 0) : BitVec 8 :=
  if heven : value &&& 1 = 0 then firstSetBit (value >>> 1) (bit + 1) (shift_ne_zero h heven).1
  else bit
termination_by value.toNat
decreasing_by exact (shift_ne_zero h heven).2

/-- `pqc_scheduler_init` -/
def init : State := ⟨Vector.replicate _ 0, 0, Vector.replicate _ .zero⟩

def hasPending (s : State) (slot : BitVec 8) : Bool :=
  if PQC_SCHEDULER_SESSIONS ≤ slot.toNat then false
  else s.word (slot >>> 5) &&& slotMask slot ≠ 0

/-- `pqc_scheduler_submit`; a NULL request is nothing. -/
def submit (s : State) (slot : BitVec 8) (request : Option PacketRequest) : State × ℤ :=
  match request with
  | none => (s, -1)
  | some request =>
    if PQC_SCHEDULER_SESSIONS ≤ slot.toNat ∨
        AeadHw.AEAD_HW_PACKET_BYTES < request.messageLength.toNat then (s, -1)
    else if hasPending s slot then (s, 0)
    else
      let s := { s with pending := s.pending.setIfInBounds slot.toNat request }
      (s.setWord (slot >>> 5) (s.word (slot >>> 5) ||| slotMask slot), 1)

/-- The tail of `pqc_scheduler_take_next`, once a candidate is found. -/
def take (s : State) (candidate : BitVec 8) : State × Option (BitVec 8 × PacketRequest) :=
  let mask := slotMask candidate
  let word := candidate >>> 5
  let s := s.setWord word (s.word word &&& ~~~mask)
  let s := { s with nextSlot := (candidate + 1) &&& 63#8 }
  (s, some (candidate, s.pending[candidate.toNat]?.getD .zero))

/-- `pqc_scheduler_take_next`; nothing is the return value 0. -/
def takeNext (s : State) : State × Option (BitVec 8 × PacketRequest) :=
  let start := s.nextSlot
  let startWord := start >>> 5
  let otherWord := startWord ^^^ 1
  let startBit := start &&& 31
  let candidates := s.word startWord &&& (0xffffffff#32 <<< startBit)
  if h : candidates ≠ 0 then take s (32 * startWord + firstSetBit candidates 0 h)
  else if h : s.word otherWord ≠ 0 then take s (32 * otherWord + firstSetBit (s.word otherWord) 0 h)
  else
    let candidates := s.word startWord &&& ~~~(0xffffffff#32 <<< startBit)
    if h : candidates ≠ 0 then take s (32 * startWord + firstSetBit candidates 0 h) else (s, none)

end Scheduler

end ZedSecure
