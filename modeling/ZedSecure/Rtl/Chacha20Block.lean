import Mathlib
import ZedSecure.Crypto.Rfc8439
import ZedSecure.Rtl.AeadEngine

/-! `chacha20_block`: one ChaCha20 block in 40 half-round steps and a feed-forward addition.
A quarter round takes two steps, and all four columns or diagonals take the same step. -/

namespace ZedSecure

open Clocked

namespace Chacha20Block

open Rfc8439 (Words)

def rotl32 (value : BitVec 32) (amount : ℕ) : BitVec 32 :=
  (value <<< amount) ||| (value >>> (32 - amount))

/-- The half of a quarter round that `second` selects. -/
def quarterRoundHalf (second : Bool) (a b c d : Fin 16) (s : Words) : Words :=
  let rotate (s : Words) (x y : Fin 16) n := s.set x (rotl32 (s.get x ^^^ s.get y) n) (Rfc8439.index_lt x)
  if !second then
    let s := rotate (Rfc8439.add s a b) d a 16
    rotate (Rfc8439.add s c d) b c 12
  else
    let s := rotate (Rfc8439.add s a b) d a 8
    rotate (Rfc8439.add s c d) b c 7

structure State where
  initialState : Words
  workingState : Words
  stepIndex : BitVec 6
  busy : Bool
  done : Bool
  block : BitVec 512

def State.init : State := ⟨.replicate 16 0, .replicate 16 0, 0, false, false, 0⟩

/-- `round_state`: bit 1 of the step picks columns or diagonals, bit 0 the half. -/
def roundState (s : State) : Words :=
  let half := quarterRoundHalf (s.stepIndex.getLsbD 0)
  if !s.stepIndex.getLsbD 1 then
    half 3 7 11 15 (half 2 6 10 14 (half 1 5 9 13 (half 0 4 8 12 s.workingState)))
  else
    half 3 4 9 14 (half 2 7 8 13 (half 1 6 11 12 (half 0 5 10 15 s.workingState)))

/-- The words a start loads into both state arrays. -/
def load (x : ChachaIn) : Words := Vector.ofFn fun i =>
  if i = 0 then 0x61707865#32
  else if i = 1 then 0x3320646e#32
  else if i = 2 then 0x79622d32#32
  else if i = 3 then 0x6b206574#32
  else if i.val < 12 then slice x.key (32 * (i.val - 4)) 32
  else if i = 12 then x.blockCounter
  else slice x.nonce (32 * (i.val - 13)) 32

/-- The words as the block output, word 0 lowest. -/
def output (w : Words) : BitVec 512 := join 32 16 fun j => w[Fin.ofNat 16 j]

def next (s : State) (start : Option ChachaIn) : State :=
  let f := { s with done := false }
  match start, s.busy with
  | some x, false =>
    { f with initialState := load x, workingState := load x, stepIndex := 0#6, busy := true }
  | _, true =>
    if s.stepIndex = 40#6 then
      { f with block := output (s.workingState.zipWith (· + ·) s.initialState), busy := false, done := true }
    else { f with workingState := roundState s, stepIndex := s.stepIndex + 1#6 }
  | none, false => f

end Chacha20Block

end ZedSecure
