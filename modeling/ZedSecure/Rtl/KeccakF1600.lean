import Mathlib.Logic.Function.Basic
import ZedSecure.Clocked.Words

/-! `keccak_f1600`: one round of the permutation in each clock, on 25 lanes of 64 bits. -/

namespace ZedSecure

open Clocked

namespace KeccakF1600

def rotl64 (v : BitVec 64) (amount : ℕ) : BitVec 64 :=
  if amount = 0 then v else (v <<< amount) ||| (v >>> (64 - amount))

def rhoOffset : ℕ → ℕ
  | 0 => 0 | 1 => 1 | 2 => 62 | 3 => 28 | 4 => 27 | 5 => 36 | 6 => 44 | 7 => 6
  | 8 => 55 | 9 => 20 | 10 => 3 | 11 => 10 | 12 => 43 | 13 => 25 | 14 => 39 | 15 => 41
  | 16 => 45 | 17 => 15 | 18 => 21 | 19 => 8 | 20 => 18 | 21 => 2 | 22 => 61 | 23 => 56
  | _ => 14

def roundConstant (r : BitVec 5) : BitVec 64 :=
  match r.toNat with
  | 0 => 0x0000000000000001#64 | 1 => 0x0000000000008082#64 | 2 => 0x800000000000808a#64
  | 3 => 0x8000000080008000#64 | 4 => 0x000000000000808b#64 | 5 => 0x0000000080000001#64
  | 6 => 0x8000000080008081#64 | 7 => 0x8000000000008009#64 | 8 => 0x000000000000008a#64
  | 9 => 0x0000000000000088#64 | 10 => 0x0000000080008009#64 | 11 => 0x000000008000000a#64
  | 12 => 0x000000008000808b#64 | 13 => 0x800000000000008b#64 | 14 => 0x8000000000008089#64
  | 15 => 0x8000000000008003#64 | 16 => 0x8000000000008002#64 | 17 => 0x8000000000000080#64
  | 18 => 0x000000000000800a#64 | 19 => 0x800000008000000a#64 | 20 => 0x8000000080008081#64
  | 21 => 0x8000000000008080#64 | 22 => 0x0000000080000001#64
  | _ => 0x8000000080008008#64

section Comb

variable (a : ℕ → BitVec 64)

/-- Theta. -/
def thetaLanes (i : ℕ) : BitVec 64 :=
  let c x := a x ^^^ a (x + 5) ^^^ a (x + 10) ^^^ a (x + 15) ^^^ a (x + 20)
  let d x := c ((x + 4) % 5) ^^^ rotl64 (c ((x + 1) % 5)) 1
  a i ^^^ d (i % 5)

/-- Rho and Pi: the loop writes each lane, rotated, at its new place. -/
def rhoPiLanes : ℕ → BitVec 64 :=
  (List.range 25).foldl (fun b i =>
    let x := i % 5
    let y := i / 5
    Function.update b (y + 5 * ((2 * x + 3 * y) % 5)) (rotl64 (a i) (rhoOffset i))) fun _ => 0

/-- Chi. -/
def chiLanes (i : ℕ) : BitVec 64 :=
  let x := i % 5
  let y := i / 5
  a i ^^^ (~~~(a ((x + 1) % 5 + 5 * y)) &&& a ((x + 2) % 5 + 5 * y))

/-- Iota. -/
def iotaLanes (roundIndex : BitVec 5) (i : ℕ) : BitVec 64 :=
  if i = 0 then a 0 ^^^ roundConstant roundIndex else a i

end Comb

structure State where
  stateReg : BitVec 1600
  roundIndex : BitVec 5
  busy : Bool
  done : Bool
  stateO : BitVec 1600

def State.init : State := ⟨0, 0, false, false, 0⟩

/-- `next_state` -/
def nextState (s : State) : BitVec 1600 :=
  join 64 25 (iotaLanes (chiLanes (rhoPiLanes (thetaLanes fun i => slice s.stateReg (64 * i) 64)))
    s.roundIndex)

def next (s : State) (start : Option (BitVec 1600)) : State :=
  let f := { s with done := false }
  match start, s.busy with
  | some x, false => { f with stateReg := x, roundIndex := 0#5, busy := true }
  | _, true =>
    if s.roundIndex = 23#5 then { f with stateO := nextState s, busy := false, done := true }
    else { f with stateReg := nextState s, roundIndex := s.roundIndex + 1#5 }
  | none, false => f

end KeccakF1600

end ZedSecure
