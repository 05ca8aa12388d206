import Mathlib.Data.Fin.Basic
import Mathlib.Logic.Function.Iterate
import ZedSecure.Crypto.LittleEndian

/-! Keccak, the sponge and the SHA-3 functions as FIPS 202 states them, bit by bit. A string of
1600 bits is a bit vector whose bit `i` is `S[i]`; other strings are lists of bits. -/

namespace Fips202

open LittleEndian

/-- A string with zeros up to 1600 bits. -/
def extend (bits : List Bool) : BitVec 1600 := (BitVec.ofBoolListLE bits).setWidth 1600

section Permutation

/-- `A[x, y, z]` -/
abbrev StateArray := Fin 5 → Fin 5 → Fin 64 → Bool

def array (S : BitVec 1600) : StateArray := fun x y z => S.getLsbD (64 * (5 * y.val + x.val) + z.val)

def string (A : StateArray) : BitVec 1600 := extend <| (List.range 1600).map fun i =>
  A (Fin.ofNat 5 (i / 64)) (Fin.ofNat 5 (i / 320)) (Fin.ofNat 64 i)

theorem getLsbD_extend (bits : List Bool) {i : ℕ} (h : i < 1600) :
    (extend bits).getLsbD i = bits.getD i false := by
  rw [extend, BitVec.getLsbD_setWidth, BitVec.getLsbD_ofBoolListLE]
  simp [h]

theorem string_array (S : BitVec 1600) : string (array S) = S := by
  apply BitVec.eq_of_getLsbD_eq
  intro i hi
  have hplace : 64 * (5 * (i / 320 % 5) + i / 64 % 5) + i % 64 = i := by omega
  rw [string, getLsbD_extend _ hi]
  simp [hi, array, hplace]

def theta (A : StateArray) : StateArray :=
  let C x z := A x 0 z ^^ A x 1 z ^^ A x 2 z ^^ A x 3 z ^^ A x 4 z
  let D x z := C (x - 1) z ^^ C (x + 1) (z - 1)
  fun x y z => A x y z ^^ D x z

/-- The lane that `rho` comes to at step `t`. -/
def rhoLane : ℕ → Fin 5 × Fin 5
  | 0 => (1, 0)
  | t + 1 => ((rhoLane t).2, 2 * (rhoLane t).1 + 3 * (rhoLane t).2)

/-- How far `rho` rotates a lane. -/
def rhoOffset (x y : Fin 5) : ℕ :=
  match (List.range 24).find? fun t => rhoLane t = (x, y) with
  | some t => (t + 1) * (t + 2) / 2
  | none => 0

def rho (A : StateArray) : StateArray := fun x y z => A x y (z - Fin.ofNat 64 (rhoOffset x y))

def pi (A : StateArray) : StateArray := fun x y z => A (x + 3 * y) x z

def chi (A : StateArray) : StateArray := fun x y z => A x y z ^^ (!A (x + 1) y z && A (x + 2) y z)

/-- One shift of the register `R`, bit `i` of the vector being `R[i]`. -/
def lfsr (R : BitVec 8) : BitVec 8 := if R.getLsbD 7 then (R <<< 1) ^^^ 0x71#8 else R <<< 1

def rc (t : ℕ) : Bool := (lfsr^[t % 255] 1#8).getLsbD 0

/-- Bit `z` of `RC` in round `ir`. -/
def roundConstant (ir : ℕ) (z : Fin 64) : Bool :=
  match (List.range 7).find? fun j => z.val = 2 ^ j - 1 with
  | some j => rc (j + 7 * ir)
  | none => false

def iota (ir : ℕ) (A : StateArray) : StateArray := fun x y z =>
  if x = 0 ∧ y = 0 then A x y z ^^ roundConstant ir z else A x y z

/-- `Rnd` -/
def round (S : BitVec 1600) (ir : ℕ) : BitVec 1600 :=
  string (iota ir (chi (pi (rho (theta (array S))))))

/-- `KECCAK-f[1600]` -/
def keccakF (S : BitVec 1600) : BitVec 1600 := (List.range 24).foldl round S

end Permutation

section Sponge

/-- `pad10*1`: the padding of a message of `m` bits to a multiple of `x`. -/
def pad101 (x m : ℕ) : List Bool := true :: List.replicate ((x - (m + 2) % x) % x) false ++ [true]

/-- `Trunc_r` -/
def trunc (r : ℕ) (S : BitVec 1600) : List Bool := (List.range r).map S.getLsbD

/-- The strings of length `r` that `P` is made of. -/
def blocks (r : ℕ) (P : List Bool) : List (List Bool) :=
  (List.range (P.length / r)).map fun i => (P.drop (r * i)).take r

def absorb (r : ℕ) (P : List Bool) : BitVec 1600 :=
  (blocks r P).foldl (fun S block => keccakF (S ^^^ extend block)) 0

/-- The first `d` bits of `Trunc_r(S) ‖ Trunc_r(f(S)) ‖ ...`. -/
def squeeze (r d : ℕ) (S : BitVec 1600) : List Bool :=
  ((List.range (d / r + 1)).flatMap fun i => trunc r (keccakF^[i] S)).take d

/-- `KECCAK[c]` -/
def keccak (c : ℕ) (N : List Bool) (d : ℕ) : List Bool :=
  squeeze (1600 - c) d (absorb (1600 - c) (N ++ pad101 (1600 - c) N.length))

end Sponge

section Functions

inductive Mode where
  | sha3_256 | sha3_512 | shake128 | shake256
  deriving DecidableEq

def Mode.capacity : Mode → ℕ
  | .sha3_256 => 512
  | .sha3_512 => 1024
  | .shake128 => 256
  | .shake256 => 512

/-- The bits between the message and the padding. -/
def Mode.suffix : Mode → List Bool
  | .sha3_256 | .sha3_512 => [false, true]
  | .shake128 | .shake256 => [true, true, true, true]

/-- The bits of a byte string, each byte from its lowest bit. -/
def bitsOf (bs : Bytes) : List Bool := bs.flatMap fun b => (List.range 8).map b.toNat.testBit

def bytesOf (n : ℕ) (bits : List Bool) : Bytes :=
  (List.range n).map fun i =>
    UInt8.ofNat ((List.range 8).foldr (fun j v => 2 * v + (bits.getD (8 * i + j) false).toNat) 0)

/-- The first `n` bytes of the function's output. -/
def hash (mode : Mode) (message : Bytes) (n : ℕ) : Bytes :=
  bytesOf n (keccak mode.capacity (bitsOf message ++ mode.suffix) (8 * n))

end Functions

end Fips202
