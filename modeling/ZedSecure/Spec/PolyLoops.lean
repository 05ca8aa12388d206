import ZedSecure.Rtl.PolyAccelerator

/-! The transforms and the base multiplication as plain loops, one butterfly after the other. -/

namespace ZedSecure

namespace PolyLoops

open PolyAccelerator

/-- A product on its way through the three stages of the Montgomery reduction. -/
def fqmul (x z : BitVec 16) : BitVec 16 := fqResult (product x z) (montMultiplier (product x z))

def barrett (sum : BitVec 16) : BitVec 16 := barrettResult sum (barrettTemp (barrettAccum sum))

/-- `body` for `k = 0, 1, ..., n - 1` -/
def loop {α : Type*} (n : ℕ) (body : α → ℕ → α) (a : α) : α := (List.range n).foldl body a

def butterfly (z : BitVec 16) (i j : BitVec 8) (f : Coeffs) : Coeffs :=
  Function.update (Function.update f i (f i + fqmul (f j) z)) j (f i - fqmul (f j) z)

def inverseButterfly (z : BitVec 16) (i j : BitVec 8) (f : Coeffs) : Coeffs :=
  Function.update (Function.update f i (barrett (f i + f j))) j (fqmul (f j - f i) z)

/-- One layer: blocks of `2 * span` coefficients, each with the next zeta from `k` on. -/
def nttLayer (span k : ℕ) (f : Coeffs) : Coeffs :=
  loop (128 / span) (fun f b => loop span (fun f j =>
    butterfly (zetas (k + b)) (BitVec.ofNat 8 (2 * span * b + j)) (BitVec.ofNat 8 (2 * span * b + j + span)) f) f) f

def ntt (f : Coeffs) : Coeffs := loop 7 (fun f l => nttLayer (128 >>> l) (1 <<< l) f) f

def scale (f : Coeffs) : Coeffs :=
  loop 256 (fun f j => Function.update f (BitVec.ofNat 8 j) (fqmul (f (BitVec.ofNat 8 j)) 1441#16)) f

/-- One layer of the inverse, the zetas going down from `k`. -/
def inttLayer (span k : ℕ) (f : Coeffs) : Coeffs :=
  loop (128 / span) (fun f b => loop span (fun f j =>
    inverseButterfly (zetas (k - b)) (BitVec.ofNat 8 (2 * span * b + j)) (BitVec.ofNat 8 (2 * span * b + j + span)) f) f) f

def intt (f : Coeffs) : Coeffs := loop 7 (fun f l => inttLayer (2 <<< l) ((128 >>> l) - 1) f) (scale f)

/-- The factor of a pair: neighbouring pairs share a root up to its sign. -/
def pairZeta (i : ℕ) : BitVec 16 := if i % 2 = 1 then -zetas (64 + i / 2) else zetas (64 + i / 2)

def basemul (a b r : Coeffs) : Coeffs :=
  loop 128 (fun r i =>
    let lo := BitVec.ofNat 8 (2 * i)
    let hi := BitVec.ofNat 8 (2 * i + 1)
    Function.update (Function.update r lo (fqmul (fqmul (a hi) (b hi)) (pairZeta i) + fqmul (a lo) (b lo)))
      hi (fqmul (a lo) (b hi) + fqmul (a hi) (b lo))) r

/-- The three banks of a half. -/
structure Banks where
  a : Coeffs
  b : Coeffs
  r : Coeffs

namespace Banks

/-- A command of the unit. -/
def command (c : BitVec 2) (m : Banks) : Banks :=
  if c = 0 then { m with a := ntt m.a }
  else if c = 1 then { m with a := intt m.a }
  else { m with r := basemul m.a m.b m.r }

/-- What the host port does at an edge. -/
def hostWrite (m : Banks) (i : In) : Banks :=
  if i.hostWe then
    if i.hostBank = 0 then { m with a := Function.update m.a i.hostAddr i.hostWdata }
    else if i.hostBank = 1 then { m with b := Function.update m.b i.hostAddr i.hostWdata }
    else { m with r := Function.update m.r i.hostAddr i.hostWdata }
  else m

/-- The word the host port reads. -/
def hostRead (m : Banks) (bank : BitVec 2) (x : BitVec 8) : BitVec 16 :=
  if bank = 0 then m.a x else if bank = 1 then m.b x else m.r x

end Banks

/-- The edges from the start of a command to its `done_o`. -/
def cycles (c : BitVec 2) : ℕ := if c = 0 then 925 else if c = 1 then 1192 else 137

end PolyLoops

end ZedSecure
