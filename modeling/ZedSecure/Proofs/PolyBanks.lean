import Mathlib.Tactic.IntervalCases
import ZedSecure.Spec.PolyLoops

/-! The two parity banks as one bank. The addresses of a butterfly have opposite parities, so both its reads and both
its writes find a port. -/

namespace ZedSecure

open Clocked

namespace PolyAccelerator

section Parity

/-- An address again from its parity and its upper bits. -/
def address (p : Bool) (i : BitVec 7) : BitVec 8 := i ++ BitVec.ofBool (p ^^ parity (i ++ 0#1))

theorem address_parity : ∀ x : BitVec 8, address (parity x) (index x) = x := by decide +kernel

theorem index_inj {x y : BitVec 8} (hp : parity x = parity y) (hi : index x = index y) : x = y := by
  rw [← address_parity x, ← address_parity y, hp, hi]

/-- The spans of the layers. -/
def spans : List ℕ := [2, 4, 8, 16, 32, 64, 128]

theorem parity_pair : ∀ span ∈ spans, ∀ x < 256, x % (2 * span) < span →
    parity (BitVec.ofNat 8 (x + span)) = !parity (BitVec.ofNat 8 x) := by decide +kernel

theorem parity_even : ∀ i < 128, parity (BitVec.ofNat 8 (2 * i + 1)) = !parity (BitVec.ofNat 8 (2 * i)) := by
  decide +kernel

end Parity

namespace Half

/-- What the two parity banks hold together. -/
def join (a0 a1 : BitVec 7 → BitVec 16) : Coeffs := fun x => if parity x then a1 (index x) else a0 (index x)

def bankA (h : Half) : Coeffs := join h.bankA0 h.bankA1

variable {a0 a1 : BitVec 7 → BitVec 16} {x : BitVec 8} {h : Half} {p : Port}

theorem join_update0 (hx : parity x = false) (v : BitVec 16) :
    join (Function.update a0 (index x) v) a1 = Function.update (join a0 a1) x v := by
  funext y
  by_cases hy : y = x
  · subst hy
    simp only [join, hx, Bool.false_eq_true, if_false, Function.update_self]
  · rw [Function.update_of_ne hy]
    simp only [join]
    cases hp : parity y
    · rw [if_neg (by decide), if_neg (by decide), Function.update_of_ne fun hi => hy (index_inj (hp.trans hx.symm) hi)]
    · rfl

theorem join_update1 (hx : parity x = true) (v : BitVec 16) :
    join a0 (Function.update a1 (index x) v) = Function.update (join a0 a1) x v := by
  funext y
  by_cases hy : y = x
  · subst hy
    simp only [join, hx, if_true, Function.update_self]
  · rw [Function.update_of_ne hy]
    simp only [join]
    cases hp : parity y
    · rfl
    · rw [if_pos rfl, if_pos rfl, Function.update_of_ne fun hi => hy (index_inj (hp.trans hx.symm) hi)]

theorem join_store (we : Bool) (v : BitVec 16) :
    join (store a0 (we && !parity x) (index x) v) (store a1 (we && parity x) (index x) v) =
      store (join a0 a1) we x v := by
  cases we
  · rfl
  · cases hp : parity x
    · exact join_update0 hp v
    · exact join_update1 hp v

theorem compute_bankA_pair (h0 : p.aWe0 = true) (h1 : p.aWe1 = true) (hp : parity p.aWaddr1 = !parity p.aWaddr0) :
    (h.compute p).bankA = Function.update (Function.update h.bankA p.aWaddr0 p.aWdin0) p.aWaddr1 p.aWdin1 := by
  cases hw : parity p.aWaddr0
  · rw [hw, Bool.not_false] at hp
    simp only [bankA, compute, store, hw, h0, h1, if_true, Bool.false_eq_true, if_false]
    rw [join_update1 hp, join_update0 hw]
  · rw [hw, Bool.not_true] at hp
    simp only [bankA, compute, store, hw, h0, h1, if_true]
    rw [join_update0 hp, join_update1 hw]

theorem compute_bankA_one (h0 : p.aWe0 = true) (h1 : p.aWe1 = false) :
    (h.compute p).bankA = Function.update h.bankA p.aWaddr0 p.aWdin0 := by
  cases hw : parity p.aWaddr0
  · simp only [bankA, compute, store, hw, h0, h1, if_true, Bool.false_eq_true, if_false]
    rw [join_update0 hw]
  · simp only [bankA, compute, store, hw, h0, h1, if_true, Bool.false_eq_true, if_false]
    rw [join_update1 hw]

theorem compute_bankA_none (h0 : p.aWe0 = false) (h1 : p.aWe1 = false) : (h.compute p).bankA = h.bankA := by
  cases hw : parity p.aWaddr0
  · simp only [bankA, compute, store, hw, h0, h1, Bool.false_eq_true, if_false]
  · simp only [bankA, compute, store, hw, h0, h1, if_true, Bool.false_eq_true, if_false]

theorem compute_bankR_none (h0 : p.rWe0 = false) (h1 : p.rWe1 = false) : (h.compute p).bankR = h.bankR := by
  simp only [compute, store, h0, h1, Bool.false_eq_true, if_false]

/-- A host write goes to one bank. -/
theorem host_bankA (i : In) : (h.host p i).bankA = store h.bankA (i.hostWe && i.hostBank = 0) i.hostAddr i.hostWdata :=
  join_store _ _

end Half

section Edges

variable {s : State} {i : In} {v : Bool}

theorem next_half (hv : i.set = v) : (next s i).half v = (s.half v).compute (port s) := by
  simp only [next, hv, if_true]

theorem next_other (hv : i.set = v) : (next s i).half (!v) = (s.half (!v)).host (port s) i := by
  simp only [next, hv, Bool.not_eq_self, if_false]

theorem retire_reads (c : Ctrl) (f : Flow) (p : Port) :
    (retire c f p).aRaddr0 = p.aRaddr0 ∧ (retire c f p).aRaddr1 = p.aRaddr1 ∧ (retire c f p).bAddr0 = p.bAddr0 ∧
      (retire c f p).bAddr1 = p.bAddr1 := by
  unfold retire
  cases f.vldD 4 <;> cases f.vldD 5 <;> cases c.state <;> exact ⟨rfl, rfl, rfl, rfl⟩

theorem retireR_reads (m : Basemul) (p : Port) :
    (retireR m p).aRaddr0 = p.aRaddr0 ∧ (retireR m p).aRaddr1 = p.aRaddr1 ∧ (retireR m p).bAddr0 = p.bAddr0 ∧
      (retireR m p).bAddr1 = p.bAddr1 := by
  unfold retireR
  cases m.vldD 8 <;> exact ⟨rfl, rfl, rfl, rfl⟩

theorem port_aRaddr0 (s : State) : (port s).aRaddr0 = (reads s.ctrl).aRaddr0 :=
  (retireR_reads _ _).1.trans (retire_reads _ _ _).1

theorem port_aRaddr1 (s : State) : (port s).aRaddr1 = (reads s.ctrl).aRaddr1 :=
  (retireR_reads _ _).2.1.trans (retire_reads _ _ _).2.1

theorem port_bAddr0 (s : State) : (port s).bAddr0 = (reads s.ctrl).bAddr0 :=
  (retireR_reads _ _).2.2.1.trans (retire_reads _ _ _).2.2.1

theorem port_bAddr1 (s : State) : (port s).bAddr1 = (reads s.ctrl).bAddr1 :=
  (retireR_reads _ _).2.2.2.trans (retire_reads _ _ _).2.2.2

theorem aDout0_next (hv : i.set = v) : aDout0 (next s i) = (s.half v).bankA (reads s.ctrl).aRaddr0 := by
  have hsel : (next s i).aRselQ = parity (reads s.ctrl).aRaddr0 := congrArg parity (port_aRaddr0 s)
  have hset : (next s i).setQ = v := hv
  rw [aDout0, hset, next_half hv, hsel, Half.bankA, Half.join, Half.compute, port_aRaddr0]
  cases parity (reads s.ctrl).aRaddr0 <;> rfl

theorem aDout1_next (hv : i.set = v) (hp : parity (reads s.ctrl).aRaddr1 = !parity (reads s.ctrl).aRaddr0) :
    aDout1 (next s i) = (s.half v).bankA (reads s.ctrl).aRaddr1 := by
  have hsel : (next s i).aRselQ = parity (reads s.ctrl).aRaddr0 := congrArg parity (port_aRaddr0 s)
  have hset : (next s i).setQ = v := hv
  rw [aDout1, hset, next_half hv, hsel, Half.bankA, Half.join, Half.compute, port_aRaddr0, port_aRaddr1, hp]
  cases parity (reads s.ctrl).aRaddr0 <;> rfl

theorem bDout_next (hv : i.set = v) : ((next s i).half (next s i).setQ).bDout0 = (s.half v).bankB (reads s.ctrl).bAddr0 ∧
    ((next s i).half (next s i).setQ).bDout1 = (s.half v).bankB (reads s.ctrl).bAddr1 := by
  have hset : (next s i).setQ = v := hv
  rw [hset, next_half hv, ← port_bAddr0, ← port_bAddr1]
  exact ⟨rfl, rfl⟩

end Edges

end PolyAccelerator

end ZedSecure
