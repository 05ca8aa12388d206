import ZedSecure.Rtl.DecapsEngine
import ZedSecure.Rtl.DecapsFrontend

/-! The polynomial memory as the controllers see it, and what it holds after a run of writes to ascending
addresses. -/

namespace ZedSecure

open Clocked

/-- The polynomial memory and the read register of the port the controllers share. -/
structure PolyRam where
  mem : BitVec 12 → BitVec 16
  rdata : BitVec 16

namespace PolyRam

def next (m : PolyRam) (p : PolyPort) : PolyRam :=
  { mem := DecapsMemory.write m.mem (p.we && p.addr.toNat < 3072) p.addr p.wdata
    rdata := m.mem p.addr }

/-- What `mlkem_decaps_memory` keeps of it. -/
def ofMemory (s : DecapsMemory.State) : PolyRam := ⟨s.polyMem, s.polyRdata⟩

/-- Without a host write to the polynomials, the memory goes on as the port says. -/
theorem ofMemory_next (s : DecapsMemory.State) (h : DecapsMemory.Host) (p : DecapsMemory.Ports)
    (hhost : DecapsMemory.hostWrites h 2 = false) :
    ofMemory (DecapsMemory.next s h p) = next (ofMemory s) ⟨p.polyWe, p.polyAddr, p.polyWdata⟩ := by
  simp only [ofMemory, DecapsMemory.next, next, DecapsMemory.write, hhost, Bool.false_and, Bool.false_eq_true, if_false]

/-- The memory after the words from `lo` on have been written, `k` of them. -/
def fillWords (mem : BitVec 12 → BitVec 16) (lo k : ℕ) (f : ℕ → BitVec 16) : BitVec 12 → BitVec 16 :=
  fun a => if lo ≤ a.toNat ∧ a.toNat < lo + k then f (a.toNat - lo) else mem a

section Fill

variable (mem : BitVec 12 → BitVec 16) (f : ℕ → BitVec 16) {lo k n : ℕ}

@[simp] theorem fillWords_zero : fillWords mem lo 0 f = mem := by
  funext a
  exact if_neg (by omega)

theorem fillWords_ofNat (hn : n < 4096) : fillWords mem lo k f (BitVec.ofNat 12 n) =
    if lo ≤ n ∧ n < lo + k then f (n - lo) else mem (BitVec.ofNat 12 n) := by
  simp only [fillWords, BitVec.toNat_ofNat, Nat.mod_eq_of_lt hn]

theorem fillWords_of_ne {a : BitVec 12} (ha : ∀ i < k, a ≠ BitVec.ofNat 12 (lo + i)) :
    fillWords mem lo k f a = mem a := by
  apply if_neg
  rintro ⟨hlo, hhi⟩
  apply ha (a.toNat - lo) (by omega)
  rw [Nat.add_sub_cancel' hlo, BitVec.ofNat_toNat, BitVec.setWidth_eq]

theorem update_fillWords (hk : lo + k < 4096) :
    Function.update (fillWords mem lo k f) (BitVec.ofNat 12 (lo + k)) (f k) = fillWords mem lo (k + 1) f := by
  funext a
  by_cases ha : a = BitVec.ofNat 12 (lo + k)
  · subst ha
    rw [Function.update_self, fillWords_ofNat _ _ hk, if_pos (by omega), Nat.add_sub_cancel_left]
  · rw [Function.update_of_ne ha]
    have hne : a.toNat ≠ lo + k := by
      intro h
      rw [← h, BitVec.ofNat_toNat, BitVec.setWidth_eq] at ha
      exact ha rfl
    have hiff : (lo ≤ a.toNat ∧ a.toNat < lo + k) ↔ (lo ≤ a.toNat ∧ a.toNat < lo + (k + 1)) := by omega
    simp only [fillWords, hiff]

/-- A write to the next word goes on with the filling. -/
theorem next_fillWords {m : PolyRam} (hm : m.mem = fillWords mem lo k f) (hk : lo + k < 3072) {p : PolyPort}
    (hwe : p.we = true) (haddr : p.addr = BitVec.ofNat 12 (lo + k)) (hdata : p.wdata = f k) :
    (m.next p).mem = fillWords mem lo (k + 1) f := by
  have hlt : p.addr.toNat < 3072 := by
    rw [haddr, BitVec.toNat_ofNat]
    omega
  simp only [next, DecapsMemory.write, hwe, hlt, decide_true, Bool.and_true, if_true, hm]
  rw [haddr, hdata]
  exact update_fillWords mem f (by omega)

theorem next_mem_of_not_we {m : PolyRam} {p : PolyPort} (hwe : p.we = false) : (m.next p).mem = m.mem := by
  simp [next, DecapsMemory.write, hwe]

end Fill

/-- Word `i` of a slot. -/
def slotAddr (slot : BitVec 4) (i : ℕ) : BitVec 12 := BitVec.ofNat 12 (slot.toNat * 256 + i)

/-- The memory after the first `k` words of a slot have been written. -/
def fillSlot (mem : BitVec 12 → BitVec 16) (slot : BitVec 4) (k : ℕ) (f : ℕ → BitVec 16) :
    BitVec 12 → BitVec 16 := fillWords mem (slot.toNat * 256) k f

section Slots

variable {slot : BitVec 4} {i k : ℕ}

theorem slotAddr_append (slot : BitVec 4) (i : BitVec 8) : slot ++ i = slotAddr slot i.toNat := by
  have hs := slot.isLt
  have hi := i.isLt
  apply BitVec.eq_of_toNat_eq
  rw [toNat_append, slotAddr, BitVec.toNat_ofNat, Nat.mod_eq_of_lt (by omega)]
  rfl

variable (mem : BitVec 12 → BitVec 16) (f : ℕ → BitVec 16)

theorem fillSlot_slotAddr (d : BitVec 4) (hi : i < 256) (hk : k ≤ 256) :
    fillSlot mem d k f (slotAddr slot i) = if slot = d ∧ i < k then f i else mem (slotAddr slot i) := by
  have hs := slot.isLt
  rw [fillSlot, slotAddr, fillWords_ofNat _ _ (by omega)]
  have hiff : (d.toNat * 256 ≤ slot.toNat * 256 + i ∧ slot.toNat * 256 + i < d.toNat * 256 + k) ↔
      (slot = d ∧ i < k) := by
    rw [← BitVec.toNat_inj]
    omega
  by_cases h : slot = d ∧ i < k
  · rw [if_pos (hiff.mpr h), if_pos h, h.1, Nat.add_sub_cancel_left]
  · rw [if_neg (mt hiff.mp h), if_neg h]

end Slots

end PolyRam

end ZedSecure
