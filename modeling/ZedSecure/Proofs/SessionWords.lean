import Mathlib.Tactic.IntervalCases
import ZedSecure.Spec.SessionTable

/-! A session as 23 words: the words determine it, capturing a word sets that word
only, a counter update touches two words, and words of different slots never share
an address of the memory. -/

namespace ZedSecure

open Clocked SessionManager

@[simp] theorem Session.get_set_self (e : Session) (f : Field) (x : BitVec (32 * f.words)) :
    (e.set f x).get f = x := by cases f <;> rfl

theorem Session.get_set_of_ne (e : Session) {f g : Field} (x : BitVec (32 * f.words)) (h : g ≠ f) :
    (e.set f x).get g = e.get g := by
  cases f <;> cases g <;> first | rfl | exact absurd rfl h

theorem Session.ext_get {a b : Session} (h : ∀ f, a.get f = b.get f) : a = b := by
  cases a; cases b
  simp only [Session.mk.injEq]
  exact ⟨h .sessionId, h .txKey, h .rxKey, h .txPrefix, h .rxPrefix, h .txCounter, h .rxCounter⟩

/-- The first word of a field. -/
def Field.first : Field → ℕ
  | .sessionId => 0
  | .txKey => 1
  | .rxKey => 9
  | .txPrefix => 17
  | .rxPrefix => 18
  | .txCounter => 19
  | .rxCounter => 21

theorem wordPlace_some {w : ℕ} {f : Field} {k : ℕ} (h : wordPlace w = some (f, k)) :
    w = f.first + k ∧ k < f.words := by
  unfold wordPlace at h
  split_ifs at h <;> cases h <;> simp only [Field.first, Field.words] <;> omega

theorem wordPlace_first (f : Field) {k : ℕ} (hk : k < f.words) :
    wordPlace (f.first + k) = some (f, k) := by
  cases f <;> simp only [Field.words] at hk <;> interval_cases k <;> rfl

theorem wordPlace_isSome {w : ℕ} (h : w < 23) : ∃ f k, wordPlace w = some (f, k) := by
  interval_cases w <;> exact ⟨_, _, rfl⟩

namespace Session

theorem word_first (e : Session) (f : Field) {k : ℕ} (hk : k < f.words) :
    e.word (f.first + k) = slice (e.get f) (32 * k) 32 := by simp only [word, wordPlace_first f hk]

theorem word_capture (e : Session) {v w : ℕ} (d : BitVec 32) (hv : v < 23) (hw : w < 23) :
    (e.capture v d).word w = if w = v then d else e.word w := by
  obtain ⟨f, j, hf⟩ := wordPlace_isSome hv
  obtain ⟨g, k, hg⟩ := wordPlace_isSome hw
  obtain ⟨rfl, hj⟩ := wordPlace_some hf
  obtain ⟨rfl, hk⟩ := wordPlace_some hg
  simp only [capture, word, hf, hg]
  by_cases hfg : g = f
  · subst hfg
    rw [get_set_self]
    by_cases hjk : k = j
    · subst hjk
      rw [if_pos rfl]
      exact slice_patch_self _ _ _ (by omega)
    · rw [if_neg (by omega)]
      exact slice_patch_of_disjoint _ _ _ _ (by omega) (by omega)
  · rw [get_set_of_ne _ _ hfg, if_neg]
    intro heq
    rw [heq, hf] at hg
    exact hfg (by cases hg; rfl)

theorem capture_reserved (e : Session) (d : BitVec 32) : e.capture 23 d = e := rfl

/-- Sessions that agree on all words are the same. -/
theorem ext_word {a b : Session} (h : ∀ w < 23, a.word w = b.word w) : a = b := by
  refine ext_get fun f => eq_of_slices _ _ fun k hk => ?_
  have hlt : f.first + k < 23 := by cases f <;> simp only [Field.first, Field.words] at hk ⊢ <;> omega
  simpa only [word_first _ f hk] using h _ hlt

def counterField (decrypt : Bool) : Field := if decrypt then .rxCounter else .txCounter

theorem advance_eq (e : Session) (d : Bool) :
    e.advance d = e.set (counterField d) (cast (by cases d <;> rfl) (e.counter d + 1#64)) := by
  cases d <;> rfl

/-- The words the counter of a direction is kept in. -/
def counterLo (decrypt : Bool) : ℕ := if decrypt then 21 else 19

def counterHi (decrypt : Bool) : ℕ := if decrypt then 22 else 20

theorem word_advance_lo (e : Session) (d : Bool) :
    (e.advance d).word (counterLo d) = slice (e.counter d + 1#64) 0 32 := by cases d <;> rfl

theorem word_advance_hi (e : Session) (d : Bool) :
    (e.advance d).word (counterHi d) = slice (e.counter d + 1#64) 32 32 := by cases d <;> rfl

theorem word_advance_of_ne (e : Session) (d : Bool) {w : ℕ} (hw : w < 23)
    (hlo : w ≠ counterLo d) (hhi : w ≠ counterHi d) : (e.advance d).word w = e.word w := by
  obtain ⟨f, k, hf⟩ := wordPlace_isSome hw
  obtain ⟨rfl, hk⟩ := wordPlace_some hf
  rw [word_first _ _ hk, word_first _ _ hk]
  cases d <;> cases f <;>
    first
    | rfl
    | (simp [Field.words, counterLo, counterHi, Field.first] at hk hlo hhi; omega)

theorem word_fresh {n : ℕ} (c : Config n) (w : ℕ) : (fresh c).word w = configWord c w := by
  have hz : ∀ lo, slice (0#64) lo 32 = 0#32 := fun lo => by simp [slice]
  have h32 : ∀ x : BitVec 32, slice x 0 32 = x := fun x => by simp [slice]
  unfold word configWord wordPlace
  split_ifs <;> first | rfl | exact h32 _ | exact hz _

end Session

/-- The address of word `w` of a slot. -/
def wordAddr {n : ℕ} (slot : BitVec (slotWidth n)) (w : ℕ) : BitVec (memAddrWidth n) :=
  slotBase slot + BitVec.ofNat _ w

theorem toNat_wordAddr {n : ℕ} {slot : BitVec (slotWidth n)} {w : ℕ} (hs : slot.toNat < n)
    (hw : w < 24) : (wordAddr slot w).toNat = slot.toNat * 24 + w := by
  have hle : n * 24 ≤ 2 ^ memAddrWidth n := Nat.le_pow_clog (by omega) _
  have hlt : slot.toNat * 24 + w < 2 ^ memAddrWidth n := by omega
  simp only [wordAddr, slotBase, WORDS_PER_SESSION, BitVec.toNat_add, BitVec.toNat_ofNat]
  rw [Nat.mod_eq_of_lt (by omega : slot.toNat * 24 < _), Nat.mod_eq_of_lt (by omega : w < _),
    Nat.mod_eq_of_lt hlt]

theorem wordAddr_inj {n : ℕ} {s s' : BitVec (slotWidth n)} {w w' : ℕ} (hs : s.toNat < n)
    (hs' : s'.toNat < n) (hw : w < 24) (hw' : w' < 24) (h : wordAddr s w = wordAddr s' w') :
    s = s' ∧ w = w' := by
  have ht := congrArg BitVec.toNat h
  rw [toNat_wordAddr hs hw, toNat_wordAddr hs' hw'] at ht
  exact ⟨BitVec.eq_of_toNat_eq (by omega), by omega⟩

/-- The address adders of the memory port. -/
theorem wordAddr_eq {n : ℕ} (slot : BitVec (slotWidth n)) (w : BitVec 5) :
    slotBase slot + w.setWidth (memAddrWidth n) = wordAddr slot w.toNat := by
  rw [wordAddr, BitVec.ofNat_toNat]

end ZedSecure
