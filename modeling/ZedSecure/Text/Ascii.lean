import Mathlib.Tactic.Common
import Mathlib.Tactic.IntervalCases
import Mathlib.Tactic.Ring

/-! Lines of text as lists of characters: numbers in decimal and hexadecimal, and words with spaces
between them. -/

namespace Ascii

abbrev Text := List Char

def decimal (n : ℕ) : Text := Nat.toDigits 10 n

/-- Two lower-case digits a byte. -/
def hexBytes (bs : List UInt8) : Text :=
  bs.flatMap fun b => [Nat.digitChar (b.toNat / 16), Nat.digitChar (b.toNat % 16)]

/-- The lowest `k` hexadecimal digits of a number. -/
def hexPadded : ℕ → ℕ → Text
  | 0, _ => []
  | k + 1, x => hexPadded k (x / 16) ++ [Nat.digitChar (x % 16)]

/-- The non-empty pieces between separators. -/
def words (sep : Char → Bool) (s : Text) : List Text := (s.splitOnP sep).filter (· ≠ [])

def unwords : List Text → Text
  | [] => []
  | [w] => w
  | w :: ws => w ++ ' ' :: unwords ws

/-- A digit of `base`, in lower case. -/
def Digit (base : ℕ) (c : Char) : Prop := ∃ d < base, c = Nat.digitChar d

theorem Digit.mono {base base' : ℕ} {c : Char} (h : Digit base c) (hle : base ≤ base') : Digit base' c := by
  obtain ⟨d, hd, rfl⟩ := h
  exact ⟨d, by omega, rfl⟩

/-- What holds of the sixteen digits holds of a digit. -/
theorem Digit.of_forall {P : Char → Prop} (hall : ∀ d < 16, P (Nat.digitChar d)) {c : Char} (h : Digit 16 c) :
    P c := by
  obtain ⟨d, hd, rfl⟩ := h
  exact hall d hd

theorem digit_decimal {n : ℕ} {c : Char} (h : c ∈ decimal n) : Digit 10 c := by
  induction n using Nat.strong_induction_on with
  | _ n ih =>
    rw [decimal, Nat.toDigits_eq_if (by decide)] at h
    split_ifs at h with hlt
    · exact ⟨n, hlt, List.mem_singleton.mp h⟩
    · rcases List.mem_append.mp h with h | h
      · exact ih (n / 10) (by omega) h
      · exact ⟨n % 10, by omega, List.mem_singleton.mp h⟩

theorem digit_hexPadded {k x : ℕ} {c : Char} (h : c ∈ hexPadded k x) : Digit 16 c := by
  induction k generalizing x with
  | zero => simp [hexPadded] at h
  | succ k ih =>
    rcases List.mem_append.mp h with h | h
    · exact ih h
    · exact ⟨x % 16, by omega, List.mem_singleton.mp h⟩

theorem digit_hexBytes {bs : List UInt8} {c : Char} (h : c ∈ hexBytes bs) : Digit 16 c := by
  obtain ⟨b, -, hb⟩ := List.mem_flatMap.mp h
  have hlt := b.toNat_lt
  rcases List.mem_cons.mp hb with rfl | hb
  · exact ⟨_, by omega, rfl⟩
  · exact ⟨_, by omega, List.mem_singleton.mp hb⟩

@[simp] theorem length_hexPadded (k x : ℕ) : (hexPadded k x).length = k := by
  induction k generalizing x with
  | zero => rfl
  | succ k ih => simp [hexPadded, ih]

@[simp] theorem length_hexBytes (bs : List UInt8) : (hexBytes bs).length = 2 * bs.length := by
  induction bs with
  | nil => rfl
  | cons b bs ih =>
    rw [hexBytes, List.flatMap_cons, List.length_append, ← hexBytes, ih]
    simp
    omega

theorem decimal_ne_nil (n : ℕ) : decimal n ≠ [] := Nat.toDigits_ne_nil

theorem length_decimal_le {n k : ℕ} (hk : 0 < k) (h : n < 10 ^ k) : (decimal n).length ≤ k :=
  (Nat.length_toDigits_le_iff (by decide) hk).mpr h

/-- The number a text of digits stands for, `val` giving the value of a digit. -/
def number (val : Char → ℕ) (base acc : ℕ) (s : Text) : ℕ := s.foldl (fun a c => a * base + val c) acc

theorem number_snoc (val : Char → ℕ) (base acc : ℕ) (s : Text) (c : Char) :
    number val base acc (s ++ [c]) = number val base acc s * base + val c := by
  simp [number]

section Number

variable {val : Char → ℕ} (hval : ∀ d < 16, val (Nat.digitChar d) = d)

include hval

theorem number_decimal (n : ℕ) : number val 10 0 (decimal n) = n := by
  induction n using Nat.strong_induction_on with
  | _ n ih =>
    rw [decimal, Nat.toDigits_eq_if (by decide)]
    split_ifs with hlt
    · simp [number, hval n (by omega)]
    · rw [number_snoc, ← decimal, ih (n / 10) (by omega), hval (n % 10) (by omega)]
      omega

theorem number_hexPadded (k x acc : ℕ) : number val 16 acc (hexPadded k x) = acc * 16 ^ k + x % 16 ^ k := by
  induction k generalizing x with
  | zero => simp [number, hexPadded, Nat.mod_one]
  | succ k ih =>
    rw [hexPadded, number_snoc, ih, hval (x % 16) (by omega), pow_succ, Nat.mul_comm (16 ^ k) 16, Nat.mod_mul]
    ring

end Number

section Words

variable {sep : Char → Bool}

/-- A word: not empty, and without a separator. -/
def Word (sep : Char → Bool) (w : Text) : Prop := w ≠ [] ∧ ∀ c ∈ w, sep c = false

theorem words_unwords (hspace : sep ' ' = true) {ws : List Text} (h : ∀ w ∈ ws, Word sep w) :
    words sep (unwords ws) = ws := by
  induction ws with
  | nil => simp [words, unwords]
  | cons w ws ih =>
    obtain ⟨hne, hsep⟩ := h w (by simp)
    have hrest := ih fun v hv => h v (List.mem_cons_of_mem _ hv)
    cases ws with
    | nil =>
      rw [words, unwords, List.splitOnP_eq_singleton hsep]
      simp [hne]
    | cons v vs =>
      rw [words, unwords, List.splitOnP_append_cons_of_forall_mem hsep _ hspace]
      rw [List.filter_cons_of_pos (by simpa using hne)]
      exact congrArg (w :: ·) hrest
      · simp

theorem mem_unwords {ws : List Text} {c : Char} (h : c ∈ unwords ws) : c = ' ' ∨ ∃ w ∈ ws, c ∈ w := by
  induction ws with
  | nil => simp [unwords] at h
  | cons w ws ih =>
    cases ws with
    | nil => exact Or.inr ⟨w, by simp, h⟩
    | cons v vs =>
      rw [unwords] at h
      rcases List.mem_append.mp h with h | h
      · exact Or.inr ⟨w, by simp, h⟩
      rcases List.mem_cons.mp h with h | h
      · exact Or.inl h
      rcases ih h with h | ⟨u, hu, hc⟩
      · exact Or.inl h
      · exact Or.inr ⟨u, List.mem_cons_of_mem _ hu, hc⟩
      · simp

end Words

end Ascii
