import ZedSecure.Firmware.UartDemo
import ZedSecure.Pc.BoardLink

/-! The two ends of the UART read what the other one writes: numbers, byte strings, and lines of
words. -/

namespace ZedSecure

open Ascii LittleEndian

section Python

open Python (digitVal digits dropMarker int fromHex isSpace strip decodeAscii)

theorem digitVal_digitChar : ∀ d < 16, digitVal (Nat.digitChar d) = d := by decide

theorem digits_eq {base : ℕ} {s : Text} (hne : s ≠ []) (h : ∀ c ∈ s, digitVal c < base ∧ c ≠ '_') (acc : ℕ) :
    digits base acc s = some (number digitVal base acc s) := by
  induction s generalizing acc with
  | nil => exact absurd rfl hne
  | cons c s ih =>
    have hc := (h c (by simp)).1
    cases s with
    | nil => simp [digits, hc, number]
    | cons d s =>
      have hd := (h d (by simp)).2
      have hrec := ih (by simp) (fun x hx => h x (List.mem_cons_of_mem _ hx)) (acc * base + digitVal c)
      rw [digits, if_pos hc, hrec]
      · rfl
      · exact hd

theorem dropMarker_eq {base : ℕ} {s : Text} (h : ∀ c ∈ s, c ≠ 'x' ∧ c ≠ 'X') : dropMarker base s = s := by
  unfold dropMarker
  split
  · rename_i x cs
    obtain ⟨h1, h2⟩ := h x (by simp)
    simp [h1, h2]
  · rename_i x cs hx
    obtain ⟨h1, h2⟩ := h x (by simp)
    simp [h1, h2]
  · rfl

/-- `int` of digits. -/
theorem int_digits {base : ℕ} {s : Text} (hbase : base ≤ 16) (hne : s ≠ []) (h : ∀ c ∈ s, Digit base c) :
    int base s = some (number digitVal base 0 s : ℤ) := by
  have hmark : ∀ c ∈ s, c ≠ 'x' ∧ c ≠ 'X' := fun c hc =>
    ((h c hc).mono hbase).of_forall (P := fun c => c ≠ 'x' ∧ c ≠ 'X') (by decide)
  have hsign : ∀ c ∈ s, c ≠ '-' ∧ c ≠ '+' := fun c hc =>
    ((h c hc).mono hbase).of_forall (P := fun c => c ≠ '-' ∧ c ≠ '+') (by decide)
  have hdigits : ∀ c ∈ s, digitVal c < base ∧ c ≠ '_' := by
    intro c hc
    refine ⟨?_, ((h c hc).mono hbase).of_forall (P := fun c => c ≠ '_') (by decide)⟩
    obtain ⟨d, hd, rfl⟩ := h c hc
    rw [digitVal_digitChar d (by omega)]
    exact hd
  unfold int
  split
  · exact absurd rfl (hsign _ (by simp)).1
  · exact absurd rfl (hsign _ (by simp)).2
  · rw [dropMarker_eq hmark, digits_eq hne hdigits]
    rfl

theorem int_decimal (n : ℕ) : int 10 (decimal n) = some (n : ℤ) := by
  rw [int_digits (by decide) (decimal_ne_nil n) fun _ hc => digit_decimal hc, number_decimal digitVal_digitChar]

theorem int_hexPadded {k : ℕ} (hk : 0 < k) {x : ℕ} (hx : x < 16 ^ k) : int 16 (hexPadded k x) = some (x : ℤ) := by
  have hne : hexPadded k x ≠ [] := by
    rw [← List.length_pos_iff, length_hexPadded]
    exact hk
  rw [int_digits le_rfl hne fun _ hc => digit_hexPadded hc, number_hexPadded digitVal_digitChar, Nat.mod_eq_of_lt hx]
  simp

theorem fromHex_hexBytes (bs : Bytes) : fromHex (hexBytes bs) = some bs := by
  induction bs with
  | nil => rfl
  | cons b bs ih =>
    have hb := b.toNat_lt
    have hhi := digitVal_digitChar (b.toNat / 16) (by omega)
    have hlo := digitVal_digitChar (b.toNat % 16) (by omega)
    have hbyte : UInt8.ofNat (b.toNat / 16 * 16 + b.toNat % 16) = b := by
      rw [Nat.div_add_mod', UInt8.ofNat_toNat]
    rw [hexBytes, List.flatMap_cons, ← hexBytes]
    simp only [List.cons_append, List.nil_append, fromHex, hhi, hlo]
    rw [if_pos (by omega), ih, hbyte]
    rfl

theorem isSpace_digitChar : ∀ d < 16, isSpace (Nat.digitChar d) = false := by decide

theorem head_unwords {ws : List Text} (hne : ws ≠ []) (h : ∀ w ∈ ws, Word isSpace w) :
    ∃ c s, unwords ws = c :: s ∧ isSpace c = false := by
  obtain ⟨w, ws, rfl⟩ := List.exists_cons_of_ne_nil hne
  obtain ⟨hw, hsep⟩ := h w (by simp)
  obtain ⟨c, s, rfl⟩ := List.exists_cons_of_ne_nil hw
  cases ws with
  | nil => exact ⟨c, s, rfl, hsep c (by simp)⟩
  | cons v vs => exact ⟨c, _, rfl, hsep c (by simp)⟩

theorem last_unwords {ws : List Text} (hne : ws ≠ []) (h : ∀ w ∈ ws, Word isSpace w) :
    ∃ c s, unwords ws = s ++ [c] ∧ isSpace c = false := by
  induction ws with
  | nil => exact absurd rfl hne
  | cons w ws ih =>
    cases ws with
    | nil =>
      obtain ⟨hw, hsep⟩ := h w (by simp)
      refine ⟨w.getLast hw, w.dropLast, (List.dropLast_append_getLast hw).symm, hsep _ (List.getLast_mem hw)⟩
    | cons v vs =>
      obtain ⟨c, s, hs, hc⟩ := ih (by simp) fun u hu => h u (List.mem_cons_of_mem _ hu)
      exact ⟨c, w ++ ' ' :: s, by rw [unwords, hs]; simp; simp, hc⟩

/-- `strip` takes the line end off. -/
theorem strip_printed {ws : List Text} (hne : ws ≠ []) (h : ∀ w ∈ ws, Word isSpace w) :
    strip (UartDemo.printed ws) = unwords ws := by
  obtain ⟨c, s, hcs, hc⟩ := head_unwords hne h
  obtain ⟨d, t, hdt, hd⟩ := last_unwords hne h
  have hfront : (UartDemo.printed ws).dropWhile isSpace = unwords ws ++ ['\r', '\n'] := by
    rw [UartDemo.printed, hcs, List.cons_append, List.dropWhile_cons_of_neg (by simpa using hc)]
  have hback : (unwords ws ++ ['\r', '\n']).reverse.dropWhile isSpace = (unwords ws).reverse := by
    rw [List.reverse_append, hdt, List.reverse_append]
    have hend : ['\r', '\n'].reverse.dropWhile isSpace = [] := by decide
    simp [List.dropWhile, hd, show isSpace '\n' = true by decide, show isSpace '\r' = true by decide]
  rw [strip, hfront, hback, List.reverse_reverse]

/-- The bytes of a text on the wire. -/
def ascii (s : Text) : Bytes := s.map fun c => UInt8.ofNat c.toNat

theorem decodeAscii_ascii {s : Text} (h : ∀ c ∈ s, c.toNat < 128) : decodeAscii (ascii s) = s := by
  rw [decodeAscii, ascii, List.map_map]
  refine (List.map_congr_left fun c hc => ?_).trans (List.map_id s)
  have hlt := h c hc
  have hnat : (UInt8.ofNat c.toNat).toNat = c.toNat := by
    rw [UInt8.toNat_ofNat']
    omega
  have hsmall : UInt8.ofNat c.toNat < 128 := by
    rw [UInt8.lt_iff_toNat_lt, hnat]
    exact hlt
  simp only [Function.comp_apply, if_pos hsmall, hnat, Char.ofNat_toNat]
  rfl

end Python

section Firmware

open UartDemo

theorem hexNibble_digitChar : ∀ d < 16, hexNibble (Nat.digitChar d) = some d := by decide

theorem decodePairs_hexBytes (bs : Bytes) : decodePairs (hexBytes bs) = some bs := by
  induction bs with
  | nil => rfl
  | cons b bs ih =>
    have hb := b.toNat_lt
    have hhi := hexNibble_digitChar (b.toNat / 16) (by omega)
    have hlo := hexNibble_digitChar (b.toNat % 16) (by omega)
    have hbyte : UInt8.ofNat (b.toNat / 16 * 16 + b.toNat % 16) = b := by
      rw [Nat.div_add_mod', UInt8.ofNat_toNat]
    rw [hexBytes, List.flatMap_cons, ← hexBytes]
    simp only [List.cons_append, List.nil_append, decodePairs, hhi, hlo, ih, hbyte]

theorem decodeHexExact_hexBytes (bs : Bytes) : decodeHexExact (some (hexBytes bs)) bs.length = some bs := by
  rw [decodeHexExact, length_hexBytes]
  simp [decodePairs_hexBytes]

theorem shift_nibble (a d : ℕ) (hd : d < 16) :
    BitVec.ofNat 64 a <<< 4 ||| BitVec.ofNat 64 d = BitVec.ofNat 64 (a * 16 + d) := by
  apply BitVec.eq_of_toNat_eq
  have hhigh : (a % 2 ^ 64) <<< 4 % 2 ^ 64 = (a % 2 ^ 60) <<< 4 := by
    rw [Nat.shiftLeft_eq, Nat.shiftLeft_eq]
    omega
  rw [BitVec.toNat_or, BitVec.toNat_shiftLeft, BitVec.toNat_ofNat, BitVec.toNat_ofNat, BitVec.toNat_ofNat, hhigh,
    Nat.mod_eq_of_lt (by omega : d < 2 ^ 64), ← Nat.shiftLeft_add_eq_or_of_lt hd, Nat.shiftLeft_eq]
  omega

theorem parseU64Hex_hexPadded (x : BitVec 64) : parseU64Hex (some (hexPadded 16 x.toNat)) = some x := by
  have key : ∀ k m, (hexPadded k m).foldlM (fun (result : BitVec 64) c => (hexNibble c).map fun nibble =>
      result <<< 4 ||| BitVec.ofNat 64 nibble) 0 = some (BitVec.ofNat 64 (m % 16 ^ k)) := by
    intro k
    induction k with
    | zero => exact fun m => by simp [hexPadded, Nat.mod_one]
    | succ k ih =>
      intro m
      rw [hexPadded, List.foldlM_append, ih]
      have hmod : m / 16 % 16 ^ k * 16 + m % 16 = m % 16 ^ (k + 1) := by
        rw [pow_succ, Nat.mul_comm (16 ^ k) 16, Nat.mod_mul]
        ring
      simp [hexNibble_digitChar (m % 16) (by omega), shift_nibble _ _ (by omega : m % 16 < 16), hmod]
  have hx := key 16 x.toNat
  rw [Nat.mod_eq_of_lt (by have := x.isLt; omega), BitVec.ofNat_toNat, BitVec.setWidth_eq] at hx
  simp only [parseU64Hex, length_hexPadded]
  exact hx

theorem parseDecimal_decimal {n maximum : ℕ} (h : n ≤ maximum) : parseDecimal (some (decimal n)) maximum = some n := by
  set step := fun (result : ℕ) (c : Char) =>
    if c < '0' ∨ '9' < c then none
    else
      let result := 10 * result + (c.toNat - '0'.toNat)
      if maximum < result then none else some result
  have hdigit : ∀ d < 10, ¬ (Nat.digitChar d < '0' ∨ '9' < Nat.digitChar d) ∧
      (Nat.digitChar d).toNat - '0'.toNat = d := by decide
  have hstep : ∀ r d, d < 10 → 10 * r + d ≤ maximum → step r (Nat.digitChar d) = some (10 * r + d) := by
    intro r d hd hle
    obtain ⟨hrange, hval⟩ := hdigit d hd
    simp only [step, if_neg hrange, hval]
    rw [if_neg (by omega)]
  have key : ∀ n ≤ maximum, (decimal n).foldlM step 0 = some n := by
    intro n
    induction n using Nat.strong_induction_on with
    | _ n ih =>
      intro hle
      rw [decimal, Nat.toDigits_eq_if (by decide)]
      split_ifs with hlt
      · rw [List.foldlM_cons, hstep 0 n hlt (by omega)]
        simp
      · rw [← decimal, List.foldlM_append, ih (n / 10) (by omega) (by omega)]
        have hlast := hstep (n / 10) (n % 10) (by omega) (by omega)
        rw [Nat.div_add_mod] at hlast
        simp [hlast]
  obtain ⟨c, s, hcs⟩ := List.exists_cons_of_ne_nil (decimal_ne_nil n)
  have hkey := key n h
  rw [hcs] at hkey ⊢
  exact hkey

/-- A line of words is read back as its words. -/
theorem tokens_unwords {ws : List Text} (h : ∀ w ∈ ws, Word (fun c => c = ' ') w) : tokens (unwords ws) = ws :=
  words_unwords (by decide) h

theorem hexBytes_reverse (k x : ℕ) : hexBytes (bytes k x).reverse = hexPadded (2 * k) x := by
  induction k generalizing x with
  | zero => rfl
  | succ k ih =>
    have hdigits : hexBytes [UInt8.ofNat x] = [Nat.digitChar (x / 16 % 16), Nat.digitChar (x % 16)] := by
      simp only [hexBytes, List.flatMap_cons, List.flatMap_nil, List.append_nil, UInt8.toNat_ofNat']
      rw [show x % 2 ^ 8 / 16 = x / 16 % 16 by omega, show x % 2 ^ 8 % 16 = x % 16 by omega]
    rw [bytes, List.reverse_cons, hexBytes, List.flatMap_append, ← hexBytes, ← hexBytes, ih, hdigits, Nat.mul_succ,
      hexPadded, hexPadded, Nat.div_div_eq_div_mul]
    simp

theorem writeHex_eq {k : ℕ} (x : BitVec (8 * k)) : writeHex x = hexPadded (2 * k) x.toNat := by
  rw [← hexBytes_reverse, writeHex]
  refine congrArg hexBytes (List.ext_getElem (by simp) fun i hi hi' => ?_)
  have hik : i < k := by simpa using hi
  have hlen : k - 1 - i < (lanes x).length := by
    simp
    omega
  have hlane : (lanes x)[k - 1 - i] = ⟨Clocked.slice x (8 * (k - 1 - i)) 8⟩ := by
    rw [← getD_lanes x (by omega), List.getD_eq_getElem]
  have hback : (bytes k x.toNat).reverse[i] = (lanes x)[k - 1 - i] := by
    rw [List.getElem_reverse]
    simp only [length_bytes]
    rfl
  rw [hback, hlane]
  simp only [List.getElem_map, List.getElem_range]
  apply congrArg UInt8.ofBitVec
  apply BitVec.eq_of_getLsbD_eq
  intro j hj
  rw [Clocked.getLsbD_slice]
  simp [hj]

end Firmware

end ZedSecure
