import ZedSecure.Crypto.SpongeBytes
import ZedSecure.Rtl.SharedHashEngine

/-! What each command of the shared hash engine hashes, as byte strings, with the function and
the output length it asks for. -/

namespace ZedSecure

open Clocked LittleEndian Fips202

namespace SharedHashEngine

/-- A job with the session id and the contents of the two memories. -/
structure Source where
  job : HashJob
  sessionId : BitVec 32
  sk : BitVec 9 → BitVec 32
  ct : BitVec 8 → BitVec 32

/-- A memory region as bytes, each word from its lowest byte lane. -/
def region (word : ℕ → BitVec 32) (count : ℕ) : Bytes :=
  (List.range count).flatMap fun j => lanes (k := 4) (word j)

/-- "ZYNQ-PQC-v1" -/
def domain : Bytes := ['Z', 'Y', 'N', 'Q', '-', 'P', 'Q', 'C', '-', 'v', '1'].map fun c =>
  UInt8.ofNat c.toNat

namespace Source

variable (o : Source)

/-- The public key: bytes 768 to 1567 of the SK memory. -/
def ek : Bytes := region (fun j => o.sk (BitVec.ofNat 9 (192 + j))) 200

def ciphertext : Bytes := region (fun j => o.ct (BitVec.ofNat 8 j)) 192

/-- The session id, highest byte first. -/
def sid : Bytes := (lanes (k := 4) o.sessionId).reverse

def data0 : Bytes := lanes (k := 32) o.job.data0

def data1 : Bytes := lanes (k := 32) o.job.data1

def message : Bytes :=
  if o.job.command = C_HPK then o.ek
  else if o.job.command = C_G then o.data0 ++ o.data1
  else if o.job.command = C_J then o.data0 ++ o.ciphertext
  else if o.job.command = C_MATRIX then o.data0 ++ [⟨o.job.x⟩, ⟨o.job.y⟩]
  else if o.job.command = C_NOISE then o.data0 ++ [⟨o.job.nonce⟩]
  else if o.job.command = C_TRANSCRIPT then o.ek ++ o.ciphertext ++ o.sid
  else domain ++ o.data0 ++ o.data1

/-- The hash function of the command. -/
def function : Mode :=
  if o.job.command = C_G then .sha3_512
  else if o.job.command = C_J ∨ o.job.command = C_NOISE ∨ o.job.command = C_KDF then .shake256
  else if o.job.command = C_MATRIX then .shake128
  else .sha3_256

/-- How many bytes of its output are asked for. -/
def outputs : ℕ :=
  if o.job.command = C_G then 64
  else if o.job.command = C_MATRIX then 1024
  else if o.job.command = C_NOISE then if o.job.eta3 then 192 else 128
  else if o.job.command = C_KDF then 72
  else 32

/-- The output is sampled from and not kept as a digest. -/
def sampled : Prop := o.job.command = C_MATRIX ∨ o.job.command = C_NOISE

/-- Word `j` of the message, where the message comes from memory. -/
def word (j : ℕ) : BitVec 32 :=
  if o.job.command = C_J then o.ct (BitVec.ofNat 8 (j - 8))
  else if o.job.command = C_TRANSCRIPT ∧ 200 ≤ j then o.ct (BitVec.ofNat 8 (j - 200))
  else o.sk (BitVec.ofNat 9 (192 + j))

end Source

section Lookup

variable (o : Source)

theorem length_region (word : ℕ → BitVec 32) (count : ℕ) : (region word count).length = 4 * count := by
  simp [region, List.length_flatMap, Nat.mul_comm]

/-- Byte `n` of a region is a byte of word `n / 4`. -/
theorem getD_region (word : ℕ → BitVec 32) {count n : ℕ} (h : n < 4 * count) :
    (region word count).getD n 0 = ⟨slice (word (n / 4)) (8 * (n % 4)) 8⟩ := by
  have hmod := Nat.mod_lt n (by decide : 0 < 4)
  have hplace := getD_flatMap_range (f := fun j => lanes (k := 4) (word j)) (fun _ => length_lanes _)
    (by omega : n / 4 < count) hmod 0
  rw [Nat.div_add_mod] at hplace
  rw [region, hplace, getD_lanes _ hmod]

@[simp] theorem length_ek : o.ek.length = 800 := length_region _ _

@[simp] theorem length_ciphertext : o.ciphertext.length = 768 := length_region _ _

@[simp] theorem length_sid : o.sid.length = 4 := by rw [Source.sid, List.length_reverse, length_lanes]

@[simp] theorem length_data0 : o.data0.length = 32 := length_lanes _

@[simp] theorem length_data1 : o.data1.length = 32 := length_lanes _

theorem command_cases (c : BitVec 3) : c = C_HPK ∨ c = C_G ∨ c = C_J ∨ c = C_MATRIX ∨ c = C_NOISE ∨
    c = C_TRANSCRIPT ∨ c = C_KDF ∨ c = 7 := by
  revert c
  decide

/-- The length is the one the engine counts to. -/
theorem length_message : o.message.length = (inputLenOf o.job.command).toNat := by
  rcases command_cases o.job.command with h | h | h | h | h | h | h | h <;>
    simp [Source.message, h, inputLenOf, domain, C_HPK, C_G, C_J, C_MATRIX, C_NOISE, C_TRANSCRIPT, C_KDF]

/-- The places of the message that come from memory. -/
def memFrom (c : BitVec 3) : ℕ := if c = C_J then 32 else 0

def memTo (c : BitVec 3) : ℕ := if c = C_HPK ∨ c = C_J then 800 else if c = C_TRANSCRIPT then 1568 else 0

theorem memoryInput_iff {c : BitVec 3} {n : BitVec 11} (hn : n < inputLenOf c) :
    memoryInput c n = true ↔ memFrom c ≤ n.toNat ∧ n.toNat < memTo c := by
  rw [BitVec.lt_def] at hn
  rcases command_cases c with h | h | h | h | h | h | h | h <;>
    simp [memoryInput, h, inputLenOf, memFrom, memTo, BitVec.le_def, BitVec.lt_def, C_HPK, C_G, C_J, C_MATRIX,
      C_NOISE, C_TRANSCRIPT, C_KDF] at hn ⊢ <;> omega

theorem getD_memory {n : ℕ} (hfrom : memFrom o.job.command ≤ n) (hto : n < memTo o.job.command) :
    o.message.getD n 0 = ⟨slice (o.word (n / 4)) (8 * (n % 4)) 8⟩ := by
  rcases command_cases o.job.command with h | h | h | h | h | h | h | h <;>
    simp only [memFrom, memTo, h, C_HPK, C_G, C_J, C_MATRIX, C_NOISE, C_TRANSCRIPT, C_KDF] at hfrom hto <;>
    simp at hfrom hto
  · simp only [Source.message, h, if_true, Source.ek, Source.word, C_HPK, C_J, C_TRANSCRIPT]
    rw [getD_region _ (by omega)]
    simp
  · have hword : (n - 32) / 4 = n / 4 - 8 := by omega
    have hbyte : (n - 32) % 4 = n % 4 := by omega
    have hmsg : o.message = o.data0 ++ o.ciphertext := by
      simp [Source.message, h, C_HPK, C_G, C_J]
    rw [hmsg, List.getD_append_right _ _ _ _ (by simp; omega), length_data0, Source.ciphertext,
      getD_region _ (by omega), hword, hbyte]
    simp [Source.word, h]
  · have hmsg : o.message = o.ek ++ (o.ciphertext ++ o.sid) := by
      simp [Source.message, h, C_HPK, C_G, C_J, C_MATRIX, C_NOISE, C_TRANSCRIPT]
    by_cases hek : n < 800
    · rw [hmsg, List.getD_append _ _ _ _ (by simp; omega), Source.ek, getD_region _ (by omega)]
      simp [Source.word, h, C_J, C_TRANSCRIPT, show ¬ 200 ≤ n / 4 by omega]
    · have hword : (n - 800) / 4 = n / 4 - 200 := by omega
      have hbyte : (n - 800) % 4 = n % 4 := by omega
      rw [hmsg, List.getD_append_right _ _ _ _ (by simp; omega), length_ek,
        List.getD_append _ _ _ _ (by simp; omega), Source.ciphertext, getD_region _ (by omega), hword, hbyte]
      simp [Source.word, h, C_J, C_TRANSCRIPT, show 200 ≤ n / 4 by omega]

end Lookup

end SharedHashEngine

end ZedSecure
