import Mathlib.Data.Fintype.Basic
import Mathlib.Logic.Function.Iterate
import ZedSecure.Crypto.LittleEndian

/-! ChaCha20, Poly1305 and their AEAD construction as RFC 8439 states them: on byte strings,
with the words and the tag arithmetic as little-endian numbers. -/

namespace Rfc8439

open LittleEndian

/-- The sixteen words of the ChaCha state. -/
abbrev Words := Vector (BitVec 32) 16

instance wordsNeZero : NeZero 16 := ⟨by decide⟩

theorem index_lt (x : Fin 16) : x.val < 16 := x.isLt

/-- `x += y` -/
def add (s : Words) (x y : Fin 16) : Words := s.set x (s[x] + s[y])

/-- `x ^= y; x <<<= n` -/
def mix (s : Words) (x y : Fin 16) (n : ℕ) : Words := s.set x ((s[x] ^^^ s[y]).rotateLeft n)

def quarterRound (a b c d : Fin 16) (s : Words) : Words :=
  let s := mix (add s a b) d a 16
  let s := mix (add s c d) b c 12
  let s := mix (add s a b) d a 8
  mix (add s c d) b c 7

/-- A column round and a diagonal round. -/
def innerBlock (s : Words) : Words :=
  let s := quarterRound 3 7 11 15 (quarterRound 2 6 10 14 (quarterRound 1 5 9 13
    (quarterRound 0 4 8 12 s)))
  quarterRound 3 4 9 14 (quarterRound 2 7 8 13 (quarterRound 1 6 11 12 (quarterRound 0 5 10 15 s)))

/-- Word `i` of a byte string. -/
def word (bs : Bytes) (i : ℕ) : BitVec 32 := BitVec.ofNat 32 (num ((bs.drop (4 * i)).take 4))

/-- Constants, key, block count and nonce. -/
def initial (key : Bytes) (counter : BitVec 32) (nonce : Bytes) : Words := Vector.ofFn fun i =>
  match i.val with
  | 0 => 0x61707865#32
  | 1 => 0x3320646e#32
  | 2 => 0x79622d32#32
  | 3 => 0x6b206574#32
  | 12 => counter
  | 13 => word nonce 0
  | 14 => word nonce 1
  | 15 => word nonce 2
  | k => word key (k - 4)

def serialize (s : Words) : Bytes := s.toList.flatMap fun x => bytes 4 x.toNat

/-- `chacha20_block` -/
def block (key : Bytes) (counter : BitVec 32) (nonce : Bytes) : Bytes :=
  let s := initial key counter nonce
  serialize ((innerBlock^[10] s).zipWith (· + ·) s)

/-- Chunk `j` of a string cut into chunks of `n`. -/
def chunk (n : ℕ) (bs : Bytes) (j : ℕ) : Bytes := (bs.drop (n * j)).take n

def chunks (n : ℕ) (bs : Bytes) : List Bytes :=
  (List.range ((bs.length + n - 1) / n)).map (chunk n bs)

/-- `chacha20_encrypt` -/
def encrypt (key : Bytes) (counter : ℕ) (nonce plaintext : Bytes) : Bytes :=
  (List.range ((plaintext.length + 63) / 64)).flatMap fun j =>
    List.zipWith (· ^^^ ·) (chunk 64 plaintext j) (block key (BitVec.ofNat 32 (counter + j)) nonce)

def clamp (r : ℕ) : ℕ := r &&& 0x0ffffffc0ffffffc0ffffffc0fffffff

/-- `2^130 - 5` -/
def p1305 : ℕ := 2 ^ 130 - 5

/-- `poly1305_mac` -/
def mac (key msg : Bytes) : Bytes :=
  let r := clamp (num (key.take 16))
  let s := num ((key.drop 16).take 16)
  let a := (chunks 16 msg).foldl (fun a b => r * (a + num (b ++ [1])) % p1305) 0
  bytes 16 (a + s)

/-- `poly1305_key_gen` -/
def polyKeyGen (key nonce : Bytes) : Bytes := (block key 0#32 nonce).take 32

def pad16 (x : Bytes) : Bytes := List.replicate ((16 - x.length % 16) % 16) 0

def macData (aad ciphertext : Bytes) : Bytes :=
  aad ++ pad16 aad ++ ciphertext ++ pad16 ciphertext ++ bytes 8 aad.length ++
    bytes 8 ciphertext.length

def tag (key nonce aad ciphertext : Bytes) : Bytes :=
  mac (polyKeyGen key nonce) (macData aad ciphertext)

/-- `chacha20_aead_encrypt`: ciphertext and tag. -/
def aeadEncrypt (aad key nonce plaintext : Bytes) : Bytes × Bytes :=
  let ciphertext := encrypt key 1 nonce plaintext
  (ciphertext, tag key nonce aad ciphertext)

/-- The plaintext, or nothing when the tag is not the one of the ciphertext. -/
def aeadDecrypt (aad key nonce ciphertext received : Bytes) : Option Bytes :=
  if tag key nonce aad ciphertext = received then some (encrypt key 1 nonce ciphertext) else none

@[simp] theorem length_serialize (s : Words) : (serialize s).length = 64 := by
  simp [serialize, List.length_flatMap]

@[simp] theorem length_block (key : Bytes) (counter : BitVec 32) (nonce : Bytes) :
    (block key counter nonce).length = 64 := length_serialize _

@[simp] theorem length_mac (key msg : Bytes) : (mac key msg).length = 16 := length_bytes 16 _

/-- A string of 64 bytes is one block. -/
theorem encrypt_block {key nonce data : Bytes} (counter : ℕ) (h : data.length = 64) :
    encrypt key counter nonce data =
      List.zipWith (· ^^^ ·) data (block key (BitVec.ofNat 32 counter) nonce) := by
  have hchunk : chunk 64 data 0 = data := by simp [chunk, ← h]
  simp [encrypt, h, List.range_succ, hchunk]

/-- The chunks below `m` are the string up to there. -/
theorem flatMap_chunk (n m : ℕ) (bs : Bytes) : (List.range m).flatMap (chunk n bs) = bs.take (n * m) := by
  induction m with
  | zero => simp
  | succ m ih => rw [List.range_succ, List.flatMap_append, ih, Nat.mul_succ, List.take_add]; simp [chunk]

/-- The key stream is as long as the data. -/
theorem length_encrypt (key nonce data : Bytes) (counter : ℕ) : (encrypt key counter nonce data).length = data.length := by
  have hchunk : ∀ j, (chunk 64 data j).length ≤ 64 := fun j => by simp [chunk]
  calc (encrypt key counter nonce data).length
      = ((List.range ((data.length + 63) / 64)).flatMap (chunk 64 data)).length := by
        rw [encrypt, List.length_flatMap, List.length_flatMap]
        refine congrArg _ (List.map_congr_left fun j _ => ?_)
        have := hchunk j
        simp
        omega
    _ = data.length := by
        rw [flatMap_chunk, List.length_take]
        omega

theorem zipWith_xor_cancel {data stream : Bytes} (h : data.length = stream.length) :
    List.zipWith (· ^^^ ·) (List.zipWith (· ^^^ ·) data stream) stream = data := by
  induction data generalizing stream with
  | nil => rfl
  | cons b bs ih =>
    cases stream with
    | nil => simp at h
    | cons c cs =>
      have hbc : b ^^^ c ^^^ c = b := by rw [UInt8.xor_assoc, UInt8.xor_self, UInt8.xor_zero]
      simp [ih (Nat.succ.inj h), hbc]

theorem encrypt_encrypt {key nonce data : Bytes} (counter : ℕ) (h : data.length = 64) :
    encrypt key counter nonce (encrypt key counter nonce data) = data := by
  rw [encrypt_block counter ((length_encrypt _ _ _ counter).trans h), encrypt_block counter h,
    zipWith_xor_cancel (by simp [h])]

/-- A packet opens to what was sealed. -/
theorem aeadDecrypt_aeadEncrypt {key nonce data : Bytes} (aad : Bytes) (h : data.length = 64) :
    aeadDecrypt aad key nonce (aeadEncrypt aad key nonce data).1 (aeadEncrypt aad key nonce data).2 =
      some data := by
  simp only [aeadDecrypt, aeadEncrypt, if_true]
  rw [encrypt_encrypt 1 h]

end Rfc8439
