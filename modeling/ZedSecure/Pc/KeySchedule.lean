import ZedSecure.Crypto.Fips202
import ZedSecure.Crypto.Rfc8439
import ZedSecure.Pc.SerialLink

/-! `pqc_crypto.derive_session`: the keys of the PC side from the transcript of the handshake, with
`hashlib` and `ChaCha20Poly1305` as the standard functions. -/

namespace ZedSecure

open Python Fips202

namespace Pc

def PUBLIC_KEY_BYTES : ℕ := 800
def CIPHERTEXT_BYTES : ℕ := 768
def SHARED_SECRET_BYTES : ℕ := 32

/-- `b"ZYNQ-PQC-v1"` -/
def KDF_DOMAIN : Bytes := "ZYNQ-PQC-v1".toList.map fun c => UInt8.ofNat c.toNat

/-- `material[i:j]` -/
def part (material : Bytes) (i j : ℕ) : Bytes := (material.drop i).take (j - i)

/-- `derive_session` -/
def deriveSession (publicKey kemCiphertext sharedSecret : Bytes) (sid : ℤ) : Except Exn SessionKeys := do
  if ¬ (0 ≤ sid ∧ sid ≤ 0xFFFFFFFF) then
    throw (.valueError "sid must be uint32")
  if publicKey.length ≠ PUBLIC_KEY_BYTES ∨ kemCiphertext.length ≠ CIPHERTEXT_BYTES then
    throw (.valueError "Invalid ML-KEM public key or ciphertext length")
  if sharedSecret.length ≠ SHARED_SECRET_BYTES then
    throw (.valueError "ML-KEM-512 shared secret must be 32 bytes")
  let transcript := hash .sha3_256 (publicKey ++ kemCiphertext ++ toBytesBig 4 sid.toNat) 32
  let material := hash .shake256 (KDF_DOMAIN ++ sharedSecret ++ transcript) 72
  return {
    sid := sid.toNat
    pcToBoardKey := part material 0 32
    pcToBoardPrefix := part material 32 36
    boardToPcKey := part material 36 68
    boardToPcPrefix := part material 68 72
    txCounter := 0
    rxCounter := 0 }

/-- `ChaCha20Poly1305`: the tag stands behind the ciphertext. -/
def chacha20Poly1305 : Aead where
  encrypt key nonce data aad :=
    let (ciphertext, tag) := Rfc8439.aeadEncrypt aad key nonce data
    ciphertext ++ tag
  decrypt key nonce data aad :=
    if data.length < 16 then none
    else Rfc8439.aeadDecrypt aad key nonce (data.take (data.length - 16)) (data.drop (data.length - 16))
  encrypt_length key nonce data aad := by
    simp [Rfc8439.aeadEncrypt, Rfc8439.length_encrypt, Rfc8439.tag]

end Pc

end ZedSecure
