import ZedSecure.Pc.KeySchedule
import ZedSecure.Proofs.HashRuns
import ZedSecure.Proofs.KeccakRounds
import ZedSecure.Spec.SessionTable

/-! The two hash commands behind a session: the digests they show are the transcript and the key
material of `derive_session`, and the slices of the material are its keys. -/

namespace ZedSecure

open Clocked LittleEndian Fips202 SessionManager

section Packing

theorem toBytesBig_eq (k x : ℕ) : Python.toBytesBig k x = (bytes k x).reverse := by
  induction k generalizing x with
  | zero => rfl
  | succ k ih =>
    have hlow : UInt8.ofNat (x % 256) = UInt8.ofNat x := by
      apply UInt8.toNat_inj.mp
      simp
    rw [Python.toBytesBig, ih, bytes, List.reverse_cons, hlow]

theorem lanes_packBe {k : ℕ} (x : BitVec (8 * k)) : lanes (packBe k x) = (lanes x).reverse := by
  apply List.ext_getElem
  · simp
  · intro i hi hi'
    have hik : i < k := by simpa using hi
    have hleft : (lanes (packBe k x))[i] = (lanes (packBe k x)).getD i 0 := by
      rw [List.getD_eq_getElem]
    have hlen : k - 1 - i < (lanes x).length := by
      simp
      omega
    have hright : (lanes x)[k - 1 - i] = (lanes x).getD (k - 1 - i) 0 := by
      rw [List.getD_eq_getElem]
    rw [hleft, getD_lanes _ hik, slice_packBe _ hik, List.getElem_reverse]
    simp only [length_lanes]
    rw [hright, getD_lanes _ (by omega)]

theorem lanes_big {k : ℕ} (x : BitVec (8 * k)) : lanes (packBe k x) = Python.toBytesBig k x.toNat := by
  rw [lanes_packBe, toBytesBig_eq]
  rfl

end Packing

namespace SharedHashEngine

/-- The engine with its permutation. -/
abbrev Hasher := State KeccakF1600.unit

/-- A run of the command in `o` shows the digest `d` at its done pulse. -/
def Shown (o : Source) (d : BitVec 576) : Prop :=
  ∃ (s : Hasher) (i : HashIn) (ins : ℕ → HashIn × Unit) (t : ℕ), (design KeccakF1600.unit).Reachable s ∧
    (output s).busy = false ∧ i.start = true ∧ i.job = o.job ∧ i.sessionId = o.sessionId ∧
    Serves o (next s i ()) ins ∧ Before _ (next s i ()) ins t ∧
    (output ((design _).stream (next s i ()) ins t)).done = true ∧
    (output ((design _).stream (next s i ()) ins t)).digest = d

/-- The engine on a memory that answers its addresses. -/
def onMemory (o : Source) (s : Hasher) : ℕ → Hasher × HashIn
  | 0 => (s, ⟨false, HashJob.zero, 0, 0, 0⟩)
  | t + 1 =>
    let (s, i) := onMemory o s t
    (next s i (), ⟨false, HashJob.zero, 0, o.sk (skAddr s), o.ct (ctAddr s)⟩)

theorem stream_onMemory (o : Source) (s : Hasher) (t : ℕ) :
    (design _).stream s (fun t => ((onMemory o s t).2, ())) t = (onMemory o s t).1 := by
  induction t with
  | zero => rfl
  | succ t ih => rw [Design.stream, ih]; rfl

theorem shown_iff {o : Source} (h : ¬ o.sampled) (d : BitVec 576) :
    Shown o d ↔ lanes (k := 72) d = o.output ++ List.replicate (72 - o.outputs) 0 := by
  constructor
  · rintro ⟨s, i, ins, t, hs, hidle, hstart, hjob, hsid, hserve, hbefore, hdone, rfl⟩
    have ho : o = ⟨i.job, i.sessionId, o.sk, o.ct⟩ := by rw [hjob, hsid]
    rw [ho] at h hserve ⊢
    exact ((@command_feeds _ _ _ hs hidle (i, ()) hstart _ _ _ hserve).whole t hbefore hdone).2.2 h
  · intro hd
    set i : HashIn := ⟨true, o.job, o.sessionId, 0, 0⟩
    set s := next (.init KeccakF1600.unit) i ()
    set ins : ℕ → HashIn × Unit := fun t => ((onMemory o s t).2, ())
    have hserve : Serves o s ins := by
      intro t _
      rw [stream_onMemory]
      exact ⟨rfl, rfl⟩
    have hreach : (design KeccakF1600.unit).Reachable (.init KeccakF1600.unit) := ⟨.init _, [], rfl⟩
    have hfeeds := @command_feeds _ _ _ hreach rfl (i, ()) rfl _ _ _ hserve
    obtain ⟨t, hbefore, hdone⟩ := hfeeds.answers ⟨KeccakF1600.timed⟩ h
    have hshown := (hfeeds.whole t hbefore hdone).2.2 h
    exact ⟨_, i, ins, t, hreach, rfl, rfl, rfl, rfl, hserve, hbefore, hdone,
      lanes_inj (k := 72) (hshown.trans hd.symm)⟩

end SharedHashEngine

/-- The PC's keys are the board's with the directions swapped. -/
structure Agree (keys : Pc.SessionKeys) (e : Session) : Prop where
  sid : keys.sid = e.sessionId.toNat
  rxKey : keys.pcToBoardKey = lanes (k := 32) e.rxKey
  rxPrefix : keys.pcToBoardPrefix = lanes (k := 4) e.rxPrefix
  txKey : keys.boardToPcKey = lanes (k := 32) e.txKey
  txPrefix : keys.boardToPcPrefix = lanes (k := 4) e.txPrefix

section Keys

open SharedHashEngine MaterialCore

variable {n : ℕ} {pk ct ss : Bytes} {sid : BitVec 32} {D : BitVec 576}

def transcriptJob : HashJob := { HashJob.zero with command := C_TRANSCRIPT }

def kdfJob (secret transcript : BitVec 256) : HashJob :=
  { HashJob.zero with command := C_KDF, data0 := secret, data1 := transcript }

/-- The two jobs are the last two of a handshake. -/
theorem hashReq_jobs {dp : Datapath} {H : HashUnit} {aead : EngineIn → EngineOut} {κ : Type}
    {E : StartDone aead κ} (s : ProtectedTop.State n dp H E) (i : ProtectedTop.In n κ) :
    (s.state = .tStart → ProtectedTop.hashReq s i = transcriptJob) ∧
      (s.state = .kStart → ProtectedTop.hashReq s i = kdfJob s.ssA s.transcriptA) := by
  constructor <;> intro h <;> rw [ProtectedTop.hashReq, h] <;> rfl

/-- `D` is shown for the KDF command on the secret and the transcript digest, both memories
holding what was exchanged. -/
def Material (pk ct ss : Bytes) (sid : BitVec 32) (D : BitVec 576) : Prop :=
  ∃ (sk : BitVec 9 → BitVec 32) (cm : BitVec 8 → BitVec 32) (secret : BitVec 256) (T : BitVec 576),
    Source.ek ⟨transcriptJob, sid, sk, cm⟩ = pk ∧ Source.ciphertext ⟨transcriptJob, sid, sk, cm⟩ = ct ∧
    lanes (k := 32) secret = ss ∧ Shown ⟨transcriptJob, sid, sk, cm⟩ T ∧
    Shown ⟨kdfJob secret (slice T 0 256), sid, sk, cm⟩ D

/-- The transcript hash of the PC. -/
def transcriptOf (pk ct : Bytes) (sid : ℕ) : Bytes :=
  Fips202.hash .sha3_256 (pk ++ ct ++ Python.toBytesBig 4 sid) 32

/-- The 72 bytes of the PC. -/
def materialOf (pk ct ss : Bytes) (sid : ℕ) : Bytes :=
  Fips202.hash .shake256 (Pc.KDF_DOMAIN ++ ss ++ transcriptOf pk ct sid) 72

theorem length_hash (mode : Mode) (message : Bytes) (n : ℕ) : (Fips202.hash mode message n).length = n := by
  simp [Fips202.hash, bytesOf]

/-- The transcript digest is the PC's, in the low bytes. -/
theorem transcript_shown {sk : BitVec 9 → BitVec 32} {cm : BitVec 8 → BitVec 32} {T : BitVec 576}
    (h : Shown ⟨transcriptJob, sid, sk, cm⟩ T) : lanes (k := 32) (slice T 0 256) =
      transcriptOf (Source.ek ⟨transcriptJob, sid, sk, cm⟩) (Source.ciphertext ⟨transcriptJob, sid, sk, cm⟩)
        sid.toNat := by
  set o : Source := ⟨transcriptJob, sid, sk, cm⟩
  have hkept : ¬ o.sampled := (by decide : ¬ (C_TRANSCRIPT = C_MATRIX ∨ C_TRANSCRIPT = C_NOISE))
  rw [shown_iff hkept] at h
  have hslice := lanes_slice (k := 72) T (j := 0) (m := 32) (by decide)
  have hout : o.output = transcriptOf o.ek o.ciphertext sid.toNat := by
    rw [transcriptOf, toBytesBig_eq]
    rfl
  have hlen : o.output.length = 32 := length_output o
  rw [h, List.drop_zero, ← hlen, List.take_left, hout] at hslice
  exact hslice

/-- The material is the PC's. -/
theorem material_shown {sk : BitVec 9 → BitVec 32} {cm : BitVec 8 → BitVec 32} {secret transcript : BitVec 256}
    (h : Shown ⟨kdfJob secret transcript, sid, sk, cm⟩ D) : lanes (k := 72) D =
      Fips202.hash .shake256 (Pc.KDF_DOMAIN ++ lanes (k := 32) secret ++ lanes (k := 32) transcript) 72 := by
  set o : Source := ⟨kdfJob secret transcript, sid, sk, cm⟩
  have hkept : ¬ o.sampled := (by decide : ¬ (C_KDF = C_MATRIX ∨ C_KDF = C_NOISE))
  rw [shown_iff hkept] at h
  exact h.trans (List.append_nil _)

theorem Material.lanes_eq (h : Material pk ct ss sid D) : lanes (k := 72) D = materialOf pk ct ss sid.toNat := by
  obtain ⟨sk, cm, secret, T, rfl, rfl, rfl, htranscript, hmaterial⟩ := h
  rw [material_shown hmaterial, transcript_shown htranscript]
  rfl

/-- A memory that holds a byte string from word `base` on. -/
theorem exists_region {w : ℕ} (base count : ℕ) (hfit : base + count ≤ 2 ^ w) {bs : Bytes} (h : bs.length = 4 * count) :
    ∃ mem : BitVec w → BitVec 32, region (fun j => mem (BitVec.ofNat w (base + j))) count = bs := by
  refine ⟨fun a => BitVec.ofNat 32 (num ((bs.drop (4 * (a.toNat - base))).take 4)), ?_⟩
  have hword : ∀ j < count, lanes (k := 4) (BitVec.ofNat 32 (num ((bs.drop
      (4 * ((BitVec.ofNat w (base + j)).toNat - base))).take 4))) = (bs.drop (4 * j)).take 4 := by
    intro j hj
    have haddr : (BitVec.ofNat w (base + j)).toNat - base = j := by
      rw [BitVec.toNat_ofNat, Nat.mod_eq_of_lt (by omega)]
      omega
    rw [haddr]
    refine lanes_ofNat ?_
    rw [List.length_take, List.length_drop]
    omega
  calc region _ count = (List.range count).flatMap fun j => (bs.drop (4 * j)).take 4 :=
        List.flatMap_congr fun j hj => hword j (List.mem_range.mp hj)
    _ = (List.range count).flatMap (Rfc8439.chunk 4 bs) := rfl
    _ = bs := by rw [Rfc8439.flatMap_chunk, ← h, List.take_length]

/-- The two commands make key material of any handshake. -/
theorem exists_material (hpk : pk.length = 800) (hct : ct.length = 768) (hss : ss.length = 32) (sid : BitVec 32) :
    ∃ D, Material pk ct ss sid D := by
  obtain ⟨sk, hsk⟩ := exists_region (w := 9) 192 200 (by decide) hpk
  obtain ⟨cm, hcm⟩ := exists_region (w := 8) 0 192 (by decide) hct
  set secret : BitVec 256 := BitVec.ofNat 256 (num ss)
  have hkeep : ∀ o : Source, o.job.command = C_TRANSCRIPT ∨ o.job.command = C_KDF → ¬ o.sampled := by
    intro o ho
    unfold Source.sampled
    rcases ho with ho | ho <;> rw [ho] <;> decide
  have hshow : ∀ o : Source, ¬ o.sampled → ∃ d, Shown o d := by
    intro o ho
    have hlen : (o.output ++ List.replicate (72 - o.outputs) 0).length = 72 := by
      have := outputs_le ho
      rw [List.length_append, length_output, List.length_replicate]
      omega
    exact ⟨_, (shown_iff ho _).mpr (lanes_ofNat hlen)⟩
  obtain ⟨T, hT⟩ := hshow ⟨transcriptJob, sid, sk, cm⟩ (hkeep _ (Or.inl rfl))
  obtain ⟨D, hD⟩ := hshow ⟨kdfJob secret (slice T 0 256), sid, sk, cm⟩ (hkeep _ (Or.inr rfl))
  have hcm' : region (fun j => cm (BitVec.ofNat 8 j)) 192 = ct := by simpa using hcm
  exact ⟨D, sk, cm, secret, T, hsk, hcm', lanes_ofNat hss, hT, hD⟩

/-- `derive_session` on what was exchanged. -/
theorem deriveSession_eq (hpk : pk.length = 800) (hct : ct.length = 768) (hss : ss.length = 32) (sid : BitVec 32) :
    Pc.deriveSession pk ct ss sid.toNat = .ok
      { sid := sid.toNat
        pcToBoardKey := Pc.part (materialOf pk ct ss sid.toNat) 0 32
        pcToBoardPrefix := Pc.part (materialOf pk ct ss sid.toNat) 32 36
        boardToPcKey := Pc.part (materialOf pk ct ss sid.toNat) 36 68
        boardToPcPrefix := Pc.part (materialOf pk ct ss sid.toNat) 68 72
        txCounter := 0
        rxCounter := 0 } := by
  have hsid : ¬ ¬ (0 ≤ (sid.toNat : ℤ) ∧ (sid.toNat : ℤ) ≤ 0xFFFFFFFF) := by
    have := sid.isLt
    omega
  have hsizes : ¬ (pk.length ≠ Pc.PUBLIC_KEY_BYTES ∨ ct.length ≠ Pc.CIPHERTEXT_BYTES) := by
    simp [Pc.PUBLIC_KEY_BYTES, Pc.CIPHERTEXT_BYTES, hpk, hct]
  have hsecret : ¬ ss.length ≠ Pc.SHARED_SECRET_BYTES := by simp [Pc.SHARED_SECRET_BYTES, hss]
  simp only [Pc.deriveSession, bind, Except.bind, pure, Except.pure]
  rw [if_neg hsid, if_neg hsizes, if_neg hsecret]
  rfl

/-- The slices of the material are the PC's keys, the directions swapped. -/
theorem derive_agree {keys : Pc.SessionKeys} (h : Material pk ct ss sid D)
    (hkeys : Pc.deriveSession pk ct ss sid.toNat = .ok keys) (hpk : pk.length = 800) (hct : ct.length = 768)
    (hss : ss.length = 32) (slot : BitVec (slotWidth n)) :
    Agree keys (.fresh (materialConfig slot sid D)) := by
  rw [deriveSession_eq hpk hct hss sid, Except.ok.injEq] at hkeys
  subst hkeys
  have hslice : ∀ j m, j + m ≤ 72 → Pc.part (materialOf pk ct ss sid.toNat) j (j + m) =
      lanes (k := m) (slice D (8 * j) (8 * m)) := by
    intro j m hjm
    rw [lanes_slice (k := 72) D hjm, h.lanes_eq, Pc.part, Nat.add_sub_cancel_left]
  exact ⟨rfl, hslice 0 32 (by decide), hslice 32 4 (by decide), hslice 36 32 (by decide), hslice 68 4 (by decide)⟩

end Keys

end ZedSecure
