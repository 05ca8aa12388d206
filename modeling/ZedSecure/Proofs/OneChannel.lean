import ZedSecure.Proofs.AeadDriver
import ZedSecure.Proofs.AeadRfc
import ZedSecure.Proofs.KeyMaterial

/-! The PC and the board have one channel: the same keys with the directions swapped, and each side
opens what the other one sealed. -/

namespace ZedSecure

open Clocked LittleEndian SessionManager SessionTable

section Packing

theorem lanes_nonceOf (pre : BitVec 32) (counter : BitVec 64) :
    lanes (k := 12) (nonceOf pre counter) = lanes (k := 4) pre ++ Python.toBytesBig 8 counter.toNat := by
  have happend := bytes_append (j := 4) (k := 8) (packBe 8 counter) pre
  rw [lanes_big] at happend
  exact happend

/-- The three writes leave three zero bytes on top. -/
theorem aadOf_append (sessionId : BitVec 32) (counter : BitVec 64) (len : BitVec 8) :
    aadOf sessionId counter len = (0#24 ++ len) ++ packBe 8 counter ++ packBe 4 sessionId := by
  apply BitVec.eq_of_getLsbD_eq
  intro i hi
  rw [aadOf, getLsbD_patch _ _ _ _ hi, getLsbD_patch _ _ _ _ hi, getLsbD_patch _ _ _ _ hi]
  have hplace : i - 8 * 4 - 8 * 8 = i - 96 := by omega
  simp only [BitVec.getLsbD_append, hplace]
  split_ifs <;> first | omega | rfl | simp

theorem lanes_aadOf (sessionId : BitVec 32) (counter : BitVec 64) (length : ℕ) :
    lanes (k := 16) (aadOf sessionId counter (BitVec.ofNat 8 length)) =
      Pc.aad sessionId.toNat counter.toNat length := by
  have hlow := bytes_append (j := 4) (k := 12) ((0#24 ++ BitVec.ofNat 8 length) ++ packBe 8 counter)
    (packBe 4 sessionId)
  have hmid := bytes_append (j := 8) (k := 4) (0#24 ++ BitVec.ofNat 8 length) (packBe 8 counter)
  have htop := bytes_append (j := 1) (k := 3) 0#24 (BitVec.ofNat 8 length)
  rw [lanes_big] at hlow hmid
  rw [Pc.aad, List.append_assoc, aadOf_append]
  refine hlow.trans (congrArg (Python.toBytesBig 4 sessionId.toNat ++ ·) (hmid.trans ?_))
  refine congrArg (Python.toBytesBig 8 counter.toNat ++ ·) (htop.trans ?_)
  rw [lanes_byte]
  rfl

end Packing

section Packets

open Pc

variable {n : ℕ} {keys : SessionKeys} {e : Session} {T : Slots n} {slot : BitVec (slotWidth n)}

theorem nonce_eq {pre : Bytes} (hpre : pre.length = 4) {counter : ℕ} (hc : counter < 2 ^ 64) :
    Pc.nonce pre counter = .ok (pre ++ Python.toBytesBig 8 counter) := by
  rw [Pc.nonce, if_neg]
  rw [hpre]
  omega

/-- What `seal` sends at the counter `c`. -/
theorem sealPacket_eq (h : Agree keys e) (c : BitVec 64) (hc : keys.txCounter = c.toNat) {message : Bytes}
    (hm : message.length ≤ 64) :
    let frame := Rfc8439.aeadEncrypt (lanes (k := 16) (aadOf e.sessionId c (BitVec.ofNat 8 message.length)))
      (lanes (k := 32) e.rxKey) (lanes (k := 12) (nonceOf e.rxPrefix c)) (AeadHw.padded message message.length)
    sealPacket chacha20Poly1305 keys message = .ok (message.length, frame.1, frame.2) := by
  intro frame
  have hlen : (chacha20Poly1305.encrypt keys.pcToBoardKey (keys.pcToBoardPrefix ++ Python.toBytesBig 8 keys.txCounter)
      (message ++ List.replicate (64 - message.length) 0) (aad keys.sid keys.txCounter message.length)) =
      frame.1 ++ frame.2 := by
    rw [h.rxKey, h.rxPrefix, h.sid, hc, ← lanes_nonceOf, ← lanes_aadOf, ← AeadHw.padded_eq hm]
    rfl
  have htag : frame.2.length = 16 := Rfc8439.length_mac _ _
  rw [sealPacket, nonce_eq (by rw [h.rxPrefix, length_lanes]) (by rw [hc]; exact c.isLt)]
  simp only [bind, Except.bind, pure, Except.pure, PACKET_BYTES, hlen]
  rw [if_neg (by omega), List.length_append, htag, Nat.add_sub_cancel, List.take_left, List.drop_left]

/-- A request within what its session allows; the engine's result is `out`. -/
theorem serve_ok {aead : EngineIn → EngineOut} {q : Request n} {out : EngineOut} (he : T q.slot = some e)
    (h : ¬ Refused e q) (hout : aead (engineOperands e q) = out) (hok : out.authOk = true) :
    serve aead T q = (Function.update T q.slot (some (e.advance q.decrypt)),
      ⟨true, false, q.slot, e.counter q.decrypt, out.data, out.tag⟩) := by
  subst hout
  simp only [serve, he, if_neg h, hok, if_true, answer]
  rfl

theorem length_allowed {length : ℕ} (h : length ≤ 64) : ¬ 64#8 < BitVec.ofNat 8 length := by
  rw [BitVec.lt_def, BitVec.toNat_ofNat]
  simp
  omega

/-- A sealed packet opens. -/
theorem fixed64_frame {x : EngineIn} (h : x.decrypt = true) {plaintext : Bytes} (hlen : plaintext.length = 64)
    (hframe : (lanes (k := 64) x.data, lanes (k := 16) x.receivedTag) = Rfc8439.aeadEncrypt (lanes (k := 16) x.aad)
      (lanes (k := 32) x.key) (lanes (k := 12) x.nonce) plaintext) :
    (fixed64 chacha20 poly1305 x).authOk = true ∧
      lanes (k := 64) (fixed64 chacha20 poly1305 x).data = plaintext := by
  rw [Rfc8439.aeadEncrypt, Prod.mk.injEq] at hframe
  obtain ⟨hdata, htag⟩ := hframe
  obtain ⟨hauth, hplain, -⟩ := fixed64_open h
  have hok : (fixed64 chacha20 poly1305 x).authOk = true := by
    rw [hauth, rfcTag, htag, hdata]
  refine ⟨hok, ?_⟩
  rw [hplain hok, hdata, Rfc8439.encrypt_encrypt 1 hlen]

/-- The board accepts the frame at its counter and gives the padded message. -/
theorem serve_frame (he : T slot = some e) {message : Bytes} (hm : message.length ≤ 64) {packet : BitVec 512}
    {tag : BitVec 128} (hframe : (lanes (k := 64) packet, lanes (k := 16) tag) =
      Rfc8439.aeadEncrypt (lanes (k := 16) (aadOf e.sessionId e.rxCounter (BitVec.ofNat 8 message.length)))
        (lanes (k := 32) e.rxKey) (lanes (k := 12) (nonceOf e.rxPrefix e.rxCounter))
        (AeadHw.padded message message.length)) :
    let answer := serve (fixed64 chacha20 poly1305) T
      ⟨slot, true, BitVec.ofNat 8 message.length, e.rxCounter, packet, tag⟩
    answer.1 = Function.update T slot (some (e.advance true)) ∧ answer.2.authOk = true ∧
      lanes (k := 64) answer.2.data = AeadHw.padded message message.length := by
  intro answer
  set q : Request n := ⟨slot, true, BitVec.ofNat 8 message.length, e.rxCounter, packet, tag⟩
  have hallowed : ¬ Refused e q := by simp [Refused, q, length_allowed hm]
  obtain ⟨hok, hplain⟩ := fixed64_frame (x := engineOperands e q) rfl (AeadHw.length_padded _ _) hframe
  obtain ⟨out, hout⟩ : ∃ out, fixed64 chacha20 poly1305 (engineOperands e q) = out := ⟨_, rfl⟩
  rw [hout] at hok hplain
  have hserve : answer = _ := serve_ok (q := q) he hallowed hout hok
  rw [hserve]
  exact ⟨rfl, rfl, hplain⟩

theorem openResponse_ok {aead : Aead} {counter length : ℕ} {ciphertext tag nonce plain : Bytes} (hlen : length ≤ 64)
    (hct : ciphertext.length = 64) (htag : tag.length = 16)
    (hnonce : Pc.nonce keys.boardToPcPrefix counter = .ok nonce)
    (hopen : aead.decrypt keys.boardToPcKey nonce (ciphertext ++ tag) (aad keys.sid counter length) = some plain) :
    openResponse aead keys counter length ciphertext tag = .ok (plain.take length) := by
  have hlen' : ¬ ¬ (0 ≤ (length : ℤ) ∧ (length : ℤ) ≤ PACKET_BYTES) := by
    simp [PACKET_BYTES]
    omega
  have hsizes : ¬ (ciphertext.length ≠ PACKET_BYTES ∨ tag.length ≠ 16) := by simp [PACKET_BYTES, hct, htag]
  simp only [openResponse, hnonce, bind, Except.bind, pure, Except.pure, Int.toNat_natCast, hopen]
  rw [if_neg hlen', if_neg hsizes]
  rfl

/-- `open_response` opens a sealed packet at its counter. -/
theorem open_frame (h : Agree keys e) (c : BitVec 64) {message : Bytes} (hm : message.length ≤ 64)
    {packet : BitVec 512} {tag : BitVec 128} (hframe : (lanes (k := 64) packet, lanes (k := 16) tag) =
      Rfc8439.aeadEncrypt (lanes (k := 16) (aadOf e.sessionId c (BitVec.ofNat 8 message.length)))
        (lanes (k := 32) e.txKey) (lanes (k := 12) (nonceOf e.txPrefix c)) (AeadHw.padded message message.length)) :
    openResponse chacha20Poly1305 keys c.toNat message.length (lanes (k := 64) packet) (lanes (k := 16) tag) =
      .ok message := by
  have hopen : chacha20Poly1305.decrypt keys.boardToPcKey (keys.boardToPcPrefix ++ Python.toBytesBig 8 c.toNat)
      (lanes (k := 64) packet ++ lanes (k := 16) tag) (aad keys.sid c.toNat message.length) =
      some (AeadHw.padded message message.length) := by
    have hlen : (lanes (k := 64) packet ++ lanes (k := 16) tag).length - 16 = (lanes (k := 64) packet).length := by
      simp
    have hlong : ¬ (lanes (k := 64) packet ++ lanes (k := 16) tag).length < 16 := by simp
    have hboth := @Rfc8439.aeadDecrypt_aeadEncrypt (lanes (k := 32) e.txKey)
      (lanes (k := 12) (nonceOf e.txPrefix c)) _ (lanes (k := 16) (aadOf e.sessionId c (BitVec.ofNat 8 message.length))) (AeadHw.length_padded message message.length)
    rw [← hframe] at hboth
    simp only [chacha20Poly1305]
    rw [if_neg hlong, hlen, List.take_left, List.drop_left, h.txKey, h.txPrefix, h.sid, ← lanes_nonceOf,
      ← lanes_aadOf, hboth]
  have hnonce := @nonce_eq keys.boardToPcPrefix (by rw [h.txPrefix, length_lanes]) _ c.isLt
  have htake : (AeadHw.padded message message.length).take message.length = message := by
    rw [AeadHw.padded_eq hm, List.take_left]
  rw [openResponse_ok hm (length_lanes _) (length_lanes _) hnonce hopen, htake]

/-- What the board seals, `open_response` opens at the counter that comes with it. -/
theorem serve_message (h : Agree keys e) (he : T slot = some e) {message : Bytes} (hm : message.length ≤ 64)
    (counter : BitVec 64) {packet : BitVec 512}
    (hpacket : lanes (k := 64) packet = AeadHw.padded message message.length) (tag : BitVec 128) :
    let answer := serve (fixed64 chacha20 poly1305) T
      ⟨slot, false, BitVec.ofNat 8 message.length, counter, packet, tag⟩
    answer.1 = Function.update T slot (some (e.advance false)) ∧ answer.2.authOk = true ∧
      answer.2.counter = e.txCounter ∧
      openResponse chacha20Poly1305 keys answer.2.counter.toNat message.length (lanes (k := 64) answer.2.data)
        (lanes (k := 16) answer.2.tag) = .ok message := by
  intro answer
  set q : Request n := ⟨slot, false, BitVec.ofNat 8 message.length, counter, packet, tag⟩
  have hallowed : ¬ Refused e q := by
    simp [Refused, q, length_allowed hm]
  obtain ⟨hok, hseal⟩ := fixed64_seal (x := engineOperands e q) rfl
  obtain ⟨out, hout⟩ : ∃ out, fixed64 chacha20 poly1305 (engineOperands e q) = out := ⟨_, rfl⟩
  rw [hout] at hok hseal
  have hserve : answer = _ := serve_ok (q := q) he hallowed hout hok
  rw [hserve]
  refine ⟨rfl, rfl, rfl, ?_⟩
  have hopen := open_frame h e.txCounter hm (hseal.trans (congrArg _ hpacket))
  exact hopen

end Packets

section Channel

open Pc AeadHw TrafficPort

variable {n : ℕ} {κ : Type}

/-- The slot as the port takes it. -/
def slotOf (n slot : ℕ) : BitVec (slotWidth n) := (BitVec.ofNat 32 slot).setWidth _

/-- The board accepts what the PC seals at the counter it expects. -/
def Accepts (E : StartDone (fixed64 chacha20 poly1305) κ) (limit : ℕ) (keys : SessionKeys) (e : Session) : Prop :=
  ∀ {n : ℕ} (time : ℕ → Access κ) (b : Bus n E) (T : Slots n) (slot : ℕ) (message : Bytes), Quiet b.port T →
    slot < AEAD_HW_MAX_SESSIONS → T (slotOf n slot) = some e → message.length ≤ 64 →
    ∃ length ciphertext tag b',
      sealPacket chacha20Poly1305 { keys with txCounter := e.rxCounter.toNat } message =
        .ok (length, ciphertext, tag) ∧
      decrypt time limit b slot e.rxCounter length ciphertext tag =
        (b', .ok (message ++ List.replicate (64 - message.length) 0)) ∧
      Quiet b'.port (Function.update T (slotOf n slot) (some (e.advance true)))

/-- The PC opens what the board seals, at the counter that is returned. -/
def Opens (E : StartDone (fixed64 chacha20 poly1305) κ) (limit : ℕ) (keys : SessionKeys) (e : Session) : Prop :=
  ∀ {n : ℕ} (time : ℕ → Access κ) (b : Bus n E) (T : Slots n) (slot : ℕ) (message : Bytes), Quiet b.port T →
    slot < AEAD_HW_MAX_SESSIONS → T (slotOf n slot) = some e → message.length ≤ 64 →
    ∃ ciphertext tag counter b',
      encrypt time limit b slot message message.length = (b', .ok (ciphertext, tag, counter)) ∧
      counter = e.txCounter ∧
      openResponse chacha20Poly1305 keys counter.toNat message.length ciphertext tag = .ok message ∧
      Quiet b'.port (Function.update T (slotOf n slot) (some (e.advance false)))

variable {E : StartDone (fixed64 chacha20 poly1305) κ} {keys : SessionKeys} {e : Session} {limit : ℕ}

theorem accepts_sealed (C : E.Timed) (hl : C.bound + 57 < limit) (h : Agree keys e) : Accepts E limit keys e := by
  intro n time b T slot message hq hslot he hm
  have hseal := @sealPacket_eq { keys with txCounter := e.rxCounter.toNat } e
    ⟨h.sid, h.rxKey, h.rxPrefix, h.txKey, h.txPrefix⟩ e.rxCounter rfl _ hm
  generalize hf : Rfc8439.aeadEncrypt _ _ _ _ = frame at hseal
  have hct : frame.1.length = 64 := by
    rw [← hf]
    exact (Rfc8439.length_encrypt _ _ _ _).trans (length_padded _ _)
  have htag : frame.2.length = 16 := by
    rw [← hf]
    exact Rfc8439.length_mac _ _
  obtain ⟨b', hq', hdec⟩ := decrypt_served time C hq hl hslot hm e.rxCounter frame.1 frame.2
  obtain ⟨htable, hok, hdata⟩ := @serve_frame _ _ _ _ he _ hm (TrafficFrontend.packWords 16 (packetWord frame.1 64))
    (TrafficFrontend.packWords 4 fun i => load32Le (frame.2.drop (4 * i))) (by rw [lanes_packet, lanes_tag htag, padded_full hct, hf])
  rw [setWidth_length] at hq' hdec
  set answer := serve (fixed64 chacha20 poly1305) T ⟨slotOf n slot, true, BitVec.ofNat 8 message.length, e.rxCounter,
    TrafficFrontend.packWords 16 (packetWord frame.1 64),
    TrafficFrontend.packWords 4 fun i => load32Le (frame.2.drop (4 * i))⟩
  refine ⟨_, _, _, b', hseal, ?_, ?_⟩
  · refine hdec.trans ?_
    rw [← padded_eq hm, ← hdata]
    exact congrArg _ (if_pos hok)
  · rw [← htable]
    exact hq'

theorem opens_sealed (C : E.Timed) (hl : C.bound + 57 < limit) (h : Agree keys e) : Opens E limit keys e := by
  intro n time b T slot message hq hslot he hm
  obtain ⟨counter, tag, b', hq', henc⟩ := encrypt_served time C hq hl hslot hm message
  obtain ⟨htable, hok, hcounter, hopen⟩ := serve_message h he hm counter (lanes_packet message message.length) tag
  rw [setWidth_length] at hq' henc
  set answer := serve (fixed64 chacha20 poly1305) T ⟨slotOf n slot, false, BitVec.ofNat 8 message.length, counter,
    TrafficFrontend.packWords 16 (packetWord message message.length), tag⟩
  refine ⟨_, _, _, b', henc.trans (congrArg _ (if_pos hok)), hcounter, hopen, ?_⟩
  rw [← htable]
  exact hq'

/-- Two sides of one handshake have one channel: the slices of the board's key material are the PC's
keys, the board accepts what the PC seals at the expected counter, and the PC opens what the board
seals. The board polls 642 times at least; every caller allows a million. -/
theorem one_channel {pk ct ss : Bytes} (hpk : pk.length = 800) (hct : ct.length = 768) (hss : ss.length = 32)
    (sid : BitVec 32) {limit : ℕ} (hl : 642 ≤ limit) :
    ∃ keys, deriveSession pk ct ss sid.toNat = .ok keys ∧ (∃ D, Material pk ct ss sid D) ∧
      ∀ D, Material pk ct ss sid D → ∀ {n : ℕ} (slot : BitVec (slotWidth n)) (tx rx : BitVec 64),
        let e := { Session.fresh (MaterialCore.materialConfig slot sid D) with txCounter := tx, rxCounter := rx }
        Agree keys e ∧ Accepts AeadEngine.packetEngine limit keys e ∧ Opens AeadEngine.packetEngine limit keys e := by
  refine ⟨_, deriveSession_eq hpk hct hss sid, exists_material hpk hct hss sid, ?_⟩
  intro D hD n slot tx rx e
  obtain ⟨hsid, hrk, hrp, htk, htp⟩ := derive_agree hD (deriveSession_eq hpk hct hss sid) hpk hct hss slot
  have hagree : Agree _ e := ⟨hsid, hrk, hrp, htk, htp⟩
  have hbound : (AeadEngine.timed Chacha20Block.timed Poly1305Fixed96.timed).bound + 57 < limit := hl
  exact ⟨hagree, accepts_sealed _ hbound hagree, opens_sealed _ hbound hagree⟩

/-- A message over the session of an exchange of zeros, in slot 5 of 64. -/
theorem one_channel_zeros : ∃ (keys : SessionKeys) (D : BitVec 576),
    Material (List.replicate 800 0) (List.replicate 768 0) (List.replicate 32 0) 7 D ∧
      let e := Session.fresh (MaterialCore.materialConfig (n := 64) 5 7 D)
      let b : Bus 64 AeadEngine.packetEngine := ⟨holding _ (Function.update (fun _ => none) 5 (some e)), 0⟩
      ∃ length ciphertext tag b',
        sealPacket chacha20Poly1305 { keys with txCounter := 0 } [0x68, 0x69] = .ok (length, ciphertext, tag) ∧
        decrypt (fun _ => ⟨[], ((), ())⟩) 10000000 b 5 0 length ciphertext tag =
          (b', .ok ([0x68, 0x69] ++ List.replicate 62 0)) := by
  obtain ⟨keys, -, ⟨D, hD⟩, hall⟩ := @one_channel (List.replicate 800 0) (List.replicate 768 0)
    (List.replicate 32 0) (List.length_replicate ..) (List.length_replicate ..) (List.length_replicate ..) 7
    10000000 (by decide)
  refine ⟨keys, D, hD, ?_⟩
  intro e b
  have hT : ∀ (slot : BitVec (slotWidth 64)) e',
      Function.update (fun _ => none) 5 (some e) slot = some e' → slot.toNat < 64 := fun slot _ _ => slot.isLt
  obtain ⟨length, ciphertext, tag, b', hseal, hdec, -⟩ := (hall D hD (n := 64) 5 0 0).2.1
    (fun _ => ⟨[], ((), ())⟩) b _ 5 [0x68, 0x69] (quiet_holding hT) (by decide) rfl (by decide)
  exact ⟨length, ciphertext, tag, b', hseal, hdec⟩

end Channel

end ZedSecure
