import ZedSecure.Proofs.DataLines
import ZedSecure.Proofs.SessionView

/-! Packets of the text link at the session table: what the PC has sealed at the counter the table expects is opened,
the echo comes back sealed for the PC, and nothing else moves a counter. -/

namespace ZedSecure

open Clocked LittleEndian SessionManager SessionTable
open AeadHw (padded packetWord load32Le)
open BoardLink (Session)
open Python (toBytesBig)

/-- The session as `pqc_crypto` has it. -/
def BoardLink.Session.keys (s : BoardLink.Session) : Pc.SessionKeys :=
  ⟨s.sid, s.txKey, s.txPrefix, s.rxKey, s.rxPrefix, s.txCounter, s.rxCounter⟩

/-- The request that a packet makes at the table. -/
def packetRequest (slot : ℕ) (decrypt : Bool) (length : ℕ) (counter : BitVec 64) (packet : Bytes) (packetLength : ℕ)
    (tag : BitVec 128) : Request 64 :=
  ⟨slotOf 64 slot, decrypt, BitVec.ofNat 8 length, counter, TrafficFrontend.packWords 16 (packetWord packet packetLength), tag⟩

def tagOf (tag : Bytes) : BitVec 128 := TrafficFrontend.packWords 4 fun i => load32Le (tag.drop (4 * i))

/-- A device whose two packet functions answer as the table does; `I` says which table it holds. -/
structure Serves {σ : Type} (D : UartDemo.Channel σ) (I : σ → Slots 64 → Prop) : Prop where
  decrypt : ∀ s T slot counter length ciphertext tag, I s T → slot < UartDemo.UART_DEMO_SESSIONS → length ≤ 64 →
    let answer := serve (fixed64 chacha20 poly1305) T (packetRequest slot true length counter ciphertext 64 (tagOf tag))
    ∃ s', I s' answer.1 ∧ D.decrypt s slot counter length ciphertext tag =
      (s', if answer.2.authOk then .ok (lanes (k := 64) answer.2.data) else .error .auth)
  encrypt : ∀ s T slot length message, I s T → slot < UartDemo.UART_DEMO_SESSIONS → length ≤ 64 →
    ∃ counter tag,
      let answer := serve (fixed64 chacha20 poly1305) T (packetRequest slot false length counter message length tag)
      ∃ s', I s' answer.1 ∧ D.encrypt s slot message length =
        (s', if answer.2.authOk then
            .ok (lanes (k := 64) answer.2.data, lanes (k := 16) answer.2.tag, answer.2.counter)
          else .error .auth)

/-- The channel over the traffic port; a handshake is left open. -/
def trafficChannel {κ : Type} {E : StartDone (fixed64 chacha20 poly1305) κ} (time : ℕ → AeadHw.Access κ) (limit : ℕ)
    (establish : AeadHw.Bus 64 E → ℕ → BitVec 32 → AeadHw.Bus 64 E × ℤ) : UartDemo.Channel (AeadHw.Bus 64 E) where
  establish := establish
  decrypt b slot counter length ciphertext tag := AeadHw.decrypt time limit b slot counter length ciphertext tag
  encrypt b slot message length := AeadHw.encrypt time limit b slot message length

/-- The driver over the port and the session manager does so, when it polls for long enough. -/
theorem traffic_serves {κ : Type} {E : StartDone (fixed64 chacha20 poly1305) κ} (C : E.Timed) {limit : ℕ}
    (hl : C.bound + 57 < limit) (time : ℕ → AeadHw.Access κ)
    (establish : AeadHw.Bus 64 E → ℕ → BitVec 32 → AeadHw.Bus 64 E × ℤ) :
    Serves (trafficChannel time limit establish) fun b T => TrafficPort.Quiet b.port T := by
  refine ⟨?_, ?_⟩
  · intro b T slot counter length ciphertext tag hq hslot hlen
    have hserved := AeadHw.decrypt_served time C hq hl hslot hlen counter ciphertext tag
    rw [AeadHw.setWidth_length] at hserved
    exact hserved
  · intro b T slot length message hq hslot hlen
    obtain ⟨counter, tag, hserved⟩ := AeadHw.encrypt_served time C hq hl hslot hlen message
    rw [AeadHw.setWidth_length] at hserved
    exact ⟨counter, tag, hserved⟩

section Table

variable {T : Slots 64} {e : ZedSecure.Session} {session : BoardLink.Session} {slot : ℕ} {payload : Bytes}

/-- A request that is not granted leaves the table. -/
theorem serve_unchanged {n : ℕ} {aead : EngineIn → EngineOut} {T : Slots n} {q : Request n}
    (h : (serve aead T q).2.authOk = false) : (serve aead T q).1 = T := by
  cases he : T q.slot with
  | none => simp [serve, he]
  | some e =>
    by_cases hr : Refused e q
    · simp [serve, he, hr]
    · simp only [serve, he, if_neg hr, answer] at h ⊢
      simp [h]

/-- At another counter than the expected one. -/
theorem serve_stale {length : ℕ} {counter : BitVec 64} {ciphertext : Bytes} {tag : BitVec 128}
    (he : T (slotOf 64 slot) = some e) (hne : counter ≠ e.rxCounter) :
    (serve (fixed64 chacha20 poly1305) T (packetRequest slot true length counter ciphertext 64 tag)).2.authOk = false := by
  have hr : Refused e (packetRequest slot true length counter ciphertext 64 tag) := Or.inr ⟨rfl, hne⟩
  have he' : T (packetRequest slot true length counter ciphertext 64 tag).slot = some e := he
  simp [serve, he', if_pos hr, refusal]

/-- The frame that `encrypt` makes of a padded payload. -/
theorem frame_eq (h : Agree session.keys e) (hc : session.txCounter = e.rxCounter.toNat) (hm : payload.length ≤ 64) :
    (frameCiphertext Pc.chacha20Poly1305 session payload, frameTag Pc.chacha20Poly1305 session payload) =
      Rfc8439.aeadEncrypt (lanes (k := 16) (aadOf e.sessionId e.rxCounter (BitVec.ofNat 8 payload.length)))
        (lanes (k := 32) e.rxKey) (lanes (k := 12) (nonceOf e.rxPrefix e.rxCounter)) (padded payload payload.length) := by
  have hframe : frame Pc.chacha20Poly1305 session payload =
      (Rfc8439.aeadEncrypt (lanes (k := 16) (aadOf e.sessionId e.rxCounter (BitVec.ofNat 8 payload.length)))
        (lanes (k := 32) e.rxKey) (lanes (k := 12) (nonceOf e.rxPrefix e.rxCounter)) (padded payload payload.length)).1 ++
      (Rfc8439.aeadEncrypt (lanes (k := 16) (aadOf e.sessionId e.rxCounter (BitVec.ofNat 8 payload.length)))
        (lanes (k := 32) e.rxKey) (lanes (k := 12) (nonceOf e.rxPrefix e.rxCounter)) (padded payload payload.length)).2 := by
    have hkey : session.txKey = lanes (k := 32) e.rxKey := h.rxKey
    have hpre : session.txPrefix = lanes (k := 4) e.rxPrefix := h.rxPrefix
    have hsid : session.sid = e.sessionId.toNat := h.sid
    rw [frame, hkey, hpre, hsid, hc, ← lanes_nonceOf, ← lanes_aadOf, AeadHw.padded_eq hm]
    rfl
  have htag : (Rfc8439.aeadEncrypt (lanes (k := 16) (aadOf e.sessionId e.rxCounter (BitVec.ofNat 8 payload.length)))
      (lanes (k := 32) e.rxKey) (lanes (k := 12) (nonceOf e.rxPrefix e.rxCounter)) (padded payload payload.length)).2.length =
      16 := Rfc8439.length_mac _ _
  rw [frameCiphertext, frameTag, hframe, List.length_append, htag, Nat.add_sub_cancel, List.take_left, List.drop_left]

theorem allowed_frame (hm : payload.length ≤ 64) {ciphertext : Bytes} {tag : BitVec 128} :
    ¬ Refused e (packetRequest slot true payload.length e.rxCounter ciphertext 64 tag) := by
  simp [Refused, packetRequest, length_allowed hm]

/-- The PC's packet at the expected counter is opened, and the counter moves. -/
theorem serve_accepts (h : Agree session.keys e) (he : T (slotOf 64 slot) = some e)
    (hc : session.txCounter = e.rxCounter.toNat) (hm : payload.length ≤ 64) :
    let answer := serve (fixed64 chacha20 poly1305) T (packetRequest slot true payload.length e.rxCounter
      (frameCiphertext Pc.chacha20Poly1305 session payload) 64 (tagOf (frameTag Pc.chacha20Poly1305 session payload)))
    answer.1 = Function.update T (slotOf 64 slot) (some (e.advance true)) ∧ answer.2.authOk = true ∧
      lanes (k := 64) answer.2.data = padded payload payload.length := by
  refine serve_frame he hm ?_
  rw [AeadHw.lanes_packet, AeadHw.padded_full (length_frameCiphertext _ _ hm), tagOf, AeadHw.lanes_tag (length_frameTag _ _ hm)]
  exact frame_eq h hc hm

theorem decrypt_append {key nonce ciphertext tag aad : Bytes} (htag : tag.length = 16) :
    Pc.chacha20Poly1305.decrypt key nonce (ciphertext ++ tag) aad = Rfc8439.aeadDecrypt aad key nonce ciphertext tag := by
  have hshort : ¬ (ciphertext ++ tag).length < 16 := by simp [htag]
  have hlast : (ciphertext ++ tag).length - 16 = ciphertext.length := by simp [htag]
  simp only [Pc.chacha20Poly1305]
  rw [if_neg hshort, hlast, List.take_left, List.drop_left]

/-- The tag of the packet does not fit when its first bit has been flipped. -/
def Detected (session : BoardLink.Session) (payload : Bytes) : Prop :=
  Pc.chacha20Poly1305.decrypt session.txKey (session.txPrefix ++ toBytesBig 8 session.txCounter)
    (Pc.corrupt (frameCiphertext Pc.chacha20Poly1305 session payload) ++ frameTag Pc.chacha20Poly1305 session payload)
    (Pc.aad session.sid session.txCounter payload.length) = none

/-- A packet whose tag does not fit is not granted. -/
theorem serve_denies {n : ℕ} {T : Slots n} {q : Request n} (he : T q.slot = some e) (hdec : q.decrypt = true)
    (hfits : lanes (k := 16) q.tag ≠ rfcTag (engineOperands e q)) :
    (serve (fixed64 chacha20 poly1305) T q).2.authOk = false := by
  by_cases hr : Refused e q
  · simp only [serve, he, if_pos hr, refusal]
  · obtain ⟨out, hout⟩ : ∃ out, fixed64 chacha20 poly1305 (engineOperands e q) = out := ⟨_, rfl⟩
    have hopen := (fixed64_open (x := engineOperands e q) hdec).1
    simp only [serve, he, if_neg hr, answer, hout] at hopen ⊢
    exact Bool.eq_false_iff.mpr fun hok => hfits (hopen.mp hok)

theorem tag_ne {key nonce ciphertext tag aad : Bytes} (h : Rfc8439.aeadDecrypt aad key nonce ciphertext tag = none) :
    Rfc8439.tag key nonce aad ciphertext ≠ tag := by
  intro hfits
  rw [Rfc8439.aeadDecrypt, if_pos hfits] at h
  cases h

theorem serve_rejects (h : Agree session.keys e) (he : T (slotOf 64 slot) = some e)
    (hc : session.txCounter = e.rxCounter.toNat) (hm : payload.length ≤ 64) (hdet : Detected session payload) :
    (serve (fixed64 chacha20 poly1305) T (packetRequest slot true payload.length e.rxCounter
      (Pc.corrupt (frameCiphertext Pc.chacha20Poly1305 session payload)) 64
      (tagOf (frameTag Pc.chacha20Poly1305 session payload)))).2.authOk = false := by
  have hlen : (Pc.corrupt (frameCiphertext Pc.chacha20Poly1305 session payload)).length = 64 :=
    (length_corrupt _).trans (length_frameCiphertext _ _ hm)
  have htag : (frameTag Pc.chacha20Poly1305 session payload).length = 16 := length_frameTag _ _ hm
  rw [Detected, decrypt_append htag] at hdet
  generalize Pc.corrupt (frameCiphertext Pc.chacha20Poly1305 session payload) = ciphertext at hlen hdet ⊢
  generalize frameTag Pc.chacha20Poly1305 session payload = tag at htag hdet ⊢
  have hkey : session.txKey = lanes (k := 32) e.rxKey := h.rxKey
  have hpre : session.txPrefix = lanes (k := 4) e.rxPrefix := h.rxPrefix
  have hsid : session.sid = e.sessionId.toNat := h.sid
  have hdata : lanes (k := 64) (TrafficFrontend.packWords 16 (packetWord ciphertext 64)) = ciphertext :=
    (AeadHw.lanes_packet ciphertext 64).trans (AeadHw.padded_full hlen)
  have hreceived : lanes (k := 16) (tagOf tag) = tag := AeadHw.lanes_tag htag
  refine serve_denies (e := e) he rfl ?_
  intro hfits
  refine tag_ne hdet ?_
  rw [hkey, hpre, hsid, hc, ← lanes_nonceOf, ← lanes_aadOf]
  simp only [packetRequest, rfcTag, engineOperands, hdata, hreceived] at hfits
  exact hfits.symm

theorem openResponse_inv {aead : Aead} {keys : Pc.SessionKeys} {counter length : ℕ} {ciphertext tag message : Bytes}
    (hc : counter < 2 ^ 64) (hpre : keys.boardToPcPrefix.length = 4)
    (h : Pc.openResponse aead keys counter length ciphertext tag = .ok message) :
    ∃ plain, aead.decrypt keys.boardToPcKey (keys.boardToPcPrefix ++ toBytesBig 8 counter) (ciphertext ++ tag)
      (Pc.aad keys.sid counter length) = some plain ∧ plain.take length = message := by
  simp only [Pc.openResponse, nonce_eq hpre hc, bind, Except.bind, pure, Except.pure, Int.toNat_natCast] at h
  split_ifs at h
  cases hopen : aead.decrypt keys.boardToPcKey (keys.boardToPcPrefix ++ toBytesBig 8 counter) (ciphertext ++ tag)
      (Pc.aad keys.sid counter length) with
  | none =>
    rw [hopen] at h
    cases h
  | some plain =>
    rw [hopen] at h
    exact ⟨plain, rfl, Except.ok.inj h⟩

theorem padded_padded (message : Bytes) (length : ℕ) : padded (padded message length) length = padded message length := by
  refine List.map_congr_left fun i hi => ?_
  split_ifs with hlt
  · have hi := List.mem_range.mp hi
    rw [List.getD_eq_getElem _ _ (by rw [AeadHw.length_padded]; exact hi)]
    simp [padded, hlt]
  · rfl

/-- The echo: what the table seals for the PC, the PC opens at its own counter. -/
theorem serve_echoes (h : Agree session.keys e) (he : T (slotOf 64 slot) = some e)
    (hc : session.rxCounter = e.txCounter.toNat) (hm : payload.length ≤ 64) (counter : BitVec 64) (tag : BitVec 128) :
    let answer := serve (fixed64 chacha20 poly1305) T
      (packetRequest slot false payload.length counter (padded payload payload.length) payload.length tag)
    answer.1 = Function.update T (slotOf 64 slot) (some (e.advance false)) ∧ answer.2.authOk = true ∧
      answer.2.counter = e.txCounter ∧
      ∃ plain, Pc.chacha20Poly1305.decrypt session.rxKey (session.rxPrefix ++ toBytesBig 8 session.rxCounter)
        (lanes (k := 64) answer.2.data ++ lanes (k := 16) answer.2.tag)
        (Pc.aad session.sid session.rxCounter payload.length) = some plain ∧ plain.take payload.length = payload := by
  intro answer
  have hpacket : lanes (k := 64) (TrafficFrontend.packWords 16
      (packetWord (padded payload payload.length) payload.length)) = padded payload payload.length :=
    (AeadHw.lanes_packet _ _).trans (padded_padded payload payload.length)
  obtain ⟨htable, hok, hcounter, hopen⟩ := serve_message h he hm counter hpacket tag
  refine ⟨htable, hok, hcounter, ?_⟩
  have hpre : session.keys.boardToPcPrefix.length = 4 := by
    rw [h.txPrefix]
    exact length_lanes _
  obtain ⟨plain, hplain, htake⟩ := openResponse_inv (BitVec.isLt _) hpre hopen
  have hrx : answer.2.counter.toNat = session.rxCounter := by
    rw [hc, ← hcounter]
    rfl
  exact ⟨plain, by rw [← hrx]; exact hplain, htake⟩

end Table

end ZedSecure
