import Mathlib.Data.List.TakeWhile
import ZedSecure.Pc.DataLoop
import ZedSecure.Pc.KeySchedule

/-! The lines of an exchange: the board reads the fields of the `DATA` line that the PC builds, and the PC reads the
fields of the line that the board prints. -/

namespace ZedSecure

open Ascii BoardLink
open Python (Bytes toBytesBig isSpace)

section Words

/-- A word of letters and digits. -/
def Plain (w : Text) : Prop := w ≠ [] ∧ ∀ c ∈ w, isSpace c = false ∧ 0 < c.toNat ∧ c.toNat < 128

theorem plain_of_all {w : Text}
    (h : (!w.isEmpty && w.all fun c => !isSpace c && decide (0 < c.toNat) && decide (c.toNat < 128)) = true) : Plain w := by
  rw [Bool.and_eq_true, List.all_eq_true] at h
  refine ⟨?_, fun c hc => ?_⟩
  · rintro rfl
    cases h.1
  · simpa [and_assoc] using h.2 c hc

theorem plain_of_digits {base : ℕ} {w : Text} (hbase : base ≤ 16) (hne : w ≠ []) (h : ∀ c ∈ w, Digit base c) :
    Plain w :=
  ⟨hne, fun c hc => ((h c hc).mono hbase).of_forall
    (P := fun c => isSpace c = false ∧ 0 < c.toNat ∧ c.toNat < 128) (by decide)⟩

theorem plain_decimal (n : ℕ) : Plain (decimal n) :=
  plain_of_digits (by decide) (decimal_ne_nil n) fun _ hc => digit_decimal hc

theorem plain_hexPadded {k : ℕ} (hk : 0 < k) (x : ℕ) : Plain (hexPadded k x) := by
  refine plain_of_digits le_rfl ?_ fun _ hc => digit_hexPadded hc
  rw [← List.length_pos_iff, length_hexPadded]
  exact hk

theorem plain_hexBytes {bs : Bytes} (h : bs ≠ []) : Plain (hexBytes bs) := by
  refine plain_of_digits le_rfl ?_ fun _ hc => digit_hexBytes hc
  rw [← List.length_pos_iff, length_hexBytes]
  have := List.length_pos_iff.mpr h
  omega

theorem Plain.space {w : Text} (h : Plain w) : Word isSpace w := ⟨h.1, fun c hc => (h.2 c hc).1⟩

theorem Plain.blank {w : Text} (h : Plain w) : Word (fun c => c = ' ') w := by
  refine ⟨h.1, fun c hc => ?_⟩
  have hc := (h.2 c hc).1
  simp only [isSpace, Bool.or_eq_false_iff] at hc
  exact hc.1.1

theorem ascii_unwords {ws : List Text} (h : ∀ w ∈ ws, Plain w) {c : Char} (hc : c ∈ unwords ws) :
    0 < c.toNat ∧ c.toNat < 128 := by
  rcases mem_unwords hc with rfl | ⟨w, hw, hc⟩
  · decide
  · exact ((h w hw).2 c hc).2

theorem length_unwords_cons {w v : Text} {ws : List Text} :
    (unwords (w :: v :: ws)).length = w.length + 1 + (unwords (v :: ws)).length := by
  rw [unwords]
  · rw [List.length_append, List.length_cons]
    omega
  · simp

end Words

section Request

theorem nonce_ok (pre : Bytes) {counter : ℕ} (hc : counter < 2 ^ 64) :
    BoardLink.nonce pre counter = .ok (pre ++ toBytesBig 8 counter) := by
  simp only [BoardLink.nonce, toBytes, if_pos (show counter < 256 ^ 8 by omega)]
  rfl

theorem aad_ok {sid counter : ℕ} (length : ℕ) (hsid : sid < 2 ^ 32) (hc : counter < 2 ^ 64) (hlen : length ≤ 255) :
    BoardLink.aad sid counter length = .ok (Pc.aad sid counter length) := by
  simp only [BoardLink.aad, toBytes, if_pos (show counter < 256 ^ 8 by omega), if_pos (show sid < 256 ^ 4 by omega)]
  simp only [bind, Except.bind, pure, Except.pure]
  rw [if_neg (by omega)]
  rfl

variable {aead : Aead} {session : BoardLink.Session} {slot : ℕ} {payload : Bytes} {tamper : Bool} {line : Text}

/-- The frame of a packet: its ciphertext and its tag. -/
def frame (aead : Aead) (session : BoardLink.Session) (payload : Bytes) : Bytes :=
  aead.encrypt session.txKey (session.txPrefix ++ toBytesBig 8 session.txCounter)
    (payload ++ List.replicate (Pc.PACKET_BYTES - payload.length) 0)
    (Pc.aad session.sid session.txCounter payload.length)

def frameCiphertext (aead : Aead) (session : BoardLink.Session) (payload : Bytes) : Bytes :=
  (frame aead session payload).take ((frame aead session payload).length - 16)

def frameTag (aead : Aead) (session : BoardLink.Session) (payload : Bytes) : Bytes :=
  (frame aead session payload).drop ((frame aead session payload).length - 16)

theorem length_frame (hm : payload.length ≤ 64) : (frame aead session payload).length = 80 := by
  rw [frame, aead.encrypt_length, List.length_append, List.length_replicate, Pc.PACKET_BYTES]
  omega

theorem length_frameCiphertext (aead : Aead) (session : BoardLink.Session) (hm : payload.length ≤ 64) : (frameCiphertext aead session payload).length = 64 := by
  rw [frameCiphertext, List.length_take, length_frame hm]
  omega

theorem length_frameTag (aead : Aead) (session : BoardLink.Session) (hm : payload.length ≤ 64) : (frameTag aead session payload).length = 16 := by
  rw [frameTag, List.length_drop, length_frame hm]

theorem length_corrupt (bs : Bytes) : (Pc.corrupt bs).length = bs.length := by
  cases bs <;> rfl

/-- The fields of a `DATA` line. -/
def dataWords (slot counter length : ℕ) (ciphertext tag : Bytes) : List Text :=
  ["DATA".toList, decimal slot, hexPadded 16 counter, decimal length, hexBytes ciphertext, hexBytes tag]

theorem request_eq (hm : payload.length ≤ 64) (hsid : session.sid < 2 ^ 32) (hc : session.txCounter < 2 ^ 64) :
    request aead session slot payload tamper = .ok (unwords (dataWords slot session.txCounter payload.length
      (if tamper then Pc.corrupt (frameCiphertext aead session payload) else frameCiphertext aead session payload)
      (frameTag aead session payload))) := by
  have hlen : ¬ Pc.PACKET_BYTES < payload.length := by
    rw [Pc.PACKET_BYTES]
    omega
  have hnonce := nonce_ok session.txPrefix hc
  have haad := aad_ok payload.length hsid hc (by omega)
  simp only [request, hnonce, haad, if_neg hlen, bind, Except.bind, pure, Except.pure]
  rfl

theorem length_packet (hm : payload.length ≤ 64) : (if tamper then
    Pc.corrupt (frameCiphertext aead session payload) else
      frameCiphertext aead session payload).length = 64 := by
  split_ifs
  · exact (length_corrupt _).trans (length_frameCiphertext _ _ hm)
  · exact length_frameCiphertext _ _ hm

/-- What a session sends, whatever is in it, is a packet at its own counter. -/
theorem request_cases (h : request aead session slot payload tamper = .ok line) :
    ∃ (counter : BitVec 64) (ciphertext tag : Bytes), session.txCounter = counter.toNat ∧ payload.length ≤ 64 ∧
      ciphertext.length = 64 ∧ tag.length = 16 ∧
      line = unwords (dataWords slot counter.toNat payload.length ciphertext tag) := by
  by_cases hlen : Pc.PACKET_BYTES < payload.length
  · simp [request, hlen, raise, bind, Except.bind] at h
  have hm : payload.length ≤ 64 := by
    rw [Pc.PACKET_BYTES] at hlen
    omega
  by_cases hc : session.txCounter < 2 ^ 64
  · by_cases hsid : session.sid < 2 ^ 32
    · rw [request_eq hm hsid hc] at h
      have hnat : (BitVec.ofNat 64 session.txCounter).toNat = session.txCounter := by
        rw [BitVec.toNat_ofNat, Nat.mod_eq_of_lt hc]
      have hline := (Except.ok.inj h).symm
      rw [← hnat] at hline
      exact ⟨_, _, _, hnat.symm, hm, length_packet hm, length_frameTag _ _ hm, hline⟩
    · have haad : BoardLink.aad session.sid session.txCounter payload.length = .error .overflow := by
        simp only [BoardLink.aad, BoardLink.toBytes]
        rw [if_neg (by omega)]
        rfl
      simp [request, nonce_ok _ hc, haad, hlen, bind, Except.bind] at h
  · have hnonce : BoardLink.nonce session.txPrefix session.txCounter = .error .overflow := by
      simp only [BoardLink.nonce, BoardLink.toBytes]
      rw [if_neg (by omega)]
      rfl
    simp [request, hnonce, hlen, bind, Except.bind] at h

end Request

section Received

open UartDemo

variable {σ : Type} {D : Channel σ} {s : State σ} {slot length : ℕ} {counter : BitVec 64} {ciphertext tag : Bytes}

theorem plain_dataWords (slot length : ℕ) (counter : BitVec 64) (hct : ciphertext.length = 64) (htag : tag.length = 16) :
    ∀ w ∈ dataWords slot counter.toNat length ciphertext tag, Plain w := by
  intro w hw
  simp only [dataWords, List.mem_cons, List.not_mem_nil, or_false] at hw
  rcases hw with rfl | rfl | rfl | rfl | rfl | rfl
  · exact plain_of_all rfl
  · exact plain_decimal slot
  · exact plain_hexPadded (by decide) _
  · exact plain_decimal length
  · refine plain_hexBytes ?_
    rintro rfl
    cases hct
  · refine plain_hexBytes ?_
    rintro rfl
    cases htag

/-- The line fits the buffer. -/
theorem length_dataWords (counter : BitVec 64) (hslot : slot < UART_DEMO_SESSIONS) (hlen : length ≤ 64) (hct : ciphertext.length = 64)
    (htag : tag.length = 16) :
    (unwords (dataWords slot counter.toNat length ciphertext tag)).length < UART_DEMO_LINE_BYTES := by
  have hs := length_decimal_le (n := slot) (k := 2) (by decide) (by
    have : UART_DEMO_SESSIONS = 64 := rfl
    omega)
  have hl := length_decimal_le (n := length) (k := 2) (by decide) (by omega)
  simp only [dataWords, length_unwords_cons]
  simp only [unwords, length_hexPadded, length_hexBytes, hct, htag, UART_DEMO_LINE_BYTES]
  have hdata : "DATA".toList.length = 4 := rfl
  omega

/-- A line of words that fits. -/
theorem readLine_unwords {ws : List Text} (h : ∀ w ∈ ws, Plain w) (hfits : (unwords ws).length < UART_DEMO_LINE_BYTES) :
    readLine (unwords ws) = some (unwords ws) := by
  rw [readLine, if_pos hfits, List.takeWhile_eq_self_iff.mpr]
  intro c hc
  have hpos := (ascii_unwords h hc).1
  exact decide_eq_true (by omega)

/-- The board reads the fields as they were written. -/
theorem command_data (s : State σ) (counter : BitVec 64) (t : Times) (hslot : slot < UART_DEMO_SESSIONS) (hlen : length ≤ 64)
    (hct : ciphertext.length = 64) (htag : tag.length = 16) :
    command D s (unwords (dataWords slot counter.toNat length ciphertext tag)) t =
      if s.active slot then echo D s slot counter length ciphertext tag t
      else (s, printed ["ERR".toList, "NOSESSION".toList, decimal slot]) := by
  have hplain := plain_dataWords slot length counter hct htag
  have hfits := length_dataWords counter hslot hlen hct htag
  have hline := readLine_unwords hplain hfits
  have hwords := tokens_unwords fun w hw => (hplain w hw).blank
  have hslot' : parseSlot (some (decimal slot)) = some slot := parseDecimal_decimal (Nat.le_pred_of_lt hslot)
  have hlength : parseLength (some (decimal length)) = some length := parseDecimal_decimal hlen
  have hct' : decodeHexExact (some (hexBytes ciphertext)) AeadHw.AEAD_HW_PACKET_BYTES = some ciphertext := by
    have h := decodeHexExact_hexBytes ciphertext
    rwa [hct] at h
  have htag' : decodeHexExact (some (hexBytes tag)) AeadHw.AEAD_HW_TAG_BYTES = some tag := by
    have h := decodeHexExact_hexBytes tag
    rwa [htag] at h
  have hcommand : ∀ w ∈ ["QUIT", "STATUS", "OPEN", "LEAVE"], "DATA".toList ≠ w.toList := by decide
  simp only [command, hline, hwords]
  simp only [dataWords, List.getElem?_cons_zero, hslot', List.tail_cons]
  rw [if_neg (hcommand "QUIT" (by simp)), if_neg (hcommand "STATUS" (by simp)), if_neg (hcommand "OPEN" (by simp)),
    if_neg (hcommand "LEAVE" (by simp)), if_pos trivial]
  simp only [handleData, List.getElem?_cons_zero, List.getElem?_cons_succ, parseU64Hex_hexPadded, hlength, hct', htag']
  cases s.active slot <;> rfl

end Received

section Answers

open UartDemo

/-- A printed line whose first word the link waits for. -/
theorem readProtocolLine_printed {w v : Text} {ws : List Text} (h : ∀ u ∈ w :: v :: ws, Plain u)
    (hpre : w ++ [' '] ∈ RESPONSE_PREFIXES) :
    readProtocolLine [ascii (printed (w :: v :: ws))] = some (unwords (w :: v :: ws)) := by
  have hascii : ∀ c ∈ printed (w :: v :: ws), c.toNat < 128 := by
    intro c hc
    rcases List.mem_append.mp hc with hc | hc
    · exact (ascii_unwords h hc).2
    · simp only [List.mem_cons, List.not_mem_nil, or_false] at hc
      rcases hc with rfl | rfl <;> decide
  have hstrip := strip_printed (by simp) fun u hu => (h u hu).space
  rw [readProtocolLine, List.map_cons, List.map_nil, decodeAscii_ascii hascii, hstrip, List.find?_cons_of_pos]
  rw [List.any_eq_true]
  refine ⟨_, hpre, ?_⟩
  rw [unwords, List.isPrefixOf_iff_prefix]
  · exact ⟨unwords (v :: ws), by simp⟩
  · simp

theorem split_unwords {ws : List Text} (h : ∀ w ∈ ws, Plain w) : Python.split (unwords ws) = ws :=
  words_unwords (by decide) fun w hw => (h w hw).space

variable {aead : Aead} {name : String} {session : BoardLink.Session} {slot : ℕ} {payload ciphertext tag plain : Bytes}
  {counter : BitVec 64} {rx tx : BitVec 32}

def respWords (slot : ℕ) (counter : BitVec 64) (length : ℕ) (rx tx : BitVec 32) (ciphertext tag : Bytes) : List Text :=
  ["RESP".toList, decimal slot, writeHex (k := 8) counter, decimal length, decimal rx.toNat, decimal tx.toNat,
    hexBytes ciphertext, hexBytes tag]

theorem plain_respWords (slot length : ℕ) (counter : BitVec 64) (rx tx : BitVec 32) (hct : ciphertext.length = 64) (htag : tag.length = 16) :
    ∀ w ∈ respWords slot counter length rx tx ciphertext tag, Plain w := by
  intro w hw
  simp only [respWords, List.mem_cons, List.not_mem_nil, or_false] at hw
  rcases hw with rfl | rfl | rfl | rfl | rfl | rfl | rfl | rfl
  · exact plain_of_all rfl
  · exact plain_decimal slot
  · rw [writeHex_eq]
    exact plain_hexPadded (by decide) _
  · exact plain_decimal length
  · exact plain_decimal _
  · exact plain_decimal _
  · refine plain_hexBytes ?_
    rintro rfl
    cases hct
  · refine plain_hexBytes ?_
    rintro rfl
    cases htag

/-- An answer that opens to the payload is taken, and both counters move. -/
theorem receive_resp (name : String) (slot : ℕ) (rx tx : BitVec 32) (hm : payload.length ≤ 64) (hsid : session.sid < 2 ^ 32)
    (hcounter : session.rxCounter = counter.toNat) (hct : ciphertext.length = 64) (htag : tag.length = 16)
    (hopen : aead.decrypt session.rxKey (session.rxPrefix ++ toBytesBig 8 session.rxCounter) (ciphertext ++ tag)
      (Pc.aad session.sid session.rxCounter payload.length) = some plain) (hplain : plain.take payload.length = payload) :
    receive aead name session slot payload false
        [ascii (printed (respWords slot counter payload.length rx tx ciphertext tag))] =
      (session.advance, .ok ⟨true, false, "secure echo verified".toList, rx.toNat, tx.toNat⟩) := by
  have hwords := plain_respWords slot payload.length counter rx tx hct
    htag
  have hline := readProtocolLine_printed hwords (by decide)
  have hsplit := split_unwords hwords
  have hno : ("ERR ".toList.isPrefixOf (unwords (respWords slot counter payload.length rx tx ciphertext tag))) = false := by
    rfl
  have hhex : Python.int 16 (writeHex (k := 8) counter) = some (session.rxCounter : ℤ) := by
    rw [writeHex_eq, hcounter]
    exact int_hexPadded (by decide) (lt_of_lt_of_le counter.isLt (by norm_num))
  have hlt : session.rxCounter < 2 ^ 64 := by
    rw [hcounter]
    exact counter.isLt
  have hnonce := nonce_ok session.rxPrefix hlt
  have haad := aad_ok payload.length hsid hlt (by omega)
  have hverify : verifyEcho aead session slot payload
      (unwords (respWords slot counter payload.length rx tx ciphertext tag)) =
        .ok (respWords slot counter payload.length rx tx ciphertext tag) := by
    simp only [verifyEcho, hno, hsplit]
    simp only [respWords, List.getD_cons_zero, List.getD_cons_succ, int_decimal, hhex, fromHex_hexBytes, hnonce, haad,
      BoardLink.orRaise, bind, Except.bind, pure, Except.pure, hopen, Int.toNat_natCast, hplain]
    simp
  have hecho : echoResult (respWords slot counter payload.length rx tx ciphertext tag) =
      .ok ⟨true, false, "secure echo verified".toList, rx.toNat, tx.toNat⟩ := by
    simp only [echoResult, respWords, List.getD_cons_zero, List.getD_cons_succ, int_decimal, BoardLink.orRaise, bind,
      Except.bind, pure, Except.pure]
  simp only [receive, respWords] at hline hverify hecho ⊢
  rw [hline]
  simp only [Bool.false_eq_true, if_false, hverify, hecho]

def authWords (slot : ℕ) (rx : BitVec 32) : List Text := ["ERR".toList, "AUTH".toList, decimal slot, decimal rx.toNat]

/-- What the PC makes of a rejected packet. -/
theorem receive_auth (tamper : Bool) :
    receive aead name session slot payload tamper [ascii (printed (authWords slot rx))] =
      (session, if tamper then .ok ⟨false, true, unwords (authWords slot rx), rx.toNat, 0⟩
        else raise (.runtimeError (String.ofList (unwords (authWords slot rx))))) := by
  have hwords : ∀ w ∈ authWords slot rx, Plain w := by
    intro w hw
    simp only [authWords, List.mem_cons, List.not_mem_nil, or_false] at hw
    rcases hw with rfl | rfl | rfl | rfl
    · exact plain_of_all rfl
    · exact plain_of_all rfl
    · exact plain_decimal slot
    · exact plain_decimal _
  have hline := readProtocolLine_printed hwords (by decide)
  have hsplit := split_unwords hwords
  have hyes : ("ERR ".toList.isPrefixOf (unwords (authWords slot rx))) = true := rfl
  simp only [authWords] at hline hsplit hyes ⊢
  rw [receive, hline]
  cases tamper with
  | true =>
    simp only [if_true, tamperResult, hsplit, List.take_succ_cons, List.take_zero, List.length_cons, List.length_nil,
      List.getD_cons_zero, List.getD_cons_succ, int_decimal, BoardLink.orRaise, bind, Except.bind, pure, Except.pure]
    simp
  | false =>
    simp only [Bool.false_eq_true, if_false, verifyEcho, hyes, if_true, bind, Except.bind, raise]

end Answers

namespace DataLoop

variable {σ : Type} {aead : Aead} {D : UartDemo.Channel σ} (name : String) {p : Peers σ} {c : Call}
  {session : BoardLink.Session}

theorem fits {payload : Bytes} (hm : payload.length ≤ 64) : ¬ Pc.PACKET_BYTES < payload.length := by
  rw [Pc.PACKET_BYTES]
  omega

/-- A request that is sent. -/
theorem exchange_sent (hm : c.payload.length ≤ 64) (hs : p.sessions c.slot = some session) {line reply : Text}
    {board : UartDemo.State σ} (hreq : request aead session c.slot c.payload c.tamper = .ok line)
    (hcmd : UartDemo.command D p.board line c.times = (board, reply)) :
    exchange aead name D p c =
      let (session, result) := receive aead name session c.slot c.payload c.tamper
        (if c.delivered then [ascii reply] else [])
      (⟨Function.update p.sessions c.slot (some session), board⟩, result) := by
  simp only [exchange, if_neg (fits hm), hs, hreq, hcmd]

/-- A call that sends nothing leaves both ends as they are. -/
theorem exchange_cases (aead : Aead) (name : String) (D : UartDemo.Channel σ) (p : Peers σ) (c : Call) :
    (∃ err, exchange aead name D p c = (p, .error err)) ∨
      ∃ session line, p.sessions c.slot = some session ∧ c.payload.length ≤ 64 ∧
        request aead session c.slot c.payload c.tamper = .ok line := by
  by_cases hlen : Pc.PACKET_BYTES < c.payload.length
  · exact Or.inl ⟨_, by rw [exchange, if_pos hlen]; rfl⟩
  cases hs : p.sessions c.slot with
  | none => exact Or.inl ⟨_, by rw [exchange, if_neg hlen, hs]; rfl⟩
  | some session =>
    cases hreq : request aead session c.slot c.payload c.tamper with
    | error err => exact Or.inl ⟨err, by simp only [exchange, if_neg hlen, hs, hreq]⟩
    | ok line => exact Or.inr ⟨session, line, rfl, by rw [Pc.PACKET_BYTES] at hlen; omega, hreq⟩

end DataLoop

end ZedSecure
