import ZedSecure.Pc.LinkSessions
import ZedSecure.Proofs.DataLines

/-! What the PC believes of the board: its sessions are the ones of the open slots, until the answer to an `OPEN` or a
`LEAVE` is lost, and from the next `OPEN` on again. -/

namespace ZedSecure

open Ascii BoardLink
open Python (Bytes int split)

section Lines

open UartDemo

variable {σ : Type} {D : Channel σ} {s : State σ} {slot : ℕ}

theorem decimal_digit : ∀ d < 10, ¬ (Nat.digitChar d < '0' ∨ '9' < Nat.digitChar d) ∧
    (Nat.digitChar d).toNat - '0'.toNat = d := by
  decide

/-- One digit of `parse_decimal`. -/
theorem parseDecimal_append {text : Text} (hne : text ≠ []) (d maximum : ℕ) (hd : d < 10) :
    parseDecimal (some (text ++ [Nat.digitChar d])) maximum =
      (parseDecimal (some text) maximum).bind fun result => if maximum < 10 * result + d then none else some (10 * result + d) := by
  obtain ⟨hrange, hval⟩ := decimal_digit d hd
  obtain ⟨c, cs, rfl⟩ := List.exists_cons_of_ne_nil hne
  simp only [parseDecimal, List.cons_append]
  rw [← List.cons_append, List.foldlM_append]
  simp only [List.foldlM_cons, List.foldlM_nil, if_neg hrange, hval]
  exact congrArg _ (funext fun result => by split_ifs <;> rfl)

/-- A number over the maximum. -/
theorem parseDecimal_large {n maximum : ℕ} (h : maximum < n) : parseDecimal (some (decimal n)) maximum = none := by
  induction n using Nat.strong_induction_on with
  | _ n ih =>
    rw [decimal, Nat.toDigits_eq_if (by decide)]
    split_ifs with hlt
    · obtain ⟨hrange, hval⟩ := decimal_digit n hlt
      simp only [parseDecimal, List.foldlM_cons, List.foldlM_nil, if_neg hrange, hval]
      rw [if_pos (by omega)]
      rfl
    · rw [← decimal, parseDecimal_append (decimal_ne_nil _) _ _ (by omega)]
      by_cases hbig : maximum < n / 10
      · rw [ih (n / 10) (by omega) hbig]
        rfl
      · rw [parseDecimal_decimal (by omega), Option.bind_some, Nat.div_add_mod, if_pos h]

theorem parseSlot_decimal (slot : ℕ) :
    parseSlot (some (decimal slot)) = if slot < UART_DEMO_SESSIONS then some slot else none := by
  split_ifs with h
  · exact parseDecimal_decimal (Nat.le_pred_of_lt h)
  · refine parseDecimal_large ?_
    have : UART_DEMO_SESSIONS = 64 := rfl
    omega

theorem plain_word {w : Text} (h : w ∈ ["OPEN", "LEAVE", "STATUS", "ERR", "READY", "LEFT", "KEM", "SLOT", "LINE", "NOSESSION"].map
    String.toList) : Plain w := by
  have hall : ∀ w ∈ ["OPEN", "LEAVE", "STATUS", "ERR", "READY", "LEFT", "KEM", "SLOT", "LINE", "NOSESSION"].map String.toList,
      (!w.isEmpty && w.all fun c => !Python.isSpace c && decide (0 < c.toNat) && decide (c.toNat < 128)) = true := by decide
  exact plain_of_all (hall w h)

theorem plain_single {w : Text} (h : w ∈ ["OPEN", "LEAVE", "STATUS", "ERR", "READY", "LEFT", "KEM", "SLOT", "LINE",
    "NOSESSION"].map String.toList) : ∀ x ∈ [w], Plain x := by
  intro x hx
  rw [List.mem_singleton] at hx
  rw [hx]
  exact plain_word h

theorem fits_slot {w : Text} (hw : w = "OPEN".toList ∨ w = "LEAVE".toList) (hslot : slot < UART_DEMO_SESSIONS) :
    (unwords [w, decimal slot]).length < UART_DEMO_LINE_BYTES := by
  have h64 : UART_DEMO_SESSIONS = 64 := rfl
  have hdigits := length_decimal_le (n := slot) (k := 2) (by decide) (by omega)
  have hlen : w.length ≤ 5 := by
    rcases hw with rfl | rfl <;> decide
  rw [length_unwords_cons, unwords, UART_DEMO_LINE_BYTES]
  omega

/-- The board reads a line of a command and a slot. -/
theorem command_slot (slot : ℕ) (t : Times) {w : Text} (hw : w = "OPEN".toList ∨ w = "LEAVE".toList) :
    command D s (unwords [w, decimal slot]) t =
      if (unwords [w, decimal slot]).length < UART_DEMO_LINE_BYTES then
        if slot < UART_DEMO_SESSIONS then
          if w = "OPEN".toList then handleOpen D s slot t else handleLeave s slot
        else (s, printed ["ERR".toList, "SLOT".toList])
      else (s, printed ["ERR".toList, "LINE".toList]) := by
  have hplain : ∀ u ∈ [w, decimal slot], Plain u := by
    intro u hu
    simp only [List.mem_cons, List.not_mem_nil, or_false] at hu
    rcases hu with rfl | rfl
    · rcases hw with rfl | rfl <;> exact plain_word (by decide)
    · exact plain_decimal slot
  have hnot : w ≠ "QUIT".toList ∧ w ≠ "STATUS".toList := by
    rcases hw with rfl | rfl <;> exact ⟨by decide, by decide⟩
  by_cases hfits : (unwords [w, decimal slot]).length < UART_DEMO_LINE_BYTES
  · rw [if_pos hfits]
    have hline := readLine_unwords hplain hfits
    have hwords := tokens_unwords fun w hw => (hplain w hw).blank
    simp only [command, hline, hwords, List.getElem?_cons_zero, parseSlot_decimal, if_neg hnot.1, if_neg hnot.2]
    by_cases hslot : slot < UART_DEMO_SESSIONS
    · rcases hw with rfl | rfl <;> simp [hslot]
    · simp [hslot]
  · rw [if_neg hfits, command, readLine, if_neg hfits]

theorem command_status (t : Times) : command D s "STATUS".toList t = (s, writeStatus s.active) := rfl

end Lines

section Replies

open UartDemo

variable {v : Vectors} {name : String} {slot : ℕ} {id : BitVec 32} {ws : List Text} {w u : Text}

theorem reply_printed (h : ∀ x ∈ w :: u :: ws, Plain x) (hpre : w ++ [' '] ∈ RESPONSE_PREFIXES) :
    reply name [ascii (printed (w :: u :: ws))] = .ok (unwords (w :: u :: ws)) := by
  rw [reply, readProtocolLine_printed h hpre]
  rfl

/-- The error lines. -/
theorem reply_err (name : String) (h : ∀ x ∈ u :: ws, Plain x) :
    reply name [ascii (printed ("ERR".toList :: u :: ws))] = .ok (unwords ("ERR".toList :: u :: ws)) ∧
      split (unwords ("ERR".toList :: u :: ws)) = "ERR".toList :: u :: ws := by
  have hplain : ∀ x ∈ "ERR".toList :: u :: ws, Plain x := by
    intro x hx
    rcases List.mem_cons.mp hx with rfl | hx
    · exact plain_word (by decide)
    · exact h x hx
  exact ⟨reply_printed hplain (by decide), split_unwords hplain⟩

theorem openSession_err (v : Vectors) (name : String) (slot : ℕ) (h : ∀ x ∈ u :: ws, Plain x) :
    ∃ e, openSession v name slot [ascii (printed ("ERR".toList :: u :: ws))] = .error e := by
  have hyes : "ERR ".toList.isPrefixOf (unwords ("ERR".toList :: u :: ws)) = true := by
    rw [List.isPrefixOf_iff_prefix, unwords]
    · exact ⟨unwords (u :: ws), by simp⟩
    · simp
  simp only [openSession, (reply_err name h).1, bind, Except.bind, hyes, if_true, raise]
  exact ⟨_, rfl⟩

theorem plain_signed (z : ℤ) : Plain (signed z) := by
  rw [signed]
  split_ifs
  · obtain ⟨-, hchars⟩ := plain_decimal z.natAbs
    refine ⟨by simp, fun c hc => ?_⟩
    rcases List.mem_cons.mp hc with rfl | hc
    · decide
    · exact hchars c hc
  · exact plain_decimal _

theorem int_writeHex (id : BitVec 32) : int 16 (writeHex (k := 4) id) = some (id.toNat : ℤ) := by
  rw [writeHex_eq]
  exact int_hexPadded (by decide) (lt_of_lt_of_le id.isLt (by norm_num))

theorem plain_writeHex (id : BitVec 32) : Plain (writeHex (k := 4) id) := by
  rw [writeHex_eq]
  exact plain_hexPadded (by decide) _

theorem openSession_ready (kem : BitVec 32) :
    openSession v name slot [ascii (printed ["READY".toList, decimal slot, writeHex (k := 4) id, decimal kem.toNat])] =
      derive v id.toNat := by
  have hplain : ∀ x ∈ ["READY".toList, decimal slot, writeHex (k := 4) id, decimal kem.toNat], Plain x := by
    intro x hx
    simp only [List.mem_cons, List.not_mem_nil, or_false] at hx
    rcases hx with rfl | rfl | rfl | rfl
    · exact plain_word (by decide)
    · exact plain_decimal _
    · exact plain_writeHex _
    · exact plain_decimal _
  have hno : "ERR ".toList.isPrefixOf (unwords ["READY".toList, decimal slot, writeHex (k := 4) id, decimal kem.toNat]) =
    false := rfl
  simp only [openSession, reply_printed hplain (by decide), split_unwords hplain, hno, List.getD_cons_zero,
    List.getD_cons_succ, int_decimal, int_writeHex, BoardLink.orRaise, bind, Except.bind]
  simp

variable {old : BoardLink.Session}

theorem leaveSession_err (name : String) (old : BoardLink.Session) (slot : ℕ) (h : ∀ x ∈ u :: ws, Plain x) :
    ∃ e, leaveSession name old slot [ascii (printed ("ERR".toList :: u :: ws))] = .error e := by
  obtain ⟨hreply, hsplit⟩ := reply_err name h
  have hno : ("ERR".toList :: u :: ws).length ≠ 3 ∨ ("ERR".toList :: u :: ws).getD 0 [] ≠ "LEFT".toList :=
    Or.inr (by rw [List.getD_cons_zero]; decide)
  simp only [leaveSession, hreply, hsplit, bind, Except.bind, if_pos hno, raise]
  exact ⟨_, rfl⟩

theorem leaveSession_left :
    leaveSession name old slot [ascii (printed ["LEFT".toList, decimal slot, writeHex (k := 4) id])] =
      if old.sid = id.toNat then .ok ()
      else raise (.runtimeError (String.ofList (unwords ["LEFT".toList, decimal slot, writeHex (k := 4) id]))) := by
  have hplain : ∀ x ∈ ["LEFT".toList, decimal slot, writeHex (k := 4) id], Plain x := by
    intro x hx
    simp only [List.mem_cons, List.not_mem_nil, or_false] at hx
    rcases hx with rfl | rfl | rfl
    · exact plain_word (by decide)
    · exact plain_decimal _
    · exact plain_writeHex _
  simp only [leaveSession, reply_printed hplain (by decide), split_unwords hplain, List.getD_cons_zero,
    List.getD_cons_succ, int_decimal, int_writeHex, BoardLink.orRaise, bind, Except.bind, pure, Except.pure]
  by_cases hsid : old.sid = id.toNat
  · simp [hsid]
  · simp [hsid, eq_comm (a := id.toNat), raise]

/-- The half of the bitmap from `first` on. -/
def bitmap (active : ℕ → Bool) (first : ℕ) : BitVec 32 :=
  ((List.range UART_DEMO_SESSIONS).filter active).foldl (fun x slot =>
    if first ≤ slot ∧ slot < first + 32 then x ||| 1 <<< (slot - first) else x) 0

theorem getLsbD_foldl {first i : ℕ} (hi : i < 32) (slots : List ℕ) (x : BitVec 32) :
    (slots.foldl (fun (x : BitVec 32) slot =>
      if first ≤ slot ∧ slot < first + 32 then x ||| 1 <<< (slot - first) else x) x).getLsbD i =
      (x.getLsbD i || decide (first + i ∈ slots)) := by
  induction slots generalizing x with
  | nil => simp
  | cons slot slots ih =>
    rw [List.foldl_cons, ih]
    by_cases hin : first ≤ slot ∧ slot < first + 32
    · have hbit : ((1 <<< (slot - first) : ℕ) : BitVec 32).getLsbD i = decide (first + i = slot) := by
        have hiff : slot - first = i ↔ first + i = slot := by omega
        rw [BitVec.natCast_eq_ofNat, BitVec.getLsbD_ofNat, Nat.one_shiftLeft, Nat.testBit_two_pow]
        simp [hi, hiff]
      rw [if_pos hin, BitVec.getLsbD_or, hbit]
      simp [Bool.or_assoc]
    · have hne : first + i ≠ slot := by omega
      rw [if_neg hin]
      simp [hne]

theorem getLsbD_bitmap {active : ℕ → Bool} {first i : ℕ} (hi : i < 32) (hfirst : first + 32 ≤ UART_DEMO_SESSIONS) :
    (bitmap active first).getLsbD i = active (first + i) := by
  rw [bitmap, getLsbD_foldl hi]
  have : first + i < UART_DEMO_SESSIONS := by omega
  simp [this]

/-- The number of open slots, and a bit for each. -/
theorem status_line (name : String) (active : ℕ → Bool) :
    ∃ mask : ℕ, BoardLink.status name [ascii (writeStatus active)] =
        .ok (((List.range UART_DEMO_SESSIONS).countP active : ℕ), (mask : ℤ)) ∧
      ∀ slot, mask.testBit slot = (decide (slot < UART_DEMO_SESSIONS) && active slot) := by
  have hwords : writeStatus active = printed ["STATUS".toList,
      decimal ((List.range UART_DEMO_SESSIONS).filter active).length, writeHex (k := 4) (bitmap active 32),
      writeHex (k := 4) (bitmap active 0)] := by
    simp only [writeStatus, bitmap]
  have hplain : ∀ x ∈ ["STATUS".toList, decimal ((List.range UART_DEMO_SESSIONS).filter active).length,
      writeHex (k := 4) (bitmap active 32), writeHex (k := 4) (bitmap active 0)], Plain x := by
    intro x hx
    simp only [List.mem_cons, List.not_mem_nil, or_false] at hx
    rcases hx with rfl | rfl | rfl | rfl
    · exact plain_word (by decide)
    · exact plain_decimal _
    · exact plain_writeHex _
    · exact plain_writeHex _
  refine ⟨(bitmap active 32).toNat * 2 ^ 32 ||| (bitmap active 0).toNat, ?_, fun slot => ?_⟩
  · rw [hwords]
    simp only [BoardLink.status, reply_printed hplain (by decide), split_unwords hplain, List.getD_cons_zero,
      List.getD_cons_succ, int_decimal, int_writeHex, BoardLink.orRaise, bind, Except.bind, pure, Except.pure]
    rw [if_neg (by simp), List.countP_eq_length_filter]
    have hmask : Int.lor ((bitmap active 32).toNat * 2 ^ 32) (bitmap active 0).toNat =
        (((bitmap active 32).toNat * 2 ^ 32 ||| (bitmap active 0).toNat : ℕ) : ℤ) := by
      have hcast : ((bitmap active 32).toNat * 2 ^ 32 : ℤ) = (((bitmap active 32).toNat * 2 ^ 32 : ℕ) : ℤ) := by push_cast; rfl
      rw [hcast]
      rfl
    rw [hmask]
  · have h64 : UART_DEMO_SESSIONS = 64 := rfl
    rw [Nat.testBit_or, Nat.testBit_mul_two_pow, BitVec.testBit_toNat, BitVec.testBit_toNat]
    by_cases hlow : slot < 32
    · rw [getLsbD_bitmap hlow (by rw [h64]; omega)]
      have hno : ¬ 32 ≤ slot := by omega
      have hlt : slot < UART_DEMO_SESSIONS := by omega
      simp [hno, hlt]
    · rw [BitVec.getLsbD_of_ge (bitmap active 0) slot (by omega)]
      by_cases hhigh : slot < UART_DEMO_SESSIONS
      · rw [getLsbD_bitmap (by omega) (by rw [h64])]
        have hyes : 32 ≤ slot := by omega
        have hsum : 32 + (slot - 32) = slot := by omega
        simp [hyes, hhigh, hsum]
      · rw [BitVec.getLsbD_of_ge _ _ (by omega)]
        simp [hhigh]

end Replies

namespace LinkLoop

open DataLoop UartDemo

variable {σ : Type} (aead : Aead) (v : Vectors) (name : String) (D : Channel σ)

section Board

variable {s : State σ} {slot : ℕ}

/-- What a line does to the session list. -/
theorem handleOpen_cases (s : State σ) (slot : ℕ) (t : Times) :
    (D.establish s.device slot (makeSessionId slot (s.generation slot))).2 ≠ 0 ∧ (∃ device r, handleOpen D s slot t =
      ({ s with device := device }, printed ["ERR".toList, "KEM".toList, decimal slot, signed r])) ∨
    ∃ device, handleOpen D s slot t =
      ({ s with
          device := device
          active := Function.update s.active slot true
          sessionId := Function.update s.sessionId slot (makeSessionId slot (s.generation slot))
          generation := Function.update s.generation slot (s.generation slot + 1) },
        printed ["READY".toList, decimal slot, writeHex (k := 4) (makeSessionId slot (s.generation slot)),
          decimal t.kem.toNat]) := by
  rw [handleOpen]
  by_cases hr : (D.establish s.device slot (makeSessionId slot (s.generation slot))).2 ≠ 0
  · exact Or.inl ⟨hr, _, _, if_pos hr⟩
  · exact Or.inr ⟨_, if_neg hr⟩

/-- A packet leaves the session list. -/
theorem echo_keeps {length : ℕ} {counter : BitVec 64} {ciphertext tag : Bytes} (t : Times) :
    ∃ device, (echo D s slot counter length ciphertext tag t).1 = { s with device := device } := by
  rw [echo]
  rcases D.decrypt s.device slot counter length ciphertext tag with ⟨d₁, (_ | _ | _) | plaintext⟩
  · exact ⟨d₁, rfl⟩
  · exact ⟨d₁, rfl⟩
  · exact ⟨d₁, rfl⟩
  · rcases henc : D.encrypt d₁ slot plaintext length with ⟨d₂, _ | sealed⟩
    · exact ⟨d₂, by simp only [henc]⟩
    · exact ⟨d₂, by simp only [henc]⟩

theorem handleData_keeps (fields : List Text) (t : Times) :
    ∃ device, (handleData D s slot fields t).1 = { s with device := device } := by
  rw [handleData]
  split
  · exact ⟨s.device, rfl⟩
  · split
    · exact echo_keeps D t
    · exact ⟨s.device, rfl⟩

theorem command_keeps {received : Text} (t : Times) (h : ∀ line w ws, readLine received = some line →
    tokens line = w :: ws → w ≠ "QUIT".toList ∧ w ≠ "OPEN".toList ∧ w ≠ "LEAVE".toList) :
    ∃ device, (command D s received t).1 = { s with device := device } := by
  cases hline : readLine received with
  | none =>
    rw [command, hline]
    exact ⟨s.device, rfl⟩
  | some line =>
    cases hwords : tokens line with
    | nil =>
      simp only [command, hline, hwords]
      exact ⟨s.device, rfl⟩
    | cons w ws =>
      obtain ⟨hquit, hopen, hleave⟩ := h line w ws hline hwords
      simp only [command, hline, hwords, if_neg hquit, if_neg hopen, if_neg hleave]
      split_ifs with hstatus hdata
      · exact ⟨s.device, rfl⟩
      · cases parseSlot ws[0]? with
        | none => exact ⟨s.device, rfl⟩
        | some slot => exact handleData_keeps D ws.tail t
      · cases parseSlot ws[0]? with
        | none => exact ⟨s.device, rfl⟩
        | some slot => exact ⟨s.device, rfl⟩

end Board

section Packets

variable {session : BoardLink.Session} {slot : ℕ} {payload : Bytes} {tamper : Bool} {uart : List Bytes}

theorem receive_keeps :
    (receive aead name session slot payload tamper uart).1 = session ∨
      (receive aead name session slot payload tamper uart).1 = session.advance := by
  rw [receive]
  split
  · exact Or.inl rfl
  · split_ifs
    · exact Or.inl rfl
    · split
      · exact Or.inl rfl
      · exact Or.inr rfl

/-- `send_data` moves counters only. -/
theorem exchange_keeps (p : Peers σ) (c : DataLoop.Call) :
    (∃ device, (exchange aead name D p c).1.board = { p.board with device := device }) ∧
      ∀ slot, (exchange aead name D p c).1.sessions slot = p.sessions slot ∨
        ∃ session, p.sessions slot = some session ∧
          (exchange aead name D p c).1.sessions slot = some session.advance := by
  rcases exchange_cases aead name D p c with ⟨err, hex⟩ | ⟨session, line, hs, hm, hreq⟩
  · rw [hex]
    exact ⟨⟨p.board.device, rfl⟩, fun _ => Or.inl rfl⟩
  · obtain ⟨counter, ciphertext, tag, -, -, hct, htag, rfl⟩ := request_cases hreq
    rw [exchange_sent name hm hs hreq rfl]
    refine ⟨command_keeps D c.times fun line w ws hline hwords => ?_, fun slot => ?_⟩
    · have hplain := plain_dataWords c.slot c.payload.length counter hct htag
      obtain rfl : line = unwords (dataWords c.slot counter.toNat c.payload.length ciphertext tag) := by
        by_cases hfits : (unwords (dataWords c.slot counter.toNat c.payload.length ciphertext tag)).length <
          UART_DEMO_LINE_BYTES
        · exact Option.some.inj (hline.symm.trans (readLine_unwords hplain hfits))
        · rw [readLine, if_neg hfits] at hline
          cases hline
      rw [tokens_unwords fun w hw => (hplain w hw).blank] at hwords
      cases hwords
      exact ⟨by decide, by decide, by decide⟩
    · by_cases hne : slot = c.slot
      · subst hne
        simp only [Function.update_self]
        rcases @receive_keeps aead name session _ _ _ _ with hr | hr
        · exact Or.inl (by rw [hr, hs])
        · exact Or.inr ⟨session, hs, by rw [hr]⟩
      · exact Or.inl (Function.update_of_ne hne ..)

end Packets

section Calls

variable {p : Peers σ} {c : Call} {slot : ℕ}

/-- The session of a session id. -/
theorem derive_id (v : Vectors) (id : BitVec 32) :
    ∃ session, derive v id.toNat = .ok session ∧ session.sid = id.toNat ∧
      session = { session with txCounter := 0, rxCounter := 0 } := by
  have hid : BoardLink.toBytes 4 id.toNat = .ok (Python.toBytesBig 4 id.toNat) := if_pos id.isLt
  have hneg : ¬ (id.toNat : ℤ) < 0 := by omega
  simp only [derive, if_neg hneg, Int.toNat_natCast, hid, bind, Except.bind, pure, Except.pure]
  exact ⟨_, rfl, rfl, rfl⟩

/-- The board opens the slot for a new session id. -/
def opened (s : State σ) (slot : ℕ) (device : σ) : State σ :=
  { s with
    device := device
    active := Function.update s.active slot true
    sessionId := Function.update s.sessionId slot (makeSessionId slot (s.generation slot))
    generation := Function.update s.generation slot (s.generation slot + 1) }

def closed (s : State σ) (slot : ℕ) : State σ :=
  { s with active := Function.update s.active slot false, sessionId := Function.update s.sessionId slot 0 }

theorem call_open (hop : c.op = .open slot) :
    (slot < UART_DEMO_SESSIONS →
        (D.establish p.board.device slot (makeSessionId slot (p.board.generation slot))).2 ≠ 0) ∧
      (∃ device err, call aead v name D p c = (⟨p.sessions, { p.board with device := device }⟩, .error err)) ∨
    slot < UART_DEMO_SESSIONS ∧ ∃ device,
      (c.delivered = false ∧ ∃ err, call aead v name D p c = (⟨p.sessions, opened p.board slot device⟩, .error err)) ∨
      c.delivered = true ∧ ∃ session, derive v (makeSessionId slot (p.board.generation slot)).toNat = .ok session ∧
        call aead v name D p c = (⟨Function.update p.sessions slot (some session), opened p.board slot device⟩,
          .ok (.session session)) := by
  have hlost : openSession v name slot [] = .error (.exn (.timeoutError s!"Board {name} response timeout")) := rfl
  have herr : ∀ {u : Text} {ws : List Text} (device : σ), (∀ x ∈ u :: ws, Plain x) →
      command D p.board (unwords ["OPEN".toList, decimal slot]) c.times =
        ({ p.board with device := device }, printed ("ERR".toList :: u :: ws)) →
      ∃ device err, call aead v name D p c = (⟨p.sessions, { p.board with device := device }⟩, .error err) := by
    intro u ws device hplain hcmd
    cases hdel : c.delivered with
    | false => exact ⟨device, _, by simp only [call, hop, answered, hcmd, hdel, Bool.false_eq_true, if_false, hlost]; rfl⟩
    | true =>
      obtain ⟨err, hopen⟩ := openSession_err v name slot hplain
      exact ⟨device, err, by simp only [call, hop, answered, hcmd, hdel, if_true, hopen]⟩
  have hcmd := command_slot (D := D) (s := p.board) slot c.times (Or.inl rfl)
  by_cases hfits : (unwords ["OPEN".toList, decimal slot]).length < UART_DEMO_LINE_BYTES
  · by_cases hslot : slot < UART_DEMO_SESSIONS
    · rw [if_pos hfits, if_pos hslot, if_pos rfl] at hcmd
      rcases handleOpen_cases D p.board slot c.times with ⟨hfailed, device, r, hopen⟩ | ⟨device, hopen⟩
      · refine Or.inl ⟨fun _ => hfailed, herr device ?_ (hcmd.trans hopen)⟩
        intro x hx
        simp only [List.mem_cons, List.not_mem_nil, or_false] at hx
        rcases hx with rfl | rfl | rfl
        · exact plain_word (by decide)
        · exact plain_decimal _
        · exact plain_signed _
      · refine Or.inr ⟨hslot, device, ?_⟩
        rw [hopen] at hcmd
        cases hdel : c.delivered with
        | false =>
          exact Or.inl ⟨rfl, _, by simp only [call, hop, answered, hcmd, hdel, Bool.false_eq_true, if_false, hlost]; rfl⟩
        | true =>
          obtain ⟨session, hderive, -, -⟩ := derive_id v (makeSessionId slot (p.board.generation slot))
          refine Or.inr ⟨rfl, session, hderive, ?_⟩
          simp only [call, hop, answered, hcmd, hdel, if_true, openSession_ready, hderive]
          rfl
    · rw [if_pos hfits, if_neg hslot] at hcmd
      exact Or.inl ⟨fun h => absurd h hslot, herr p.board.device (plain_single (by decide)) hcmd⟩
  · rw [if_neg hfits] at hcmd
    exact Or.inl ⟨fun h => absurd (fits_slot (Or.inl rfl) h) hfits, herr p.board.device (plain_single (by decide)) hcmd⟩

/-- An `OPEN` that the board grants and whose answer arrives. -/
theorem call_opened (hop : c.op = .open slot) (hslot : slot < UART_DEMO_SESSIONS) (hdel : c.delivered = true)
    (hok : (D.establish p.board.device slot (makeSessionId slot (p.board.generation slot))).2 = 0) :
    ∃ session, derive v (makeSessionId slot (p.board.generation slot)).toNat = .ok session ∧
      (call aead v name D p c).2 = .ok (.session session) := by
  rcases @call_open σ aead v name D p c _ hop with ⟨hfailed, -⟩ | ⟨-, device, ⟨hlost, -⟩ | ⟨-, session, hderive, hcall⟩⟩
  · exact absurd hok (hfailed hslot)
  · rw [hdel] at hlost
    cases hlost
  · exact ⟨session, hderive, by rw [hcall]⟩

/-- The board refuses to close the slot. -/
theorem handleLeave_cases (s : State σ) (slot : ℕ) :
    s.active slot = false ∧ handleLeave s slot = (s, printed ["ERR".toList, "NOSESSION".toList, decimal slot]) ∨
      s.active slot = true ∧ handleLeave s slot =
        (closed s slot, printed ["LEFT".toList, decimal slot, writeHex (k := 4) (s.sessionId slot)]) := by
  rw [handleLeave]
  cases hactive : s.active slot with
  | false => exact Or.inl ⟨rfl, rfl⟩
  | true => exact Or.inr ⟨rfl, rfl⟩

theorem call_leave {old : BoardLink.Session} (hop : c.op = .leave slot) (hs : p.sessions slot = some old) :
    (slot < UART_DEMO_SESSIONS → p.board.active slot = false) ∧ (∃ err, call aead v name D p c = (p, .error err)) ∨
    slot < UART_DEMO_SESSIONS ∧ p.board.active slot = true ∧
      (c.delivered = true ∧ old.sid = (p.board.sessionId slot).toNat ∧
        call aead v name D p c = (⟨Function.update p.sessions slot none, closed p.board slot⟩, .ok (.session old)) ∨
      (c.delivered = false ∨ old.sid ≠ (p.board.sessionId slot).toNat) ∧
        ∃ err, call aead v name D p c = (⟨p.sessions, closed p.board slot⟩, .error err)) := by
  have hlost : leaveSession name old slot [] = .error (.exn (.timeoutError s!"Board {name} response timeout")) := rfl
  have herr : ∀ {u : Text} {ws : List Text}, (∀ x ∈ u :: ws, Plain x) →
      command D p.board (unwords ["LEAVE".toList, decimal slot]) c.times =
        (p.board, printed ("ERR".toList :: u :: ws)) → ∃ err, call aead v name D p c = (p, .error err) := by
    intro u ws hplain hcmd
    cases hdel : c.delivered with
    | false => exact ⟨_, by simp only [call, hop, hs, answered, hcmd, hdel, Bool.false_eq_true, if_false, hlost]; rfl⟩
    | true =>
      obtain ⟨err, hleave⟩ := leaveSession_err name old slot hplain
      exact ⟨err, by simp only [call, hop, hs, answered, hcmd, hdel, if_true, hleave]⟩
  have hcmd := command_slot (D := D) (s := p.board) slot c.times (Or.inr rfl)
  by_cases hfits : (unwords ["LEAVE".toList, decimal slot]).length < UART_DEMO_LINE_BYTES
  · by_cases hslot : slot < UART_DEMO_SESSIONS
    · rw [if_pos hfits, if_pos hslot, if_neg (by decide)] at hcmd
      rcases handleLeave_cases p.board slot with ⟨hactive, hleave⟩ | ⟨hactive, hleave⟩
      · refine Or.inl ⟨fun _ => hactive, herr ?_ (hcmd.trans hleave)⟩
        intro x hx
        simp only [List.mem_cons, List.not_mem_nil, or_false] at hx
        rcases hx with rfl | rfl
        · exact plain_word (by decide)
        · exact plain_decimal _
      · refine Or.inr ⟨hslot, hactive, ?_⟩
        rw [hleave] at hcmd
        cases hdel : c.delivered with
        | false =>
          exact Or.inr ⟨Or.inl rfl, _, by
            simp only [call, hop, hs, answered, hcmd, hdel, Bool.false_eq_true, if_false, hlost]; rfl⟩
        | true =>
          by_cases hsid : old.sid = (p.board.sessionId slot).toNat
          · refine Or.inl ⟨rfl, hsid, ?_⟩
            simp only [call, hop, hs, answered, hcmd, hdel, if_true, leaveSession_left, if_pos hsid]
          · exact Or.inr ⟨Or.inr hsid, _, by
              simp only [call, hop, hs, answered, hcmd, hdel, if_true, leaveSession_left, if_neg hsid, raise]; rfl⟩
    · rw [if_pos hfits, if_neg hslot] at hcmd
      exact Or.inl ⟨fun h => absurd h hslot, herr (plain_single (by decide)) hcmd⟩
  · rw [if_neg hfits] at hcmd
    exact Or.inl ⟨fun h => absurd (fits_slot (Or.inr rfl) h) hfits, herr (plain_single (by decide)) hcmd⟩

/-- All that a call can do to the sessions at the two ends. -/
inductive Effect (v : Vectors) (p : Peers σ) (c : Call) : Peers σ × Except Raised Answer → Prop where
  | quiet (device : σ) (r : Except Raised Answer) (hno : ∀ slot x, c.op = .open slot → r ≠ .ok x) :
    Effect v p c (⟨p.sessions, { p.board with device := device }⟩, r)
  | opened {slot : ℕ} (hop : c.op = .open slot) (hslot : slot < UART_DEMO_SESSIONS) (device : σ)
    {session : BoardLink.Session}
    (hderive : derive v (makeSessionId slot (p.board.generation slot)).toNat = .ok session) :
    Effect v p c (⟨Function.update p.sessions slot (some session), opened p.board slot device⟩, .ok (.session session))
  | openLost {slot : ℕ} (hop : c.op = .open slot) (hslot : slot < UART_DEMO_SESSIONS) (hlost : c.delivered = false)
    (device : σ) (err : Raised) : Effect v p c (⟨p.sessions, opened p.board slot device⟩, .error err)
  | left {slot : ℕ} {old : BoardLink.Session} (hop : c.op = .leave slot) (hs : p.sessions slot = some old) :
    Effect v p c (⟨Function.update p.sessions slot none, closed p.board slot⟩, .ok (.session old))
  | leaveLost {slot : ℕ} {old : BoardLink.Session} (hop : c.op = .leave slot) (hs : p.sessions slot = some old)
    (hlost : c.delivered = false ∨ old.sid ≠ (p.board.sessionId slot).toNat) (err : Raised) :
    Effect v p c (⟨p.sessions, closed p.board slot⟩, .error err)
  | packet {p' : Peers σ} (r : Except Raised Answer) (hno : ∀ slot, c.op ≠ .open slot) (device : σ)
    (hboard : p'.board = { p.board with device := device })
    (hsessions : ∀ slot, p'.sessions slot = p.sessions slot ∨
      ∃ session, p.sessions slot = some session ∧ p'.sessions slot = some session.advance) : Effect v p c (p', r)

theorem call_effect (p : Peers σ) (c : Call) : Effect v p c (call aead v name D p c) := by
  cases hop : c.op with
  | «open» j =>
    rcases @call_open σ aead v name D p c _ hop with
      ⟨-, device, err, hcall⟩ | ⟨hj, device, ⟨hlost, err, hcall⟩ | ⟨-, session, hderive, hcall⟩⟩
    · rw [hcall]
      exact .quiet device _ fun _ _ _ hx => by cases hx
    · rw [hcall]
      exact .openLost hop hj hlost device err
    · rw [hcall]
      exact .opened hop hj device hderive
  | leave j =>
    have hno : ∀ {r : Except Raised Answer} (slot : ℕ) (x : Answer), c.op = .open slot → r ≠ .ok x := by
      intro r slot x hop'
      rw [hop] at hop'
      cases hop'
    cases hs : p.sessions j with
    | none =>
      have hcall : call aead v name D p c = (p, raise (.runtimeError s!"no local session for slot {j}")) := by
        simp only [call, hop, hs]
      rw [hcall]
      exact .quiet p.board.device _ hno
    | some old =>
      rcases call_leave aead v name D hop hs with
        ⟨-, err, hcall⟩ | ⟨-, -, ⟨-, -, hcall⟩ | ⟨hlost, err, hcall⟩⟩
      · rw [hcall]
        exact .quiet p.board.device _ hno
      · rw [hcall]
        exact .left hop hs
      · rw [hcall]
        exact .leaveLost hop hs hlost err
  | status =>
    have hcall : (call aead v name D p c).1 = p := by
      simp only [call, hop, answered, command_status]
    refine @Effect.packet _ v p c (call aead v name D p c).1 (call aead v name D p c).2 (fun slot hop' => ?_) p.board.device ?_
      fun slot => ?_
    · rw [hop] at hop'
      cases hop'
    · rw [hcall]
    · rw [hcall]
      exact Or.inl rfl
  | data j payload tamper =>
    obtain ⟨⟨device, hboard⟩, hsessions⟩ :=
      exchange_keeps aead name D p ⟨j, payload, tamper, c.times, c.delivered⟩
    simp only [call, hop]
    refine .packet _ (fun slot hop' => ?_) device hboard hsessions
    rw [hop] at hop'
    cases hop'

end Calls

/-- The PC has the session that the board has in the slot, or both have none. -/
def MirrorAt (v : Vectors) (slot : ℕ) (p : Peers σ) : Prop :=
  match p.sessions slot with
  | none => p.board.active slot = false
  | some session => p.board.active slot = true ∧
      derive v (p.board.sessionId slot).toNat = .ok { session with txCounter := 0, rxCounter := 0 }

/-- The call opens or leaves the slot. -/
def Concerns (slot : ℕ) (c : Call) : Prop := c.op = .open slot ∨ c.op = .leave slot

section Mirror

variable {p : Peers σ} {c : Call} {slot : ℕ} {calls : List Call}

theorem MirrorAt.of_eq {v : Vectors} {p' : Peers σ} (h : MirrorAt v slot p) (hs : p'.sessions slot = p.sessions slot)
    (hactive : p'.board.active slot = p.board.active slot) (hid : p'.board.sessionId slot = p.board.sessionId slot) :
    MirrorAt v slot p' := by
  rw [MirrorAt, hs, hactive, hid]
  exact h

/-- The id of the slot is the one of the PC's session. -/
theorem MirrorAt.sid {v : Vectors} (h : MirrorAt v slot p) {session : BoardLink.Session} (hs : p.sessions slot = some session) :
    session.sid = (p.board.sessionId slot).toNat := by
  rw [MirrorAt, hs] at h
  obtain ⟨session', hderive, hsid, -⟩ := derive_id v (p.board.sessionId slot)
  rw [← hsid, ← Except.ok.inj (h.2.symm.trans hderive)]

theorem mirrorAt_opened {device : σ} {session : BoardLink.Session}
    (hderive : derive v (makeSessionId slot (p.board.generation slot)).toNat = .ok session) :
    MirrorAt v slot ⟨Function.update p.sessions slot (some session), opened p.board slot device⟩ := by
  obtain ⟨session', hderive', -, hfresh⟩ := derive_id v (makeSessionId slot (p.board.generation slot))
  obtain rfl : session = session' := Except.ok.inj (hderive.symm.trans hderive')
  rw [MirrorAt]
  simp only [opened, Function.update_self, true_and]
  rw [hderive]
  exact congrArg _ hfresh

/-- The mirror of a slot is kept, unless the answer to an `OPEN` or a `LEAVE` of it is lost. -/
theorem MirrorAt.call (h : MirrorAt v slot p) (hdel : Concerns slot c → c.delivered = true) :
    MirrorAt v slot (call aead v name D p c).1 := by
  generalize hp : LinkLoop.call aead v name D p c = q
  have heffect : Effect v p c q := hp ▸ call_effect aead v name D p c
  cases heffect with
  | quiet device r => exact h.of_eq rfl rfl rfl
  | @opened j hop _ device session hderive =>
    by_cases hne : slot = j
    · subst hne
      exact mirrorAt_opened v hderive
    · exact h.of_eq (Function.update_of_ne hne ..) (Function.update_of_ne hne ..) (Function.update_of_ne hne ..)
  | @openLost j hop _ hlost device err =>
    have hne : slot ≠ j := by
      rintro rfl
      rw [hdel (Or.inl hop)] at hlost
      cases hlost
    exact h.of_eq rfl (Function.update_of_ne hne ..) (Function.update_of_ne hne ..)
  | @left j old hop hs =>
    by_cases hne : slot = j
    · subst hne
      rw [MirrorAt]
      simp only [closed, Function.update_self]
    · exact h.of_eq (Function.update_of_ne hne ..) (Function.update_of_ne hne ..) (Function.update_of_ne hne ..)
  | @leaveLost j old hop hs hlost err =>
    have hne : slot ≠ j := by
      rintro rfl
      rcases hlost with hlost | hsid
      · rw [hdel (Or.inr hop)] at hlost
        cases hlost
      · exact hsid (h.sid hs)
    exact h.of_eq rfl (Function.update_of_ne hne ..) (Function.update_of_ne hne ..)
  | packet r hno device hboard hsessions =>
    rcases hsessions slot with hs | ⟨session, hs, hs'⟩
    · exact h.of_eq hs (by rw [hboard]) (by rw [hboard])
    · rw [MirrorAt, hs] at h
      rw [MirrorAt, hs', hboard]
      exact h

theorem MirrorAt.run (h : MirrorAt v slot p) (hdel : ∀ c ∈ calls, Concerns slot c → c.delivered = true) :
    MirrorAt v slot (run aead v name D p calls) := by
  induction calls generalizing p with
  | nil => exact h
  | cons c calls ih =>
    exact ih (h.call aead v name D (hdel c (by simp))) fun c' hc' => hdel c' (List.mem_cons_of_mem _ hc')

/-- One answered `OPEN` repairs a slot: whatever was lost before, the PC has the session of the board's slot from then on,
as long as no answer to an `OPEN` or a `LEAVE` of that slot is lost. -/
theorem open_recovers (hop : c.op = .open slot) {x : Answer} (hok : (call aead v name D p c).2 = .ok x)
    (hdel : ∀ c ∈ calls, Concerns slot c → c.delivered = true) :
    MirrorAt v slot (run aead v name D (call aead v name D p c).1 calls) := by
  refine MirrorAt.run aead v name D ?_ hdel
  generalize hp : call aead v name D p c = q at hok ⊢
  have heffect : Effect v p c q := hp ▸ call_effect aead v name D p c
  cases heffect with
  | quiet device r hno => exact absurd hok (hno slot x hop)
  | @opened j hop' _ device session hderive =>
    obtain rfl : j = slot := by
      rw [hop] at hop'
      exact (Op.open.inj hop').symm
    exact mirrorAt_opened v hderive
  | openLost _ _ _ device err => cases hok
  | left hop' => rw [hop] at hop'; cases hop'
  | leaveLost hop' => rw [hop] at hop'; cases hop'
  | packet r hno => exact absurd hop (hno slot)

/-- Only slots of the board are open. -/
def Bounded (p : Peers σ) : Prop := ∀ slot, p.board.active slot = true → slot < UART_DEMO_SESSIONS

theorem bounded_call (h : Bounded p) (c : Call) : Bounded (call aead v name D p c).1 := by
  generalize hp : call aead v name D p c = q
  have heffect : Effect v p c q := hp ▸ call_effect aead v name D p c
  have hopened : ∀ {j device}, j < UART_DEMO_SESSIONS → ∀ slot, (opened p.board j device).active slot = true →
      slot < UART_DEMO_SESSIONS := by
    intro j device hj slot hactive
    by_cases hne : slot = j
    · rw [hne]
      exact hj
    · exact h slot ((Function.update_of_ne hne ..).symm.trans hactive)
  have hclosed : ∀ {j} slot, (closed p.board j).active slot = true → slot < UART_DEMO_SESSIONS := by
    intro j slot hactive
    by_cases hne : slot = j
    · subst hne
      simp [closed] at hactive
    · exact h slot ((Function.update_of_ne hne ..).symm.trans hactive)
  cases heffect with
  | quiet => exact h
  | opened _ hj => exact hopened hj
  | openLost _ hj => exact hopened hj
  | left => exact hclosed
  | leaveLost => exact hclosed
  | packet _ _ _ hboard =>
    rw [Bounded, hboard]
    exact h

theorem bounded_run (h : Bounded p) : Bounded (run aead v name D p calls) := by
  induction calls generalizing p with
  | nil => exact h
  | cons c calls ih => exact ih (bounded_call aead v name D h c)

/-- While no answer to an `OPEN` or a `LEAVE` is lost, the PC's sessions are those of the board's open slots, `status`
gives their number and a bit for each, every one of them can be left, and a handshake that the board grants opens one. -/
theorem link_mirrors (device : σ) (hdel : ∀ c ∈ calls, ∀ slot, Concerns slot c → c.delivered = true) (t : Times) :
    let p := run aead v name D (start device) calls
    (∀ slot, MirrorAt v slot p) ∧
      (∃ mask : ℕ, (call aead v name D p ⟨.status, t, true⟩).2 =
          .ok (.status ((List.range UART_DEMO_SESSIONS).countP fun slot => (p.sessions slot).isSome) mask) ∧
        ∀ slot, mask.testBit slot = (p.sessions slot).isSome) ∧
      (∀ slot session, p.sessions slot = some session →
        (call aead v name D p ⟨.leave slot, t, true⟩).2 = .ok (.session session)) ∧
      ∀ slot < UART_DEMO_SESSIONS, (D.establish p.board.device slot (makeSessionId slot (p.board.generation slot))).2 = 0 →
        ∃ session, derive v (makeSessionId slot (p.board.generation slot)).toNat = .ok session ∧
          (call aead v name D p ⟨.open slot, t, true⟩).2 = .ok (.session session) := by
  intro p
  have hmirror : ∀ slot, MirrorAt v slot p := fun slot =>
    @MirrorAt.run _ aead v name D (start device) slot calls rfl fun c hc hslot => hdel c hc slot hslot
  have hbounded : Bounded p := @bounded_run _ aead v name D (start device) calls fun slot hactive => by cases hactive
  have hactive : ∀ slot, p.board.active slot = (p.sessions slot).isSome := by
    intro slot
    have h := hmirror slot
    rw [MirrorAt] at h
    cases hs : p.sessions slot with
    | none => rwa [hs] at h
    | some session =>
      rw [hs] at h
      exact h.1
  refine ⟨hmirror, ?_, fun slot session hs => ?_, fun slot hslot hok => call_opened aead v name D rfl hslot rfl hok⟩
  · obtain ⟨mask, hstatus, hbits⟩ := status_line name p.board.active
    refine ⟨mask, ?_, fun slot => ?_⟩
    · simp only [call, answered, command_status, if_true, hstatus, Except.map]
      rw [funext hactive]
    · rw [hbits, ← hactive]
      cases ha : p.board.active slot with
      | false => simp
      | true => simp [hbounded slot ha]
  · have ha : p.board.active slot = true := by rw [hactive, hs, Option.isSome_some]
    rcases @call_leave σ aead v name D p ⟨.leave slot, t, true⟩ slot session rfl hs with
      ⟨hclosed, -⟩ | ⟨-, -, ⟨-, -, hcall⟩ | ⟨hlost | hsid, -⟩⟩
    · rw [hclosed (hbounded slot ha)] at ha
      cases ha
    · rw [hcall]
    · cases hlost
    · exact absurd ((hmirror slot).sid hs) hsid

end Mirror

/-- A board that grants every handshake and no packet. -/
def demoBoard : Channel Unit where
  establish _ _ _ := ((), 0)
  decrypt _ _ _ _ _ _ := ((), .error .auth)
  encrypt _ _ _ _ := ((), .error .auth)

/-- Slot 5 after an `OPEN` and a `LEAVE`, with slot 63 open. -/
theorem link_mirrors_left : MirrorAt ⟨[], []⟩ 5 (run Pc.chacha20Poly1305 ⟨[], []⟩ "A" demoBoard (start ())
    [⟨.open 5, ⟨9, 0, 0⟩, true⟩, ⟨.open 63, ⟨9, 0, 0⟩, true⟩, ⟨.leave 5, ⟨0, 0, 0⟩, true⟩]) :=
  (@link_mirrors _ Pc.chacha20Poly1305 ⟨[], []⟩ "A" demoBoard
    [⟨.open 5, ⟨9, 0, 0⟩, true⟩, ⟨.open 63, ⟨9, 0, 0⟩, true⟩, ⟨.leave 5, ⟨0, 0, 0⟩, true⟩] () (by simp) ⟨0, 0, 0⟩).1 5

/-- The board has opened slot 5 and its answer was lost. -/
def lostOpen : Peers Unit := ⟨fun _ => none, ⟨(), fun slot => slot = 5, fun _ => 1, fun _ => 0x60000005, false⟩⟩

/-- The next `OPEN` repairs the slot. -/
theorem open_recovers_lost : MirrorAt ⟨[], []⟩ 5 (run Pc.chacha20Poly1305 ⟨[], []⟩ "A" demoBoard
    (call Pc.chacha20Poly1305 ⟨[], []⟩ "A" demoBoard lostOpen ⟨.open 5, ⟨9, 0, 0⟩, true⟩).1
    [⟨.open 6, ⟨9, 0, 0⟩, false⟩, ⟨.leave 5, ⟨0, 0, 0⟩, true⟩]) := by
  obtain ⟨session, -, hok⟩ := @call_opened _ Pc.chacha20Poly1305 ⟨[], []⟩ "A" demoBoard lostOpen
    ⟨.open 5, ⟨9, 0, 0⟩, true⟩ 5 rfl (by decide) rfl rfl
  exact @open_recovers _ Pc.chacha20Poly1305 ⟨[], []⟩ "A" demoBoard lostOpen ⟨.open 5, ⟨9, 0, 0⟩, true⟩ 5
    [⟨.open 6, ⟨9, 0, 0⟩, false⟩, ⟨.leave 5, ⟨0, 0, 0⟩, true⟩] rfl _ hok (by simp [Concerns])

end LinkLoop

end ZedSecure
