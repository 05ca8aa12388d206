import ZedSecure.Proofs.ServedPackets

/-! Whole runs of `send_data` against the board: both ends of a session move together, tampering moves neither, and an
answer that is lost parts them for good. -/

namespace ZedSecure

open Clocked LittleEndian SessionManager SessionTable
open AeadHw (padded)
open BoardLink (Raised raise request receive)
open UartDemo (UART_DEMO_SESSIONS Channel Times printed)

namespace DataLoop

variable {σ : Type} {D : Channel σ} {I : σ → Slots 64 → Prop} (name : String)

section Answers

variable {s : UartDemo.State σ} {T : Slots 64} {e : ZedSecure.Session} {session : BoardLink.Session} {slot : ℕ}
  {payload ciphertext tag : Bytes} {length : ℕ} {counter : BitVec 64}

/-- A packet that the table does not grant is answered with an error and changes no session. -/
theorem echo_denied (S : Serves D I) (hI : I s.device T) (hslot : slot < UART_DEMO_SESSIONS) (hlen : length ≤ 64)
    (hno : (serve (fixed64 chacha20 poly1305) T (packetRequest slot true length counter ciphertext 64 (tagOf tag))).2.authOk =
      false) (t : Times) :
    ∃ device, I device T ∧ UartDemo.echo D s slot counter length ciphertext tag t =
      ({ s with device := device }, printed (authWords slot t.rx)) := by
  obtain ⟨device, hI', hdec⟩ := S.decrypt s.device T slot counter length ciphertext tag hI hslot hlen
  rw [serve_unchanged hno] at hI'
  rw [hno] at hdec
  refine ⟨device, hI', ?_⟩
  simp only [UartDemo.echo, hdec]
  rfl

/-- The PC's packet at the expected counter is echoed, sealed at the board's counter. -/
theorem echo_accepts (S : Serves D I) (hI : I s.device T) (hslot : slot < UART_DEMO_SESSIONS)
    (h : Agree session.keys e) (he : T (slotOf 64 slot) = some e) (htx : session.txCounter = e.rxCounter.toNat)
    (hrx : session.rxCounter = e.txCounter.toNat) (hm : payload.length ≤ 64) (t : Times) :
    ∃ device ciphertext tag plain,
      I device (Function.update T (slotOf 64 slot) (some ((e.advance true).advance false))) ∧
      UartDemo.echo D s slot e.rxCounter payload.length (frameCiphertext Pc.chacha20Poly1305 session payload)
        (frameTag Pc.chacha20Poly1305 session payload) t =
        ({ s with device := device },
          printed (respWords slot e.txCounter payload.length t.rx t.tx ciphertext tag)) ∧
      ciphertext.length = 64 ∧ tag.length = 16 ∧
      Pc.chacha20Poly1305.decrypt session.rxKey (session.rxPrefix ++ Python.toBytesBig 8 session.rxCounter)
        (ciphertext ++ tag) (Pc.aad session.sid session.rxCounter payload.length) = some plain ∧
      plain.take payload.length = payload := by
  obtain ⟨d₁, hI₁, hdec⟩ := S.decrypt s.device T slot e.rxCounter payload.length
    (frameCiphertext Pc.chacha20Poly1305 session payload) (frameTag Pc.chacha20Poly1305 session payload) hI hslot hm
  obtain ⟨htable, hok, hdata⟩ := serve_accepts h he htx hm
  rw [htable] at hI₁
  rw [hok, hdata] at hdec
  have he' : Function.update T (slotOf 64 slot) (some (e.advance true)) (slotOf 64 slot) = some (e.advance true) :=
    Function.update_self ..
  have h' : Agree session.keys (e.advance true) := ⟨h.sid, h.rxKey, h.rxPrefix, h.txKey, h.txPrefix⟩
  obtain ⟨counter, received, d₂, hI₂, henc⟩ := S.encrypt d₁ _ slot payload.length (padded payload payload.length) hI₁ hslot hm
  obtain ⟨htable₂, hok₂, hcounter, plain, hopen, hplain⟩ := serve_echoes h' he' hrx hm counter received
  rw [htable₂, Function.update_idem] at hI₂
  rw [hok₂, hcounter] at henc
  refine ⟨d₂, _, _, plain, hI₂, ?_, length_lanes _, length_lanes _, hopen, hplain⟩
  simp only [UartDemo.echo, hdec, if_true, henc]
  rfl

end Answers

/-- Both ends of a session: the same keys, and each sends at the counter that the other one expects. -/
def Matched (T : Slots 64) (slot : ℕ) (session : BoardLink.Session) : Prop :=
  ∃ e, T (slotOf 64 slot) = some e ∧ Agree session.keys e ∧ session.txCounter = e.rxCounter.toNat ∧
    session.rxCounter = e.txCounter.toNat

/-- Every session of the PC is open at the board, and matches. -/
def InStep (I : σ → Slots 64 → Prop) (p : Peers σ) : Prop :=
  ∃ T, I p.board.device T ∧ ∀ slot session, p.sessions slot = some session →
    slot < UART_DEMO_SESSIONS ∧ p.board.active slot = true ∧ Matched T slot session

/-- What the caller gets while both ends are in step. -/
def outcome (name : String) (p : Peers σ) (c : Call) : Except Raised Pc.SendResult :=
  if Pc.PACKET_BYTES < c.payload.length then raise (.valueError "payload exceeds 64 bytes")
  else
    match p.sessions c.slot with
    | none =>
      let slot := c.slot
      raise (.runtimeError s!"no local session for slot {slot}")
    | some _ =>
      if !c.delivered then raise (.timeoutError s!"Board {name} response timeout")
      else if c.tamper then .ok ⟨false, true, Ascii.unwords (authWords c.slot c.times.rx), c.times.rx.toNat, 0⟩
      else .ok ⟨true, false, "secure echo verified".toList, c.times.rx.toNat, c.times.tx.toNat⟩

/-- The call is echoed and moves the counters of the slot. -/
def Moves (slot : ℕ) (c : Call) : Prop := c.slot = slot ∧ c.tamper = false ∧ c.payload.length ≤ Pc.PACKET_BYTES

instance (slot : ℕ) (c : Call) : Decidable (Moves slot c) := inferInstanceAs (Decidable (_ ∧ _))

def after (k : ℕ) (session : BoardLink.Session) : BoardLink.Session :=
  { session with txCounter := session.txCounter + k, rxCounter := session.rxCounter + k }

theorem map_after_zero (o : Option BoardLink.Session) : o.map (after 0) = o := by
  cases o <;> rfl

/-- There is room for `k` packets in every session. -/
def Room (k : ℕ) (p : Peers σ) : Prop :=
  ∀ slot session, p.sessions slot = some session → session.txCounter + k < 2 ^ 64 ∧ session.rxCounter + k < 2 ^ 64

section Step

variable {p : Peers σ} {c : Call} {session : BoardLink.Session} {T T' : Slots 64}

theorem matched_advance (h : Matched T c.slot session) (hroom : session.txCounter + 1 < 2 ^ 64 ∧ session.rxCounter + 1 < 2 ^ 64)
    (hT : ∀ e, T (slotOf 64 c.slot) = some e → T' (slotOf 64 c.slot) = some ((e.advance true).advance false)) :
    Matched T' c.slot (after 1 session) := by
  obtain ⟨e, he, hagree, htx, hrx⟩ := h
  refine ⟨_, hT e he, ⟨hagree.sid, hagree.rxKey, hagree.rxPrefix, hagree.txKey, hagree.txPrefix⟩, ?_, ?_⟩
  · change session.txCounter + 1 = (e.rxCounter + 1#64).toNat
    rw [BitVec.toNat_add, htx, Nat.mod_eq_of_lt]
    · rfl
    · rw [← htx]
      exact hroom.1
  · change session.rxCounter + 1 = (e.txCounter + 1#64).toNat
    rw [BitVec.toNat_add, hrx, Nat.mod_eq_of_lt]
    · rfl
    · rw [← hrx]
      exact hroom.2

/-- A call on one slot leaves the others in step. -/
theorem inStep_update {device : σ} (hI : I device T')
    (h : ∀ slot session, p.sessions slot = some session →
      slot < UART_DEMO_SESSIONS ∧ p.board.active slot = true ∧ Matched T slot session)
    (hslot : c.slot < UART_DEMO_SESSIONS) (hactive : p.board.active c.slot = true)
    (hsame : ∀ q ≠ slotOf 64 c.slot, T' q = T q) (hmatch : Matched T' c.slot session) :
    InStep I ⟨Function.update p.sessions c.slot (some session), { p.board with device := device }⟩ := by
  refine ⟨T', hI, fun slot s hs => ?_⟩
  by_cases hne : slot = c.slot
  · subst hne
    simp only [Function.update_self, Option.some.injEq] at hs
    subst hs
    exact ⟨hslot, hactive, hmatch⟩
  · simp only [Function.update_of_ne hne] at hs
    obtain ⟨hlt, hact, e, he, hrest⟩ := h slot s hs
    refine ⟨hlt, hact, e, ?_, hrest⟩
    rw [hsame _ fun hq => hne (UartDemo.slotOf_inj hlt hslot hq)]
    exact he

theorem Matched.request (h : Matched T c.slot session) (hm : c.payload.length ≤ 64) :
    ∃ e, T (slotOf 64 c.slot) = some e ∧ Agree session.keys e ∧ session.txCounter = e.rxCounter.toNat ∧
      session.rxCounter = e.txCounter.toNat ∧ session.sid < 2 ^ 32 ∧
      BoardLink.request Pc.chacha20Poly1305 session c.slot c.payload c.tamper =
        .ok (Ascii.unwords (dataWords c.slot e.rxCounter.toNat c.payload.length
          (if c.tamper then Pc.corrupt (frameCiphertext Pc.chacha20Poly1305 session c.payload)
            else frameCiphertext Pc.chacha20Poly1305 session c.payload)
          (frameTag Pc.chacha20Poly1305 session c.payload))) := by
  obtain ⟨e, he, hagree, htx, hrx⟩ := h
  have hsid : session.sid < 2 ^ 32 := by
    have h : session.sid = e.sessionId.toNat := hagree.sid
    rw [h]
    exact e.sessionId.isLt
  refine ⟨e, he, hagree, htx, hrx, hsid, ?_⟩
  rw [request_eq hm hsid (by rw [htx]; exact e.rxCounter.isLt), htx]

/-- A packet whose change is noticed moves nothing. -/
theorem exchange_tampered (S : Serves D I) (hI : I p.board.device T) (hs : p.sessions c.slot = some session)
    (hslot : c.slot < UART_DEMO_SESSIONS) (hactive : p.board.active c.slot = true) (hmatch : Matched T c.slot session)
    (hm : c.payload.length ≤ 64) (ht : c.tamper = true) (hdet : Detected session c.payload) :
    ∃ device, I device T ∧ exchange Pc.chacha20Poly1305 name D p c =
      (⟨Function.update p.sessions c.slot (some session), { p.board with device := device }⟩, outcome name p c) := by
  obtain ⟨e, he, hagree, htx, -, -, hreq⟩ := hmatch.request hm
  obtain ⟨device, hI', hecho⟩ := echo_denied S hI hslot hm (serve_rejects hagree he htx hm hdet) c.times
  refine ⟨device, hI', ?_⟩
  have hcmd := command_data (D := D) p.board e.rxCounter c.times hslot hm
    ((length_corrupt _).trans (length_frameCiphertext Pc.chacha20Poly1305 session hm))
    (length_frameTag Pc.chacha20Poly1305 session hm)
  rw [if_pos hactive, hecho] at hcmd
  rw [ht, if_pos rfl] at hreq
  rw [exchange_sent name hm hs (by rw [ht]; exact hreq) hcmd, outcome, if_neg (fits hm), hs]
  cases c.delivered with
  | true => simp [receive_auth, ht]
  | false => simp [receive, BoardLink.readProtocolLine]

/-- The board echoes a packet and moves its counters; the PC takes the echo if it comes. -/
theorem exchange_served (S : Serves D I) (hI : I p.board.device T) (hs : p.sessions c.slot = some session)
    (hslot : c.slot < UART_DEMO_SESSIONS) (hactive : p.board.active c.slot = true) (hmatch : Matched T c.slot session)
    (hm : c.payload.length ≤ 64) (ht : c.tamper = false) :
    ∃ device e, T (slotOf 64 c.slot) = some e ∧ session.txCounter = e.rxCounter.toNat ∧
      I device (Function.update T (slotOf 64 c.slot) (some ((e.advance true).advance false))) ∧
      exchange Pc.chacha20Poly1305 name D p c =
        (⟨Function.update p.sessions c.slot (some (if c.delivered then after 1 session else session)),
          { p.board with device := device }⟩, outcome name p c) := by
  obtain ⟨e, he, hagree, htx, hrx, hsid, hreq⟩ := hmatch.request hm
  obtain ⟨device, ciphertext, tag, plain, hI', hecho, hct, htag, hopen, hplain⟩ :=
    echo_accepts S hI hslot hagree he htx hrx hm c.times
  refine ⟨device, e, he, htx, hI', ?_⟩
  have hcmd := command_data (D := D) p.board e.rxCounter c.times hslot hm
    (length_frameCiphertext Pc.chacha20Poly1305 session hm)
    (length_frameTag Pc.chacha20Poly1305 session hm)
  rw [if_pos hactive, hecho] at hcmd
  rw [ht, if_neg Bool.false_ne_true] at hreq
  rw [exchange_sent name hm hs (by rw [ht]; exact hreq) hcmd, outcome, if_neg (fits hm), hs, ht]
  cases c.delivered with
  | true =>
    have hreceive := receive_resp name c.slot c.times.rx c.times.tx hm hsid hrx hct
      htag hopen hplain
    rw [if_pos rfl, if_pos rfl, hreceive]
    rfl
  | false => rfl

/-- The change of every tampered packet is noticed, when its turn comes. -/
def Detects (D : Channel σ) (name : String) (p : Peers σ) : List Call → Prop
  | [] => True
  | c :: calls =>
    (c.tamper = true → c.payload.length ≤ 64 → ∀ session, p.sessions c.slot = some session → Detected session c.payload) ∧
      Detects D name (exchange Pc.chacha20Poly1305 name D p c).1 calls

/-- One call keeps both ends in step and has the expected outcome. -/
theorem InStep.exchange (S : Serves D I) (h : InStep I p) (hroom : Room 1 p) (hdel : c.tamper = false → c.delivered = true)
    (hdet : c.tamper = true → c.payload.length ≤ 64 → ∀ session, p.sessions c.slot = some session →
      Detected session c.payload) :
    InStep I (exchange Pc.chacha20Poly1305 name D p c).1 ∧
      (exchange Pc.chacha20Poly1305 name D p c).2 = outcome name p c ∧
      ∀ slot, (exchange Pc.chacha20Poly1305 name D p c).1.sessions slot =
        (p.sessions slot).map (after (if Moves slot c then 1 else 0)) := by
  have hstay : ∀ slot, p.sessions slot = (p.sessions slot).map (after 0) := fun slot => (map_after_zero _).symm
  by_cases hlen : Pc.PACKET_BYTES < c.payload.length
  · have hno : ∀ slot, ¬ Moves slot c := fun slot hmoves => absurd hmoves.2.2 (by omega)
    rw [outcome, if_pos hlen, DataLoop.exchange, if_pos hlen]
    exact ⟨h, rfl, fun slot => by rw [if_neg (hno slot)]; exact hstay slot⟩
  have hm : c.payload.length ≤ 64 := by
    rw [Pc.PACKET_BYTES] at hlen
    omega
  cases hs : p.sessions c.slot with
  | none =>
    rw [outcome, if_neg hlen, DataLoop.exchange, if_neg hlen, hs]
    refine ⟨h, rfl, fun slot => ?_⟩
    by_cases hmoves : Moves slot c
    · rw [← hmoves.1, hs]
      rfl
    · rw [if_neg hmoves]
      exact hstay slot
  | some session =>
    obtain ⟨T, hI, hall⟩ := h
    obtain ⟨hslot, hactive, hmatch⟩ := hall c.slot session hs
    cases ht : c.tamper with
    | true =>
      obtain ⟨device, hI', hex⟩ := exchange_tampered name S hI hs hslot hactive hmatch hm ht (hdet ht hm _ hs)
      rw [hex]
      refine ⟨inStep_update hI' hall hslot hactive (fun _ _ => rfl) hmatch, rfl, fun slot => ?_⟩
      have hno : ¬ Moves slot c := fun hmoves => absurd hmoves.2.1 (by simp [ht])
      rw [if_neg hno, ← hs, Function.update_eq_self]
      exact hstay slot
    | false =>
      obtain ⟨device, e, he, -, hI', hex⟩ := exchange_served name S hI hs hslot hactive hmatch hm ht
      rw [hex, hdel ht, if_pos rfl]
      refine ⟨inStep_update hI' hall hslot hactive (fun q hq => Function.update_of_ne hq ..) ?_, rfl, fun slot => ?_⟩
      · refine matched_advance hmatch (hroom c.slot session hs) fun e' he' => ?_
        rw [he, Option.some.injEq] at he'
        rw [Function.update_self, he']
      · by_cases hne : slot = c.slot
        · subst hne
          have hmoves : Moves c.slot c := ⟨rfl, ht, hm⟩
          simp only [Function.update_self, if_pos hmoves, hs, Option.map_some]
        · have hno : ¬ Moves slot c := fun hmoves => hne hmoves.1.symm
          simp only [Function.update_of_ne hne, if_neg hno]
          exact hstay slot

end Step

section Runs

variable {p : Peers σ} {calls : List Call}

theorem outcome_sessions {p p' : Peers σ} (h : ∀ slot, p'.sessions slot = none ↔ p.sessions slot = none) (c : Call) :
    outcome name p' c = outcome name p c := by
  have hslot := h c.slot
  simp only [outcome]
  cases hp : p.sessions c.slot with
  | none => rw [hslot.mpr hp]
  | some s =>
    cases hp' : p'.sessions c.slot with
    | none =>
      rw [hslot.mp hp'] at hp
      cases hp
    | some s' => rfl

theorem detects_untampered (h : ∀ c ∈ calls, c.tamper = false) : Detects D name p calls := by
  induction calls generalizing p with
  | nil => trivial
  | cons c calls ih =>
    refine ⟨fun ht => ?_, ih fun c' hc' => h c' (List.mem_cons_of_mem _ hc')⟩
    rw [h c (by simp)] at ht
    cases ht

theorem inStep_run (S : Serves D I) (h : InStep I p) (hroom : Room calls.length p)
    (hdel : ∀ c ∈ calls, c.tamper = false → c.delivered = true) (hdet : Detects D name p calls) :
    InStep I (run Pc.chacha20Poly1305 name D p calls) ∧
      results Pc.chacha20Poly1305 name D p calls = calls.map (outcome name p) ∧
      ∀ slot, (run Pc.chacha20Poly1305 name D p calls).sessions slot =
        (p.sessions slot).map (after (calls.countP fun c => Moves slot c)) := by
  induction calls generalizing p with
  | nil => exact ⟨h, rfl, fun slot => (map_after_zero _).symm⟩
  | cons c calls ih =>
    obtain ⟨hstep, hresult, hsessions⟩ := h.exchange name S (c := c)
      (fun slot s hs => by have := hroom slot s hs; simp only [List.length_cons] at this; omega)
      (hdel c (by simp)) hdet.1
    have hroom' : Room calls.length (exchange Pc.chacha20Poly1305 name D p c).1 := by
      intro slot s hs
      rw [hsessions, Option.map_eq_some_iff] at hs
      obtain ⟨s₀, hs₀, rfl⟩ := hs
      have hlt := hroom slot s₀ hs₀
      simp only [List.length_cons, after] at hlt ⊢
      split_ifs <;> omega
    obtain ⟨hrun, hresults, hcounts⟩ := ih hstep hroom' (fun c' hc' => hdel c' (List.mem_cons_of_mem _ hc')) hdet.2
    refine ⟨hrun, ?_, fun slot => ?_⟩
    · rw [results, hresult, hresults, List.map_cons]
      refine congrArg _ (List.map_congr_left fun c' _ => outcome_sessions name (fun slot => ?_) c')
      rw [hsessions, Option.map_eq_none_iff]
    · rw [run, hcounts, hsessions, Option.map_map, List.countP_cons]
      refine congrArg (Option.map · _) (funext fun s => ?_)
      simp only [Function.comp_apply, after, decide_eq_true_eq]
      congr 1 <;> omega

end Runs

section Board

variable {limit : ℕ} {establish : AeadHw.Bus 64 AeadEngine.packetEngine → ℕ → BitVec 32 →
  AeadHw.Bus 64 AeadEngine.packetEngine × ℤ} {p : Peers (AeadHw.Bus 64 AeadEngine.packetEngine)} {calls : List Call}

/-- The driver over the port of the session manager and the packet engine, at rest on its table. -/
theorem board_serves (hl : 642 ≤ limit) (time : ℕ → AeadHw.Access (Unit × Unit)) :
    Serves (trafficChannel (E := AeadEngine.packetEngine) time limit establish) fun b T => TrafficPort.Quiet b.port T :=
  traffic_serves (AeadEngine.timed Chacha20Block.timed Poly1305Fixed96.timed) hl time establish

/-- As long as every echo arrives and every change is noticed, both ends of every session stay in step: each call ends as
it should, an echo moves the counters of its session by one, and nothing else moves a counter. -/
theorem secure_echoes (hl : 642 ≤ limit) (time : ℕ → AeadHw.Access (Unit × Unit))
    (h : InStep (fun b T => TrafficPort.Quiet b.port T) p) (hroom : Room calls.length p)
    (hdel : ∀ c ∈ calls, c.tamper = false → c.delivered = true)
    (hdet : Detects (trafficChannel time limit establish) name p calls) :
    let D := trafficChannel time limit establish
    InStep (fun b T => TrafficPort.Quiet b.port T) (run Pc.chacha20Poly1305 name D p calls) ∧
      results Pc.chacha20Poly1305 name D p calls = calls.map (outcome name p) ∧
      ∀ slot, (run Pc.chacha20Poly1305 name D p calls).sessions slot =
        (p.sessions slot).map (after (calls.countP fun c => Moves slot c)) :=
  inStep_run name (board_serves hl time) h hroom hdel hdet

/-- A session with keys of zeros. -/
def openSession : BoardLink.Session :=
  ⟨0x60000005, List.replicate 32 0, List.replicate 4 0, List.replicate 32 0, List.replicate 4 0, 7, 3⟩

/-- It is open at both ends in slot 5. -/
def openPeers : Peers (AeadHw.Bus 64 AeadEngine.packetEngine) where
  sessions := Function.update (fun _ => none) 5 (some openSession)
  board :=
    { device := ⟨TrafficPort.holding _ (Function.update (fun _ => none) (slotOf 64 5) (some ⟨0x60000005, 0, 0, 0, 0, 3, 7⟩)), 0⟩
      active := fun slot => slot = 5
      generation := fun _ => 1
      sessionId := fun _ => 0x60000005
      stopped := false }

theorem openPeers_session : openPeers.sessions 5 = some openSession := rfl

theorem openPeers_inStep : InStep (fun b T => TrafficPort.Quiet b.port T) openPeers := by
  refine ⟨_, TrafficPort.quiet_holding fun slot _ _ => slot.isLt, fun slot session hs => ?_⟩
  by_cases hslot : slot = 5
  · subst hslot
    simp only [openPeers, Function.update_self, Option.some.injEq] at hs
    subst hs
    exact ⟨by decide, rfl, _, Function.update_self .., ⟨rfl, rfl, rfl, rfl, rfl⟩, rfl, rfl⟩
  · simp [openPeers, Function.update_of_ne hslot] at hs

/-- Two messages over it, and one to a slot without a session. -/
theorem secure_echoes_two : results Pc.chacha20Poly1305 "A"
    (trafficChannel (E := AeadEngine.packetEngine) (fun _ => ⟨[], ((), ())⟩) 642 fun b _ _ => (b, 0)) openPeers
    [⟨5, [0x68, 0x69], false, ⟨0, 20, 30⟩, true⟩, ⟨6, [], false, ⟨0, 0, 0⟩, true⟩, ⟨5, [], false, ⟨0, 40, 50⟩, true⟩] =
      [.ok ⟨true, false, "secure echo verified".toList, 20, 30⟩,
        raise (.runtimeError "no local session for slot 6"),
        .ok ⟨true, false, "secure echo verified".toList, 40, 50⟩] := by
  have hrun := @secure_echoes "A" 642 (fun b _ _ => (b, 0)) openPeers
    [⟨5, [0x68, 0x69], false, ⟨0, 20, 30⟩, true⟩, ⟨6, [], false, ⟨0, 0, 0⟩, true⟩,
      ⟨5, [], false, ⟨0, 40, 50⟩, true⟩] (by decide) (fun _ => ⟨[], ((), ())⟩) openPeers_inStep
    (fun slot session hs => by
      by_cases hslot : slot = 5
      · subst hslot
        simp only [openPeers, Function.update_self, Option.some.injEq] at hs
        subst hs
        decide
      · simp [openPeers, Function.update_of_ne hslot] at hs)
    (by simp) (detects_untampered _ (by simp))
  rw [hrun.2.1]
  rfl

end Board

end DataLoop

end ZedSecure
