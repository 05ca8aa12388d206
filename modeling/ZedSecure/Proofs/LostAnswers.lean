import ZedSecure.Proofs.SecureEcho

/-! One lost echo: the board has moved its counters and the PC has not. Whatever is sent afterwards, on this slot or on
others, no packet of the session is accepted again. -/

namespace ZedSecure

open Clocked LittleEndian SessionManager SessionTable
open BoardLink (Raised raise request receive)
open UartDemo (UART_DEMO_SESSIONS Channel)

namespace DataLoop

variable {σ : Type} {D : Channel σ} {I : σ → Slots 64 → Prop} (name : String)

section Frame

variable {n : ℕ} {s : UartDemo.State σ} {T : Slots 64} {slot length : ℕ}

theorem serve_elsewhere {aead : EngineIn → EngineOut} {T : Slots n} {q : Request n} {slot : BitVec (slotWidth n)}
    (h : slot ≠ q.slot) : (serve aead T q).1 slot = T slot := by
  by_cases hok : (serve aead T q).2.authOk = true
  · cases he : T q.slot with
    | none => simp [serve, he]
    | some e =>
      simp only [serve, he]
      split_ifs
      · rfl
      · exact Function.update_of_ne h ..
      · rfl
  · rw [serve_unchanged (Bool.eq_false_iff.mpr hok)]

/-- The echo of a packet changes its own slot only. -/
theorem echo_elsewhere (counter : BitVec 64) (ciphertext tag : Bytes) (S : Serves D I) (hI : I s.device T) (hslot : slot < UART_DEMO_SESSIONS) (hlen : length ≤ 64)
    (t : UartDemo.Times) :
    ∃ device T', I device T' ∧ (∀ q ≠ slotOf 64 slot, T' q = T q) ∧
      (UartDemo.echo D s slot counter length ciphertext tag t).1 = { s with device := device } := by
  obtain ⟨d₁, hI₁, hdec⟩ := S.decrypt s.device T slot counter length ciphertext tag hI hslot hlen
  generalize hans : serve (fixed64 chacha20 poly1305) T (packetRequest slot true length counter ciphertext 64 (tagOf tag)) =
    answer at hI₁ hdec
  have hT₁ : ∀ q ≠ slotOf 64 slot, answer.1 q = T q := fun q hq => by
    rw [← hans]
    exact serve_elsewhere hq
  cases hok : answer.2.authOk with
  | false =>
    rw [hok] at hdec
    refine ⟨d₁, answer.1, hI₁, hT₁, ?_⟩
    simp only [UartDemo.echo, hdec]
    rfl
  | true =>
    rw [hok, if_pos rfl] at hdec
    obtain ⟨c₂, t₂, d₂, hI₂, henc⟩ := S.encrypt d₁ answer.1 slot length (lanes (k := 64) answer.2.data) hI₁ hslot hlen
    generalize hans₂ : serve (fixed64 chacha20 poly1305) answer.1
      (packetRequest slot false length c₂ (lanes (k := 64) answer.2.data) length t₂) = answer₂ at hI₂ henc
    refine ⟨d₂, answer₂.1, hI₂, fun q hq => ?_, ?_⟩
    · rw [← hT₁ q hq, ← hans₂]
      exact serve_elsewhere hq
    · simp only [UartDemo.echo, hdec, henc]
      cases answer₂.2.authOk <;> rfl

end Frame

section Apart

variable {p : Peers σ} {c : Call} {slot : ℕ}

/-- The board expects another counter in the open slot than the PC uses. -/
def Apart (I : σ → Slots 64 → Prop) (slot : ℕ) (p : Peers σ) : Prop :=
  ∃ T e session, I p.board.device T ∧ p.board.active slot = true ∧ T (slotOf 64 slot) = some e ∧
    p.sessions slot = some session ∧ session.txCounter ≠ e.rxCounter.toNat

/-- The PC's sessions are in slots of the board. -/
def Placed (p : Peers σ) : Prop := ∀ slot session, p.sessions slot = some session → slot < UART_DEMO_SESSIONS

/-- A session that is not taken up again: every call ends with an exception or an error line. -/
def Dead (r : Except Raised Pc.SendResult) : Prop := ∀ x, r = .ok x → x.ok = false

/-- A call on another slot. -/
theorem exchange_elsewhere (S : Serves D I) (hplaced : Placed p) {T : Slots 64} (hI : I p.board.device T)
    (hne : slot ≠ c.slot) (hslot : slot < UART_DEMO_SESSIONS) :
    ∃ T', I (exchange Pc.chacha20Poly1305 name D p c).1.board.device T' ∧ T' (slotOf 64 slot) = T (slotOf 64 slot) ∧
      (exchange Pc.chacha20Poly1305 name D p c).1.board.active = p.board.active ∧
      (exchange Pc.chacha20Poly1305 name D p c).1.sessions slot = p.sessions slot := by
  rcases exchange_cases _ name D p c with ⟨err, hex⟩ | ⟨session, line, hs, -, hreq⟩
  · rw [hex]
    exact ⟨T, hI, rfl, rfl, rfl⟩
  · obtain ⟨counter, ciphertext, tag, -, hm, hct, htag, rfl⟩ := request_cases hreq
    have hplace := hplaced c.slot session hs
    have hcmd := command_data (D := D) p.board counter c.times hplace hm hct htag
    cases hactive : p.board.active c.slot with
    | false =>
      rw [hactive, if_neg Bool.false_ne_true] at hcmd
      rw [exchange_sent name hm hs hreq hcmd]
      exact ⟨T, hI, rfl, rfl, Function.update_of_ne hne ..⟩
    | true =>
      obtain ⟨device, T', hI', hsame, hecho⟩ := echo_elsewhere counter ciphertext tag S hI hplace hm
        c.times
      rw [if_pos hactive] at hcmd
      obtain ⟨⟨board, reply⟩, hans⟩ : ∃ ans, UartDemo.echo D p.board c.slot counter c.payload.length ciphertext tag
        c.times = ans := ⟨_, rfl⟩
      rw [hans] at hcmd hecho
      obtain rfl : board = _ := hecho
      rw [exchange_sent name hm hs hreq hcmd]
      exact ⟨T', hI', hsame _ fun hq => hne (UartDemo.slotOf_inj hslot hplace hq), rfl, Function.update_of_ne hne ..⟩

/-- A call on the slot itself: the board refuses the packet and nothing moves. -/
theorem exchange_apart (S : Serves D I) (h : Apart I c.slot p) (hplaced : Placed p) :
    Apart I c.slot (exchange Pc.chacha20Poly1305 name D p c).1 ∧
      (exchange Pc.chacha20Poly1305 name D p c).1.sessions = p.sessions ∧
      Dead (exchange Pc.chacha20Poly1305 name D p c).2 := by
  obtain ⟨T, e, session, hI, hactive, he, hs, hne⟩ := h
  rcases exchange_cases _ name D p c with ⟨err, hex⟩ | ⟨session', line, hs', -, hreq⟩
  · rw [hex]
    exact ⟨⟨T, e, session, hI, hactive, he, hs, hne⟩, rfl, fun x hx => by cases hx⟩
  · obtain rfl : session = session' := Option.some.inj (hs.symm.trans hs')
    obtain ⟨counter, ciphertext, tag, hcounter, hm, hct, htag, rfl⟩ := request_cases hreq
    have hplace := hplaced c.slot session hs
    have hcmd := command_data (D := D) p.board counter c.times hplace hm hct htag
    have hstale : counter ≠ e.rxCounter := fun heq => hne (by rw [hcounter, heq])
    obtain ⟨device, hI', hecho⟩ := echo_denied (s := p.board) S hI hplace hm (serve_stale he hstale) c.times
    rw [if_pos hactive, hecho] at hcmd
    rw [exchange_sent name hm hs hreq hcmd]
    have hreceive : ∃ r, Dead r ∧ receive Pc.chacha20Poly1305 name session c.slot c.payload c.tamper
        (if c.delivered then [ascii (UartDemo.printed (authWords c.slot c.times.rx))] else []) = (session, r) := by
      cases c.delivered with
      | false => exact ⟨_, fun x hx => (by cases hx), rfl⟩
      | true =>
        refine ⟨_, ?_, receive_auth c.tamper⟩
        cases c.tamper with
        | false => exact fun x hx => by cases hx
        | true => exact fun x hx => by cases hx; rfl
    obtain ⟨r, hdead, hr⟩ := hreceive
    have hkept : Function.update p.sessions c.slot (some session) = p.sessions := by
      rw [← hs, Function.update_eq_self]
    rw [hr]
    exact ⟨⟨T, e, session, hI', hactive, he, Function.update_self .., hne⟩, hkept, hdead⟩

end Apart

section Runs

variable {p : Peers σ} {slot : ℕ} {calls : List Call}

theorem placed_exchange (hplaced : Placed p) (c : Call) : Placed (exchange Pc.chacha20Poly1305 name D p c).1 := by
  rcases exchange_cases _ name D p c with ⟨err, hex⟩ | ⟨session, line, hs, hm, hreq⟩
  · rw [hex]
    exact hplaced
  · rw [exchange_sent name hm hs hreq rfl]
    intro slot s hslot
    by_cases hne : slot = c.slot
    · rw [hne]
      exact hplaced _ session hs
    · exact hplaced slot s ((Function.update_of_ne hne ..).symm.trans hslot)

theorem mem_zip_results (D : Channel σ) (p : Peers σ) (c : Call) :
    (c, (exchange Pc.chacha20Poly1305 name D p c).2) ∈ (c :: calls).zip (results Pc.chacha20Poly1305 name D p (c :: calls)) := by
  rw [results, List.zip_cons_cons]
  exact List.mem_cons_self ..

/-- Once apart, always apart. -/
theorem apart_run (S : Serves D I) (h : Apart I slot p) (hplaced : Placed p) :
    (run Pc.chacha20Poly1305 name D p calls).sessions slot = p.sessions slot ∧
      ∀ c r, (c, r) ∈ calls.zip (results Pc.chacha20Poly1305 name D p calls) → c.slot = slot → Dead r := by
  induction calls generalizing p with
  | nil => exact ⟨rfl, fun c r hr => by cases hr⟩
  | cons c calls ih =>
    have hplaced' := placed_exchange (D := D) name hplaced c
    by_cases hslot : c.slot = slot
    · subst hslot
      obtain ⟨hapart, hsessions, hdead⟩ := exchange_apart name S h hplaced
      obtain ⟨hrun, hall⟩ := ih hapart hplaced'
      refine ⟨hrun.trans (congrFun hsessions _), fun c' r hr hc' => ?_⟩
      rw [results, List.zip_cons_cons, List.mem_cons] at hr
      rcases hr with hr | hr
      · cases hr
        exact hdead
      · exact hall c' r hr hc'
    · obtain ⟨T, e, session, hI, hactive, he, hs, hne⟩ := h
      obtain ⟨T', hI', hT', hactive', hs'⟩ := exchange_elsewhere name S hplaced hI (Ne.symm hslot)
        (hplaced slot session hs)
      have hapart : Apart I slot (exchange Pc.chacha20Poly1305 name D p c).1 :=
        ⟨T', e, session, hI', by rw [hactive', hactive], by rw [hT', he], by rw [hs', hs], hne⟩
      obtain ⟨hrun, hall⟩ := ih hapart hplaced'
      refine ⟨hrun.trans hs', fun c' r hr hc' => ?_⟩
      rw [results, List.zip_cons_cons, List.mem_cons] at hr
      rcases hr with hr | hr
      · cases hr
        exact absurd hc' hslot
      · exact hall c' r hr hc'

/-- The echo of a packet is lost. -/
theorem apart_of_lost {c : Call} (S : Serves D I) (h : InStep I p) {session : BoardLink.Session}
    (hs : p.sessions c.slot = some session) (hm : c.payload.length ≤ 64) (ht : c.tamper = false)
    (hlost : c.delivered = false) :
    Apart I c.slot (exchange Pc.chacha20Poly1305 name D p c).1 ∧
      (exchange Pc.chacha20Poly1305 name D p c).1.sessions = p.sessions ∧
      (exchange Pc.chacha20Poly1305 name D p c).2 = raise (.timeoutError s!"Board {name} response timeout") := by
  obtain ⟨T, hI, hall⟩ := h
  obtain ⟨hslot, hactive, hmatch⟩ := hall c.slot session hs
  obtain ⟨device, e, he, htx, hI', hex⟩ := exchange_served name S hI hs hslot hactive hmatch hm ht
  rw [hex, hlost, if_neg Bool.false_ne_true]
  refine ⟨⟨_, _, session, hI', hactive, Function.update_self .., Function.update_self .., ?_⟩, ?_, ?_⟩
  · rw [htx]
    intro heq
    have hwrap : e.rxCounter = e.rxCounter + 1#64 := BitVec.eq_of_toNat_eq heq
    exact absurd hwrap (by bv_omega)
  · rw [← hs]
    exact Function.update_eq_self ..
  · rw [outcome, if_neg (fits hm), hs, hlost]
    rfl

end Runs

section Board

variable {limit : ℕ} {establish : AeadHw.Bus 64 AeadEngine.packetEngine → ℕ → BitVec 32 →
  AeadHw.Bus 64 AeadEngine.packetEngine × ℤ} {p : Peers (AeadHw.Bus 64 AeadEngine.packetEngine)} {c : Call}
  {session : BoardLink.Session} {calls : List Call}

/-- After one lost echo the PC keeps its counters, and with them the nonce it has used, and no later call on the slot
succeeds, whatever is sent on the others. -/
theorem lost_answer (hl : 642 ≤ limit) (time : ℕ → AeadHw.Access (Unit × Unit))
    (h : InStep (fun b T => TrafficPort.Quiet b.port T) p) (hs : p.sessions c.slot = some session)
    (hm : c.payload.length ≤ 64) (ht : c.tamper = false) (hlost : c.delivered = false) :
    let D := trafficChannel time limit establish
    let lost := exchange Pc.chacha20Poly1305 name D p c
    lost.2 = raise (.timeoutError s!"Board {name} response timeout") ∧
      (run Pc.chacha20Poly1305 name D lost.1 calls).sessions c.slot = some session ∧
      ∀ c' r, (c', r) ∈ calls.zip (results Pc.chacha20Poly1305 name D lost.1 calls) → c'.slot = c.slot → Dead r := by
  intro D lost
  have S : Serves D fun b T => TrafficPort.Quiet b.port T := board_serves hl time
  obtain ⟨hapart, hsessions, htimeout⟩ := apart_of_lost name S h hs hm ht hlost
  have hplaced : Placed p := by
    obtain ⟨T, -, hall⟩ := h
    exact fun slot s hs => (hall slot s hs).1
  obtain ⟨hrun, hall⟩ := apart_run name S hapart (placed_exchange name hplaced c)
  exact ⟨htimeout, hrun.trans ((congrFun hsessions _).trans hs), hall⟩

/-- The echo of the first message is lost, and the second message fails. -/
theorem lost_answer_two :
    let D := trafficChannel (E := AeadEngine.packetEngine) (fun _ => ⟨[], ((), ())⟩) 642 fun b _ _ => (b, 0)
    let lost := exchange Pc.chacha20Poly1305 "A" D openPeers ⟨5, [0x68, 0x69], false, ⟨0, 20, 30⟩, false⟩
    lost.2 = raise (.timeoutError "Board A response timeout") ∧
      Dead (exchange Pc.chacha20Poly1305 "A" D lost.1 ⟨5, [0x21], false, ⟨0, 40, 50⟩, true⟩).2 :=
  have hlost := @lost_answer "A" 642 (fun b _ _ => (b, 0)) openPeers ⟨5, [0x68, 0x69], false, ⟨0, 20, 30⟩, false⟩
    openSession [⟨5, [0x21], false, ⟨0, 40, 50⟩, true⟩] (by decide) (fun _ => ⟨[], ((), ())⟩) openPeers_inStep
    openPeers_session (by decide) rfl rfl
  ⟨hlost.1, hlost.2.2 _ _ (mem_zip_results _ _ _ _) rfl⟩

end Board

end DataLoop

end ZedSecure
