import ZedSecure.Proofs.SessionView

/-! The command lines of the firmware over the two ports: in every run whose lines meet the condition, each
open slot has in hardware the session the firmware has for it. The sample run leaves the condition: the
second OPEN of a slot runs into the poll limit, and the table takes up its session afterwards. -/

namespace ZedSecure

open Clocked SessionTable LittleEndian

namespace MlkemDecapsHw

open AeadHw (Access BusOf Device)

section Keeps

variable {σ κ : Type} [KemDevice σ κ] (time : ℕ → Access κ) {I J : σ → Prop} {b : BusOf σ}
  (htick : ∀ p k, I p → I (Device.tick p k))

include htick

theorem keeps_rd (offset : BitVec 8) (h : I b.port) : I (rd time b offset).1.port :=
  htick _ _ (AeadHw.keeps_waited time htick h)

theorem keeps_wait (limit : ℕ) (h : I b.port) : I (wait time limit b).1.port := by
  induction limit generalizing b with
  | zero => exact h
  | succ limit ih =>
    have hread := keeps_rd time htick REG_STATUS h
    simp only [wait]
    split_ifs
    · exact hread
    · exact hread
    · exact ih hread

theorem wr_port (offset : BitVec 8) (value : BitVec 32) (hwrite : ∀ p k, I p → J (KemDevice.kemWrite p offset value k))
    (h : I b.port) : J (wr time b offset value).port :=
  hwrite _ _ (AeadHw.keeps_waited time htick h)

end Keeps

section Polls

variable {σ κ : Type} [KemDevice σ κ] (time : ℕ → Access κ) {b : BusOf σ}

theorem wait_done (limit : ℕ) (h : (rd time b REG_STATUS).2 &&& 1#32 <<< 2 ≠ 0) : wait time (limit + 1) b =
    ((rd time b REG_STATUS).1,
      if (rd time b REG_STATUS).2 &&& 1#32 <<< 3 ≠ 0 then MLKEM_HW_REJECTED else MLKEM_HW_OK) := if_pos h

theorem wait_poll (limit : ℕ) (h : ¬ (rd time b REG_STATUS).2 &&& 1#32 <<< 2 ≠ 0) :
    wait time (limit + 1) b = wait time limit (rd time b REG_STATUS).1 := if_neg h

theorem results_ne : MLKEM_HW_OK ≠ MLKEM_HW_REJECTED ∧ MLKEM_HW_OK ≠ MLKEM_HW_TIMEOUT ∧
    MLKEM_HW_REJECTED ≠ MLKEM_HW_TIMEOUT := by decide

theorem wait_results (limit : ℕ) (b : BusOf σ) : (wait time limit b).2 = MLKEM_HW_OK ∨
    (wait time limit b).2 = MLKEM_HW_REJECTED ∨ (wait time limit b).2 = MLKEM_HW_TIMEOUT := by
  induction limit generalizing b with
  | zero => exact Or.inr (Or.inr rfl)
  | succ limit ih =>
    simp only [wait]
    split_ifs
    · exact Or.inr (Or.inl rfl)
    · exact Or.inl rfl
    · exact ih _

end Polls

/-- The device after `m` polls. -/
def polled {σ κ : Type} [KemDevice σ κ] (time : ℕ → Access κ) (m : ℕ) (b : BusOf σ) : BusOf σ :=
  (fun b => (rd time b REG_STATUS).1)^[m] b

end MlkemDecapsHw

namespace UartDemo

open AeadHw (Access BusOf Device)
open MlkemDecapsHw
open ProtectedTop (Ledger)

variable {N : ℕ} {aead : EngineIn → EngineOut} {κ : Type} {dp : Datapath} {H : HashUnit}
  {E : StartDone aead κ} (time : ℕ → Access κ) {active : ℕ → Bool} {ids : ℕ → BitVec 32} {slot : ℕ}
  {id : BitVec 32}

section Driver

variable {b : BusOf (Board N 64 dp H E)} {P : BitVec (slotWidth 64) → BitVec 32 → Bool → Prop}

/-- The words of a memory leave the registers of the handshake alone. -/
theorem load_setup (h2 : 2 ≤ N) (region : BitVec 32) (bytes : Bytes) (length : ℕ)
    (h : Sane (Setup active ids P) (b.waited time)) :
    Sane (Setup active ids P) (load time b region bytes length).port := by
  have hkeep : ∀ (offset : BitVec 8) (value : BitVec 32), offset ≠ DecapsFrontend.REG_CONTROL →
      offset ≠ DecapsFrontend.REG_SLOT → offset ≠ DecapsFrontend.REG_SESSION → ∀ (p : Board N 64 dp H E) k,
      Sane (Setup active ids P) p → Sane (Setup active ids P) (KemDevice.kemWrite p offset value k) := by
    intro offset value hctl hslot hid p k hp
    refine hp.kemWrite fun s t g i ha hs => hs.write h2 (by simp [hctl]) (fun _ _ _ _ hc => absurd hc hctl)
      (fun _ _ _ hP => ?_) ha
    simp only [hctl, hslot, hid, if_false, false_and]
    exact hP
  have htick : ∀ (p : Board N 64 dp H E) k, Sane (Setup active ids P) p → Sane (Setup active ids P) (Device.tick p k) :=
    fun _ _ hp => hp.tick (Setup.stable h2 P)
  have hregion : Sane (Setup active ids P) (wr time b REG_MEM_REGION region).port :=
    hkeep _ _ (by decide) (by decide) (by decide) _ _ h
  have haddr := wr_port time htick _ _ (hkeep REG_MEM_ADDR 0 (by decide) (by decide) (by decide)) hregion
  exact List.foldlRecOn (motive := fun b : BusOf (Board N 64 dp H E) => Sane (Setup active ids P) b.port) _ _ haddr
    fun _ hb _ _ => wr_port time htick _ _ (hkeep REG_MEM_DATA _ (by decide) (by decide) (by decide)) hb

/-- `mlkem_decaps_hw_start` on a port where no handshake is under way. -/
theorem start_running (h2 : 2 ≤ N) (ct : Bytes) (hslot : slot < UART_DEMO_SESSIONS)
    (h : Sane (View active ids) b.port) (hidle : KemIdle (b.waited time)) :
    Sane (Running active ids slot id) (MlkemDecapsHw.start time b ct slot id).port := by
  have htick : ∀ Q, ∀ (p : Board N 64 dp H E) k, Sane (Setup active ids Q) p → Sane (Setup active ids Q) (Device.tick p k) :=
    fun Q _ _ hp => hp.tick (Setup.stable h2 Q)
  have hloaded := load_setup time h2 REGION_CT ct MLKEM512_CIPHERTEXT_BYTES
    ((h.waited (View.stable h2) time).setup hidle)
  have hat := wr_port time (J := Sane (Setup active ids fun s _ _ => s = slotOf 64 slot)) (htick _)
    REG_SLOT (BitVec.ofNat 32 slot)
    (fun p k hp => hp.kemWrite fun s t g i ha hs => hs.write h2 (Bool.and_eq_false_iff.mpr (Or.inl (by decide)))
      (fun _ _ _ _ hc => absurd hc (by decide)) (fun _ _ _ _ => if_pos rfl) ha) hloaded
  have hwith := wr_port time (J := Sane (Setup active ids fun s d _ => s = slotOf 64 slot ∧ d = id)) (htick _)
    REG_SESSION id
    (fun p k hp => hp.kemWrite fun s t g i ha hs => hs.write h2 (Bool.and_eq_false_iff.mpr (Or.inl (by decide)))
      (fun _ _ _ _ hc => absurd hc (by decide)) (fun _ _ _ hP => ⟨hP, if_pos rfl⟩) ha) hat
  have hclear := wr_port time
    (J := Sane (Setup active ids fun s d b => s = slotOf 64 slot ∧ d = id ∧ b = false)) (htick _)
    REG_CONTROL (1#32 <<< 8)
    (fun p k hp => hp.kemWrite fun s t g i ha hs => hs.write h2 (by decide)
      (fun _ _ _ hP _ => by rw [hP.1, slotOf_toNat hslot]; exact hslot)
      (fun _ _ _ hP => ⟨hP.1, hP.2, if_pos (by decide)⟩) ha) hwith
  exact wr_port time (htick _) _ _ (fun p k hp => hp.kemWrite fun s t g i ha hs => hs.starts h2 hslot ha) hclear

/-- The bits of the status register the driver looks at. -/
theorem status_bits (b : BusOf (Board N 64 dp H E)) :
    ((rd time b REG_STATUS).2 &&& 1#32 <<< 2 ≠ 0 ↔ (b.waited time).top.core.front.doneLatched = true) ∧
      ((rd time b REG_STATUS).2 &&& 1#32 <<< 3 ≠ 0 ↔ (b.waited time).top.core.front.failLatched = true) := by
  have hbits : ∀ f d b r : Bool,
      ((BitVec.ofNat 32 (8 * f.toNat + 4 * d.toNat + 2 * b.toNat + r.toNat)) &&& 1#32 <<< 2 ≠ 0 ↔ d = true) ∧
        ((BitVec.ofNat 32 (8 * f.toNat + 4 * d.toNat + 2 * b.toNat + r.toNat)) &&& 1#32 <<< 3 ≠ 0 ↔ f = true) := by
    decide
  exact hbits _ _ _ _

/-- The table behind a poll loop that ends with a report. -/
theorem wait_reported (h2 : 2 ≤ N) (limit : ℕ) (h : Sane (Running active ids slot id) b.port) :
    ((wait time limit b).2 = MLKEM_HW_OK →
      Sane (View (Function.update active slot true) (Function.update ids slot id)) (wait time limit b).1.port) ∧
    ((wait time limit b).2 = MLKEM_HW_REJECTED → Sane (View active ids) (wait time limit b).1.port) := by
  induction limit generalizing b with
  | zero => exact ⟨fun hr => absurd hr results_ne.2.1.symm, fun hr => absurd hr results_ne.2.2.symm⟩
  | succ limit ih =>
    have hwaited := h.waited (Running.stable h2) time
    obtain ⟨hdone, hfail⟩ := status_bits time b
    by_cases hd : (b.waited time).top.core.front.doneLatched = true
    · rw [wait_done time limit (hdone.mpr hd)]
      by_cases hf : (b.waited time).top.core.front.failLatched = true
      · rw [if_pos (hfail.mpr hf)]
        have hview : Sane (View active ids) (b.waited time) :=
          ⟨hwaited.sync, hwaited.filled, hwaited.rel, fun hc => (hwaited.calmly hc).rejected hd hf⟩
        exact ⟨fun hr => absurd hr results_ne.1.symm, fun _ => hview.tick (View.stable h2)⟩
      · rw [if_neg (mt hfail.mp hf)]
        have hview : Sane (View (Function.update active slot true) (Function.update ids slot id)) (b.waited time) :=
          ⟨hwaited.sync, hwaited.filled, hwaited.rel,
            fun hc => (hwaited.calmly hc).established hd (Bool.eq_false_iff.mpr hf)⟩
        exact ⟨fun _ => hview.tick (View.stable h2), fun hr => absurd hr results_ne.1⟩
    · rw [wait_poll time limit (mt hdone.mp hd)]
      exact ih (hwaited.tick (Running.stable h2))

/-- The poll loop misses no handshake that has ended within its limit. -/
theorem wait_timeout (h2 : 2 ≤ N) {limit m : ℕ} (hm : m < limit) (h : Sane (Running active ids slot id) b.port)
    (hidle : KemIdle ((polled time m b).waited time)) (hr : (wait time limit b).2 = MLKEM_HW_TIMEOUT)
    (J : ProtectedTop.State 64 dp H E → Table 64 → Ledger 64 → Prop) : Sane J (wait time limit b).1.port := by
  have hnever : Stable N fun (_ : ProtectedTop.State 64 dp H E) _ _ => False := fun _ _ _ _ _ _ hf => hf
  suffices hf : Sane (fun _ _ _ => False) (wait time limit b).1.port from hf.imp fun _ _ _ hf => hf.elim
  induction limit generalizing b m with
  | zero => exact absurd hm (Nat.not_lt_zero _)
  | succ limit ih =>
    have hwaited := h.waited (Running.stable h2) time
    obtain ⟨hdone, hfail⟩ := status_bits time b
    by_cases hd : (rd time b REG_STATUS).2 &&& 1#32 <<< 2 ≠ 0
    · rw [wait_done time limit hd] at hr
      split_ifs at hr
      · exact absurd hr results_ne.2.2
      · exact absurd hr results_ne.2.1
    rw [wait_poll time limit hd] at hr ⊢
    cases m with
    | zero =>
      have hlost : Sane (fun _ _ _ => False) (b.waited time) := ⟨hwaited.sync, hwaited.filled, hwaited.rel,
        fun hc => hd (hdone.mpr ((hwaited.calmly hc).done hidle.1 hidle.2))⟩
      exact keeps_wait time (fun _ _ hp => hp.tick hnever) limit (hlost.tick hnever)
    | succ m => exact ih (Nat.lt_of_succ_lt_succ hm) (hwaited.tick (Running.stable h2)) hidle hr

end Driver

section Lines

variable {s : State (BusOf (Board N 64 dp H E))} {limit : ℕ} {ct : Bytes} {received : Ascii.Text}

/-- The slot of a line that opens one. -/
def opens (received : Ascii.Text) : Option ℕ :=
  match (readLine received).map tokens with
  | some (command :: rest) => if command = "OPEN".toList then parseSlot rest[0]? else none
  | _ => none

/-- A line that opens a slot finds no handshake under way, and the handshake for a slot that is open ends
within the poll limit. -/
def InTime (limit : ℕ) (ct : Bytes) (s : State (BusOf (Board N 64 dp H E))) (received : Ascii.Text) : Prop :=
  ∀ slot, opens received = some slot → KemIdle (s.device.waited time) ∧
    (s.active slot = true → ∃ m < limit, KemIdle ((polled time m
      (MlkemDecapsHw.start time s.device ct slot (makeSessionId slot (s.generation slot)))).waited time))

/-- The session list agrees with the table, and nothing under way changes an open slot. -/
def Agrees (s : State (BusOf (Board N 64 dp H E))) : Prop := Sane (View s.active s.sessionId) s.device.port

theorem handleOpen_failed {σ : Type} {D : Channel σ} {s : State σ} (t : Times)
    (hr : (D.establish s.device slot (makeSessionId slot (s.generation slot))).2 ≠ 0) :
    (handleOpen D s slot t).1 =
      { s with device := (D.establish s.device slot (makeSessionId slot (s.generation slot))).1 } := by
  rw [handleOpen]
  simp only
  rw [if_pos hr]

theorem handleOpen_ready {σ : Type} {D : Channel σ} {s : State σ} (t : Times)
    (hr : (D.establish s.device slot (makeSessionId slot (s.generation slot))).2 = 0) :
    (handleOpen D s slot t).1 =
      { s with
        device := (D.establish s.device slot (makeSessionId slot (s.generation slot))).1
        active := Function.update s.active slot true
        sessionId := Function.update s.sessionId slot (makeSessionId slot (s.generation slot))
        generation := Function.update s.generation slot (s.generation slot + 1) } := by
  rw [handleOpen]
  simp only
  rw [if_neg (not_not.mpr hr)]

theorem handleOpen_agrees (h2 : 2 ≤ N) (h : Agrees s) (t : Times) (hidle : KemIdle (s.device.waited time))
    (hends : s.active slot = true → ∃ m < limit, KemIdle ((polled time m
      (MlkemDecapsHw.start time s.device ct slot (makeSessionId slot (s.generation slot)))).waited time)) :
    Agrees (handleOpen (SecureChannelHw.channel time limit ct) s slot t).1 := by
  set D := SecureChannelHw.channel (σ := Board N 64 dp H E) time limit ct
  set id := makeSessionId slot (s.generation slot) with hid
  by_cases hslot : slot < UART_DEMO_SESSIONS
  · have hrun : Sane (Running s.active s.sessionId slot id) (MlkemDecapsHw.start time s.device ct slot id).port :=
      start_running time h2 ct hslot h hidle
    set b := MlkemDecapsHw.start time s.device ct slot id
    have hest : D.establish s.device slot id = wait time limit b := if_neg (Nat.not_le.mpr hslot)
    obtain ⟨hok, hrej⟩ := wait_reported time h2 limit hrun
    rw [Agrees]
    by_cases hr : (D.establish s.device slot id).2 = 0
    · rw [handleOpen_ready t hr]
      simp only [← hid]
      rw [hest] at hr ⊢
      exact hok hr
    · rw [handleOpen_failed t hr]
      simp only [← hid]
      rw [hest] at hr ⊢
      rcases wait_results time limit b with hres | hres | hres
      · exact absurd hres hr
      · exact hrej hres
      · cases hact : s.active slot with
        | true =>
          obtain ⟨m, hm, hend⟩ := hends hact
          exact wait_timeout time h2 hm hrun hend hres _
        | false =>
          have hstill := keeps_wait time (I := Sane (Running s.active s.sessionId slot id))
            (fun _ _ hp => hp.tick (Running.stable h2)) limit hrun
          exact hstill.imp fun _ _ _ hR => hR.view hact
  · have hest : D.establish s.device slot id = (s.device, MLKEM_HW_ARGUMENT) := if_pos (Nat.not_lt.mp hslot)
    have hne : MLKEM_HW_ARGUMENT ≠ MLKEM_HW_OK := by decide
    have hr : (D.establish s.device slot id).2 ≠ 0 := by
      rw [hest]
      exact hne
    rw [Agrees, handleOpen_failed t hr, ← hid, hest]
    exact h

theorem handleLeave_agrees (h : Agrees s) : Agrees (handleLeave s slot).1 := by
  rw [handleLeave]
  split_ifs
  · exact h
  · refine Sane.imp (p := s.device.port) h fun _ _ _ hv => ?_
    have hother : ∀ j, Function.update s.active slot false j = true → j ≠ slot ∧ s.active j = true := by
      intro j hj
      by_cases hne : j = slot
      · rw [hne, Function.update_self] at hj
        cases hj
      · rw [Function.update_of_ne hne] at hj
        exact ⟨hne, hj⟩
    refine ⟨hv.based, fun j hj hact => ?_, fun j hj hact => hv.spares j hj (hother j hact).2⟩
    change Has _ _ (Function.update s.sessionId slot 0 j)
    rw [Function.update_of_ne (hother j hact).1]
    exact hv.holds j hj (hother j hact).2

/-- The traffic of the packets does not concern the session list. -/
theorem echo_agrees (h2 : 2 ≤ N) (h : Agrees s) (counter : BitVec 64) (length : ℕ) (ciphertext tag : Bytes)
    (t : Times) : Agrees (echo (SecureChannelHw.channel time limit ct) s slot counter length ciphertext tag t).1 := by
  have htick : ∀ (p : Board N 64 dp H E) k, Sane (View s.active s.sessionId) p →
      Sane (View s.active s.sessionId) (Device.tick p k) := fun _ _ hp => hp.tick (View.stable h2)
  have hwrite : ∀ (p : Board N 64 dp H E) offset value k, Sane (View s.active s.sessionId) p →
      Sane (View s.active s.sessionId) (Device.write p offset value k) :=
    fun _ offset value _ hp => hp.write (View.stable h2) offset value
  have hopened := AeadHw.keeps_decrypt time htick hwrite limit slot counter length ciphertext tag h
  rw [echo]
  simp only [SecureChannelHw.channel]
  rcases hd : AeadHw.decrypt time limit s.device slot counter length ciphertext tag with ⟨b, e | plaintext⟩ <;>
    rw [hd] at hopened
  · cases e <;> exact hopened
  · have hsealed := AeadHw.keeps_encrypt time htick hwrite limit slot plaintext length hopened
    simp only
    rcases he : AeadHw.encrypt time limit b slot plaintext length with ⟨b', e | frame⟩ <;> rw [he] at hsealed <;>
      exact hsealed

theorem command_agrees (h2 : 2 ≤ N) (h : Agrees s) (hC : InTime time limit ct s received) (t : Times) :
    Agrees (command (SecureChannelHw.channel time limit ct) s received t).1 := by
  rw [command]
  cases hline : readLine received with
  | none => exact h
  | some line =>
    simp only
    cases htokens : tokens line with
    | nil => exact h
    | cons command rest =>
      have hopens : opens received = if command = "OPEN".toList then parseSlot rest[0]? else none := by
        rw [opens, hline, Option.map_some, htokens]
      simp only
      cases hslot : parseSlot rest[0]? with
      | none => split_ifs <;> exact h
      | some slot =>
        simp only
        split_ifs with hquit hstatus hopen hleave hdata
        · exact h
        · exact h
        · rw [if_pos hopen, hslot] at hopens
          exact handleOpen_agrees time h2 h t (hC slot hopens).1 (hC slot hopens).2
        · exact handleLeave_agrees h
        · rw [handleData]
          split_ifs
          · exact h
          · split
            · exact echo_agrees time h2 h _ _ _ _ t
            · exact h
        · exact h

end Lines

section Runs

/-- The board when its reset ends; what was in its memories is arbitrary. -/
def reset (top : CompleteTop.State 64 dp H E) : Board N 64 dp H E := ⟨CompleteTop.rst top, .empty, .empty, true⟩

/-- The bus after the two edges that release the core. -/
def powered (N : ℕ) (top : CompleteTop.State 64 dp H E) (k₁ k₂ : κ) : BusOf (Board N 64 dp H E) :=
  ⟨((reset top).tick k₁).tick k₂, 0⟩

theorem free_rst (s : ProtectedTop.State 64 dp H E) : ProtectedTop.Free (ProtectedTop.rst s) :=
  ⟨rfl, rfl, ⟨rfl, rfl, rfl, rfl, fun h => by cases h⟩, rfl⟩

theorem based_rst (s : ProtectedTop.State 64 dp H E) : ProtectedTop.Based (ProtectedTop.rst s) Ledger.empty := by
  have hnever : ¬ (ProtectedTop.rst s).front.decapStart = true := Bool.false_ne_true
  refine ⟨ProtectedTop.accounted_rst ProtectedTop.sound_nil fun e he => absurd he List.not_mem_nil, ⟨rfl, rfl⟩,
    fun h => absurd h hnever, fun h => absurd rfl h, fun h => ?_⟩
  rcases h with h | h
  · exact absurd rfl h
  · exact absurd h hnever

/-- An edge while the synchroniser holds the reset. -/
theorem tick_held {p : Board N 64 dp H E} (k : κ) (h : CompleteTop.rstSync p.top = false) :
    (p.tick k).top.core = ProtectedTop.rst (ProtectedTop.next N p.top.core (CompleteTop.coreIn p.top (pins k))) ∧
      (p.tick k).table = .empty ∧ (p.tick k).installs = p.installs := by
  simp only [Board.tick, CompletePort.tick, CompleteTop.next, CompleteTop.ledger, h, Bool.false_eq_true, if_false,
    and_true]
  rfl

theorem powered_setup (ids : ℕ → BitVec 32) (top : CompleteTop.State 64 dp H E) (k₁ k₂ : κ) :
    Sane (Setup (fun _ => false) ids fun _ _ _ => True) (powered N top k₁ k₂).port := by
  have hsync : CompleteTop.rstSync (reset (N := N) top).top = false := by simp [reset, CompleteTop.rst, CompleteTop.rstSync]
  have hsync' : CompleteTop.rstSync ((reset (N := N) top).tick k₁).top = false :=
    (CompleteTop.rstSync_shift _).1.trans (by simp [reset, CompleteTop.rst])
  have hfilled : ((reset (N := N) top).tick k₁).top.rstSyncQ.getLsbD 0 = true := (CompleteTop.rstSync_shift _).2
  obtain ⟨hcore, htable, hinstalls⟩ := tick_held k₂ hsync'
  have hnone : ((reset (N := N) top).tick k₁).installs = .empty := (tick_held k₁ hsync).2.2
  refine ⟨(CompleteTop.rstSync_shift _).1.trans hfilled, (CompleteTop.rstSync_shift _).2, ?_, fun _ => ?_⟩
  · simp only [powered, hcore, htable]
    exact rel_rst _ .empty
  · simp only [powered, hcore, hinstalls, hnone]
    refine ⟨based_rst _, free_rst _, fun _ _ hact => ?_, trivial⟩
    cases hact

theorem start_agrees (h2 : 2 ≤ N) (top : CompleteTop.State 64 dp H E) (k₁ k₂ : κ) (sk : Bytes) :
    Agrees (start time (powered N top k₁ k₂) sk) := by
  have hsetup := powered_setup (N := N) (fun _ => 0) top k₁ k₂
  have htick : ∀ (p : Board N 64 dp H E) k, Sane (Setup (fun _ => false) (fun _ => 0) fun _ _ _ => True) p →
      Sane (Setup (fun _ => false) (fun _ => 0) fun _ _ _ => True) (Device.tick p k) :=
    fun _ _ hp => hp.tick (Setup.stable h2 _)
  have hloaded := load_setup time h2 REGION_SK sk MLKEM512_SECRET_KEY_BYTES
    (AeadHw.keeps_waited time htick hsetup)
  exact hloaded.imp fun _ _ _ h => h.view

/-- Every line that is taken up meets the condition. -/
def AllInTime (limit : ℕ) (ct : Bytes) : State (BusOf (Board N 64 dp H E)) → List (Ascii.Text × Times) → Prop
  | _, [] => True
  | s, line :: lines => (s.stopped = false → InTime time limit ct s line.1) ∧
      AllInTime limit ct (run (SecureChannelHw.channel time limit ct) s [line]) lines

theorem run_agrees (h2 : 2 ≤ N) {limit : ℕ} {ct : Bytes} {s : State (BusOf (Board N 64 dp H E))}
    (lines : List (Ascii.Text × Times)) (h : Agrees s) (hC : AllInTime time limit ct s lines) :
    Agrees (run (SecureChannelHw.channel time limit ct) s lines) := by
  induction lines generalizing s with
  | nil => exact h
  | cons line lines ih =>
    refine ih (s := run (SecureChannelHw.channel time limit ct) s [line]) ?_ hC.2
    cases hstop : s.stopped with
    | true => simpa [run, hstop] using h
    | false => simpa [run, hstop] using command_agrees time h2 h (hC.1 hstop) line.2

/-- Edges without an access change no open slot. -/
theorem View.inMemory (h2 : 2 ≤ N) {p : Board N 64 dp H E} (h : Sane (View active ids) p) (hcalm : p.calm = true)
    (hslot : slot < UART_DEMO_SESSIONS) (hact : active slot = true) (ks : List κ) :
    SessionManager.InMemory (ks.foldl Device.tick p).top.core.channel.sessions (slotOf 64 slot) (ids slot) := by
  have hview := h.calmly hcalm
  have hsteps : let q := ks.foldl Device.tick p
      Sane (fun _ _ _ => True) q ∧ DecapsFrontend.Unheld q.top.core.front ∧
        ProtectedTop.Spares q.top.core (slotOf 64 slot) ∧ Has q.table (slotOf 64 slot) (ids slot) := by
    refine List.foldlRecOn (motive := fun q : Board N 64 dp H E => Sane (fun _ _ _ => True) q ∧
      DecapsFrontend.Unheld q.top.core.front ∧ ProtectedTop.Spares q.top.core (slotOf 64 slot) ∧
      Has q.table (slotOf 64 slot) (ids slot)) _ _ ?_ fun q hq k _ => ?_
    · exact ⟨h.imp fun _ _ _ _ => trivial, hview.based.unheld, hview.spares slot hslot hact, hview.holds slot hslot hact⟩
    · obtain ⟨hsane, hunheld, hspares, hhas⟩ := hq
      have hrest : DecapsFrontend.Rests (CompleteTop.coreIn q.top (pins k)).axi := ⟨rfl, rfl⟩
      refine ⟨hsane.tick fun _ _ _ _ _ _ _ => trivial, ?_⟩
      change DecapsFrontend.Unheld (q.tick k).top.core.front ∧ ProtectedTop.Spares (q.tick k).top.core _ ∧
        Has (q.tick k).table _ _
      rw [core_tick hsane.sync, table_tick hsane.sync]
      exact ⟨(DecapsFrontend.next_unheld hunheld hrest _ _).1, hspares.next h2 hunheld hrest, hspares.has hhas⟩
  obtain ⟨hsane, -, hspares, hhas⟩ := hsteps
  exact hspares.inMemory hsane.rel hhas

/-- In every run whose lines meet the condition, each open slot has in hardware, now and as long as no line
follows, the session the firmware has for it. -/
theorem views_agree (h2 : 2 ≤ N) (limit : ℕ) (ct sk : Bytes) (top : CompleteTop.State 64 dp H E) (k₁ k₂ : κ)
    (lines : List (Ascii.Text × Times)) :
    let s₀ := start time (powered N top k₁ k₂) sk
    let s := run (SecureChannelHw.channel time limit ct) s₀ lines
    AllInTime time limit ct s₀ lines → s.device.port.calm = true →
      ∀ slot < UART_DEMO_SESSIONS, s.active slot = true → ∀ ks : List κ,
        SessionManager.InMemory (ks.foldl Device.tick s.device.port).top.core.channel.sessions (slotOf 64 slot)
          (s.sessionId slot) := by
  intro s₀ s hC hcalm slot hslot hact ks
  exact View.inMemory h2 (run_agrees time h2 lines (start_agrees time h2 top k₁ k₂ sk) hC) hcalm hslot hact ks

end Runs

section Sample

open CompleteTop (rstSync)
open ProtectedTop (sampleDatapath sampleHash)

abbrev SampleBoard (N : ℕ) : Type := Board N 64 sampleDatapath sampleHash.toHashUnit sampleEngine


open DecapsFrontend (Rests)

/-- The front-end between two accesses, with `id` in its session register. -/
def settleFront {w : ℕ} (id : BitVec 32) (f : DecapsFrontend.State w) : DecapsFrontend.State w :=
  { f with
    awHold := false, wHold := false, readMemPending := false, rvalid := false, decapStart := false
    decapSessionId := id }

def settleCore (id : BitVec 32) (s : ProtectedTop.SampleState) : ProtectedTop.SampleState :=
  { s with
    state := .idle, prevState := .idle, stageTimer := 0, outstanding := false, hash := none
    front := settleFront id s.front
    dec := { s.dec with state := .idle, enc := .idle }
    channel := { s.channel with
      pending := false, accepted := false, installDone := false
      sessions := { s.channel.sessions with
        state := .idle, cfgDone := false, engineStart := false, rspValid := false
        engine := ⟨none, false, StartDone.BoxState.result (α := EngineIn) s.channel.sessions.engine⟩ } } }

/-- The board with all its units idle: what a port access may find is as it is. -/
def settle {N : ℕ} (id : BitVec 32) (p : SampleBoard N) : SampleBoard N :=
  { p with
    calm := true
    top := ⟨3#2, settleCore id p.top.core, TrafficFrontend.reset CompleteTop.sampleTop.traffic⟩ }

theorem settleFront_next {w : ℕ} (id : BitVec 32) (f : DecapsFrontend.State w) {offset : BitVec 8} (value : BitVec 32)
    (hctl : offset ≠ DecapsFrontend.REG_CONTROL) (hid : offset ≠ DecapsFrontend.REG_SESSION) (fail : Bool)
    (m : DecapsMemory.State) :
    let f' := DecapsFrontend.next (DecapsFrontend.held (settleFront id f) offset value) CompletePort.restKem
      ⟨false, false, fail⟩ m
    settleFront id f' = f' := by
  intro f'
  obtain ⟨⟨haw, hw⟩, hstart, -, hsame, -⟩ := @DecapsFrontend.next_held _ CompletePort.restKem
    ⟨false, false, fail⟩ (settleFront id f) offset value ⟨rfl, rfl⟩ m ⟨rfl, rfl⟩
  have hreads : f'.readMemPending = false ∧ f'.rvalid = false := by
    unfold f' DecapsFrontend.next DecapsFrontend.nextRead DecapsFrontend.nextWrite DecapsFrontend.commit
    simp [DecapsFrontend.held, settleFront, CompletePort.restKem, apply_ite DecapsFrontend.State.readMemPending,
      apply_ite DecapsFrontend.State.rvalid]
  rw [beq_false_of_ne hctl, Bool.false_and] at hstart
  rw [if_neg hid] at hsame
  have hsame : f'.decapSessionId = id := hsame
  change f'.awHold = false at haw
  change f'.wHold = false at hw
  change f'.decapStart = false at hstart
  generalize f' = g at *
  cases g
  simp_all [settleFront]

theorem settleCore_next (id : BitVec 32) (s : ProtectedTop.SampleState) (d : Request 64) {offset : BitVec 8}
    (value : BitVec 32) (hctl : offset ≠ DecapsFrontend.REG_CONTROL) (hid : offset ≠ DecapsFrontend.REG_SESSION) :
    let s' := ProtectedTop.next 300000 (ProtectedTop.hold (settleCore id s) offset value)
      ⟨CompletePort.restKem, .none, false, d, false, true⟩
    settleCore id s' = s' := by
  intro s'
  have hfront : settleFront id s'.front = s'.front :=
    settleFront_next id s.front value hctl hid (ProtectedTop.finalFail (settleCore id s)) s.mem
  apply ProtectedTop.State.ext <;> first | exact hfront | rfl

theorem calm_settled (id : BitVec 32) (s : ProtectedTop.SampleState) (i : ProtectedTop.In 64 Bool) (offset : BitVec 8)
    (value : BitVec 32) : ProtectedTop.Calm 300000 (ProtectedTop.hold (settleCore id s) offset value) i := by
  refine ⟨fun h => ?_, fun h => ?_⟩
  · rcases h with h | h <;> cases h
  · cases h.1

/-- What `settleCore` sets is as it is set. -/
def AtRest (id : BitVec 32) (s : ProtectedTop.SampleState) : Prop :=
  (s.state = .idle ∧ s.prevState = .idle ∧ s.stageTimer = 0 ∧ s.outstanding = false ∧
      Option.isNone (α := HashJob) s.hash = true ∧ s.dec.state = .idle ∧ s.dec.enc = .idle) ∧
    (s.front.awHold = false ∧ s.front.wHold = false ∧ s.front.readMemPending = false ∧ s.front.rvalid = false ∧
      s.front.decapStart = false ∧ s.front.decapSessionId = id) ∧
    (s.channel.pending = false ∧ s.channel.accepted = false ∧ s.channel.installDone = false) ∧
    s.channel.sessions.state = .idle ∧ s.channel.sessions.cfgDone = false ∧
      s.channel.sessions.engineStart = false ∧ s.channel.sessions.rspValid = false ∧
      (StartDone.BoxState.job (β := EngineOut) s.channel.sessions.engine).isNone = true ∧
      StartDone.BoxState.done (α := EngineIn) (β := EngineOut) s.channel.sessions.engine = false

instance (id : BitVec 32) (s : ProtectedTop.SampleState) : Decidable (AtRest id s) := by
  unfold AtRest
  infer_instance

theorem settleCore_eq {id : BitVec 32} {s : ProtectedTop.SampleState} (h : AtRest id s) : settleCore id s = s := by
  obtain ⟨⟨hst, hprev, htimer, hout, hhash, hdec, henc⟩, ⟨haw, hw, hmem, hr, hstart, hid⟩, ⟨hp, ha, hi⟩, hs, hcfg, heng, hrsp,
    hjob, hdone⟩ := h
  have hfront : settleFront id s.front = s.front := by
    rcases hf : s.front with ⟨⟩
    simp_all [settleFront]
  have hdecs : (settleCore id s).dec = s.dec := by
    rcases hd : s.dec with ⟨⟩
    simp_all [settleCore]
  have hidle : (none : Option HashJob) = s.hash := (Option.isNone_iff_eq_none.mp hhash).symm
  have hengine : (⟨none, false, StartDone.BoxState.result (α := EngineIn) s.channel.sessions.engine⟩ :
      StartDone.BoxState EngineIn EngineOut) = s.channel.sessions.engine := by
    rw [← Option.isNone_iff_eq_none.mp hjob, ← hdone]
    rfl
  have hchannel : (settleCore id s).channel = s.channel := by
    have hsessions : { s.channel.sessions with
        state := .idle, cfgDone := false, engineStart := false, rspValid := false } = s.channel.sessions := by
      rcases hq : s.channel.sessions with ⟨⟩
      simp_all
    simp only [settleCore, hengine, hsessions]
    rcases hc : s.channel with ⟨⟩
    simp_all
  apply ProtectedTop.State.ext
  case state => exact hst.symm
  case prevState => exact hprev.symm
  case stageTimer => exact htimer.symm
  case outstanding => exact hout.symm
  case hash => exact hidle
  case front => exact hfront
  case dec => exact hdecs
  case channel => exact hchannel
  all_goals rfl

/-- The synchroniser has filled, and the traffic port is as its reset left it. -/
structure Linked {N : ℕ} (p : SampleBoard N) : Prop where
  sync : p.top.rstSyncQ = 3#2
  traffic : p.top.traffic = TrafficFrontend.reset CompleteTop.sampleTop.traffic

theorem Linked.rstSync {N : ℕ} {p : SampleBoard N} (h : Linked p) : rstSync p.top = true := by
  have h3 : (3#2).getLsbD 1 = true := by decide
  rw [CompleteTop.rstSync, h.sync]
  exact h3

theorem Linked.tick {N : ℕ} {p : SampleBoard N} (h : Linked p) (k : Bool) : Linked (p.tick k) := by
  have h3 : BitVec.ofBool ((3#2).getLsbD 0) ++ 1#1 = 3#2 := by decide
  constructor
  · change BitVec.ofBool (p.top.rstSyncQ.getLsbD 0) ++ 1#1 = 3#2
    rw [h.sync]
    exact h3
  · change (CompleteTop.next N p.top (pins k)).traffic = _
    simp only [CompleteTop.next, h.rstSync, if_true]
    change TrafficFrontend.next p.top.traffic TrafficPort.rest _ = _
    rw [h.traffic]
    rfl

theorem Linked.kemWrite {N : ℕ} {p : SampleBoard N} (h : Linked p) (offset : BitVec 8) (value : BitVec 32) (k : Bool) :
    Linked (KemDevice.kemWrite p offset value k) :=
  Linked.tick (p := p.holdKem offset value) ⟨h.sync, h.traffic⟩ k

/-- The board with all its units idle, and `id` in its session register. -/
structure Settled {N : ℕ} (id : BitVec 32) (p : SampleBoard N) : Prop where
  linked : Linked p
  core : settleCore id p.top.core = p.top.core
  calm : p.calm = true

theorem Settled.eq {N : ℕ} {id : BitVec 32} {p : SampleBoard N} (h : Settled id p) : settle id p = p := by
  obtain ⟨⟨hs, ht⟩, hcore, hc⟩ := h
  obtain ⟨⟨q, core, t⟩, table, installs, calm⟩ := p
  subst hs ht hc
  simp only at hcore
  simp only [settle, hcore]

theorem Settled.idle {N : ℕ} {id : BitVec 32} {p : SampleBoard N} (h : Settled id p) : KemIdle p := by
  rw [KemIdle, ← h.core]
  exact ⟨rfl, rfl⟩

theorem Settled.kemWrite {id : BitVec 32} {p : SampleBoard 300000} (h : Settled id p) {offset : BitVec 8}
    (value : BitVec 32) (hctl : offset ≠ DecapsFrontend.REG_CONTROL) (hid : offset ≠ DecapsFrontend.REG_SESSION) :
    Settled id (KemDevice.kemWrite p offset value true) := by
  have hr : rstSync (p.holdKem offset value).top = true := h.linked.rstSync
  have hpins : CompleteTop.coreIn (p.holdKem offset value).top (pins true) =
      ⟨CompletePort.restKem, .none, false, p.top.traffic.reqQ, false, true⟩ := by
    change (⟨CompletePort.restKem, .none, p.top.traffic.pending, p.top.traffic.reqQ, p.top.traffic.inflight, true⟩ :
      ProtectedTop.In 64 Bool) = _
    rw [h.linked.traffic]
    rfl
  have hsettled := settleCore_next id p.top.core p.top.traffic.reqQ value hctl hid
  have hcalm := calm_settled id p.top.core (CompleteTop.coreIn (p.holdKem offset value).top (pins true)) offset value
  rw [h.core] at hsettled hcalm
  refine ⟨h.linked.kemWrite offset value true, ?_, ?_⟩
  · change settleCore id ((p.holdKem offset value).tick true).top.core = ((p.holdKem offset value).tick true).top.core
    rw [core_tick hr, hpins]
    exact hsettled
  · change (p.calm && (!CompleteTop.rstSync (p.holdKem offset value).top || decide (ProtectedTop.Calm 300000 _ _))) = true
    rw [h.calm, hr]
    exact decide_eq_true hcalm

/-- The edges before the first poll are enough for a handshake; no other access is waited for. -/
def sampleTime (i : ℕ) : Access Bool := ⟨if i = 608 then List.replicate 120 true else [], true⟩

theorem waited_sample {b : BusOf (SampleBoard 300000)} (h : b.accesses ≠ 608) : b.waited sampleTime = b.port := by
  simp only [BusOf.waited, sampleTime, if_neg h, List.foldl_nil]

theorem settled_wr {id : BitVec 32} {b : BusOf (SampleBoard 300000)} (h : Settled id b.port) (hfar : b.accesses ≠ 608)
    (offset : BitVec 8) (value : BitVec 32) (hctl : offset ≠ DecapsFrontend.REG_CONTROL)
    (hid : offset ≠ DecapsFrontend.REG_SESSION) : Settled id (wr sampleTime b offset value).port := by
  simp only [wr, waited_sample hfar]
  exact h.kemWrite value hctl hid

theorem settled_words {id : BitVec 32} {b : BusOf (SampleBoard 300000)} (h : Settled id b.port) (f : ℕ → BitVec 32) (k : ℕ)
    (hfar : ∀ j < k, b.accesses + j ≠ 608) :
    let b' := (List.range k).foldl (fun b i => wr sampleTime b REG_MEM_DATA (f i)) b
    Settled id b'.port ∧ b'.accesses = b.accesses + k := by
  induction k with
  | zero => exact ⟨h, rfl⟩
  | succ k ih =>
    obtain ⟨hs, ha⟩ := ih fun j hj => hfar j (by omega)
    simp only [List.range_succ, List.foldl_append, List.foldl_cons, List.foldl_nil]
    exact ⟨settled_wr hs (by rw [ha]; exact hfar k (by omega)) _ _ (by decide) (by decide), congrArg (· + 1) ha⟩

theorem settled_load {id : BitVec 32} {b : BusOf (SampleBoard 300000)} (h : Settled id b.port) (region : BitVec 32) (bytes : Bytes) (m : ℕ)
    (hfar : ∀ j < 2 + m / 4, b.accesses + j ≠ 608) :
    Settled id (load sampleTime b region bytes m).port ∧
      (load sampleTime b region bytes m).accesses = b.accesses + (2 + m / 4) := by
  have hregion := settled_wr h (hfar 0 (by omega)) REG_MEM_REGION region (by decide) (by decide)
  have haddr := settled_wr hregion (hfar 1 (by omega)) REG_MEM_ADDR 0 (by decide) (by decide)
  obtain ⟨hs, ha⟩ := settled_words haddr (fun i => AeadHw.load32Le (bytes.drop (4 * i))) (m / 4) fun j hj => by
    have hj' := hfar (2 + j) (by omega)
    rwa [← Nat.add_assoc] at hj'
  exact ⟨hs, ha.trans (Nat.add_assoc _ 2 _)⟩

/-- The board with the ciphertext of zeros loaded. -/
def loaded (b : BusOf (SampleBoard 300000)) : SampleBoard 300000 :=
  (load sampleTime b REGION_CT [] MLKEM512_CIPHERTEXT_BYTES).port

/-- The board after the writes of an OPEN of slot 0. -/
def opened (p : SampleBoard 300000) (id : BitVec 32) : SampleBoard 300000 :=
  KemDevice.kemWrite (KemDevice.kemWrite (KemDevice.kemWrite (KemDevice.kemWrite p REG_SLOT 0 true) REG_SESSION id true)
    REG_CONTROL (1#32 <<< 8) true) REG_CONTROL 1 true

theorem start_sample {old : BitVec 32} {b : BusOf (SampleBoard 300000)} (h : Settled old b.port) (id : BitVec 32)
    (hfar : ∀ j < 198, b.accesses + j ≠ 608) :
    Settled old (loaded b) ∧ MlkemDecapsHw.start sampleTime b [] 0 id = ⟨opened (loaded b) id, b.accesses + 198⟩ := by
  obtain ⟨hs, ha⟩ := settled_load h REGION_CT [] MLKEM512_CIPHERTEXT_BYTES fun j hj => hfar j (by
    simp [MLKEM512_CIPHERTEXT_BYTES] at hj
    omega)
  have hcount : 2 + MLKEM512_CIPHERTEXT_BYTES / 4 = 194 := by decide
  rw [hcount] at ha
  refine ⟨hs, ?_⟩
  simp only [MlkemDecapsHw.start, loaded]
  generalize load sampleTime b REGION_CT [] MLKEM512_CIPHERTEXT_BYTES = l at *
  obtain ⟨p, a⟩ := l
  simp only at ha
  subst ha
  simp only [wr, BusOf.waited, sampleTime, Nat.add_assoc, Nat.reduceAdd,
    hfar _ (show 194 < 198 by omega), hfar _ (show 195 < 198 by omega), hfar _ (show 196 < 198 by omega), hfar _ (show 197 < 198 by omega), if_false,
    List.foldl_nil]
  rfl

/-- The firmware before its first line. -/
def sampleBegin : State (BusOf (SampleBoard 300000)) := start sampleTime (powered 300000 CompleteTop.sampleTop true true) []

/-- One poll, and a ciphertext of zeros. -/
def sampleChannel : Channel (BusOf (SampleBoard 300000)) := SecureChannelHw.channel sampleTime 1 []

def sampleOpen : Ascii.Text × Times := ("OPEN 0".toList, ⟨0, 0, 0⟩)

theorem settleCore_rst (s : ProtectedTop.SampleState) : settleCore 0 (ProtectedTop.rst s) = ProtectedTop.rst s := rfl

theorem reset_reset (t : TrafficFrontend.State 64) :
    TrafficFrontend.reset (TrafficFrontend.reset t) = TrafficFrontend.reset t := rfl

theorem settled_begin : Settled 0 sampleBegin.device.port ∧ sampleBegin.device.accesses = 410 := by
  have hzero : (0#2).getLsbD 1 = false ∧ (BitVec.ofBool ((0#2).getLsbD 0) ++ 1#1).getLsbD 1 = false ∧
      BitVec.ofBool ((BitVec.ofBool ((0#2).getLsbD 0) ++ 1#1).getLsbD 0) ++ 1#1 = 3#2 := by decide
  set p : SampleBoard 300000 := (reset CompleteTop.sampleTop).tick true with hp
  have hsync : rstSync p.top = false := hzero.2.1
  have hcore := (tick_held true hsync).1
  have hcalm : ∀ q : SampleBoard 300000, rstSync q.top = false → (q.tick true).calm = q.calm := by
    intro q hq
    simp [Board.tick, hq]
  have hport : (powered 300000 CompleteTop.sampleTop true true).port = p.tick true := rfl
  have hpowered : Settled 0 (p.tick true) := by
    refine ⟨⟨hzero.2.2, ?_⟩, ?_, ?_⟩
    · change (CompleteTop.next 300000 p.top (pins true)).traffic = _
      simp only [CompleteTop.next, hsync, Bool.false_eq_true, if_false]
      have hfirst : p.top.traffic = TrafficFrontend.reset CompleteTop.sampleTop.traffic := by
        change (CompleteTop.next 300000 (CompleteTop.rst CompleteTop.sampleTop) (pins true)).traffic = _
        have hheld : rstSync (CompleteTop.rst CompleteTop.sampleTop) = false := hzero.1
        simp only [CompleteTop.next, hheld, Bool.false_eq_true, if_false]
        rfl
      rw [hfirst]
      exact reset_reset _
    · rw [hcore]
      exact settleCore_rst _
    · exact (hcalm p hsync).trans (hcalm (reset CompleteTop.sampleTop) hzero.1)
  rw [← hport] at hpowered
  exact settled_load hpowered REGION_SK [] MLKEM512_SECRET_KEY_BYTES fun j hj => by
    simp [MLKEM512_SECRET_KEY_BYTES] at hj
    simp [powered]
    omega

/-- The board behind a poll that comes 120 edges later. -/
def answered (p : SampleBoard 300000) : SampleBoard 300000 := ((List.replicate 120 true).foldl Board.tick p).tick true

theorem first_answer :
    let q := (List.replicate 120 true).foldl Board.tick (opened (settle 0 (loaded sampleBegin.device)) (makeSessionId 0 0))
    q.top.core.front.doneLatched = true ∧ q.top.core.front.failLatched = false ∧ (q.tick true).calm = true ∧
      AtRest (makeSessionId 0 0) (q.tick true).top.core := by decide +kernel

/-- The state behind the first OPEN. -/
def sampleOpened : State (BusOf (SampleBoard 300000)) where
  device := ⟨answered (opened (loaded sampleBegin.device) (makeSessionId 0 0)), 609⟩
  active := Function.update sampleBegin.active 0 true
  generation := Function.update sampleBegin.generation 0 (sampleBegin.generation 0 + 1)
  sessionId := Function.update sampleBegin.sessionId 0 (makeSessionId 0 0)
  stopped := false

theorem command_open (s : State (BusOf (SampleBoard 300000))) :
    (command sampleChannel s sampleOpen.1 sampleOpen.2).1 = (handleOpen sampleChannel s 0 sampleOpen.2).1 := by
  have hline : readLine sampleOpen.1 = some sampleOpen.1 := by decide
  have htokens : tokens sampleOpen.1 = ["OPEN".toList, "0".toList] := by decide
  have hslot : parseSlot (["0".toList] : List Ascii.Text)[0]? = some 0 := by decide
  simp only [command, hline, htokens, hslot]
  rfl

theorem establish_sample {old : BitVec 32} {b : BusOf (SampleBoard 300000)} (h : Settled old b.port) (id : BitVec 32)
    (hfar : ∀ j < 198, b.accesses + j ≠ 608) :
    Settled old (loaded b) ∧ sampleChannel.establish b 0 id = wait sampleTime 1 ⟨opened (loaded b) id, b.accesses + 198⟩ := by
  obtain ⟨hs, hstart⟩ := start_sample h id hfar
  have hslot : ¬ MLKEM_HW_MAX_SESSIONS ≤ 0 := by decide
  refine ⟨hs, ?_⟩
  rw [← hstart]
  simp only [sampleChannel, SecureChannelHw.channel, SecureChannelHw.establishSession, if_neg hslot]

theorem waited_first (p : SampleBoard 300000) :
    (⟨p, 608⟩ : BusOf (SampleBoard 300000)).waited sampleTime = (List.replicate 120 true).foldl Board.tick p := by
  rw [BusOf.waited, sampleTime, if_pos rfl]
  rfl

theorem wait_first {p : SampleBoard 300000}
    (hdone : ((List.replicate 120 true).foldl Board.tick p).top.core.front.doneLatched = true)
    (hfail : ((List.replicate 120 true).foldl Board.tick p).top.core.front.failLatched = false) :
    wait sampleTime 1 ⟨p, 608⟩ = (⟨answered p, 609⟩, MLKEM_HW_OK) := by
  obtain ⟨hbit, hbit'⟩ := status_bits sampleTime (⟨p, 608⟩ : BusOf (SampleBoard 300000))
  have hwaited := waited_first p
  have hno : ¬ (BusOf.waited sampleTime ⟨p, 608⟩).top.core.front.failLatched = true := by
    rw [hwaited, hfail]
    exact Bool.false_ne_true
  rw [wait_done sampleTime 0 (hbit.mpr (hwaited ▸ hdone)), if_neg (mt hbit'.mp hno), rd, hwaited]
  rfl

theorem run_cons {σ : Type} (D : Channel σ) (s : State σ) (line : Ascii.Text × Times) (lines : List (Ascii.Text × Times)) :
    run D s (line :: lines) = run D (run D s [line]) lines := rfl

theorem run_open {s : State (BusOf (SampleBoard 300000))} (h : s.stopped = false) :
    run sampleChannel s [sampleOpen] = (handleOpen sampleChannel s 0 sampleOpen.2).1 := by
  rw [← command_open]
  simp [run, h]

theorem first_open : run sampleChannel sampleBegin [sampleOpen] = sampleOpened := by
  obtain ⟨hbegin, hcount⟩ := settled_begin
  obtain ⟨hloaded, hest⟩ := establish_sample hbegin (makeSessionId 0 0) fun j hj => by omega
  obtain ⟨hdone, hfail, -⟩ := first_answer
  rw [hloaded.eq] at hdone hfail
  have hgen : sampleBegin.generation 0 = 0 := rfl
  have h608 : 410 + 198 = 608 := rfl
  rw [hcount, h608, wait_first hdone hfail] at hest
  have hready := @handleOpen_ready 0 _ sampleChannel sampleBegin sampleOpen.2
    (by rw [hgen, hest]; rfl)
  rw [hgen, hest] at hready
  rw [run_open rfl, hready]
  rfl

theorem settled_opened : Settled (makeSessionId 0 0) sampleOpened.device.port ∧ sampleOpened.device.accesses = 609 := by
  obtain ⟨hbegin, hcount⟩ := settled_begin
  obtain ⟨hloaded, -⟩ := establish_sample hbegin (makeSessionId 0 0) fun j hj => by omega
  obtain ⟨-, -, hcalm, hrest⟩ := first_answer
  rw [hloaded.eq] at hcalm hrest
  have hlinked : Linked (opened (loaded sampleBegin.device) (makeSessionId 0 0)) :=
    (((hloaded.linked.kemWrite _ _ _).kemWrite _ _ _).kemWrite _ _ _).kemWrite _ _ _
  have hticks : Linked ((List.replicate 120 true).foldl Board.tick (opened (loaded sampleBegin.device) (makeSessionId 0 0))) :=
    List.foldlRecOn _ _ hlinked fun _ h k _ => h.tick k
  exact ⟨⟨hticks.tick true, settleCore_eq hrest, hcalm⟩, rfl⟩

theorem sample_inTime : AllInTime sampleTime 1 [] sampleBegin [sampleOpen] := by
  obtain ⟨hbegin, hcount⟩ := settled_begin
  refine ⟨fun _ slot _ => ⟨?_, fun hact => ?_⟩, trivial⟩
  · rw [waited_sample (by rw [hcount]; decide)]
    exact hbegin.idle
  · have hno : sampleBegin.active slot = false := rfl
    rw [hno] at hact
    cases hact

/-- The sample run with one OPEN. -/
theorem views_agree_open :
    let s := run sampleChannel sampleBegin [sampleOpen]
    s.active 0 = true ∧ ∀ ks : List Bool,
      SessionManager.InMemory (ks.foldl Device.tick s.device.port).top.core.channel.sessions (slotOf 64 0)
        (s.sessionId 0) := by
  have hact : (run sampleChannel sampleBegin [sampleOpen]).active 0 = true := by
    rw [first_open]
    rfl
  have hcalm : (run sampleChannel sampleBegin [sampleOpen]).device.port.calm = true := by
    rw [first_open]
    exact settled_opened.1.calm
  have hagree := views_agree (N := 300000) sampleTime (by decide) 1 [] [] CompleteTop.sampleTop true true [sampleOpen]
  have hbegin : start sampleTime (powered 300000 CompleteTop.sampleTop true true) [] = sampleBegin := rfl
  have hchannel : SecureChannelHw.channel (σ := SampleBoard 300000) sampleTime 1 [] = sampleChannel := rfl
  simp only [hbegin, hchannel] at hagree
  dsimp only [SampleBoard] at hact hcalm ⊢
  exact ⟨hact, hagree sample_inTime hcalm 0 (by decide) hact⟩

theorem second_answer :
    let q := opened (settle (makeSessionId 0 0) (loaded sampleOpened.device)) (makeSessionId 0 1)
    q.top.core.front.doneLatched = false ∧
      ((List.replicate 120 true).foldl Board.tick (q.tick true)).top.core.channel.sessions.sessionMem
        (wordAddr (slotOf 64 0) 0) = makeSessionId 0 1 := by decide +kernel

theorem wait_second {p : SampleBoard 300000} {m : ℕ} (hm : m ≠ 608) (hdone : p.top.core.front.doneLatched = false) :
    wait sampleTime 1 ⟨p, m⟩ = (⟨p.tick true, m + 1⟩, MLKEM_HW_TIMEOUT) := by
  obtain ⟨hbit, -⟩ := status_bits sampleTime (⟨p, m⟩ : BusOf (SampleBoard 300000))
  have hwaited : BusOf.waited sampleTime (⟨p, m⟩ : BusOf (SampleBoard 300000)) = p := waited_sample hm
  have hno : ¬ (BusOf.waited sampleTime (⟨p, m⟩ : BusOf (SampleBoard 300000))).top.core.front.doneLatched = true := by
    rw [hwaited, hdone]
    exact Bool.false_ne_true
  rw [wait_poll sampleTime 0 (mt hbit.mp hno), rd, hwaited]
  rfl

/-- The second OPEN runs into the poll limit. -/
theorem second_open : run sampleChannel sampleOpened [sampleOpen] =
    { sampleOpened with
      device := ⟨(opened (loaded sampleOpened.device) (makeSessionId 0 1)).tick true, 808⟩ } := by
  obtain ⟨hopened, hcount⟩ := settled_opened
  obtain ⟨hloaded, hest⟩ := establish_sample hopened (makeSessionId 0 1) fun j hj => by omega
  have hdone := second_answer.1
  rw [hloaded.eq] at hdone
  have hgen : sampleOpened.generation 0 = 1 := rfl
  have h807 : 609 + 198 = 807 := rfl
  rw [hcount, h807, wait_second (by decide) hdone] at hest
  have hfailed := @handleOpen_failed 0 _ sampleChannel sampleOpened sampleOpen.2
    (by rw [hgen, hest]; decide)
  rw [hgen, hest] at hfailed
  rw [run_open rfl, hfailed]

/-- A second OPEN of slot 0 runs into the poll limit; its handshake then gives the slot a session the firmware
does not know. -/
theorem views_disagree :
    let s := run sampleChannel sampleBegin [sampleOpen, sampleOpen]
    ¬ ∀ slot < UART_DEMO_SESSIONS, s.active slot = true → ∀ ks : List Bool,
      SessionManager.InMemory (ks.foldl Device.tick s.device.port).top.core.channel.sessions (slotOf 64 slot)
        (s.sessionId slot) := by
  intro s h
  have hs : s = { sampleOpened with
      device := ⟨(opened (loaded sampleOpened.device) (makeSessionId 0 1)).tick true, 808⟩ } := by
    rw [← second_open, ← first_open]
    exact run_cons sampleChannel sampleBegin sampleOpen [sampleOpen]
  obtain ⟨hopened, hcount⟩ := settled_opened
  obtain ⟨hloaded, -⟩ := establish_sample hopened (makeSessionId 0 1) fun j hj => by omega
  have hlate := second_answer.2
  rw [hloaded.eq] at hlate
  have hact : s.active 0 = true := by
    rw [hs]
    exact Function.update_self (β := fun _ => Bool) 0 true sampleBegin.active
  have hmem := (h 0 (by decide) hact (List.replicate 120 true)).2
  have htick : (Device.tick : SampleBoard 300000 → Bool → SampleBoard 300000) = Board.tick := rfl
  have hport : s.device.port = (opened (loaded sampleOpened.device) (makeSessionId 0 1)).tick true := by rw [hs]
  have hid : s.sessionId 0 = makeSessionId 0 0 := by
    rw [hs]
    exact Function.update_self (β := fun _ => BitVec 32) 0 _ sampleBegin.sessionId
  rw [hport, hid, htick] at hmem
  dsimp only [SampleBoard] at hmem hlate
  have hne : makeSessionId 0 1 ≠ makeSessionId 0 0 := by decide
  exact hne (hlate.symm.trans hmem)

end Sample

end UartDemo

end ZedSecure
