import ZedSecure.Firmware.MlkemDecapsHw
import ZedSecure.Proofs.Exchanges
import ZedSecure.Proofs.OneChannel
import ZedSecure.Proofs.SessionTargets

/-! The session list of the firmware beside the session table of the hardware. The firmware moves its
list on the return of `mlkem_decaps_hw_wait`, the hardware when the table takes up an install; a run in
which no OPEN finds a handshake under way, and none of an open slot runs into the poll limit, keeps the
two together. -/

namespace ZedSecure

open Clocked SessionTable LittleEndian

namespace AeadHw

section Keeps

variable {σ κ : Type} [Device σ κ] (time : ℕ → Access κ) {I : σ → Prop} {b : BusOf σ}
  (htick : ∀ p k, I p → I (Device.tick p k)) (hwrite : ∀ p offset value k, I p → I (Device.write p offset value k))

include htick

theorem keeps_waited (h : I b.port) : I (b.waited time) :=
  List.foldlRecOn _ _ h fun p hp k _ => htick p k hp

theorem keeps_mmioRead (h : I b.port) (offset : BitVec 9) : I (mmioRead time b offset).1.port :=
  htick _ _ (keeps_waited time htick h)

theorem keeps_waitStatus (setMask clearMask : BitVec 32) (limit : ℕ) (h : I b.port) :
    I (waitStatus time setMask clearMask limit b).1.port := by
  induction limit generalizing b with
  | zero => exact h
  | succ limit ih =>
    have hread := keeps_mmioRead time htick h REG_STATUS
    simp only [waitStatus]
    split_ifs
    · exact hread
    · exact ih hread

theorem keeps_waitDone (limit : ℕ) (h : I b.port) : I (waitDone time limit b).1.port := by
  have hwait := keeps_waitStatus time htick STATUS_DONE 0 limit h
  rw [waitDone]
  rcases hw : waitStatus time STATUS_DONE 0 limit b with ⟨b', _ | status⟩ <;> rw [hw] at hwait
  · exact hwait
  · simp only
    split_ifs <;> exact hwait

theorem keeps_readWords (base : BitVec 9) (count : ℕ) (h : I b.port) : I (readWords time base count b).1.port :=
  List.foldlRecOn (motive := fun acc : BusOf σ × Bytes => I acc.1.port) _ _ h
    fun _ hacc m _ => keeps_mmioRead time htick hacc (TrafficFrontend.wordReg base m)

omit htick

include htick hwrite

theorem keeps_mmioWrite (h : I b.port) (offset : BitVec 9) (value : BitVec 32) :
    I (mmioWrite time b offset value).port := hwrite _ _ _ _ (keeps_waited time htick h)

theorem keeps_writePacket (message : Bytes) (messageLength : ℕ) (h : I b.port) :
    I (writePacket time b message messageLength).port :=
  List.foldlRecOn (motive := fun b : BusOf σ => I b.port) _ _ h
    fun _ hb m _ => keeps_mmioWrite time htick hwrite hb (TrafficFrontend.wordReg REG_INPUT_DATA_BASE m) _

theorem keeps_writeTag (tag : Bytes) (h : I b.port) : I (writeTag time b tag).port :=
  List.foldlRecOn (motive := fun b : BusOf σ => I b.port) _ _ h
    fun _ hb m _ => keeps_mmioWrite time htick hwrite hb (TrafficFrontend.wordReg REG_INPUT_TAG_BASE m) _

theorem keeps_writeHead (slot messageLength : ℕ) (h : I b.port) : I (writeHead time b slot messageLength).port :=
  keeps_mmioWrite time htick hwrite (keeps_mmioWrite time htick hwrite (keeps_mmioWrite time htick hwrite h _ _) _ _) _ _

theorem keeps_encrypt (limit slot : ℕ) (message : Bytes) (messageLength : ℕ) (h : I b.port) :
    I (encrypt time limit b slot message messageLength).1.port := by
  have hidle := keeps_waitStatus time htick 0 (STATUS_BUSY ||| STATUS_REQ_PENDING ||| STATUS_CFG_PENDING) limit h
  rw [encrypt, waitRequestIdle]
  split_ifs
  · exact h
  rcases hw : waitStatus time 0 (STATUS_BUSY ||| STATUS_REQ_PENDING ||| STATUS_CFG_PENDING) limit b with
    ⟨b₀, _ | status⟩ <;> rw [hw] at hidle
  · exact hidle
  have hhead := keeps_writeHead time htick hwrite slot messageLength hidle
  have hpacket := keeps_writePacket time htick hwrite message messageLength hhead
  have hdone := keeps_waitDone time htick limit (keeps_mmioWrite time htick hwrite hpacket REG_CONTROL CONTROL_START)
  simp only
  rcases hd : waitDone time limit _ with ⟨b', _ | e⟩ <;> rw [hd] at hdone
  · have hread := keeps_readWords time htick REG_OUTPUT_TAG_BASE 4
      (keeps_readWords time htick REG_OUTPUT_DATA_BASE 16 hdone)
    exact keeps_mmioRead time htick (keeps_mmioRead time htick hread REG_RSP_COUNTER_LO) REG_RSP_COUNTER_HI
  · exact hdone

theorem keeps_decrypt (limit slot : ℕ) (packetCounter : BitVec 64) (messageLength : ℕ) (ciphertext tag : Bytes)
    (h : I b.port) : I (decrypt time limit b slot packetCounter messageLength ciphertext tag).1.port := by
  have hidle := keeps_waitStatus time htick 0 (STATUS_BUSY ||| STATUS_REQ_PENDING ||| STATUS_CFG_PENDING) limit h
  rw [decrypt, waitRequestIdle]
  split_ifs
  · exact h
  rcases hw : waitStatus time 0 (STATUS_BUSY ||| STATUS_REQ_PENDING ||| STATUS_CFG_PENDING) limit b with
    ⟨b₀, _ | status⟩ <;> rw [hw] at hidle
  · exact hidle
  have hhead := keeps_writeHead time htick hwrite slot messageLength hidle
  have hlo := keeps_mmioWrite time htick hwrite hhead REG_COUNTER_LO (packetCounter.setWidth 32)
  have hhi := keeps_mmioWrite time htick hwrite hlo REG_COUNTER_HI ((packetCounter >>> 32).setWidth 32)
  have htag := keeps_writeTag time htick hwrite tag (keeps_writePacket time htick hwrite ciphertext 64 hhi)
  have hdone := keeps_waitDone time htick limit
    (keeps_mmioWrite time htick hwrite htag REG_CONTROL (CONTROL_START ||| CONTROL_DECRYPT))
  simp only
  rcases hd : waitDone time limit _ with ⟨b', _ | e⟩ <;> rw [hd] at hdone
  · exact keeps_readWords time htick REG_OUTPUT_DATA_BASE 16 hdone
  · exact hdone

end Keeps

end AeadHw

namespace UartDemo

open AeadHw (Access BusOf Device)
open CompleteTop (rstSync coreIn)
open DecapsFrontend (Rests)
open ProtectedTop (Ledger Calm Based Spares Free Under)

variable {N n : ℕ} {aead : EngineIn → EngineOut} {κ : Type} {dp : Datapath} {H : HashUnit}
  {E : StartDone aead κ}

/-- The complete top with the session table it stands for, the account of its installs, and whether
every edge so far was calm. -/
structure Board (N n : ℕ) (dp : Datapath) (H : HashUnit) {aead : EngineIn → EngineOut} {κ : Type}
    (E : StartDone aead κ) where
  top : CompleteTop.State n dp H E
  table : Table n
  installs : Ledger n
  calm : Bool

/-- The pins while the PS makes no access. -/
def pins (k : κ) : CompleteTop.In κ := CompletePort.pins ⟨CompletePort.restKem, k⟩

def Board.tick (p : Board N n dp H E) (k : κ) : Board N n dp H E where
  top := CompletePort.tick N p.top ⟨CompletePort.restKem, k⟩
  table := if rstSync p.top then ProtectedTop.tableNext p.top.core (coreIn p.top (pins k)) p.table else .empty
  installs := CompleteTop.ledger N p.top (.tick (pins k)) p.installs
  calm := p.calm && (!rstSync p.top || decide (Calm N p.top.core (coreIn p.top (pins k))))

def Board.hold (p : Board N n dp H E) (offset : BitVec 9) (value : BitVec 32) : Board N n dp H E :=
  { p with top := CompletePort.hold p.top offset value }

def Board.holdKem (p : Board N n dp H E) (offset : BitVec 8) (value : BitVec 32) : Board N n dp H E :=
  { p with top := CompletePort.holdKem p.top offset value }

instance : KemDevice (Board N n dp H E) κ where
  tick := Board.tick
  write p offset value k := (p.hold offset value).tick k
  read p offset k := CompletePort.read p.top offset ⟨CompletePort.restKem, k⟩
  kemWrite p offset value k := (p.holdKem offset value).tick k
  kemRead p offset _ := CompletePort.readKem p.top offset

/-- Out of reset, with the table behind the session manager; what depends on calm edges is `I`. -/
structure Sane (I : ProtectedTop.State n dp H E → Table n → Ledger n → Prop) (p : Board N n dp H E) : Prop where
  sync : rstSync p.top = true
  filled : p.top.rstSyncQ.getLsbD 0 = true
  rel : Rel p.top.core.channel.sessions p.table
  calmly : p.calm = true → I p.top.core p.table p.installs

section Edges

variable {I J : ProtectedTop.State n dp H E → Table n → Ledger n → Prop} {p : Board N n dp H E} {k : κ}

theorem Sane.imp (h : Sane I p) (himp : ∀ s t g, I s t g → J s t g) : Sane J p :=
  ⟨h.sync, h.filled, h.rel, fun hc => himp _ _ _ (h.calmly hc)⟩

theorem core_tick (hr : rstSync p.top = true) :
    (p.tick k).top.core = ProtectedTop.next N p.top.core (coreIn p.top (pins k)) := by
  simp only [Board.tick, CompletePort.tick, CompleteTop.next, hr, if_true]
  rfl

theorem table_tick (hr : rstSync p.top = true) :
    (p.tick k).table = ProtectedTop.tableNext p.top.core (coreIn p.top (pins k)) p.table := by
  simp only [Board.tick, hr, if_true]

theorem installs_tick (hr : rstSync p.top = true) :
    (p.tick k).installs = ProtectedTop.ledger N p.top.core (.tick (coreIn p.top (pins k))) p.installs := by
  simp only [Board.tick, CompleteTop.ledger, hr, if_true]

theorem calm_tick (hr : rstSync p.top = true) (hc : (p.tick k).calm = true) :
    p.calm = true ∧ Calm N p.top.core (coreIn p.top (pins k)) := by
  simpa [Board.tick, hr] using hc

/-- An edge keeps what every calm edge of the core brings. -/
theorem Sane.step (h : Sane I p)
    (hstep : Calm N p.top.core (coreIn p.top (pins k)) → I p.top.core p.table p.installs →
      J (ProtectedTop.next N p.top.core (coreIn p.top (pins k)))
        (ProtectedTop.tableNext p.top.core (coreIn p.top (pins k)) p.table)
        (ProtectedTop.ledger N p.top.core (.tick (coreIn p.top (pins k))) p.installs)) : Sane J (p.tick k) := by
  refine ⟨(CompleteTop.rstSync_shift _).1.trans h.filled, (CompleteTop.rstSync_shift _).2, ?_, fun hc => ?_⟩
  · rw [core_tick h.sync, table_tick h.sync, ProtectedTop.sessions_next]
    exact rel_step _ _ (.tick _) h.rel
  · obtain ⟨hcalm, hC⟩ := calm_tick h.sync hc
    rw [core_tick h.sync, table_tick h.sync, installs_tick h.sync]
    exact hstep hC (h.calmly hcalm)

/-- A predicate that every calm edge without an access keeps. -/
def Stable (N : ℕ) (I : ProtectedTop.State n dp H E → Table n → Ledger n → Prop) : Prop :=
  ∀ s t g (i : ProtectedTop.In n κ), Rests i.axi → Calm N s i → I s t g →
    I (ProtectedTop.next N s i) (ProtectedTop.tableNext s i t) (ProtectedTop.ledger N s (.tick i) g)

theorem Sane.tick (hI : Stable N I) (h : Sane I p) : Sane I (p.tick k) :=
  h.step fun hC hi => hI _ _ _ _ ⟨rfl, rfl⟩ hC hi

/-- An access to the traffic port does not concern the core. -/
theorem Sane.write (hI : Stable N I) (h : Sane I p) (offset : BitVec 9) (value : BitVec 32) :
    Sane I ((p.hold offset value).tick k) :=
  Sane.tick hI (p := p.hold offset value) ⟨h.sync, h.filled, h.rel, h.calmly⟩

theorem Sane.waited (hI : Stable N I) (time : ℕ → Access κ) {b : BusOf (Board N n dp H E)} (h : Sane I b.port) :
    Sane I (b.waited time) :=
  AeadHw.keeps_waited time (I := fun p : Board N n dp H E => Sane I p) (fun _ _ hp => hp.tick hI) h

/-- A write to the ML-KEM port. -/
theorem Sane.kemWrite (h : Sane I p) {offset : BitVec 8} {value : BitVec 32}
    (hstep : ∀ s t g (i : ProtectedTop.In n κ), Rests i.axi → I s t g →
      J (ProtectedTop.next N (ProtectedTop.hold s offset value) i)
        (ProtectedTop.tableNext (ProtectedTop.hold s offset value) i t)
        (ProtectedTop.ledger N (ProtectedTop.hold s offset value) (.tick i) g)) :
    Sane J (KemDevice.kemWrite p offset value k) := by
  have hheld : Sane (fun s t g => ∃ s₀, s = ProtectedTop.hold s₀ offset value ∧ I s₀ t g)
      (p.holdKem offset value) := ⟨h.sync, h.filled, h.rel, fun hc => ⟨_, rfl, h.calmly hc⟩⟩
  refine hheld.step fun _ hI => ?_
  obtain ⟨s₀, hs, hI⟩ := hI
  rw [hs]
  exact hstep _ _ _ _ ⟨rfl, rfl⟩ hI

end Edges

section Views

variable {s : ProtectedTop.State 64 dp H E} {t : Table 64} {g : Ledger 64} {i : ProtectedTop.In 64 κ}
  {active : ℕ → Bool} {ids : ℕ → BitVec 32} {slot : ℕ} {id : BitVec 32}

theorem slotOf_toNat {slot : ℕ} (h : slot < UART_DEMO_SESSIONS) : (slotOf 64 slot).toNat = slot := by
  have h64 : UART_DEMO_SESSIONS = 64 := rfl
  have hw : 2 ^ slotWidth 64 = 64 := by decide
  rw [slotOf, BitVec.toNat_setWidth, BitVec.toNat_ofNat, hw]
  omega

theorem slotOf_inj {j k : ℕ} (hj : j < UART_DEMO_SESSIONS) (hk : k < UART_DEMO_SESSIONS)
    (h : slotOf 64 j = slotOf 64 k) : j = k := by
  rw [← slotOf_toNat hj, ← slotOf_toNat hk, h]

/-- The open slots hold the sessions the firmware has for them. -/
def Holds (active : ℕ → Bool) (ids : ℕ → BitVec 32) (t : Table 64) : Prop :=
  ∀ slot < UART_DEMO_SESSIONS, active slot = true → Has t (slotOf 64 slot) (ids slot)

/-- The firmware between two lines: its open slots are in the table and nothing under way changes them. -/
structure View (active : ℕ → Bool) (ids : ℕ → BitVec 32) (s : ProtectedTop.State 64 dp H E) (t : Table 64)
    (g : Ledger 64) : Prop where
  based : Based s g
  holds : Holds active ids t
  spares : ∀ slot < UART_DEMO_SESSIONS, active slot = true → Spares s (slotOf 64 slot)

/-- The firmware sets up a handshake: none is under way, and `P` is about the registers for it. -/
structure Setup (active : ℕ → Bool) (ids : ℕ → BitVec 32) (P : BitVec (slotWidth 64) → BitVec 32 → Bool → Prop)
    (s : ProtectedTop.State 64 dp H E) (t : Table 64) (g : Ledger 64) : Prop where
  based : Based s g
  free : ProtectedTop.Free s
  holds : Holds active ids t
  front : P s.front.decapSlot s.front.decapSessionId s.front.doneLatched

/-- The firmware waits for the handshake that is to give `slot` the session `id`. -/
structure Running (active : ℕ → Bool) (ids : ℕ → BitVec 32) (slot : ℕ) (id : BitVec 32)
    (s : ProtectedTop.State 64 dp H E) (t : Table 64) (g : Ledger 64) : Prop where
  based : Based s g
  under : Under (slotOf 64 slot) id (if active slot then some (ids slot) else none) s t
  others : ∀ j < UART_DEMO_SESSIONS, j ≠ slot → active j = true →
    Has t (slotOf 64 j) (ids j) ∧ Spares s (slotOf 64 j)

theorem View.stable (h2 : 2 ≤ N) :
    Stable N (@View aead κ dp H E active ids) := fun _ _ _ _ ha hC h =>
  ⟨h.based.next h2 ha hC, fun slot hslot hact => (h.spares slot hslot hact).has (h.holds slot hslot hact),
    fun slot hslot hact => (h.spares slot hslot hact).next h2 h.based.unheld ha⟩

theorem Setup.stable (h2 : 2 ≤ N) (P : BitVec (slotWidth 64) → BitVec 32 → Bool → Prop) :
    Stable N (@Setup aead κ dp H E active ids P) := by
  intro s t g i ha hC h
  obtain ⟨-, -, hslot, hid, hdone, -⟩ := DecapsFrontend.next_unheld h.based.unheld ha
    ⟨s.state ≠ .idle, ProtectedTop.finalDone s, ProtectedTop.finalFail s⟩ s.mem
  have hfin : ProtectedTop.finalDone s = false := by simp [ProtectedTop.finalDone, h.free.idle]
  refine ⟨h.based.next h2 ha hC, h.free.next h2 h.based.unheld ha,
    fun j hj hact => ProtectedTop.has_kept (h.holds j hj hact) h.free.clear.pending, ?_⟩
  rw [ProtectedTop.front_next, hslot, hid, hdone, hfin]
  exact h.front

theorem Running.stable (h2 : 2 ≤ N) :
    Stable N (@Running aead κ dp H E active ids slot id) := fun _ _ _ _ ha hC h =>
  ⟨h.based.next h2 ha hC, h.under.next h2 h.based ha hC, fun j hj hne hact =>
    ⟨(h.others j hj hne hact).2.has (h.others j hj hne hact).1,
      (h.others j hj hne hact).2.next h2 h.based.unheld ha⟩⟩

/-- A write of the driver other than the one that starts a handshake. -/
theorem Setup.write (h2 : 2 ≤ N) {P Q : BitVec (slotWidth 64) → BitVec 32 → Bool → Prop} {offset : BitVec 8}
    {value : BitVec 32} (hstart : ((offset == DecapsFrontend.REG_CONTROL) && value.getLsbD 0) = false)
    (hrange : ∀ s d b, P s d b → offset = DecapsFrontend.REG_CONTROL → s.toNat < 64)
    (hP : ∀ s d b, P s d b → Q (if offset = DecapsFrontend.REG_SLOT then value.setWidth _ else s)
      (if offset = DecapsFrontend.REG_SESSION then value else d)
      (if offset = DecapsFrontend.REG_CONTROL ∧ value.getLsbD 8 = true then false else b))
    (ha : Rests i.axi) (h : Setup active ids P s t g) :
    Setup active ids Q (ProtectedTop.next N (ProtectedTop.hold s offset value) i)
      (ProtectedTop.tableNext (ProtectedTop.hold s offset value) i t)
      (ProtectedTop.ledger N (ProtectedTop.hold s offset value) (.tick i) g) := by
  obtain ⟨hB, hst, hs, hslot, hid, hdone⟩ := h.based.write h2 h.free ha offset value (hrange _ _ _ h.front)
  refine ⟨hB, hB.free hst (hs.trans hstart), fun j hj hact => ProtectedTop.has_kept (h.holds j hj hact) h.free.clear.pending, ?_⟩
  rw [hslot, hid, hdone]
  exact hP _ _ _ h.front

/-- The write that starts the handshake. -/
theorem Setup.starts (h2 : 2 ≤ N) (hslot : slot < UART_DEMO_SESSIONS) (ha : Rests i.axi)
    (h : Setup active ids (fun s d b => s = slotOf 64 slot ∧ d = id ∧ b = false) s t g) :
    Running active ids slot id (ProtectedTop.next N (ProtectedTop.hold s DecapsFrontend.REG_CONTROL 1) i)
      (ProtectedTop.tableNext (ProtectedTop.hold s DecapsFrontend.REG_CONTROL 1) i t)
      (ProtectedTop.ledger N (ProtectedTop.hold s DecapsFrontend.REG_CONTROL 1) (.tick i) g) := by
  have hne : DecapsFrontend.REG_CONTROL ≠ DecapsFrontend.REG_SLOT ∧
      DecapsFrontend.REG_CONTROL ≠ DecapsFrontend.REG_SESSION := by decide
  obtain ⟨hs, hd, hb⟩ := h.front
  obtain ⟨hB, hst, hstart, hslot', hid, hdone⟩ := h.based.write h2 h.free ha DecapsFrontend.REG_CONTROL 1
    fun _ => by rw [hs, slotOf_toNat hslot]; exact hslot
  rw [if_neg hne.1, hs] at hslot'
  rw [if_neg hne.2, hd] at hid
  rw [hb, ite_self] at hdone
  have hclear := hB.clear (by rw [hst]; decide)
  have hkept : Holds active ids (ProtectedTop.tableNext (ProtectedTop.hold s DecapsFrontend.REG_CONTROL 1) i t) :=
    fun j hj hact => ProtectedTop.has_kept (h.holds j hj hact) h.free.clear.pending
  refine ⟨hB, ⟨hslot', hid, .asked hst (hstart.trans (by decide)) hdone fun id' hid' => ?_⟩, fun j hj hne hact => ?_⟩
  · split_ifs at hid' with hact
    cases hid'
    exact hkept slot hslot hact
  · refine ⟨hkept j hj hact, Or.inr ⟨?_, fun hp => ?_, fun hw => absurd hw hclear.apart⟩⟩
    · rw [hslot']
      exact fun he => hne (slotOf_inj hslot hj he).symm
    · rw [hclear.pending] at hp
      cases hp

/-- No handshake is asked for or under way at this edge. -/
def KemIdle (p : Board N 64 dp H E) : Prop := p.top.core.state = .idle ∧ p.top.core.front.decapStart = false

instance (p : Board N 64 dp H E) : Decidable (KemIdle p) := by
  unfold KemIdle
  infer_instance

theorem Sane.setup {p : Board N 64 dp H E} (h : Sane (View active ids) p) (hidle : KemIdle p) :
    Sane (Setup active ids fun _ _ _ => True) p :=
  ⟨h.sync, h.filled, h.rel, fun hc =>
    ⟨(h.calmly hc).based, (h.calmly hc).based.free hidle.1 hidle.2, (h.calmly hc).holds, trivial⟩⟩

theorem Setup.view {P : BitVec (slotWidth 64) → BitVec 32 → Bool → Prop} (h : Setup active ids P s t g) :
    View active ids s t g := ⟨h.based, h.holds, fun _ _ _ => Or.inl h.free⟩

/-- An unfinished handshake for a slot that is not open. -/
theorem Running.view (h : Running active ids slot id s t g) (hno : active slot = false) : View active ids s t g := by
  have hne : ∀ j, active j = true → j ≠ slot := by
    rintro j hact rfl
    rw [hno] at hact
    cases hact
  exact ⟨h.based, fun j hj hact => (h.others j hj (hne j hact) hact).1,
    fun j hj hact => (h.others j hj (hne j hact) hact).2⟩

theorem Running.phase_over (h : Running active ids slot id s t g) (hdone : s.front.doneLatched = true) :
    ProtectedTop.Free s ∧
      (s.front.failLatched = true → ProtectedTop.Kept t (slotOf 64 slot) (if active slot then some (ids slot) else none)) ∧
      (s.front.failLatched = false → Has t (slotOf 64 slot) id) := by
  cases h.under.phase with
  | ended hst hs hd hf hok => exact ⟨h.based.free hst hs, hf, hok⟩
  | _ => simp_all

/-- The handshake is reported as failed: nothing has changed. -/
theorem Running.rejected (h : Running active ids slot id s t g) (hdone : s.front.doneLatched = true)
    (hfail : s.front.failLatched = true) : View active ids s t g := by
  obtain ⟨hfree, hkept, -⟩ := h.phase_over hdone
  refine ⟨h.based, fun j hj hact => ?_, fun _ _ _ => Or.inl hfree⟩
  by_cases hne : j = slot
  · subst hne
    exact hkept hfail _ (by rw [if_pos hact])
  · exact (h.others j hj hne hact).1

/-- The handshake is reported as done: the slot has its new session. -/
theorem Running.established (h : Running active ids slot id s t g) (hdone : s.front.doneLatched = true)
    (hok : s.front.failLatched = false) :
    View (Function.update active slot true) (Function.update ids slot id) s t g := by
  obtain ⟨hfree, -, hhas⟩ := h.phase_over hdone
  refine ⟨h.based, fun j hj hact => ?_, fun _ _ _ => Or.inl hfree⟩
  by_cases hne : j = slot
  · subst hne
    rw [Function.update_self]
    exact hhas hok
  · rw [Function.update_of_ne hne] at hact ⊢
    exact (h.others j hj hne hact).1

/-- A handshake that is neither asked for nor under way has been reported. -/
theorem Running.done (h : Running active ids slot id s t g) (hst : s.state = .idle) (hs : s.front.decapStart = false) :
    s.front.doneLatched = true := by
  cases h.under.phase with
  | ended _ _ hd _ _ => exact hd
  | _ => simp_all

end Views

end UartDemo

end ZedSecure
