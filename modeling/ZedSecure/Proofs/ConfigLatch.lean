import Mathlib.Data.List.Count
import ZedSecure.Proofs.AeadRfc
import ZedSecure.Proofs.ArbiterRuns
import ZedSecure.Proofs.KdfUnit
import ZedSecure.Rtl.AxiLiteWrapper

/-! The configuration latch of the wrapper: what becomes of the commands it accepts. A record beside
the run lists them, and those the arbiter has applied. -/

namespace ZedSecure

open Clocked

namespace AxiLiteWrapper

open SessionArbiter (Port)

variable {aead : EngineIn → EngineOut} {κ κp : Type} {E : StartDone aead κ}
  {P : StartDone Fips202.keccakF κp}

section Commands

/-- The direct command accepted in this cycle. -/
def directCommand (s : State E P) : Option (Config 4) :=
  if acceptsDirect s then some (s.regs.directConfig s.channel.wdataHeld) else none

/-- The derivation accepted in this cycle, as the configuration that the registers now ask for. -/
def kdfCommand (s : State E P) : Option (Config 4) :=
  if acceptsKdf s then some (s.regs.kdfConfig (SessionKdf.sessionKdf s.regs.kdfOperands)) else none

/-- The configuration the arbiter takes in this cycle. -/
def appliedCommand (s : State E P) : Option (Config 4) := if takesConfig s then some s.latch.cfgLatched else none

/-- The commands accepted and applied since the reset, and the last derivation among them. -/
structure Record where
  accepted : List (Config 4)
  applied : List (Config 4)
  derivation : Option (Config 4)

def Record.next (r : Record) (s : State E P) : Record :=
  ⟨r.accepted ++ (directCommand s).toList ++ (kdfCommand s).toList, r.applied ++ (appliedCommand s).toList,
    (kdfCommand s).or r.derivation⟩

def record (s : State E P) : Act (In κ κp) → Record → Record
  | .reset, _ => ⟨[], [], none⟩
  | .tick _, r => r.next s

variable (E P) in
/-- The wrapper beside its record. -/
def logged : Design (State E P × Record) (In κ κp) := (design E P).withLog record

/-- When a derivation ends, no other command waits or arrives, and the slot and the session id are
what they were at its start. -/
def Undisturbed (p : State E P × Record) (_ : In κ κp) : Prop := p.1.kdf.done = true →
  (p.1.latch.cfgPending = true → SessionArbiter.cfgReady p.1.arbiter = true) ∧ directCommand p.1 = none ∧
    ∀ c ∈ p.2.derivation, c.slot = p.1.regs.requestSlotReg ∧ c.sessionId = p.1.regs.cfgSessionIdReg

instance decidableUndisturbed (p : State E P × Record) (i : In κ κp) : Decidable (Undisturbed p i) := by
  unfold Undisturbed
  infer_instance

end Commands

section Latch

/-- The command in the latch. -/
def pending (s : State E P) : List (Config 4) := if s.latch.cfgPending then [s.latch.cfgLatched] else []

/-- The derivation under way, `c` being what it was accepted for. -/
def Deriving (s : State E P) (c : Config 4) : Prop :=
  ∃ (r : Registers) (x : KdfIn), (SessionKdf.unit P).Issued x s.latch.kdfStart s.kdf ∧
    (s.latch.kdfStart = true → s.latch.kdfIn = x) ∧ c = r.kdfConfig (SessionKdf.sessionKdf x)

/-- No derivation is under way. -/
def Resting (s : State E P) : Prop :=
  s.latch.kdfStart = false ∧ (SessionKdf.unit P).idle s.kdf ∧ s.kdf.done = false

/-- The derivations under way, one at most. -/
def Owed (p : State E P × Record) (owed : List (Config 4)) : Prop :=
  (owed = [] ∧ Resting p.1) ∨ ∃ c, owed = [c] ∧ p.2.derivation = some c ∧ Deriving p.1 c

/-- The write channel leaves a cycle between two register writes. -/
structure Spaced (s : State E P) : Prop where
  answered : s.channel.writeCommit = true → s.channel.bvalid = true
  started : s.latch.kdfStart = true → s.channel.writeCommit = false

variable {s : State E P} {i : In κ κp}

theorem writeCommit_next (s : State E P) (i : In κ κp) : (next s i).channel.writeCommit =
    (s.channel.awHeld && s.channel.wHeld && !s.channel.bvalid) := by
  simp only [next, Channel.next]
  split_ifs <;> simp_all

theorem bvalid_next (h : (next s i).channel.writeCommit = true) : (next s i).channel.bvalid = true := by
  rw [writeCommit_next] at h
  simp only [next, Channel.next, h, if_true]
  split_ifs <;> rfl

theorem kdfStart_next (s : State E P) (i : In κ κp) : (next s i).latch.kdfStart = acceptsKdf s := by
  simp only [next, nextLatch]
  cases acceptsKdf s <;> cases acceptsDirect s <;> cases s.kdf.done <;> cases takesConfig s <;> rfl

theorem spaced_next (h : Spaced s) : Spaced (next s i) := by
  refine ⟨bvalid_next, fun hstart => ?_⟩
  rw [kdfStart_next] at hstart
  have hcommit : s.channel.writeCommit = true := by
    simp only [acceptsKdf, writes, Bool.and_eq_true] at hstart
    exact hstart.1.1.1.1
  rw [writeCommit_next, h.answered hcommit, Bool.not_true, Bool.and_false]

theorem kdfIn_next (h : acceptsKdf s = true) : (next s i).latch.kdfIn = s.regs.kdfOperands := by
  simp only [next, nextLatch, h, if_true]

/-- A derivation that works keeps the next one out. -/
theorem Deriving.excludes {c : Config 4} (h : Deriving s c) (hs : Spaced s) (hd : s.kdf.done = false) :
    acceptsKdf s = false := by
  obtain ⟨r, x, hissued, -, -⟩ := h
  cases ha : acceptsKdf s
  · rfl
  · simp only [acceptsKdf, writes, Bool.and_eq_true, Bool.not_eq_true'] at ha
    obtain ⟨⟨⟨⟨hcommit, -⟩, -⟩, hbusy⟩, -⟩ := ha
    rcases hissued with ⟨hstart, -⟩ | ⟨-, hwork⟩ | ⟨-, -, hdone, -⟩
    · simp [hs.started hstart] at hcommit
    · obtain ⟨-, -, -, hstage⟩ := hwork
      simp only [SessionKdf.busy, ne_eq, decide_not, Bool.not_eq_false', decide_eq_true_eq] at hbusy
      simp only [SessionKdf.Stage, hbusy] at hstage
    · simp [hd, SessionKdf.unit] at hdone

/-- The unit that rests waits, or is started for what the registers ask. -/
theorem rest_next {r : Record} (hstart : s.latch.kdfStart = false) (hidle : (SessionKdf.unit P).idle s.kdf) :
    Owed (next s i, r.next s) (kdfCommand s).toList := by
  obtain ⟨hidle', hdone'⟩ := (SessionKdf.unit P).idle_wait s.kdf i.permutation hidle
  have hkdf : (next s i).kdf = SessionKdf.next s.kdf none i.permutation := by
    simp [next, hstart]
  cases ha : acceptsKdf s
  · left
    refine ⟨by simp [kdfCommand, ha], by rw [kdfStart_next, ha], ?_⟩
    rw [hkdf]
    exact ⟨hidle', hdone'⟩
  · right
    refine ⟨s.regs.kdfConfig (SessionKdf.sessionKdf s.regs.kdfOperands), by simp [kdfCommand, ha],
      by simp [Record.next, kdfCommand, ha], s.regs, s.regs.kdfOperands, ?_, fun _ => kdfIn_next ha, rfl⟩
    rw [kdfStart_next, ha, hkdf]
    exact (SessionKdf.unit P).issued_of_idle hidle' hdone'

/-- A derivation goes on until its done pulse, and the next one follows. -/
theorem owed_next {r : Record} {owed : List (Config 4)} (hs : Spaced s) (h : Owed (s, r) owed) :
    Owed (next s i, r.next s) ((if s.kdf.done then [] else owed) ++ (kdfCommand s).toList) := by
  rcases h with ⟨rfl, hstart, hidle, -⟩ | ⟨c, rfl, hlast, hder⟩
  · rw [ite_self, List.nil_append]
    exact rest_next hstart hidle
  · cases hd : s.kdf.done
    · have hno := hder.excludes hs hd
      obtain ⟨r', x, hissued, hin, rfl⟩ := hder
      have hgo := hissued.next hd i.permutation
      have hkdf : (next s i).kdf =
          SessionKdf.next s.kdf (if s.latch.kdfStart then some x else none) i.permutation := by
        cases hst : s.latch.kdfStart
        · simp [next, hst]
        · have hop : s.latch.kdfIn = x := hin hst
          simp [next, hst, hop]
      right
      refine ⟨_, by simp [kdfCommand, hno], by simpa [Record.next, kdfCommand, hno] using hlast, r', x, ?_, ?_, rfl⟩
      · rw [kdfStart_next, hno, hkdf]
        exact hgo
      · intro hstart
        rw [kdfStart_next, hno] at hstart
        cases hstart
    · obtain ⟨r', x, hissued, -, -⟩ := hder
      obtain ⟨hstart, hidle, -⟩ := hissued.answer hd
      rw [if_pos rfl, List.nil_append]
      exact rest_next hstart hidle

/-- A finished derivation brings what it was accepted for, if the registers are as they were. -/
theorem Deriving.brings {c : Config 4} (h : Deriving s c) (hd : s.kdf.done = true)
    (hslot : c.slot = s.regs.requestSlotReg) (hid : c.sessionId = s.regs.cfgSessionIdReg) :
    s.regs.kdfConfig s.kdf.material = c := by
  obtain ⟨r, x, hissued, -, rfl⟩ := h
  obtain ⟨-, -, hres⟩ := hissued.answer hd
  have hmaterial : s.kdf.material = SessionKdf.sessionKdf x := hres
  rw [hmaterial]
  simp only [Registers.kdfConfig] at hslot hid ⊢
  rw [hslot, hid]

/-- What an edge applies and keeps is what the latch held, with what came into it. -/
theorem pending_next {r : Record} {owed : List (Config 4)} (h : Owed (s, r) owed) (hu : Undisturbed (s, r) i) :
    ((appliedCommand s).toList ++ pending (next s i)).Perm
      (pending s ++ (if s.kdf.done then owed else []) ++ (directCommand s).toList) := by
  cases hd : s.kdf.done
  · cases hp : s.latch.cfgPending
    · have htake : takesConfig s = false := by simp [takesConfig, hp]
      cases ha : acceptsDirect s <;>
        simp [appliedCommand, directCommand, pending, next, nextLatch, htake, ha, hd, hp] <;>
        split_ifs <;> simp_all
    · have hno : acceptsDirect s = false := by simp [acceptsDirect, hp]
      cases htake : takesConfig s <;>
        simp [appliedCommand, directCommand, pending, next, nextLatch, htake, hno, hd, hp] <;>
        split_ifs <;> simp_all
  · obtain ⟨hready, hno, hsame⟩ := hu hd
    rcases h with ⟨-, -, -, hdone⟩ | ⟨c, rfl, hlast, hder⟩
    · rw [hd] at hdone
      cases hdone
    · obtain ⟨hslot, hid⟩ := hsame c hlast
      have hbrings := hder.brings hd hslot hid
      have hno' : acceptsDirect s = false := by
        simpa [directCommand] using hno
      have happlied : (appliedCommand s).toList = pending s := by
        cases hp : s.latch.cfgPending
        · simp [appliedCommand, takesConfig, pending, hp]
        · simp [appliedCommand, takesConfig, pending, hp, hready hp]
      have hnext : pending (next s i) = [c] := by
        simp only [pending, next, nextLatch, hno', hd, hbrings]
        split_ifs <;> simp_all
      rw [happlied, hnext, hno]
      simp

/-- Every command accepted has been applied, or waits in the latch, or is being derived. -/
structure Accounts (p : State E P × Record) : Prop where
  spaced : Spaced p.1
  balance : ∃ owed, Owed p owed ∧ p.2.accepted.Perm (p.2.applied ++ pending p.1 ++ owed)

theorem accounts_rst (p : State E P × Record) : Accounts ((logged E P).rst p) := by
  have hrest : Resting ((logged E P).rst p).1 := ⟨rfl, (SessionKdf.unit P).init_idle, rfl⟩
  constructor
  · constructor
    · intro h
      cases h
    · intro h
      cases h
  · exact ⟨[], Or.inl ⟨rfl, hrest⟩, List.Perm.refl _⟩

theorem accounts_next {p : State E P × Record} (h : Accounts p) (hu : Undisturbed p i) :
    Accounts ((logged E P).next p i) := by
  obtain ⟨s, r⟩ := p
  obtain ⟨hs, owed, howed, hperm⟩ := h
  refine ⟨spaced_next hs, _, owed_next hs howed, ?_⟩
  have hlatch := pending_next howed hu
  rw [List.perm_iff_count] at hperm hlatch ⊢
  intro c
  have h1 := hperm c
  have h2 := hlatch c
  simp only [logged, Design.withLog, record, Record.next, design, List.count_append] at h1 h2 ⊢
  cases hd : s.kdf.done <;> simp only [hd, Bool.false_eq_true, if_false, if_true, List.count_nil] at h2 ⊢ <;> omega

end Latch

section Table

/-- The last of the commands for a slot. -/
def installed (cs : List (Config 4)) (p : Port) : Option (Config 4) := cs.reverse.find? fun c => c.slot = p

/-- A slot of the arbiter is as the command left it, the counters apart. -/
def Installed (a : SessionArbiter.State E) (p : Port) : Option (Config 4) → Prop
  | none => a.sessionValid p = false
  | some c => a.sessionValid p = c.valid ∧ (a.session p).sessionId = c.sessionId ∧
      (a.session p).txKey = c.txKey ∧ (a.session p).rxKey = c.rxKey ∧
      (a.session p).txPrefix = c.txPrefix ∧ (a.session p).rxPrefix = c.rxPrefix

/-- The table holds what has been applied. -/
def Holds (cs : List (Config 4)) (a : SessionArbiter.State E) : Prop := ∀ p, Installed a p (installed cs p)

theorem installed_snoc (cs : List (Config 4)) (c : Config 4) (p : Port) :
    installed (cs ++ [c]) p = if c.slot = p then some c else installed cs p := by
  rw [installed, List.reverse_append, List.reverse_singleton, List.singleton_append, List.find?_cons]
  by_cases h : c.slot = p <;> simp [h, installed]

variable {a : SessionArbiter.State E} {cs : List (Config 4)}

/-- Short of a configuration the arbiter changes counters only. -/
theorem holds_other (h : Holds cs a) (i : SessionArbiter.In κ)
    (hno : (i.cfgWrite && SessionArbiter.cfgReady a) = false) : Holds cs (SessionArbiter.next a i) := by
  have hsame : (SessionArbiter.next a i).sessionValid = a.sessionValid ∧
      ∀ p, ∃ tx rx, (SessionArbiter.next a i).session p = { a.session p with txCounter := tx, rxCounter := rx } := by
    cases hst : a.state with
    | idle =>
      have hc : i.cfgWrite = false := by simpa [SessionArbiter.cfgReady, hst] using hno
      cases hg : SessionArbiter.grantSlot a.lastGrant i.reqValid <;>
        simp only [SessionArbiter.next, hst, hc, hg, Bool.false_eq_true, if_false] <;>
        exact ⟨rfl, fun p => ⟨_, _, rfl⟩⟩
    | grant =>
      simp only [SessionArbiter.next, hst]
      split_ifs <;> exact ⟨rfl, fun p => ⟨_, _, rfl⟩⟩
    | waitEngine =>
      simp only [SessionArbiter.next, hst]
      split_ifs
      · refine ⟨rfl, fun p => ?_⟩
        by_cases hp : p = a.activeSlot
        · subst hp
          exact ⟨_, _, Function.update_self ..⟩
        · exact ⟨_, _, Function.update_of_ne hp ..⟩
      · refine ⟨rfl, fun p => ?_⟩
        by_cases hp : p = a.activeSlot
        · subst hp
          exact ⟨_, _, Function.update_self ..⟩
        · exact ⟨_, _, Function.update_of_ne hp ..⟩
      · exact ⟨rfl, fun p => ⟨_, _, rfl⟩⟩
      · exact ⟨rfl, fun p => ⟨_, _, rfl⟩⟩
    | response =>
      simp only [SessionArbiter.next, hst]
      split_ifs <;> exact ⟨rfl, fun p => ⟨_, _, rfl⟩⟩
  intro p
  obtain ⟨hvalid, hsession⟩ := hsame
  obtain ⟨tx, rx, hp⟩ := hsession p
  have hold := h p
  cases hin : installed cs p with
  | none =>
    rw [hin] at hold
    simpa only [Installed, hvalid] using hold
  | some c =>
    rw [hin] at hold
    simpa only [Installed, hvalid, hp] using hold

/-- A configuration replaces its slot. -/
theorem holds_config (h : Holds cs a) (i : SessionArbiter.In κ) (hc : i.cfgWrite = true)
    (hready : SessionArbiter.cfgReady a = true) : Holds (cs ++ [i.cfg]) (SessionArbiter.next a i) := by
  have hst : a.state = .idle := by simpa [SessionArbiter.cfgReady] using hready
  intro p
  rw [installed_snoc]
  simp only [SessionArbiter.next, hst, hc, if_true]
  split_ifs with hp
  · subst hp
    simp [Installed]
  · have hold := h p
    have hne : p ≠ i.cfg.slot := Ne.symm hp
    cases hin : installed cs p with
    | none =>
      rw [hin] at hold
      simpa [Installed, hne, SessionArbiter.frame] using hold
    | some c =>
      rw [hin] at hold
      simpa [Installed, hne, SessionArbiter.frame] using hold

theorem holds_next {s : State E P} {i : In κ κp} (h : Holds cs s.arbiter) :
    Holds (cs ++ (appliedCommand s).toList) (next s i).arbiter := by
  cases htake : takesConfig s
  · simp only [appliedCommand, htake, Bool.false_eq_true, if_false, Option.toList_none, List.append_nil]
    exact holds_other h _ htake
  · simp only [appliedCommand, htake, if_true, Option.toList_some]
    simp only [takesConfig, Bool.and_eq_true] at htake
    exact holds_config h (arbiterIn s i.engine) htake.1 htake.2

end Table

section Progress

/-- The request and the arbiter are at the same place. -/
structure Linked (s : State E P) : Prop where
  serves : ∃ t, SessionArbiter.Rel s.arbiter t
  issued : s.exchange.reqIssuePending = true →
    s.exchange.reqInflight = true ∧ (s.arbiter.state = .idle ∨ s.arbiter.state = .grant)
  active : s.arbiter.state ≠ .idle →
    s.exchange.reqInflight = true ∧ s.exchange.reqSlotLatched = s.arbiter.activeSlot

theorem linked_init : Linked (.init E P) := by
  constructor
  · exact ⟨.empty, SessionArbiter.rel_rst (.init E) .empty⟩
  · intro h
    cases h
  · intro h
    exact absurd rfl h

variable {s : State E P} {i : In κ κp}

/-- A request under way is not replaced. -/
theorem exchange_next (h : s.exchange.reqInflight = true) :
    (next s i).exchange.reqSlotLatched = s.exchange.reqSlotLatched ∧
      (next s i).exchange.reqIssuePending = (s.exchange.reqIssuePending &&
        !SessionArbiter.reqReady s.arbiter s.exchange.reqSlotLatched) ∧
      (next s i).exchange.reqInflight = !s.arbiter.rspValid s.exchange.reqSlotLatched := by
  have hno : acceptsRequest s = false := by simp [acceptsRequest, h]
  cases hp : s.exchange.reqIssuePending <;>
    cases hr : SessionArbiter.reqReady s.arbiter s.exchange.reqSlotLatched <;>
      cases hv : s.arbiter.rspValid s.exchange.reqSlotLatched <;>
        cases hw : (writes s REG_CONTROL && s.channel.bit 8) <;>
          simp [next, nextExchange, hno, h, hp, hr, hv, hw]

theorem exchange_idle (h : s.exchange.reqInflight = false) (hp : s.exchange.reqIssuePending = false) :
    (next s i).exchange.reqIssuePending = acceptsRequest s ∧
      (next s i).exchange.reqInflight = acceptsRequest s := by
  cases ha : acceptsRequest s <;> cases hw : (writes s REG_CONTROL && s.channel.bit 8) <;>
    simp [next, nextExchange, ha, h, hp, hw]

/-- Where the arbiter goes when the request stays on its port. -/
theorem arbiter_next (h : Linked s) (hne : s.arbiter.state ≠ .idle) :
    ((next s i).arbiter.state = .idle ∧ s.arbiter.state = .response) ∨
      ((next s i).arbiter.activeSlot = s.arbiter.activeSlot ∧ s.arbiter.state ≠ .response ∧
        (next s i).arbiter.state ≠ .idle ∧ (next s i).arbiter.state ≠ .grant) := by
  obtain ⟨hin, hslot⟩ := h.active hne
  simp only [next]
  cases hst : s.arbiter.state with
  | idle => exact absurd hst hne
  | grant =>
    right
    simp only [SessionArbiter.next, hst]
    split_ifs <;> simp [SessionArbiter.frame]
  | waitEngine =>
    right
    simp only [SessionArbiter.next, hst]
    split_ifs <;> simp [SessionArbiter.frame, hst]
  | response =>
    left
    have hready : (arbiterIn s i.engine).rspReady s.arbiter.activeSlot = true := by
      change (s.exchange.reqInflight && decide (s.arbiter.activeSlot = s.exchange.reqSlotLatched)) = true
      simp [hin, hslot]
    simp only [SessionArbiter.next, hst, hready, if_true]
    exact ⟨trivial, trivial⟩

/-- A port that is picked carries a request. -/
theorem pick_next (hst : s.arbiter.state = .idle) (hne : (next s i).arbiter.state ≠ .idle) :
    (next s i).arbiter.state = .grant ∧ s.exchange.reqIssuePending = true ∧
      s.exchange.reqSlotLatched = (next s i).arbiter.activeSlot := by
  have hs : (SessionArbiter.frame s.arbiter (arbiterIn s i.engine)).state = .idle := hst
  simp only [next] at hne ⊢
  cases hc : (arbiterIn s i.engine).cfgWrite
  · cases hg : SessionArbiter.grantSlot s.arbiter.lastGrant (arbiterIn s i.engine).reqValid with
    | none => simp [SessionArbiter.next, hst, hc, hg, hs] at hne
    | some p =>
      have hvalid := (SessionArbiter.grantSlot_first hg).1
      simp only [arbiterIn, Bool.and_eq_true, decide_eq_true_eq] at hvalid
      simp only [SessionArbiter.next, hst, hc, hg, Bool.false_eq_true, if_false]
      exact ⟨trivial, hvalid.1, hvalid.2.symm⟩
  · simp [SessionArbiter.next, hst, hc, hs] at hne

variable (gated : ∀ x, (aead x).authOk = false → (aead x).data = 0#512)

include gated in
theorem linked_next (h : Linked s) : Linked (next s i) := by
  obtain ⟨t, ht⟩ := h.serves
  have hrsp := ht.rspValid s.exchange.reqSlotLatched
  refine ⟨⟨_, SessionArbiter.rel_step gated s.arbiter t (.tick (arbiterIn s i.engine)) ht⟩, ?_, ?_⟩
  · intro hissue
    cases hin : s.exchange.reqInflight
    · have hpend : s.exchange.reqIssuePending = false := by
        by_contra hpend
        simp [h.issued (by simpa using hpend)] at hin
      have hst : s.arbiter.state = .idle := by
        by_contra hst
        simp [h.active hst] at hin
      obtain ⟨hissue', hin'⟩ := exchange_idle (i := i) hin hpend
      refine ⟨by rw [hin', ← hissue', hissue], Or.inl ?_⟩
      by_contra hne
      simp [pick_next hst hne] at hpend
    · obtain ⟨-, hpend, hfly⟩ := exchange_next (i := i) hin
      rw [hissue, eq_comm, Bool.and_eq_true, Bool.not_eq_true'] at hpend
      have hst : s.arbiter.state = .idle := by
        rcases (h.issued hpend.1).2 with hst | hst
        · exact hst
        · obtain ⟨-, hslot⟩ := h.active (by simp [hst])
          simp [SessionArbiter.reqReady, hst, hslot] at hpend
      refine ⟨by rw [hfly, hrsp]; simp [hst], ?_⟩
      by_cases hne : (next s i).arbiter.state = .idle
      · exact Or.inl hne
      · exact Or.inr (pick_next hst hne).1
  · intro hne
    by_cases hst : s.arbiter.state = .idle
    · obtain ⟨-, hissue, hslot⟩ := pick_next hst hne
      obtain ⟨hin, -⟩ := h.issued hissue
      obtain ⟨hsame, -, hfly⟩ := exchange_next (i := i) hin
      rw [hfly, hrsp, hsame]
      exact ⟨by simp [hst], hslot⟩
    · obtain ⟨hin, hslot⟩ := h.active hst
      obtain ⟨hsame, -, hfly⟩ := exchange_next (i := i) hin
      rcases arbiter_next (i := i) h hst with ⟨hidle, -⟩ | ⟨hactive, hbusy, -⟩
      · exact absurd hidle hne
      · rw [hfly, hrsp, hsame, hactive]
        exact ⟨by simp [hbusy], hslot⟩

variable (T : E.Timed)

/-- The edges until the arbiter is free for a configuration, at most. -/
def untilIdle (a : SessionArbiter.State E) : ℕ :=
  match a.state with
  | .idle => 0
  | .response => 1
  | .waitEngine => T.togo a.engineStart a.engine + 2
  | .grant => T.bound + 5

theorem untilIdle_response {a : SessionArbiter.State E} (h : a.state = .response) : untilIdle T a = 1 := by
  simp only [untilIdle, h]

theorem untilIdle_wait {a : SessionArbiter.State E} (h : a.state = .waitEngine) :
    untilIdle T a = T.togo a.engineStart a.engine + 2 := by
  simp only [untilIdle, h]

theorem untilIdle_next (h : Linked s) (hne : s.arbiter.state ≠ .idle) :
    untilIdle T (next s i).arbiter < untilIdle T s.arbiter := by
  obtain ⟨t, ht⟩ := h.serves
  cases hst : s.arbiter.state with
  | idle => exact absurd hst hne
  | grant =>
    have hbound : untilIdle T s.arbiter = T.bound + 5 := by simp only [untilIdle, hst]
    have hstep : (next s i).arbiter.state = .response ∨
        ((next s i).arbiter.state = .waitEngine ∧ (next s i).arbiter.engineStart = true) := by
      simp only [next, SessionArbiter.next, hst]
      split_ifs <;> simp
    rw [hbound]
    rcases hstep with hresp | ⟨hwait, hstart⟩
    · rw [untilIdle_response T hresp]
      omega
    · rw [untilIdle_wait T hwait, hstart, StartDone.Timed.togo, if_pos rfl]
      omega
  | waitEngine =>
    simp only [SessionArbiter.Rel, hst] at ht
    obtain ⟨-, q, hq⟩ := ht
    have hnext : (next s i).arbiter.state = if E.done s.arbiter.engine then .response else .waitEngine :=
      (SessionArbiter.waitEngine_next (arbiterIn s i.engine) hst).2
    rw [untilIdle_wait T hst]
    cases hd : E.done s.arbiter.engine
    · have hlt := T.togo_lt hq.issued hd i.engine
      rw [hd] at hnext
      have hgo : (next s i).arbiter.engineStart = false ∧ (next s i).arbiter.engine =
          E.next s.arbiter.engine (if s.arbiter.engineStart then some s.arbiter.engineIn else none) i.engine := by
        simp only [next, SessionArbiter.next, hst, hd, Bool.false_eq_true, if_false]
        exact ⟨rfl, rfl⟩
      rw [untilIdle_wait T hnext, hgo.1, hgo.2]
      exact Nat.add_lt_add_right hlt 2
    · rw [hd, if_pos rfl] at hnext
      rw [untilIdle_response T hnext]
      omega
  | response =>
    rcases arbiter_next (i := i) h hne with ⟨hidle, -⟩ | ⟨-, hno, -⟩
    · rw [untilIdle_response T hst]
      simp only [untilIdle, hidle]
      exact Nat.zero_lt_one
    · exact absurd hst hno

end Progress

section Runs

/-- What every state of an undisturbed run keeps to. -/
structure Kept (p : State E P × Record) : Prop where
  accounts : Accounts p
  holds : Holds p.2.applied p.1.arbiter
  linked : Linked p.1

variable (gated : ∀ x, (aead x).authOk = false → (aead x).data = 0#512)

theorem kept_rst (p : State E P × Record) : Kept ((logged E P).rst p) :=
  ⟨accounts_rst p, fun _ => rfl, linked_init⟩

include gated in
theorem kept_next (p : State E P × Record) (i : In κ κp) (h : Kept p) (hu : Undisturbed p i) :
    Kept ((logged E P).next p i) :=
  ⟨accounts_next h.accounts hu, holds_next h.holds, linked_next gated h.linked⟩

variable {p : State E P × Record} {ins : ℕ → In κ κp}

include gated in
theorem kept_stream (h : Kept p) (hu : ∀ n, Undisturbed ((logged E P).stream p ins n) (ins n)) (n : ℕ) :
    Kept ((logged E P).stream p ins n) := by
  induction n with
  | zero => exact h
  | succ n ih => exact kept_next gated _ _ ih (hu n)

/-- Nothing is taken back from the record. -/
theorem accepted_succ (p : State E P × Record) (ins : ℕ → In κ κp) (n : ℕ) :
    ((logged E P).stream p ins (n + 1)).2.accepted = ((logged E P).stream p ins n).2.accepted ++
      ((directCommand ((logged E P).stream p ins n).1).toList ++ (kdfCommand ((logged E P).stream p ins n).1).toList) :=
  List.append_assoc ..

theorem applied_succ (p : State E P × Record) (ins : ℕ → In κ κp) (n : ℕ) :
    ((logged E P).stream p ins (n + 1)).2.applied = ((logged E P).stream p ins n).2.applied ++
      (appliedCommand ((logged E P).stream p ins n).1).toList := rfl

include gated in
/-- A derivation ends, and its command is then in the latch or applied. -/
theorem derived_comes (T : P.Timed) (h : Kept p)
    (hu : ∀ n, Undisturbed ((logged E P).stream p ins n) (ins n)) {cs : List (Config 4)} {k : ℕ}
    (hcs : cs.Subperm ((logged E P).stream p ins k).2.accepted) :
    ∃ m, cs.Subperm (((logged E P).stream p ins m).2.applied ++ pending ((logged E P).stream p ins m).1) := by
  generalize hm : (SessionKdf.timed T).togo ((logged E P).stream p ins k).1.latch.kdfStart
    ((logged E P).stream p ins k).1.kdf = m
  induction m using Nat.strong_induction_on generalizing k with
  | _ m ih =>
    obtain ⟨hs, owed, howed, hperm⟩ := (kept_stream gated h hu k).accounts
    have hcs' := hcs.trans hperm.subperm
    rcases id howed with ⟨rfl, -⟩ | ⟨c, rfl, -, hder⟩
    · exact ⟨k, by rwa [List.append_nil] at hcs'⟩
    · cases hd : ((logged E P).stream p ins k).1.kdf.done
      · have hgrow : cs.Subperm ((logged E P).stream p ins (k + 1)).2.accepted := by
          rw [accepted_succ]
          exact hcs.trans (List.sublist_append_left _ _).subperm
        have hno := hder.excludes hs hd
        obtain ⟨r, x, hissued, hin, -⟩ := hder
        have hlt := (SessionKdf.timed T).togo_lt hissued hd (ins k).permutation
        have hstart : ((logged E P).stream p ins (k + 1)).1.latch.kdfStart = false := by
          change (next _ _).latch.kdfStart = false
          rw [kdfStart_next, hno]
        have hkdf : ((logged E P).stream p ins (k + 1)).1.kdf = (SessionKdf.unit P).next
            ((logged E P).stream p ins k).1.kdf
            (if ((logged E P).stream p ins k).1.latch.kdfStart then some x else none) (ins k).permutation := by
          change (next _ _).kdf = _
          cases hst : ((logged E P).stream p ins k).1.latch.kdfStart
          · simp only [next, hst]
            rfl
          · simp only [next, hst, hin hst]
            rfl
        rw [← hkdf, hm] at hlt
        exact ih _ hlt hgrow (by rw [hstart])
      · have hlatch := pending_next howed (hu k)
        rw [hd, if_pos rfl] at hlatch
        refine ⟨k + 1, hcs'.trans ?_⟩
        rw [applied_succ, List.append_assoc, List.append_assoc]
        exact (List.subperm_append_left _).mpr ((List.sublist_append_left _ _).subperm.trans hlatch.symm.subperm)

include gated in
/-- The latch empties into the table. -/
theorem applied_comes (T : E.Timed) (h : Kept p)
    (hu : ∀ n, Undisturbed ((logged E P).stream p ins n) (ins n)) {cs : List (Config 4)} {k : ℕ}
    (hcs : cs.Subperm (((logged E P).stream p ins k).2.applied ++ pending ((logged E P).stream p ins k).1)) :
    ∃ m, cs.Subperm ((logged E P).stream p ins m).2.applied := by
  generalize hm : untilIdle T ((logged E P).stream p ins k).1.arbiter = m
  induction m using Nat.strong_induction_on generalizing k with
  | _ m ih =>
    have hlinked := (kept_stream gated h hu k).linked
    cases hp : ((logged E P).stream p ins k).1.latch.cfgPending
    · exact ⟨k, by simpa [pending, hp] using hcs⟩
    · by_cases hst : ((logged E P).stream p ins k).1.arbiter.state = .idle
      · refine ⟨k + 1, ?_⟩
        rw [applied_succ]
        simpa [appliedCommand, takesConfig, SessionArbiter.cfgReady, pending, hp, hst] using hcs
      · have hlt := untilIdle_next T (i := ins k) hlinked hst
        have hdone : ((logged E P).stream p ins k).1.kdf.done = false := by
          by_contra hd
          have hready := (hu k (by simpa using hd)).1 hp
          simp [SessionArbiter.cfgReady, hst] at hready
        have hno : acceptsDirect ((logged E P).stream p ins k).1 = false := by simp [acceptsDirect, hp]
        have htake : takesConfig ((logged E P).stream p ins k).1 = false := by
          simp [takesConfig, SessionArbiter.cfgReady, hst]
        have hsame : pending ((logged E P).stream p ins (k + 1)).1 = pending ((logged E P).stream p ins k).1 := by
          change pending (next _ _) = _
          have hlatch : (nextLatch ((logged E P).stream p ins k).1).cfgPending = true ∧
              (nextLatch ((logged E P).stream p ins k).1).cfgLatched =
                ((logged E P).stream p ins k).1.latch.cfgLatched := by
            cases ha : acceptsKdf ((logged E P).stream p ins k).1 <;> simp [nextLatch, hdone, hno, htake, hp, ha]
          simp only [pending, next, hlatch.1, hlatch.2, hp]
        rw [hm] at hlt
        refine ih _ hlt (k := k + 1) ?_ rfl
        rw [applied_succ, hsame]
        simpa [appliedCommand, htake] using hcs

/-- As long as the derivations end undisturbed: nothing has been applied that was not accepted, or
twice; the table holds what has been applied; and all that has been accepted comes to be applied. -/
theorem commands_applied {chacha20 : ChachaIn → BitVec 512} {poly1305 : PolyIn → BitVec 128}
    {E : StartDone (fixed64 chacha20 poly1305) κ} (TE : E.Timed) (TP : P.Timed) (p0 : State E P × Record)
    {acts : List (Act (In κ κp))} (hacts : (logged E P).AllSteps Undisturbed ((logged E P).rst p0) acts)
    {p : State E P × Record} (hp : p = (logged E P).run ((logged E P).rst p0) acts) {ins : ℕ → In κ κp}
    (hins : ∀ n, Undisturbed ((logged E P).stream p ins n) (ins n)) :
    p.2.applied.Subperm p.2.accepted ∧ Holds p.2.applied p.1.arbiter ∧
      ∃ n, p.2.accepted.Subperm ((logged E P).stream p ins n).2.applied := by
  have gated := SessionArbiter.fixed64_gated chacha20 poly1305
  have hkept : Kept p := by
    rw [hp]
    exact (logged E P).run_induct_of (fun q _ => kept_rst q) (kept_next gated) (kept_rst p0) hacts
  obtain ⟨-, owed, -, hperm⟩ := hkept.accounts
  refine ⟨?_, hkept.holds, ?_⟩
  · rw [List.append_assoc] at hperm
    exact (List.sublist_append_left _ _).subperm.trans hperm.symm.subperm
  · obtain ⟨m, hm⟩ := derived_comes gated TP hkept hins (k := 0) (List.Subperm.refl _)
    exact applied_comes gated TE hkept hins hm

/-- A wrapper on its engine and its permutation, after these edges. -/
abbrev sampleRun (ins : List (In (Unit × Unit) Unit)) : State AeadEngine.packetEngine KeccakF1600.unit × Record :=
  (logged _ _).run ((logged _ _).rst (.init _ _, ⟨[], [], none⟩)) (ins.map .tick)

/-- An edge with nothing on the port but a ready response channel. -/
def quietIn : In (Unit × Unit) Unit := ⟨⟨0, false, 0, 0, false, true, 0, false, true⟩, ((), ()), ()⟩

/-- The three edges of a register write. -/
def writeIn (addr : BitVec 10) (data : BitVec 32) : List (In (Unit × Unit) Unit) :=
  ⟨⟨addr, true, data, 15, true, true, 0, false, true⟩, ((), ()), ()⟩ :: List.replicate 2 quietIn

/-- A derivation for slot 1, and after it a direct command for slot 3. -/
def oneByOne : List (In (Unit × Unit) Unit) :=
  writeIn REG_REQUEST_SLOT 1 ++ writeIn REG_KDF_CONTROL 1 ++ List.replicate 180 quietIn ++
    writeIn REG_CFG_CONTROL 0x80000103

/-- Nothing goes on but what the arbiter does. -/
def Quiet (s : State AeadEngine.packetEngine KeccakF1600.unit) : Prop :=
  s.channel.awHeld = false ∧ s.channel.writeCommit = false ∧ Resting s

theorem quiet_next {s : State AeadEngine.packetEngine KeccakF1600.unit} (h : Quiet s) : Quiet (next s quietIn) := by
  obtain ⟨haw, hcommit, hstart, hidle, -⟩ := h
  obtain ⟨hidle', hdone'⟩ := (SessionKdf.unit KeccakF1600.unit).idle_wait s.kdf () hidle
  have hkdf : (next s quietIn).kdf = SessionKdf.next s.kdf none () := by
    simp only [next, hstart]
    rfl
  have hno : acceptsKdf s = false := by simp [acceptsKdf, writes, hcommit]
  refine ⟨?_, by rw [writeCommit_next, haw]; rfl, by rw [kdfStart_next, hno], ?_⟩
  · simp [next, Channel.next, quietIn, haw]
    split_ifs <;> rfl
  · rw [hkdf]
    exact ⟨hidle', hdone'⟩

theorem quiet_stream {p : State AeadEngine.packetEngine KeccakF1600.unit × Record} (h : Quiet p.1) (n : ℕ) :
    Quiet ((logged _ _).stream p (fun _ => quietIn) n).1 := by
  induction n with
  | zero => exact h
  | succ n ih => exact quiet_next ih

/-- A derivation for slot 1, and a write of slot 2 while it runs. -/
def slotWrite : List (In (Unit × Unit) Unit) :=
  writeIn REG_REQUEST_SLOT 1 ++ writeIn REG_KDF_CONTROL 1 ++ writeIn REG_REQUEST_SLOT 2 ++
    List.replicate 180 quietIn

/-- A derivation for slot 1, and a direct command for slot 3 that takes effect when it ends. -/
def lateCommand : List (In (Unit × Unit) Unit) :=
  writeIn REG_REQUEST_SLOT 1 ++ writeIn REG_KDF_CONTROL 1 ++ List.replicate 178 quietIn ++
    writeIn REG_CFG_CONTROL 0x80000103 ++ List.replicate 10 quietIn

/-- The derivation is applied to a slot it was not started for; or it is accepted, overwritten by the
direct command, and never applied. -/
theorem commands_mixed :
    (sampleRun slotWrite).2.accepted.map Config.slot = [SessionArbiter.port 1] ∧
      (sampleRun slotWrite).2.applied.map Config.slot = [SessionArbiter.port 2] ∧
    (sampleRun lateCommand).2.accepted.map Config.slot = [SessionArbiter.port 1, SessionArbiter.port 3] ∧
      (sampleRun lateCommand).2.applied.map Config.slot = [SessionArbiter.port 3] ∧
      (sampleRun lateCommand).1.latch.cfgPending = false ∧
      SessionKdf.busy (sampleRun lateCommand).1.kdf = false := by
  decide +kernel

theorem commands_applied_oneByOne :
    (sampleRun oneByOne).2.applied.Subperm (sampleRun oneByOne).2.accepted ∧
      Holds (sampleRun oneByOne).2.applied (sampleRun oneByOne).1.arbiter ∧
      ∃ n, (sampleRun oneByOne).2.accepted.Subperm
        ((logged _ _).stream (sampleRun oneByOne) (fun _ => quietIn) n).2.applied := by
  have hquiet : Quiet (sampleRun oneByOne).1 :=
    ⟨by decide +kernel, by decide +kernel, by decide +kernel,
      ⟨by decide +kernel, by decide +kernel, by decide +kernel, by decide +kernel, by decide +kernel,
        by change KeccakF1600.State.busy _ = false; decide +kernel⟩, by decide +kernel⟩
  have hrest : ∀ n, Undisturbed ((logged _ _).stream (sampleRun oneByOne) (fun _ => quietIn) n) quietIn := by
    intro n hdone
    rw [(quiet_stream hquiet n).2.2.2.2] at hdone
    cases hdone
  exact commands_applied (AeadEngine.timed Chacha20Block.timed Poly1305Fixed96.timed) KeccakF1600.timed
    (.init _ _, ⟨[], [], none⟩) (by decide +kernel) rfl hrest

end Runs

end AxiLiteWrapper

end ZedSecure
