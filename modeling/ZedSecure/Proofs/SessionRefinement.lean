import ZedSecure.Proofs.SessionWords

/-! The session manager refines the session table. `Rel` says, for each FSM state, how
the registers and the memory stand to a table in which the command under way has
already taken effect. -/

namespace ZedSecure

open Clocked SessionManager SessionTable

variable {n : ℕ} {aead : EngineIn → EngineOut} {κ : Type} {E : StartDone aead κ}

namespace SessionManager

/-- The commands the manager accepts at a point of its run. -/
def commands (s : State n E) : Act (In n κ) → List (Cmd n)
  | .reset => [.reset]
  | .tick i =>
    (if i.cfgWrite && cfgReady s then [.configure i.cfg] else []) ++
    (if i.reqValid && reqReady s i then [.request i.req] else []) ++
    (if s.rspValid && i.rspReady then [.take] else [])

/-- The responses taken from it. -/
def responses (s : State n E) : Act (In n κ) → List (Response n)
  | .reset => []
  | .tick i => if s.rspValid && i.rspReady then [s.rsp] else []

end SessionManager

abbrev Mem (n : ℕ) := BitVec (memAddrWidth n) → BitVec 32

abbrev Valid (n : ℕ) := BitVec (slotWidth n) → Bool

/-- A slot of the hardware table holds this entry, or nothing. -/
def HoldsAt (mem : Mem n) (valid : Valid n) (slot : BitVec (slotWidth n)) : Option Session → Prop
  | none => slot.toNat < n → valid slot = false
  | some e => slot.toNat < n ∧ valid slot = true ∧ ∀ w < 23, mem (wordAddr slot w) = e.word w

def Holds (mem : Mem n) (valid : Valid n) (t : Slots n) : Prop :=
  ∀ slot, HoldsAt mem valid slot (t slot)

theorem holds_empty (mem : Mem n) : Holds mem (fun _ => false) (fun _ => none) :=
  fun _ _ => rfl

/-- A write inside one slot, and its valid bit, leave the other slots alone. -/
theorem HoldsAt.frame {mem : Mem n} {valid : Valid n} {slot slot' : BitVec (slotWidth n)}
    {o : Option Session} (h : HoldsAt mem valid slot' o) (hne : slot' ≠ slot)
    (hs : slot.toNat < n) {w : ℕ} (hw : w < 24) (d : BitVec 32) (b : Bool) :
    HoldsAt (Function.update mem (wordAddr slot w) d) valid slot' o ∧
      HoldsAt mem (Function.update valid slot b) slot' o := by
  cases o with
  | none =>
    refine ⟨h, fun hr => ?_⟩
    rw [Function.update_of_ne hne]
    exact h hr
  | some e =>
    obtain ⟨hr, hv, hm⟩ := h
    refine ⟨⟨hr, hv, fun v hvlt => ?_⟩, hr, by rwa [Function.update_of_ne hne], hm⟩
    rw [Function.update_of_ne, hm v hvlt]
    intro heq
    exact hne (wordAddr_inj hr hs (by omega) hw heq).1

def EngineRest (s : State n E) : Prop := s.engineStart = false ∧ E.idle s.engine

/-- An install is under way: the words below `cfgWordQ` are in place. -/
structure Installing (s : State n E) (t : Table n) : Prop where
  inRange : s.cfgQ.slot.toNat < n
  base : s.cfgBaseQ = slotBase s.cfgQ.slot
  word : s.cfgWordQ.toNat < 24
  entry : t.slots s.cfgQ.slot = some (.fresh s.cfgQ)
  others : ∀ slot ≠ s.cfgQ.slot, HoldsAt s.sessionMem s.sessionValid slot (t.slots slot)
  written : ∀ w < s.cfgWordQ.toNat, w < 23 →
    s.sessionMem (wordAddr s.cfgQ.slot w) = (Session.fresh s.cfgQ).word w

/-- A request is under way that found the table `old` and its entry `e`. -/
structure Serving (s : State n E) (t : Table n) (old : Slots n) (e : Session) : Prop where
  inRange : s.requestQ.slot.toNat < n
  base : s.activeBaseQ = slotBase s.requestQ.slot
  entry : old s.requestQ.slot = some e
  slots : t.slots = (serve aead old s.requestQ).1
  pending : t.pending = some (serve aead old s.requestQ).2
  rspSlot : s.rsp.slot = s.requestQ.slot
  holds : Holds s.sessionMem s.sessionValid old

/-- The words below `readWordQ` are in the context registers. -/
def Reading (s : State n E) (e : Session) : Prop :=
  s.readWordQ.toNat < 24 ∧ ∀ w < s.readWordQ.toNat, w < 23 → s.active.word w = e.word w

/-- A counter is being written back after a successful operation. -/
structure Counting (s : State n E) (t : Table n) : Prop where
  inRange : s.requestQ.slot.toNat < n
  base : s.activeBaseQ = slotBase s.requestQ.slot
  entry : t.slots s.requestQ.slot = some (s.active.advance s.requestQ.decrypt)
  others : ∀ slot ≠ s.requestQ.slot, HoldsAt s.sessionMem s.sessionValid slot (t.slots slot)
  valid : s.sessionValid s.requestQ.slot = true
  updated : s.updatedCounterQ = s.active.counter s.requestQ.decrypt + 1#64
  lo : s.counterWordLoQ.toNat = Session.counterLo s.requestQ.decrypt
  hi : s.counterWordHiQ.toNat = Session.counterHi s.requestQ.decrypt
  pending : t.pending = some s.rsp
  ok : s.rsp.authOk = true
  rspSlot : s.rsp.slot = s.requestQ.slot
  counter : s.rsp.counter = s.active.counter s.requestQ.decrypt

/-- The words of the slot being counted that have their final value. -/
def Final (s : State n E) (ok : ℕ → Prop) : Prop :=
  ∀ w < 23, ok w → s.sessionMem (wordAddr s.requestQ.slot w) =
    (s.active.advance s.requestQ.decrypt).word w

/-- A successful answer is for the counter before the one its slot now expects. -/
def Advanced (s : State n E) (t : Table n) : Prop :=
  s.rsp.authOk = true → ∃ e, t.slots s.rsp.slot = some e ∧
    e.counter s.requestQ.decrypt = s.rsp.counter + 1#64

def Rel (s : State n E) (t : Table n) : Prop :=
  match s.state with
  | .idle => EngineRest s ∧ s.rspValid = false ∧ t.pending = none ∧
      Holds s.sessionMem s.sessionValid t.slots
  | .cfgWrite => EngineRest s ∧ s.rspValid = false ∧ t.pending = none ∧ Installing s t
  | .readIssue => EngineRest s ∧ s.rspValid = false ∧
      ∃ old e, Serving s t old e ∧ Reading s e
  | .readCapture => EngineRest s ∧ s.rspValid = false ∧
      ∃ old e, Serving s t old e ∧ Reading s e ∧
        s.memRdata = s.sessionMem (wordAddr s.requestQ.slot s.readWordQ.toNat)
  | .check => EngineRest s ∧ s.rspValid = false ∧ ∃ old, Serving s t old s.active
  | .engineWait => s.rspValid = false ∧ (∃ old, Serving s t old s.active) ∧
      ¬ Refused s.active s.requestQ ∧ s.engineIn = engineOperands s.active s.requestQ ∧
      s.operationCounterQ = s.active.counter s.requestQ.decrypt ∧
      E.Issued s.engineIn s.engineStart s.engine
  | .countWriteLo => EngineRest s ∧ s.rspValid = false ∧ Counting s t ∧
      Final s fun w => w ≠ Session.counterLo s.requestQ.decrypt ∧
        w ≠ Session.counterHi s.requestQ.decrypt
  | .countWriteHi => EngineRest s ∧ s.rspValid = false ∧ Counting s t ∧
      Final s fun w => w ≠ Session.counterHi s.requestQ.decrypt
  | .response => EngineRest s ∧ s.rspValid = true ∧ t.pending = some s.rsp ∧
      Holds s.sessionMem s.sessionValid t.slots ∧ Advanced s t

theorem EngineRest.frame {s : State n E} (h : EngineRest s) (i : In n κ) :
    EngineRest (frame s i) ∧ E.done (frame s i).engine = false := by
  obtain ⟨hst, hid⟩ := h
  have hw := E.idle_wait s.engine i.engine hid
  simpa [EngineRest, SessionManager.frame, hst] using hw

/-- The states that drive the write port of the memory. -/
def SessionManager.St.writes : St → Bool
  | .cfgWrite | .countWriteLo | .countWriteHi => true
  | _ => false

theorem frame_sessionMem {s : State n E} {st : St} (i : In n κ) (hst : s.state = st)
    (h : st.writes = false) : (frame s i).sessionMem = s.sessionMem := by
  cases st <;> simp only [St.writes, Bool.true_eq_false] at h <;>
    simp only [frame, memNext, memWrite, hst]

theorem serve_none {t : Slots n} {q : Request n} (h : t q.slot = none) :
    serve aead t q = (t, refusal q) := by simp only [serve, h]

theorem serve_refused {t : Slots n} {q : Request n} {e : Session} (h : t q.slot = some e)
    (hr : Refused e q) : serve aead t q = (t, refusal q) := by simp only [serve, h, hr, if_true]

theorem serve_answer {t : Slots n} {q : Request n} {e : Session} (h : t q.slot = some e)
    (hr : ¬ Refused e q) {out : EngineOut} (ho : aead (engineOperands e q) = out) :
    serve aead t q = (if out.authOk then Function.update t q.slot (some (e.advance q.decrypt)) else t,
      answer e q out) := by
  simp only [serve, h, hr, if_false, ho]

theorem rel_rst (s : State n E) (t : Table n) :
    Rel ((design n E).step s .reset) ((machine aead).run t (commands s .reset)).1 := by
  simp only [Design.step, design, commands, Server.run_singleton, machine]
  exact ⟨⟨rfl, E.init_idle⟩, rfl, rfl, holds_empty _⟩

theorem rel_idle_configure {s : State n E} {t : Table n} (i : In n κ) (hst : s.state = .idle)
    (h : Rel s t) (hc : i.cfgWrite = true) :
    Rel (next s i) ⟨configure t.slots i.cfg, t.pending⟩ := by
  simp only [Rel, hst] at h
  obtain ⟨hrest, hrv, hpend, hold⟩ := h
  obtain ⟨hrest', -⟩ := hrest.frame i
  have hm := frame_sessionMem i hst rfl
  have hs : (frame s i).state = .idle := hst
  by_cases hr : i.cfg.slot.toNat < n
  · cases hv : i.cfg.valid
    · simp only [Rel, next, hst, hc, hv, slotInRange, hr, decide_true, Bool.not_true,
        Bool.not_false, if_true, Bool.false_eq_true, if_false, configure, hs]
      refine ⟨hrest', hrv, hpend, fun slot => ?_⟩
      by_cases heq : slot = i.cfg.slot
      · subst heq
        rw [Function.update_self]
        exact fun _ => Function.update_self ..
      · rw [Function.update_of_ne heq, hm]
        exact ((hold slot).frame heq hr (w := 0) (by omega) 0 false).2
    · simp only [Rel, next, hst, hc, hv, slotInRange, hr, decide_true, Bool.not_true, if_true,
        Bool.false_eq_true, if_false, configure]
      refine ⟨hrest', hrv, hpend, hr, rfl, (by decide : (0#5).toNat < 24),
        Function.update_self .., ?_, ?_⟩
      · intro slot hne
        change slot ≠ i.cfg.slot at hne
        change HoldsAt (frame s i).sessionMem s.sessionValid slot
          (Function.update t.slots i.cfg.slot (some (.fresh i.cfg)) slot)
        rw [Function.update_of_ne hne, hm]
        exact hold slot
      · intro w hw
        exact absurd hw (Nat.not_lt_zero w)
  · simp only [Rel, next, hst, hc, slotInRange, hr, decide_false, Bool.not_false, if_true, if_false,
      configure, hs, hm]
    exact ⟨hrest', hrv, hpend, hold⟩

theorem rel_idle_request {s : State n E} {t : Table n} (i : In n κ) (hst : s.state = .idle)
    (h : Rel s t) (hc : i.cfgWrite = false) (hq : i.reqValid = true) :
    Rel (next s i) ⟨(serve aead t.slots i.req).1, some (serve aead t.slots i.req).2⟩ := by
  simp only [Rel, hst] at h
  obtain ⟨hrest, hrv, hpend, hold⟩ := h
  obtain ⟨hrest', -⟩ := hrest.frame i
  have hm := frame_sessionMem i hst rfl
  have hslot := hold i.req.slot
  cases he : t.slots i.req.slot with
  | none =>
    rw [he] at hslot
    have hcond : (!slotInRange i.req.slot || !s.sessionValid i.req.slot) = true := by
      by_cases hr : i.req.slot.toNat < n
      · simp [hslot hr]
      · simp [slotInRange, hr]
    simp only [Rel, next, hst, hc, hq, hcond, if_true, Bool.false_eq_true, if_false, serve_none he, hm]
    exact ⟨hrest', trivial, rfl, hold, fun hok => Bool.noConfusion hok⟩
  | some e =>
    rw [he] at hslot
    obtain ⟨hr, hv, -⟩ := hslot
    have hcond : (!slotInRange i.req.slot || !s.sessionValid i.req.slot) = false := by
      simp [slotInRange, hr, hv]
    simp only [Rel, next, hst, hc, hq, hcond, if_true, Bool.false_eq_true, if_false]
    refine ⟨hrest', hrv, t.slots, e, ⟨hr, rfl, he, rfl, rfl, rfl, ?_⟩,
      (by decide : (0#5).toNat < 24), ?_⟩
    · rw [hm]
      exact hold
    · intro w hw
      exact absurd hw (Nat.not_lt_zero w)

theorem rel_idle_wait {s : State n E} {t : Table n} (i : In n κ) (hst : s.state = .idle)
    (h : Rel s t) (hc : i.cfgWrite = false) (hq : i.reqValid = false) : Rel (next s i) t := by
  simp only [Rel, hst] at h
  obtain ⟨hrest, hrv, hpend, hold⟩ := h
  have hm := frame_sessionMem i hst rfl
  have hs : (frame s i).state = .idle := hst
  simp only [next, hst, hc, hq, Bool.false_eq_true, if_false, Rel, hs, hm]
  exact ⟨(hrest.frame i).1, hrv, hpend, hold⟩

theorem rel_cfgWrite {s : State n E} {t : Table n} (i : In n κ) (hst : s.state = .cfgWrite)
    (h : Rel s t) : Rel (next s i) t := by
  simp only [Rel, hst] at h
  obtain ⟨hrest, hrv, hpend, hinst⟩ := h
  obtain ⟨hrest', -⟩ := hrest.frame i
  have hm : (frame s i).sessionMem = Function.update s.sessionMem
      (wordAddr s.cfgQ.slot s.cfgWordQ.toNat) (configWord s.cfgQ s.cfgWordQ.toNat) := by
    simp only [frame, memNext, memWrite, hst, hinst.base, wordAddr_eq]
  -- the word just written is the one the fresh session has there
  have hw : ∀ w < s.cfgWordQ.toNat + 1, w < 23 →
      (frame s i).sessionMem (wordAddr s.cfgQ.slot w) = (Session.fresh s.cfgQ).word w := by
    intro w hw hw23
    rw [hm]
    rcases Nat.lt_succ_iff_lt_or_eq.mp hw with hlt | rfl
    · rw [Function.update_of_ne, hinst.written w hlt hw23]
      intro heq
      exact absurd (wordAddr_inj hinst.inRange hinst.inRange (by omega) hinst.word heq).2 (by omega)
    · rw [Function.update_self, Session.word_fresh]
  have hothers : ∀ slot ≠ s.cfgQ.slot,
      HoldsAt (frame s i).sessionMem s.sessionValid slot (t.slots slot) := by
    intro slot hne
    rw [hm]
    exact ((hinst.others slot hne).frame hne hinst.inRange hinst.word _ false).1
  by_cases h23 : s.cfgWordQ = 23#5
  · simp only [Rel, next, hst, h23, if_true]
    refine ⟨hrest', hrv, hpend, fun slot => ?_⟩
    by_cases heq : slot = s.cfgQ.slot
    · subst heq
      rw [hinst.entry]
      refine ⟨hinst.inRange, Function.update_self .., fun w hlt => hw w ?_ hlt⟩
      rw [h23]
      exact Nat.lt_succ_of_lt hlt
    · exact ((hothers slot heq).frame heq hinst.inRange hinst.word 0 true).2
  · have hne : s.cfgWordQ.toNat ≠ 23 := fun hh => h23 (BitVec.eq_of_toNat_eq hh)
    have hadd : (s.cfgWordQ + 1#5).toNat = s.cfgWordQ.toNat + 1 := by
      have := hinst.word
      simp only [BitVec.toNat_add, BitVec.toNat_ofNat]
      omega
    have hs : (frame s i).state = .cfgWrite := hst
    simp only [Rel, next, hst, h23, if_false, hs]
    refine ⟨hrest', hrv, hpend, hinst.inRange, hinst.base, ?_, hinst.entry, hothers, ?_⟩
    · have := hinst.word
      simp only [hadd]
      omega
    · simp only [hadd]
      exact hw

/-- Nothing a served request depends on changes while its context is read and used. -/
theorem Serving.frame {s s' : State n E} {t : Table n} {old : Slots n} {e e' : Session}
    (h : Serving s t old e) (he : e' = e) (hq : s'.requestQ = s.requestQ)
    (hb : s'.activeBaseQ = s.activeBaseQ) (hr : s'.rsp.slot = s.rsp.slot)
    (hm : s'.sessionMem = s.sessionMem) (hv : s'.sessionValid = s.sessionValid) :
    Serving s' t old e' := by
  subst he
  exact ⟨by rw [hq]; exact h.inRange, by rw [hb, hq]; exact h.base, by rw [hq]; exact h.entry,
    by rw [hq]; exact h.slots, by rw [hq]; exact h.pending, by rw [hr, hq]; exact h.rspSlot,
    by rw [hm, hv]; exact h.holds⟩

theorem rel_readIssue {s : State n E} {t : Table n} (i : In n κ) (hst : s.state = .readIssue)
    (h : Rel s t) : Rel (next s i) t := by
  simp only [Rel, hst] at h
  obtain ⟨hrest, hrv, old, e, hserv, hread⟩ := h
  have hm := frame_sessionMem i hst rfl
  simp only [Rel, next, hst]
  refine ⟨(hrest.frame i).1, hrv, old, e, hserv.frame rfl rfl rfl rfl hm rfl, hread, ?_⟩
  simp only [hm]
  simp only [frame, memRead, hst, hserv.base, wordAddr_eq]

theorem rel_readCapture {s : State n E} {t : Table n} (i : In n κ) (hst : s.state = .readCapture)
    (h : Rel s t) : Rel (next s i) t := by
  simp only [Rel, hst] at h
  obtain ⟨hrest, hrv, old, e, hserv, ⟨hlt, hread⟩, hdata⟩ := h
  obtain ⟨hrest', -⟩ := hrest.frame i
  have hm := frame_sessionMem i hst rfl
  by_cases h23 : s.readWordQ = 23#5
  · have hact : s.active.capture s.readWordQ.toNat s.memRdata = e := by
      rw [h23]
      refine (Session.capture_reserved _ _).trans (Session.ext_word fun w hw => hread w ?_ hw)
      rw [h23]
      exact hw
    simp only [Rel, next, hst, h23, if_true]
    rw [h23] at hact
    exact ⟨hrest', hrv, old, hserv.frame hact rfl rfl rfl hm rfl⟩
  · have hne : s.readWordQ.toNat ≠ 23 := fun hh => h23 (BitVec.eq_of_toNat_eq hh)
    have hadd : (s.readWordQ + 1#5).toNat = s.readWordQ.toNat + 1 := by
      simp only [BitVec.toNat_add, BitVec.toNat_ofNat]
      omega
    -- the word on the read register is the entry's
    have hword : s.memRdata = e.word s.readWordQ.toNat := by
      have hold := hserv.holds s.requestQ.slot
      rw [hserv.entry] at hold
      rw [hdata, hold.2.2 _ (by omega)]
    simp only [Rel, next, hst, h23, if_false]
    refine ⟨hrest', hrv, old, e, hserv.frame rfl rfl rfl rfl hm rfl, ?_, ?_⟩
    · simp only [hadd]
      omega
    · intro w hw hw23
      simp only [hadd] at hw
      simp only [Session.word_capture _ _ (by omega : s.readWordQ.toNat < 23) hw23, hword]
      split_ifs with heq
      · rw [heq]
      · exact hread w (by omega) hw23

theorem rel_check {s : State n E} {t : Table n} (i : In n κ) (hst : s.state = .check)
    (h : Rel s t) : Rel (next s i) t := by
  simp only [Rel, hst] at h
  obtain ⟨hrest, hrv, old, hserv⟩ := h
  obtain ⟨hrest', hdone⟩ := hrest.frame i
  have hm := frame_sessionMem i hst rfl
  by_cases hr : Refused s.active s.requestQ
  · have hserve : serve aead old s.requestQ = _ := serve_refused hserv.entry hr
    have hcond := hr
    unfold Refused at hcond
    simp only [Rel, next, hst, hcond, if_true]
    refine ⟨hrest', trivial, ?_, ?_, fun hok => Bool.noConfusion hok⟩
    · rw [hserv.pending, hserve, hserv.rspSlot]
      rfl
    · rw [hserv.slots, hserve, hm]
      exact hserv.holds
  · have hcond := hr
    unfold Refused at hcond
    simp only [Rel, next, hst, hcond, if_false]
    refine ⟨hrv, ⟨old, hserv.frame rfl rfl rfl rfl hm rfl⟩, hr, rfl, ?_,
      E.issued_of_idle hrest'.2 hdone⟩
    -- past the check the request's counter is the session's
    change (if s.requestQ.decrypt then s.requestQ.counter else s.active.txCounter) =
      s.active.counter s.requestQ.decrypt
    cases hd : s.requestQ.decrypt
    · rfl
    · simp only [Session.counter, if_true]
      by_contra hne
      exact hr (Or.inr ⟨hd, hne⟩)

theorem rel_engineWait {s : State n E} {t : Table n} (i : In n κ) (hst : s.state = .engineWait)
    (h : Rel s t) : Rel (next s i) t := by
  simp only [Rel, hst] at h
  obtain ⟨hrv, ⟨old, hserv⟩, hr, hin, hctr, hiss⟩ := h
  have hm := frame_sessionMem i hst rfl
  by_cases hd : E.done s.engine = true
  · obtain ⟨hstart, hidle, hres⟩ := hiss.answer hd
    obtain ⟨hrest', -⟩ := EngineRest.frame (s := s) ⟨hstart, hidle⟩ i
    rw [hin] at hres
    have hserve := serve_answer hserv.entry hr hres.symm
    have hslots : t.slots = _ := hserv.slots.trans (congrArg Prod.fst hserve)
    have hpend : t.pending = _ := hserv.pending.trans (congrArg (some ∘ Prod.snd) hserve)
    cases hok : (E.result s.engine).authOk
    · simp only [hok, Bool.false_eq_true, if_false] at hslots
      simp only [Rel, next, hst, hd, hok, if_true, Bool.false_eq_true, if_false]
      refine ⟨hrest', trivial, ?_, ?_, fun hok => Bool.noConfusion hok⟩
      · rw [hpend, hserv.rspSlot, hctr]
        simp [answer, hok]
      · rw [hslots, hm]
        exact hserv.holds
    · simp only [hok, if_true] at hslots
      -- both directions leave the same picture, with their own counter words
      have hcount : ∀ s' : State n E, s'.requestQ = s.requestQ → s'.active = s.active →
          s'.activeBaseQ = s.activeBaseQ → s'.sessionMem = s.sessionMem →
          s'.sessionValid = s.sessionValid →
          s'.rsp = answer s.active s.requestQ (E.result s.engine) →
          s'.updatedCounterQ = s.active.counter s.requestQ.decrypt + 1#64 →
          s'.counterWordLoQ.toNat = Session.counterLo s.requestQ.decrypt →
          s'.counterWordHiQ.toNat = Session.counterHi s.requestQ.decrypt →
          Counting s' t ∧ Final s' fun w => w ≠ Session.counterLo s'.requestQ.decrypt ∧
            w ≠ Session.counterHi s'.requestQ.decrypt := by
        intro s' eq ea eb em ev er eu elo ehi
        have hslot := hserv.holds s.requestQ.slot
        rw [hserv.entry] at hslot
        refine ⟨⟨?_, ?_, ?_, ?_, ?_, ?_, ?_, ?_, ?_, ?_, ?_, ?_⟩, ?_⟩
        · rw [eq]; exact hserv.inRange
        · rw [eq, eb]; exact hserv.base
        · rw [eq, ea, hslots, Function.update_self]
        · intro slot hne
          rw [eq] at hne
          rw [em, ev, hslots, Function.update_of_ne hne]
          exact hserv.holds slot
        · rw [eq, ev]; exact hslot.2.1
        · rw [eq, ea]; exact eu
        · rw [eq]; exact elo
        · rw [eq]; exact ehi
        · rw [hpend, er]; rfl
        · rw [er]; exact hok
        · rw [er, eq]; rfl
        · rw [er, eq, ea]; rfl
        · rintro w hw ⟨hlo, hhi⟩
          rw [eq] at hlo hhi
          rw [eq, ea, em, Session.word_advance_of_ne _ _ hw hlo hhi]
          exact hslot.2.2 w hw
      have hrsp : (⟨true, false, s.rsp.slot, s.operationCounterQ, (E.result s.engine).data,
          (E.result s.engine).tag⟩ : Response n) = answer s.active s.requestQ (E.result s.engine) := by
        simp [answer, hok, hserv.rspSlot, hctr]
      cases hdec : s.requestQ.decrypt <;>
        simp only [Rel, next, hst, hd, hok, hdec, if_true, Bool.false_eq_true, if_false,
          Bool.not_true, hrsp]
      · refine ⟨hrest', hrv, ?_⟩
        apply hcount <;> first | rfl | exact hm | (rw [hdec]; rfl)
      · refine ⟨hrest', hrv, ?_⟩
        apply hcount <;> first | rfl | exact hm | (rw [hdec]; rfl)
  · have hd' : E.done s.engine = false := by simpa using hd
    have hs : (frame s i).state = .engineWait := hst
    simp only [Rel, next, hst, hd', Bool.false_eq_true, if_false, hs]
    exact ⟨hrv, ⟨old, hserv.frame rfl rfl rfl rfl hm rfl⟩, hr, hin, hctr, hiss.next hd' i.engine⟩

/-- The low half is in place after its write, and so is all but the high half. -/
theorem rel_countWriteLo {s : State n E} {t : Table n} (i : In n κ) (hst : s.state = .countWriteLo)
    (h : Rel s t) : Rel (next s i) t := by
  simp only [Rel, hst] at h
  obtain ⟨hrest, hrv, hcnt, hfin⟩ := h
  have hlo : Session.counterLo s.requestQ.decrypt < 23 := by cases s.requestQ.decrypt <;> decide
  have hm : (frame s i).sessionMem = Function.update s.sessionMem
      (wordAddr s.requestQ.slot (Session.counterLo s.requestQ.decrypt))
      (slice (s.active.counter s.requestQ.decrypt + 1#64) 0 32) := by
    simp only [frame, memNext, memWrite, hst, hcnt.base, wordAddr_eq, hcnt.lo, hcnt.updated]
  simp only [Rel, next, hst]
  refine ⟨(hrest.frame i).1, hrv, ⟨hcnt.inRange, hcnt.base, hcnt.entry, fun slot hne => ?_,
    hcnt.valid, hcnt.updated, hcnt.lo, hcnt.hi, hcnt.pending, hcnt.ok, hcnt.rspSlot,
    hcnt.counter⟩, fun w hw hhi => ?_⟩
  · change HoldsAt (frame s i).sessionMem s.sessionValid slot (t.slots slot)
    rw [hm]
    exact ((hcnt.others slot hne).frame hne hcnt.inRange (by omega) _ false).1
  · change (frame s i).sessionMem (wordAddr s.requestQ.slot w) =
      (s.active.advance s.requestQ.decrypt).word w
    rw [hm]
    by_cases heq : w = Session.counterLo s.requestQ.decrypt
    · rw [heq, Function.update_self, Session.word_advance_lo]
    · rw [Function.update_of_ne, hfin w hw ⟨heq, hhi⟩]
      exact fun hh => heq (wordAddr_inj hcnt.inRange hcnt.inRange (by omega) (by omega) hh).2

theorem rel_countWriteHi {s : State n E} {t : Table n} (i : In n κ) (hst : s.state = .countWriteHi)
    (h : Rel s t) : Rel (next s i) t := by
  simp only [Rel, hst] at h
  obtain ⟨hrest, hrv, hcnt, hfin⟩ := h
  have hhi : Session.counterHi s.requestQ.decrypt < 23 := by cases s.requestQ.decrypt <;> decide
  have hm : (frame s i).sessionMem = Function.update s.sessionMem
      (wordAddr s.requestQ.slot (Session.counterHi s.requestQ.decrypt))
      (slice (s.active.counter s.requestQ.decrypt + 1#64) 32 32) := by
    simp only [frame, memNext, memWrite, hst, hcnt.base, wordAddr_eq, hcnt.hi, hcnt.updated]
  simp only [Rel, next, hst]
  refine ⟨(hrest.frame i).1, trivial, hcnt.pending, fun slot => ?_,
    fun _ => ⟨s.active.advance s.requestQ.decrypt, ?_, ?_⟩⟩
  rotate_left
  · change t.slots s.rsp.slot = _
    rw [hcnt.rspSlot]
    exact hcnt.entry
  · change (s.active.advance s.requestQ.decrypt).counter s.requestQ.decrypt = s.rsp.counter + 1#64
    rw [hcnt.counter]
    cases s.requestQ.decrypt <;> rfl
  change HoldsAt (frame s i).sessionMem s.sessionValid slot (t.slots slot)
  rw [hm]
  by_cases hslot : slot = s.requestQ.slot
  · subst hslot
    rw [hcnt.entry]
    refine ⟨hcnt.inRange, hcnt.valid, fun w hw => ?_⟩
    by_cases heq : w = Session.counterHi s.requestQ.decrypt
    · rw [heq, Function.update_self, Session.word_advance_hi]
    · rw [Function.update_of_ne, hfin w hw heq]
      exact fun hh => heq (wordAddr_inj hcnt.inRange hcnt.inRange (by omega) (by omega) hh).2
  · exact ((hcnt.others slot hslot).frame hslot hcnt.inRange (by omega) _ false).1

theorem rel_response {s : State n E} {t : Table n} (i : In n κ) (hst : s.state = .response)
    (h : Rel s t) : Rel (next s i) (if i.rspReady then ⟨t.slots, none⟩ else t) := by
  simp only [Rel, hst] at h
  obtain ⟨hrest, hrv, hpend, hold, hadv⟩ := h
  have hm := frame_sessionMem i hst rfl
  have hs : (frame s i).state = .response := hst
  cases hr : i.rspReady <;>
    simp only [Rel, next, hst, hr, if_true, Bool.false_eq_true, if_false, hs, hm]
  · exact ⟨(hrest.frame i).1, hrv, hpend, hold, hadv⟩
  · exact ⟨(hrest.frame i).1, trivial, trivial, hold⟩

/-- Responses show only in `S_RESPONSE`, and then the pending one shows. -/
theorem Rel.rspValid_iff {s : State n E} {t : Table n} (h : Rel s t) :
    s.rspValid = true ↔ s.state = .response := by
  cases hst : s.state <;> simp only [Rel, hst] at h <;> simp [h]

theorem Rel.pending_of_rspValid {s : State n E} {t : Table n} (h : Rel s t)
    (hv : s.rspValid = true) : t.pending = some s.rsp := by
  have hst := h.rspValid_iff.mp hv
  simp only [Rel, hst] at h
  exact h.2.2.1

theorem commands_busy {s : State n E} (i : In n κ) (hst : s.state ≠ .idle) :
    commands s (.tick i) = if s.rspValid && i.rspReady then [.take] else [] := by
  simp [commands, cfgReady, reqReady, hst]

theorem commands_idle {s : State n E} (i : In n κ) (hst : s.state = .idle)
    (hrv : s.rspValid = false) : commands s (.tick i) = if i.cfgWrite then [.configure i.cfg]
      else if i.reqValid then [.request i.req] else [] := by
  cases hc : i.cfgWrite <;> cases hq : i.reqValid <;>
    simp [commands, cfgReady, reqReady, hst, hrv, hc, hq]

theorem request_accepted {s : State n E} {i : In n κ} {q : Request n}
    (h : Cmd.request q ∈ commands s (.tick i)) :
    s.state = .idle ∧ i.cfgWrite = false ∧ i.reqValid = true ∧ i.req = q := by
  have h' : (i.reqValid = true ∧ s.state = .idle ∧ i.cfgWrite = false) ∧ q = i.req := by
    simpa [commands, reqReady] using h
  exact ⟨h'.1.2.1, h'.1.2.2, h'.1.1, h'.2.symm⟩

theorem configure_accepted {s : State n E} {i : In n κ} {c : Config n}
    (h : Cmd.configure c ∈ commands s (.tick i)) :
    s.state = .idle ∧ i.cfgWrite = true ∧ i.cfg = c := by
  have h' : (i.cfgWrite = true ∧ s.state = .idle) ∧ c = i.cfg := by
    simpa [commands, cfgReady] using h
  exact ⟨h'.1.2, h'.1.1, h'.2.symm⟩

/-- One step of the manager is the table's step on the commands it accepts. -/
theorem rel_step (s : State n E) (t : Table n) (x : Act (In n κ)) (h : Rel s t) :
    Rel ((design n E).step s x) ((machine aead).run t (commands s x)).1 := by
  cases x with
  | reset => exact rel_rst s t
  | tick i =>
    change Rel (next s i) _
    by_cases hidle : s.state = .idle
    · have hrv : s.rspValid = false := by
        have := h.rspValid_iff
        rw [hidle] at this
        simpa using this
      rw [commands_idle i hidle hrv]
      cases hc : i.cfgWrite
      · cases hq : i.reqValid
        · exact rel_idle_wait i hidle h hc hq
        · exact rel_idle_request i hidle h hc hq
      · exact rel_idle_configure i hidle h hc
    · rw [commands_busy i hidle]
      by_cases hresp : s.state = .response
      · have hr := rel_response i hresp h
        rw [h.rspValid_iff.mpr hresp, Bool.true_and]
        cases hrr : i.rspReady <;> simpa [hrr, machine] using hr
      · have hrv : s.rspValid = false := by
          simpa [hresp] using h.rspValid_iff
        simp only [hrv, Bool.false_and, Bool.false_eq_true, if_false, Server.run_nil]
        cases hst : s.state with
        | idle => exact absurd hst hidle
        | cfgWrite => exact rel_cfgWrite i hst h
        | readIssue => exact rel_readIssue i hst h
        | readCapture => exact rel_readCapture i hst h
        | check => exact rel_check i hst h
        | engineWait => exact rel_engineWait i hst h
        | countWriteLo => exact rel_countWriteLo i hst h
        | countWriteHi => exact rel_countWriteHi i hst h
        | response => exact absurd hst hresp

theorem responses_eq (s : State n E) (t : Table n) (x : Act (In n κ)) (h : Rel s t) :
    responses s x = ((machine aead).run t (commands s x)).2 := by
  cases x with
  | reset => rfl
  | tick i =>
    simp only [responses]
    cases hv : s.rspValid
    · have hnot : ¬ s.state = .response := by
        rw [← h.rspValid_iff, hv]
        decide
      by_cases hidle : s.state = .idle
      · rw [commands_idle i hidle hv]
        cases i.cfgWrite <;> cases i.reqValid <;> rfl
      · rw [commands_busy i hidle, hv]
        rfl
    · have hidle : s.state ≠ .idle := by
        rw [h.rspValid_iff.mp hv]
        decide
      rw [commands_busy i hidle, hv]
      cases i.rspReady
      · rfl
      · simp [machine, h.pending_of_rspValid hv]

/-- The manager simulates the table. -/
theorem manager_simulates :
    Simulates (design n E) (machine aead) commands responses Rel :=
  ⟨rel_step, responses_eq⟩

/-- The states from the acceptance of a request for a valid slot to its response. -/
def SessionManager.St.serving : St → Bool
  | .readIssue | .readCapture | .check | .engineWait | .countWriteLo | .countWriteHi => true
  | _ => false

theorem serving_next {s : State n E} (i : In n κ) (h : s.state.serving = true) :
    (next s i).requestQ = s.requestQ ∧
      ((next s i).state.serving = true ∨ (next s i).state = .response) := by
  cases hst : s.state <;> simp only [hst, St.serving, Bool.false_eq_true] at h <;>
    simp only [next, hst]
  case readCapture => split_ifs <;> exact ⟨rfl, by simp [St.serving]⟩
  case check => split_ifs <;> exact ⟨rfl, by simp [St.serving]⟩
  case engineWait =>
    have hs : (frame s i).state = .engineWait := hst
    split_ifs <;> exact ⟨rfl, by simp [St.serving, hs]⟩
  all_goals exact ⟨rfl, by simp [St.serving]⟩

theorem Rel.of_serving {s : State n E} {t : Table n} (h : Rel s t)
    (hs : s.state.serving = true) : s.rspValid = false ∧ ∃ r, t.pending = some r := by
  cases hst : s.state <;> simp only [hst, St.serving, Bool.false_eq_true] at hs <;>
    simp only [Rel, hst] at h
  case readIssue => exact ⟨h.2.1, _, h.2.2.choose_spec.choose_spec.1.pending⟩
  case readCapture => exact ⟨h.2.1, _, h.2.2.choose_spec.choose_spec.1.pending⟩
  case check => exact ⟨h.2.1, _, h.2.2.choose_spec.pending⟩
  case engineWait => exact ⟨h.1, _, h.2.1.choose_spec.pending⟩
  case countWriteLo => exact ⟨h.2.1, _, h.2.2.1.pending⟩
  case countWriteHi => exact ⟨h.2.1, _, h.2.2.1.pending⟩

end ZedSecure
