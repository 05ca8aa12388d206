import ZedSecure.Proofs.SessionRefinement
import Mathlib.Data.List.Nodup

/-! Counters over a run: what is started and answered for one slot between two installs,
and what an error leaves behind. The table entry is ahead of what the ports have shown
by the operation under way, so the tally adds that operation. -/

namespace ZedSecure

open Clocked SessionManager SessionTable

variable {n : ℕ} {κ : Type}

/-- The response is a success for the slot. -/
def Response.okFor (r : Response n) (slot : BitVec (slotWidth n)) : Prop :=
  r.authOk = true ∧ r.slot = slot

instance (r : Response n) (slot : BitVec (slotWidth n)) : Decidable (r.okFor slot) := by
  unfold Response.okFor; infer_instance

namespace SessionManager

variable {aead : EngineIn → EngineOut} {E : StartDone aead κ}

/-- An accepted install of the slot. -/
def installs (slot : BitVec (slotWidth n)) : Cmd n → Bool
  | .configure c => decide (c.slot = slot) && c.valid
  | _ => false

/-- Key and nonce of an encryption started for the slot at this cycle. -/
def encryptStarts (slot : BitVec (slotWidth n)) (s : State n E) :
    Act (In n κ) → List (BitVec 256 × BitVec 96)
  | .reset => []
  | .tick _ =>
    if s.engineStart ∧ s.engineIn.decrypt = false ∧ s.requestQ.slot = slot then
      [(s.engineIn.key, s.engineIn.nonce)] else []

/-- The successful response for the slot and direction that shows from this edge on. -/
def answered (slot : BitVec (slotWidth n)) (d : Bool) (s : State n E) :
    Act (In n κ) → List (Response n)
  | .reset => []
  | .tick i =>
    let s' := next s i
    if s.rspValid = false ∧ s'.rspValid = true ∧ s'.requestQ.decrypt = d ∧ s'.rsp.okFor slot
    then [s'.rsp] else []

/-- The counter the memory holds for the slot and direction. -/
def storedCounter (s : State n E) (slot : BitVec (slotWidth n)) (d : Bool) : BitVec 64 :=
  s.sessionMem (wordAddr slot (Session.counterHi d)) ++
    s.sessionMem (wordAddr slot (Session.counterLo d))

end SessionManager

theorem stored_eq {aead : EngineIn → EngineOut} {E : StartDone aead κ} {s : State n E}
    {slot : BitVec (slotWidth n)} {e : Session} {d : Bool}
    (h : HoldsAt s.sessionMem s.sessionValid slot (some e)) :
    storedCounter s slot d = e.counter d := by
  obtain ⟨-, -, hmem⟩ := h
  have hsplit : ∀ x : BitVec 64, slice x 32 32 ++ slice x 0 32 = x := fun x =>
    (BitVec.extractLsb'_append_extractLsb'_eq_extractLsb' rfl).trans BitVec.extractLsb'_eq_self
  rw [← hsplit (e.counter d), storedCounter]
  cases d <;>
    rw [hmem _ (by decide : Session.counterHi _ < 23), hmem _ (by decide : Session.counterLo _ < 23)] <;>
    rfl

/-- The session as installed. -/
def Session.rewind (e : Session) : Session := { e with txCounter := 0#64, rxCounter := 0#64 }

theorem Session.rewind_advance (e : Session) (d : Bool) : (e.advance d).rewind = e.rewind := by
  cases d <;> rfl

theorem Session.counter_advance (e : Session) (b d : Bool) :
    (e.advance b).counter d = if b = d then e.counter d + 1#64 else e.counter d := by
  cases b <;> cases d <;> rfl

section Tally

variable {aead : EngineIn → EngineOut} {E : StartDone aead κ}

/-- Serving advances the counter of a successful request and nothing else. -/
theorem serve_entry {t : Slots n} {q : Request n} {slot : BitVec (slotWidth n)} {e' : Session}
    (h : (serve aead t q).1 slot = some e') :
    ∃ e, t slot = some e ∧ e'.rewind = e.rewind ∧ ∀ d, e'.counter d = e.counter d +
      if (serve aead t q).2.okFor slot ∧ q.decrypt = d then 1#64 else 0#64 := by
  cases hq : t q.slot with
  | none =>
    rw [serve_none hq] at h ⊢
    exact ⟨e', h, rfl, fun d => by simp [Response.okFor, refusal]⟩
  | some e =>
    by_cases hr : Refused e q
    · rw [serve_refused hq hr] at h ⊢
      exact ⟨e', h, rfl, fun d => by simp [Response.okFor, refusal]⟩
    · rw [serve_answer hq hr rfl] at h ⊢
      cases hok : (aead (engineOperands e q)).authOk <;>
        simp only [hok, if_true, Bool.false_eq_true, if_false] at h
      · exact ⟨e', h, rfl, fun d => by simp [Response.okFor, answer, hok]⟩
      · by_cases hs : slot = q.slot
        · subst hs
          rw [Function.update_self] at h
          cases h
          refine ⟨e, hq, e.rewind_advance _, fun d => ?_⟩
          rw [Session.counter_advance]
          simp only [Response.okFor, answer, hok, true_and]
          split_ifs <;> simp
        · rw [Function.update_of_ne hs] at h
          exact ⟨e', h, rfl, fun d => by simp [Response.okFor, answer, Ne.symm hs]⟩

theorem serve_slot {t : Slots n} {q : Request n} : (serve aead t q).2.slot = q.slot := by
  unfold serve
  split
  · rfl
  · split_ifs <;> rfl

/-- One if the operation under way will be answered with a success for slot and direction. -/
def due (s : State n E) (t : Table n) (slot : BitVec (slotWidth n)) (d : Bool) : ℕ :=
  if s.state.serving = true ∧ s.requestQ.decrypt = d ∧ t.pending.any (·.okFor slot) = true
  then 1 else 0

/-- The request is being served and the engine has not taken its operands yet. -/
def Early (s : State n E) : Prop :=
  s.state = .readIssue ∨ s.state = .readCapture ∨ s.state = .check ∨
    (s.state = .engineWait ∧ s.engineStart = true)

instance (s : State n E) : Decidable (Early s) := by unfold Early; infer_instance

/-- One if the operation due is an encryption the engine has not been started for. -/
def unstarted (s : State n E) (t : Table n) (slot : BitVec (slotWidth n)) : ℕ :=
  if Early s ∧ s.requestQ.decrypt = false ∧ t.pending.any (·.okFor slot) = true then 1 else 0

/-- A busy step pays what is due with a response, or still owes it. -/
theorem due_next {s : State n E} {t : Table n} {slot : BitVec (slotWidth n)} {d : Bool}
    (i : In n κ) (h : Rel s t) (hs : s.state.serving = true) (h' : Rel (next s i) t) :
    due s t slot d = (answered slot d s (.tick i)).length + due (next s i) t slot d := by
  obtain ⟨hq, hnext⟩ := serving_next i hs
  obtain ⟨hv, -⟩ := h.of_serving hs
  rcases hnext with hn | hn
  · have hv' := (h'.of_serving hn).1
    simp [due, answered, hs, hn, hq, hv']
  · have hv' : (next s i).rspValid = true := h'.rspValid_iff.mpr hn
    have hp := h'.pending_of_rspValid hv'
    have hresp : St.serving .response = false := rfl
    simp only [due, answered, hs, hv, hv', hn, hp, hq, hresp, Option.any_some, decide_eq_true_eq,
      true_and, Bool.false_eq_true, false_and, if_false, Nat.add_zero]
    split_ifs <;> rfl

/-- What the interval since the install of `c` has shown so far, against the table. -/
structure Tally (c : Config n) (s : State n E) (t : Table n)
    (starts : List (BitVec 256 × BitVec 96)) (answers : Bool → List (Response n)) : Prop where
  nonces : Numbered (fun k => (c.txKey, nonceOf c.txPrefix (BitVec.ofNat 64 k))) starts
  counters : ∀ d, Numbered (BitVec.ofNat 64) ((answers d).map Response.counter)
  begun : starts.length ≤ (answers false).length + 1
  live : ∀ e, t.slots c.slot = some e → e.rewind = .fresh c ∧
    (∀ d, e.counter d = BitVec.ofNat 64 ((answers d).length + due s t c.slot d)) ∧
    starts.length + unstarted s t c.slot = (answers false).length + due s t c.slot false

theorem not_serving {s : State n E} {t : Table n} {slot : BitVec (slotWidth n)} {d : Bool}
    (h : s.state.serving = false) : due s t slot d = 0 ∧ unstarted s t slot = 0 := by
  cases hst : s.state <;> simp only [hst, St.serving, Bool.true_eq_false] at h <;>
    simp [due, unstarted, Early, hst, St.serving]

theorem Rel.engineStart {s : State n E} {t : Table n} (h : Rel s t)
    (hs : s.engineStart = true) : s.state = .engineWait := by
  cases hst : s.state <;> simp only [Rel, hst] at h
  case engineWait => rfl
  all_goals simp [h.1.1] at hs

/-- A step outside serving shows nothing. -/
theorem quiet_next {s : State n E} {t : Table n} (slot : BitVec (slotWidth n)) (d : Bool)
    (i : In n κ) (h : Rel s t) (hs : s.state.serving = false) :
    encryptStarts slot s (.tick i) = [] ∧ answered slot d s (.tick i) = [] ∧
      (s.state ≠ .idle → (next s i).state.serving = false) := by
  have hes : s.engineStart = false := by
    by_contra hne
    simp [h.engineStart (by simpa using hne), St.serving] at hs
  have hv := h.rspValid_iff
  cases hst : s.state <;> simp only [hst, St.serving, Bool.true_eq_false] at hs <;>
    simp only [encryptStarts, answered, next, hst, hes, Bool.false_eq_true, false_and, if_false,
      true_and]
  case idle =>
    have hr : (frame s i).rspValid = s.rspValid := rfl
    simp only [hst, reduceCtorEq, iff_false, Bool.not_eq_true] at hv
    split_ifs <;> simp_all [Response.okFor]
  case cfgWrite =>
    have hf : (frame s i).state = .cfgWrite := hst
    have hr : (frame s i).rspValid = s.rspValid := rfl
    simp only [hst, reduceCtorEq, iff_false, Bool.not_eq_true] at hv
    split_ifs <;> simp_all [St.serving]
  case response =>
    have hf : (frame s i).state = .response := hst
    simp only [hst, iff_true] at hv
    split_ifs <;> simp_all [St.serving]

theorem due_le_one {s : State n E} {t : Table n} {slot : BitVec (slotWidth n)} {d : Bool} :
    due s t slot d ≤ 1 := by
  unfold due
  split_ifs <;> omega

/-- A busy step of either kind settles what is due. -/
theorem due_tick {s : State n E} {t : Table n} (slot : BitVec (slotWidth n)) (d : Bool)
    (i : In n κ) (h : Rel s t) (hidle : s.state ≠ .idle) :
    due s t slot d = (answered slot d s (.tick i)).length +
      due (next s i) ((machine aead).run t (commands s (.tick i))).1 slot d := by
  have h' : Rel (next s i) _ := rel_step s t (.tick i) h
  by_cases hs : s.state.serving = true
  · have hv := (h.of_serving hs).1
    simp only [commands_busy i hidle, hv, Bool.false_and, Bool.false_eq_true, if_false,
      Server.run_nil] at h' ⊢
    exact due_next i h hs h'
  · rw [Bool.not_eq_true] at hs
    obtain ⟨-, ha, hn⟩ := quiet_next slot d i h hs
    rw [(not_serving hs).1, ha, (not_serving (hn hidle)).1]
    rfl

theorem slots_busy {s : State n E} {t : Table n} (i : In n κ) (hidle : s.state ≠ .idle) :
    ((machine aead).run t (commands s (.tick i))).1.slots = t.slots := by
  rw [commands_busy i hidle]
  cases s.rspValid <;> cases i.rspReady <;> rfl

/-- What a success shows is the counter before the table's. -/
theorem answered_counter {s : State n E} {t : Table n} {slot : BitVec (slotWidth n)} {d : Bool}
    {i : In n κ} {r : Response n} (h' : Rel (next s i) t)
    (hr : r ∈ answered slot d s (.tick i)) : answered slot d s (.tick i) = [r] ∧
      ∃ e, t.slots slot = some e ∧ e.counter d = r.counter + 1#64 := by
  simp only [answered] at hr ⊢
  split_ifs at hr ⊢ with hc
  · obtain ⟨-, hv, rfl, hok, rfl⟩ := hc
    rw [List.mem_singleton] at hr
    subst hr
    have hst := h'.rspValid_iff.mp hv
    simp only [Rel, hst] at h'
    exact ⟨rfl, h'.2.2.2.2 hok⟩
  · exact absurd hr List.not_mem_nil

/-- Accepting a request at the table advances the entry by what becomes due. -/
theorem idle_next {s : State n E} {t : Table n} {slot : BitVec (slotWidth n)} (i : In n κ)
    (h : Rel s t) (hst : s.state = .idle)
    (hinst : ∀ c ∈ commands s (.tick i), installs slot c = false) {e' : Session} :
    let t' := ((machine aead).run t (commands s (.tick i))).1
    t'.slots slot = some e' → ∃ e, t.slots slot = some e ∧ e'.rewind = e.rewind ∧
      (∀ d, e'.counter d = e.counter d + BitVec.ofNat 64 (due (next s i) t' slot d)) ∧
      unstarted (next s i) t' slot = due (next s i) t' slot false := by
  intro t' he'
  have h' : Rel (next s i) t' := rel_step s t (.tick i) h
  simp only [Rel, hst] at h
  obtain ⟨-, hrv, hpend, -⟩ := h
  rw [commands_idle i hst hrv] at hinst
  have hcmd : t' = ((machine aead).run t _).1 := congrArg (fun c => ((machine aead).run t c).1)
    (commands_idle i hst hrv)
  cases hc : i.cfgWrite
  · cases hq : i.reqValid <;>
      simp only [hc, hq, if_true, Bool.false_eq_true, if_false, Server.run_singleton,
        Server.run_nil, machine] at hcmd
    · rw [hcmd] at he' ⊢
      exact ⟨e', he', rfl, fun d => by simp [due, hpend], by simp [due, unstarted, hpend]⟩
    · have hnext : (next s i).requestQ = i.req ∧ ((next s i).state = .readIssue ∨
          (next s i).state = .response ∧ (next s i).rsp.authOk = false) := by
        simp only [next, hst, hc, hq, if_true, Bool.false_eq_true, if_false]
        split_ifs <;> simp
      obtain ⟨hreq, hnext⟩ := hnext
      rw [hcmd] at he'
      obtain ⟨e, he, hrew, hctr⟩ := serve_entry he'
      rcases hnext with hn | ⟨hn, hok⟩
      · refine ⟨e, he, hrew, fun d => ?_, ?_⟩
        · rw [hctr, hcmd]
          simp only [due, hn, hreq, St.serving, Option.any_some, decide_eq_true_eq, true_and,
            and_comm]
          split_ifs <;> rfl
        · simp [due, unstarted, Early, hn, St.serving]
      · have hv : (next s i).rspValid = true := h'.rspValid_iff.mpr hn
        have hp := h'.pending_of_rspValid hv
        rw [hcmd, Option.some.injEq] at hp
        refine ⟨e, he, hrew, fun d => ?_, by simp [due, unstarted, Early, hn, St.serving]⟩
        rw [hctr, hp]
        simp [Response.okFor, hok, due, hn, St.serving]
  · simp only [hc, if_true, Server.run_singleton, machine] at hcmd hinst
    have hno := hinst _ (List.mem_singleton.mpr rfl)
    rw [hcmd] at he' ⊢
    refine ⟨e', ?_, rfl, fun d => by simp [due, hpend], by simp [due, unstarted, hpend]⟩
    simp only [configure] at he'
    split_ifs at he' with hr hv
    · have hne : slot ≠ i.cfg.slot := by
        rintro rfl
        simp [installs, hv] at hno
      rwa [Function.update_of_ne hne] at he'
    · by_cases hs : slot = i.cfg.slot
      · rw [hs, Function.update_self] at he'
        cases he'
      · rwa [Function.update_of_ne hs] at he'
    · exact he'

end Tally

section Encrypt

variable {chacha20 : ChachaIn → BitVec 512} {poly1305 : PolyIn → BitVec 128}
  {E : StartDone (fixed64 chacha20 poly1305) κ}

/-- A request whose answer is a success passed the check. -/
theorem Serving.not_refused {s : State n E} {t : Table n} {old : Slots n} {e : Session}
    {slot : BitVec (slotWidth n)} (h : Serving s t old e)
    (hp : t.pending.any (·.okFor slot) = true) : ¬ Refused e s.requestQ := by
  intro hr
  rw [h.pending, serve_refused h.entry hr] at hp
  simp [Response.okFor, refusal] at hp

/-- An encryption due stays unstarted until the start pulse. -/
theorem early_next {s : State n E} {t : Table n} {slot : BitVec (slotWidth n)} (i : In n κ)
    (h : Rel s t) (hs : s.state.serving = true) (hp : t.pending.any (·.okFor slot) = true) :
    Early (next s i) ↔ Early s ∧ s.engineStart = false := by
  cases hst : s.state <;> simp only [hst, St.serving, Bool.false_eq_true] at hs <;>
    simp only [Rel, hst] at h
  case readIssue => simp [Early, next, hst, h.1.1]
  case readCapture => by_cases h23 : s.readWordQ = 23#5 <;> simp [Early, next, hst, h.1.1, h23]
  case check =>
    obtain ⟨hrest, -, old, hserv⟩ := h
    have hr := hserv.not_refused hp
    unfold Refused at hr
    simp only [Early, next, hst, hr, if_false, hrest.1]
    simp
  case engineWait =>
    have hf : (frame s i).state = .engineWait := hst
    have he : (frame s i).engineStart = false := rfl
    simp only [Early, next, hst]
    split_ifs <;> simp [hf, he]
  all_goals simp [Early, next, hst]

/-- A start uses the counter before the table's, under the table's key and prefix. -/
theorem encryptStarts_pair {s : State n E} {t : Table n} {slot : BitVec (slotWidth n)} {i : In n κ}
    {p : BitVec 256 × BitVec 96} (h : Rel s t) (hp : p ∈ encryptStarts slot s (.tick i)) :
    encryptStarts slot s (.tick i) = [p] ∧ unstarted s t slot = 1 ∧ due s t slot false = 1 ∧
      ∃ e, t.slots slot = some e ∧ p = (e.txKey, nonceOf e.txPrefix (e.txCounter - 1#64)) := by
  simp only [encryptStarts] at hp ⊢
  split_ifs at hp ⊢ with hc
  · obtain ⟨hes, hdec, rfl⟩ := hc
    rw [List.mem_singleton] at hp
    subst hp
    have hst := h.engineStart hes
    simp only [Rel, hst] at h
    obtain ⟨-, ⟨old, hserv⟩, hr, hin, -, -⟩ := h
    have hd : s.requestQ.decrypt = false := by rwa [hin] at hdec
    have hserve : serve (fixed64 chacha20 poly1305) old s.requestQ = _ :=
      serve_answer hserv.entry hr rfl
    have hok : (fixed64 chacha20 poly1305 (engineOperands s.active s.requestQ)).authOk = true :=
      fixed64_encrypt _ _ hd
    have hslots := hserv.slots
    have hpend := hserv.pending
    rw [hserve] at hslots hpend
    simp only [hok, if_true] at hslots
    refine ⟨rfl, ?_, ?_, _, by rw [hslots, Function.update_self], ?_⟩
    · simp [unstarted, Early, hst, hes, hd, hpend, Response.okFor, answer, hok]
    · simp [due, hst, St.serving, hd, hpend, Response.okFor, answer, hok]
    · simp [hin, engineOperands, hd, Session.advance]
  · exact absurd hp List.not_mem_nil

theorem unstarted_next {s : State n E} {t : Table n} {slot : BitVec (slotWidth n)} (i : In n κ)
    (h : Rel s t) (hs : s.state.serving = true) : unstarted s t slot =
      (encryptStarts slot s (.tick i)).length + unstarted (next s i) t slot := by
  obtain ⟨hq, -⟩ := serving_next i hs
  by_cases hp : t.pending.any (·.okFor slot) = true
  · simp only [unstarted, early_next i h hs hp, hq, hp]
    cases hes : s.engineStart
    · simp [encryptStarts, hes]
    · have hst := h.engineStart hes
      simp only [Rel, hst] at h
      obtain ⟨-, ⟨old, hserv⟩, -, hin, -⟩ := h
      have hslot : s.requestQ.slot = slot := by
        rw [hserv.pending, Option.any_some, decide_eq_true_eq] at hp
        rw [← hp.2, serve_slot]
      have hdec : s.engineIn.decrypt = s.requestQ.decrypt := by rw [hin]; rfl
      simp [encryptStarts, hes, hdec, hslot, Early, hst]
      split_ifs <;> rfl
  · have hstart : encryptStarts slot s (.tick i) = [] := by
      refine List.eq_nil_iff_forall_not_mem.mpr fun p hmem => ?_
      obtain ⟨-, hu, -⟩ := encryptStarts_pair h hmem
      simp [unstarted, hp] at hu
    simp [unstarted, hp, hstart]

theorem unstarted_tick {s : State n E} {t : Table n} (slot : BitVec (slotWidth n)) (i : In n κ)
    (h : Rel s t) (hidle : s.state ≠ .idle) :
    unstarted s t slot = (encryptStarts slot s (.tick i)).length + unstarted (next s i)
      ((machine (fixed64 chacha20 poly1305)).run t (commands s (.tick i))).1 slot := by
  by_cases hs : s.state.serving = true
  · have hv := (h.of_serving hs).1
    simp only [commands_busy i hidle, hv, Bool.false_and, Bool.false_eq_true, if_false,
      Server.run_nil]
    exact unstarted_next i h hs
  · rw [Bool.not_eq_true] at hs
    obtain ⟨he, -, hn⟩ := quiet_next slot false i h hs
    rw [(not_serving (d := false) hs).2, he, (not_serving (d := false) (hn hidle)).2]
    rfl

theorem ofNat_succ_sub (k : ℕ) : BitVec.ofNat 64 (k + 1) - 1#64 = BitVec.ofNat 64 k := by
  rw [BitVec.ofNat_add]
  simp

/-- One step of the interval keeps the tally. -/
theorem Tally.step {c : Config n} {s : State n E} {t : Table n}
    {starts : List (BitVec 256 × BitVec 96)} {answers : Bool → List (Response n)}
    (h : Tally c s t starts answers) (hR : Rel s t) (x : Act (In n κ))
    (hno : ∀ cmd ∈ commands s x, installs c.slot cmd = false) :
    Tally c ((design n E).step s x) ((machine (fixed64 chacha20 poly1305)).run t (commands s x)).1
      (starts ++ encryptStarts c.slot s x) (fun d => answers d ++ answered c.slot d s x) := by
  have hR' := rel_step s t x hR
  cases x with
  | reset =>
    simp only [encryptStarts, answered, List.append_nil]
    exact ⟨h.nonces, h.counters, h.begun, fun e he => by simp [commands, machine, Table.empty] at he⟩
  | tick i =>
    change Tally c (next s i) _ _ _
    change Rel (next s i) _ at hR'
    set t' := ((machine (fixed64 chacha20 poly1305)).run t (commands s (.tick i))).1 with ht'
    refine ⟨?_, fun d => ?_, ?_, fun e' he' => ?_⟩
    · cases hs : encryptStarts c.slot s (.tick i) with
      | nil => simpa using h.nonces
      | cons p ps =>
        obtain ⟨heq, hu, hd, e, he, rfl⟩ := encryptStarts_pair hR (hs ▸ List.mem_cons_self)
        obtain ⟨hrew, hctr, hlen⟩ := h.live e he
        rw [← hs, heq]
        refine h.nonces.snoc ?_
        have hkey : e.txKey = c.txKey := congrArg Session.txKey hrew
        have hpre : e.txPrefix = c.txPrefix := congrArg Session.txPrefix hrew
        have hlen' : starts.length = (answers false).length := by omega
        have htx : e.txCounter = BitVec.ofNat 64 (starts.length + 1) := by
          rw [hlen', ← hd]
          exact hctr false
        rw [hkey, hpre, htx, ofNat_succ_sub]
    · cases ha : answered c.slot d s (.tick i) with
      | nil => simpa using h.counters d
      | cons r rs =>
        obtain ⟨heq, e, he, hr⟩ := answered_counter hR' (ha ▸ List.mem_cons_self)
        have hidle : s.state ≠ .idle := by
          intro hst
          rw [(quiet_next c.slot d i hR (by rw [hst]; rfl)).2.1] at ha
          cases ha
        have hdue := due_tick c.slot d i hR hidle
        have hle : due s t c.slot d ≤ 1 := due_le_one
        rw [heq, List.length_singleton] at hdue
        rw [ht', slots_busy i hidle] at he
        have hctr := (h.live e he).2.1 d
        rw [show due s t c.slot d = 1 by omega, hr] at hctr
        rw [← ha, heq, List.map_append]
        refine (h.counters d).snoc ?_
        rw [List.length_map, ← ofNat_succ_sub, ← hctr]
        exact (BitVec.add_sub_cancel _ _).symm
    · simp only [List.length_append]
      by_cases hidle : s.state = .idle
      · obtain ⟨hs, ha, -⟩ := quiet_next c.slot false i hR (by rw [hidle]; rfl)
        rw [hs, ha]
        exact h.begun
      · have hdue := due_tick c.slot false i hR hidle
        have hun := unstarted_tick c.slot i hR hidle
        have hle : due s t c.slot false ≤ 1 := due_le_one
        cases he : t.slots c.slot with
        | none =>
          have hs : encryptStarts c.slot s (.tick i) = [] := by
            refine List.eq_nil_iff_forall_not_mem.mpr fun p hp => ?_
            obtain ⟨-, -, -, e, he', -⟩ := encryptStarts_pair hR hp
            simp [he] at he'
          have hbegun := h.begun
          simp only [hs, List.length_nil]
          omega
        | some e =>
          have hlen := (h.live e he).2.2
          omega
    · simp only [List.length_append]
      by_cases hidle : s.state = .idle
      · have hns : s.state.serving = false := by rw [hidle]; rfl
        obtain ⟨hs, -, -⟩ := quiet_next c.slot false i hR hns
        obtain ⟨e, he, hrew, hctr, hun⟩ := idle_next i hR hidle hno he'
        obtain ⟨hrew', hctr', hlen'⟩ := h.live e he
        refine ⟨hrew.trans hrew', fun d => ?_, ?_⟩
        · rw [hctr, hctr', (not_serving hns).1, (quiet_next c.slot d i hR hns).2.1]
          simp [BitVec.ofNat_add, ht']
        · rw [(not_serving hns).1, (not_serving (d := false) hns).2] at hlen'
          rw [hs, (quiet_next c.slot false i hR hns).2.1, ht', hun]
          simpa using hlen'
      · rw [ht', slots_busy i hidle] at he'
        obtain ⟨hrew, hctr, hlen⟩ := h.live e' he'
        have hdue := fun d => due_tick c.slot d i hR hidle
        have hun := unstarted_tick c.slot i hR hidle
        refine ⟨hrew, fun d => ?_, ?_⟩
        · rw [hctr, hdue, ← ht', Nat.add_assoc]
        · rw [hdue, hun, ← ht'] at hlen
          omega

/-- An interval that opens with an install starts the tally at nothing. -/
theorem Tally.install {c : Config n} {s : State n E} {t : Table n} (hR : Rel s t) (i : In n κ)
    (hc : Cmd.configure c ∈ commands s (.tick i)) (hv : c.valid = true) (hr : c.slot.toNat < n) :
    Tally c (next s i) ((machine (fixed64 chacha20 poly1305)).run t (commands s (.tick i))).1
      [] (fun _ => []) := by
  obtain ⟨hst, hcfg, rfl⟩ := configure_accepted hc
  simp only [Rel, hst] at hR
  obtain ⟨-, hrv, hpend, -⟩ := hR
  rw [commands_idle i hst hrv, if_pos hcfg]
  refine ⟨Numbered.nil, fun _ => Numbered.nil, Nat.zero_le _, fun e he => ?_⟩
  simp only [if_true, Server.run_singleton, machine, configure, hr, hv,
    Function.update_self, Option.some.injEq] at he
  subst he
  refine ⟨rfl, fun d => ?_, ?_⟩
  · cases d <;> simp [due, machine, hpend, Session.counter, Session.fresh]
  · simp [due, unstarted, machine, hpend]

/-- The interval as a whole. -/
theorem Tally.run {c : Config n} {s : State n E} {t : Table n}
    {starts : List (BitVec 256 × BitVec 96)} {answers : Bool → List (Response n)}
    (h : Tally c s t starts answers) (hR : Rel s t) (mid : List (Act (In n κ)))
    (hno : ∀ cmd ∈ (design n E).trace commands s mid, installs c.slot cmd = false) :
    ∃ t', Tally c ((design n E).run s mid) t' (starts ++ (design n E).trace (encryptStarts c.slot) s mid)
      (fun d => answers d ++ (design n E).trace (answered c.slot d) s mid) := by
  induction mid generalizing s t starts answers with
  | nil => exact ⟨t, by simpa [Design.trace] using h⟩
  | cons x mid ih =>
    simp only [Design.trace, List.mem_append] at hno
    have hstep := h.step hR x fun cmd hcmd => hno cmd (Or.inl hcmd)
    obtain ⟨t', ht⟩ := ih hstep (rel_step s t x hR) fun cmd hcmd => hno cmd (Or.inr hcmd)
    exact ⟨t', by simpa only [Design.trace, Design.run_cons, List.append_assoc] using ht⟩

end Encrypt

section Errors

variable {aead : EngineIn → EngineOut} {E : StartDone aead κ}

/-- `s'` is the first state that shows the response to `q`, accepted at `s`. -/
def Answered (s : State n E) (q : Request n) (s' : State n E) : Prop :=
  ∃ (i : In n κ) (is : List (In n κ)), Cmd.request q ∈ commands s (.tick i) ∧
    (∀ pre, pre <+: is → pre ≠ is →
      ((design n E).run (next s i) (pre.map .tick)).rspValid = false) ∧
    s' = (design n E).run (next s i) (is.map .tick) ∧ s'.rspValid = true

/-- The table is as it was. -/
def Unmoved (s0 s : State n E) : Prop :=
  s.sessionMem = s0.sessionMem ∧ s.sessionValid = s0.sessionValid

/-- A request accepted at `s0` has not been answered yet, or has just been. -/
def Attempt (s0 s : State n E) : Prop :=
  match s.state with
  | .idle | .cfgWrite => False
  | .readIssue | .readCapture | .check | .engineWait => Unmoved s0 s
  | .countWriteLo | .countWriteHi => s.rsp.error = false
  | .response => s.rsp.error = true → Unmoved s0 s

theorem attempt_accept {s : State n E} {q : Request n} (i : In n κ)
    (hq : Cmd.request q ∈ commands s (.tick i)) : Attempt s (next s i) := by
  obtain ⟨hst, hc, hv, -⟩ := request_accepted hq
  have hm := frame_sessionMem i hst rfl
  simp only [Attempt, next, hst, hc, hv, if_true, Bool.false_eq_true, if_false]
  split_ifs <;> first | exact fun _ => ⟨hm, rfl⟩ | exact ⟨hm, rfl⟩

theorem attempt_next {s0 s : State n E} (i : In n κ) (h : Attempt s0 s)
    (hst : s.state ≠ .response) : Attempt s0 (next s i) := by
  cases hs : s.state <;> simp only [Attempt, hs] at h
  case response => exact absurd hs hst
  case countWriteLo =>
    simp only [Attempt, next, hs]
    exact h
  case countWriteHi =>
    simp only [Attempt, next, hs]
    intro he
    exact absurd (h.symm.trans he) Bool.false_ne_true
  all_goals
    have hm := frame_sessionMem i hs rfl
    have hf : (frame s i).state = s.state := rfl
    have hu : Unmoved s0 (frame s i) := ⟨hm.trans h.1, h.2⟩
    simp only [Attempt, next, hs]
  case readIssue => exact hu
  case readCapture => split_ifs <;> exact hu
  case check => split_ifs <;> first | exact hu | exact fun _ => hu
  case engineWait =>
    cases hd : E.done s.engine
    · simpa [hf, hs] using hu
    · cases hok : (E.result s.engine).authOk
      · simp only [if_true, Bool.false_eq_true, if_false]
        exact fun _ => hu
      · cases s.requestQ.decrypt <;> simp

theorem attempt_busy {s0 s : State n E} (h : Attempt s0 s) : s.state ≠ .idle := by
  intro hst
  simp only [Attempt, hst] at h

/-- Up to the first response to it, a request is the only command under way. -/
theorem attempt_run {s0 s : State n E} {t : Table n} (hR : Rel s t) (h : Attempt s0 s)
    (is : List (In n κ)) (hquiet : ∀ pre, pre <+: is → pre ≠ is →
      ((design n E).run s (pre.map .tick)).rspValid = false) :
    Attempt s0 ((design n E).run s (is.map .tick)) ∧ Rel ((design n E).run s (is.map .tick)) t := by
  induction is generalizing s with
  | nil => exact ⟨h, hR⟩
  | cons i is ih =>
    have hv : s.rspValid = false := hquiet [] List.nil_prefix (by simp)
    have hst : s.state ≠ .response := by
      rw [ne_eq, ← hR.rspValid_iff, hv]
      decide
    have hnext : Rel (next s i) t := by
      have hstep : Rel (next s i) _ := rel_step s t (.tick i) hR
      simpa [commands_busy i (attempt_busy h), hv] using hstep
    exact ih hnext (attempt_next i h hst) fun pre hpre hne =>
      hquiet (i :: pre) (by simpa using hpre) (by simpa using hne)

/-- The response to an accepted request is the table's. -/
theorem Answered.served {s s' : State n E} {t : Table n} {q : Request n} (h : Answered s q s')
    (hR : Rel s t) : Attempt s s' ∧
      Rel s' ⟨(serve aead t.slots q).1, some (serve aead t.slots q).2⟩ := by
  obtain ⟨i, is, hq, hquiet, rfl, -⟩ := h
  have hacc : Rel (next s i) _ := rel_step s t (.tick i) hR
  have hatt := attempt_accept i hq
  obtain ⟨hst, hc, hv, rfl⟩ := request_accepted hq
  simp only [Rel, hst] at hR
  rw [commands_idle i hst hR.2.1] at hacc
  simp only [hc, hv, if_true, Bool.false_eq_true, if_false, Server.run_singleton] at hacc
  exact attempt_run hacc hatt is hquiet

theorem Answered.rsp_eq {s s' : State n E} {t : Table n} {q : Request n} (h : Answered s q s')
    (hR : Rel s t) : s'.rsp = (serve aead t.slots q).2 := by
  have hR' := (h.served hR).2
  obtain ⟨-, -, -, -, -, hv⟩ := h
  exact (Option.some.inj (hR'.pending_of_rspValid hv)).symm

theorem Answered.unmoved {s s' : State n E} {t : Table n} {q : Request n} (h : Answered s q s')
    (hR : Rel s t) (he : s'.rsp.error = true) : Unmoved s s' := by
  obtain ⟨hatt, hR'⟩ := h.served hR
  obtain ⟨-, -, -, -, -, hv⟩ := h
  simp only [Attempt, hR'.rspValid_iff.mp hv] at hatt
  exact hatt he

end Errors

section Interval

variable {chacha20 : ChachaIn → BitVec 512} {poly1305 : PolyIn → BitVec 128}
  (E : StartDone (fixed64 chacha20 poly1305) κ)

theorem ofNat_inj {i j : ℕ} (hi : i < 2 ^ 64) (hj : j < 2 ^ 64)
    (h : BitVec.ofNat 64 i = BitVec.ofNat 64 j) : i = j := by
  have ht := congrArg BitVec.toNat h
  simpa only [BitVec.toNat_ofNat, Nat.mod_eq_of_lt hi, Nat.mod_eq_of_lt hj] using ht

theorem nonceOf_inj {pre : BitVec 32} {a b : BitVec 64} (h : nonceOf pre a = nonceOf pre b) :
    a = b := packBe_inj ((BitVec.append_left_inj pre).mp h)

/-- While a success shows, the memory already holds the counter after it. -/
theorem Rel.stored {s : State n E} {t : Table n} (h : Rel s t) (hv : s.rspValid = true)
    (hok : s.rsp.authOk = true) :
    storedCounter s s.rsp.slot s.requestQ.decrypt = s.rsp.counter + 1#64 := by
  have hst := h.rspValid_iff.mp hv
  simp only [Rel, hst] at h
  obtain ⟨-, -, -, hold, hadv⟩ := h
  obtain ⟨e, he, hctr⟩ := hadv hok
  have hslot := hold s.rsp.slot
  rw [he] at hslot
  rw [stored_eq hslot, hctr]

/-- After any run from reset: a success shows only once its counter is stored; a request
answered with an error has left the memory alone; and between two installs of a slot the
encryptions start with the nonces of 0, 1, 2, ... and the successes carry those counters. -/
theorem session_counters (s0 : State n E) (pre : List (Act (In n κ))) :
    let s := (design n E).run ((design n E).rst s0) pre
    (s.rspValid = true → s.rsp.authOk = true →
      storedCounter s s.rsp.slot s.requestQ.decrypt = s.rsp.counter + 1#64) ∧
    (∀ q s', Answered s q s' → s'.rsp.error = true → Unmoved s s') ∧
    (∀ (i : In n κ) (mid : List (Act (In n κ))) (c : Config n),
      Cmd.configure c ∈ commands s (.tick i) → c.valid = true → c.slot.toNat < n →
      (∀ cmd ∈ (design n E).trace commands (next s i) mid, installs c.slot cmd = false) →
      let starts := (design n E).trace (encryptStarts c.slot) (next s i) mid
      let counters := fun d => ((design n E).trace (answered c.slot d) (next s i) mid).map
        Response.counter
      (∀ d, (counters d).length < 2 ^ 64) →
      Numbered (fun k => (c.txKey, nonceOf c.txPrefix (BitVec.ofNat 64 k))) starts ∧
        starts.Nodup ∧ ∀ d, Numbered (BitVec.ofNat 64) (counters d) ∧ (counters d).Nodup) := by
  intro s
  have hinit : Rel ((design n E).rst s0) (.empty : Table n) := rel_rst s0 .empty
  obtain ⟨hrel, -⟩ := manager_simulates.run hinit pre
  refine ⟨hrel.stored, ?_, ?_⟩
  · exact fun q s' hq he => hq.unmoved hrel he
  · intro i mid c hc hcv hr hno starts counters hlt
    obtain ⟨t', ht⟩ := (Tally.install hrel i hc hcv hr).run (rel_step s _ (.tick i) hrel) mid hno
    simp only [List.nil_append] at ht
    refine ⟨ht.nonces, ht.nonces.nodup (b := 2 ^ 64) ?_ ?_, fun d => ⟨ht.counters d,
      (ht.counters d).nodup (hlt d).le fun j hj k hk => ofNat_inj hj hk⟩⟩
    · have hle : starts.length ≤ _ + 1 := ht.begun
      have h0 : (List.map Response.counter _).length < 2 ^ 64 := hlt false
      rw [List.length_map] at h0
      exact hle.trans h0
    · intro j hj k hk hjk
      exact ofNat_inj hj hk (nonceOf_inj (Prod.mk.inj hjk).2)

end Interval

section Sample

/-- A two-slot manager whose engine answers at once, with all-zero keystream and tags. -/
def sampleEngine : StartDone (fixed64 (fun _ => 0#512) (fun _ => 0#128)) Bool := StartDone.box _

def sampleCycle : In 2 Bool := ⟨false, default, false, default, true, true⟩

def sampleConfig : Config 2 := ⟨0#1, true, 7#32, 1#256, 2#256, 3#32, 4#32⟩

def sampleInstall : In 2 Bool := { sampleCycle with cfgWrite := true, cfg := sampleConfig }

def sampleRequest : In 2 Bool :=
  { sampleCycle with reqValid := true, req := ⟨0#1, false, 64#8, 0#64, 5#512, 0#128⟩ }

def samplePower {n : ℕ} {aead : EngineIn → EngineOut} : State n (StartDone.box aead) :=
  ⟨.idle, fun _ => 0#32, fun _ => false, 0#32, false, 0, 0#5, default, 0, 0#5, default, .zero, 0#64,
    0#64, 0#5, 0#5, false, .zero, false, default, ⟨none, false, .zero⟩⟩

/-- Install done, two encryptions one after the other. -/
def sampleRun : List (Act (In 2 Bool)) :=
  List.replicate 24 (.tick sampleCycle) ++ .tick sampleRequest :: List.replicate 56 (.tick sampleCycle)
    ++ .tick sampleRequest :: List.replicate 56 (.tick sampleCycle)

theorem session_counters_two_encryptions :
    let s := (design 2 sampleEngine).run ((design 2 sampleEngine).rst samplePower) []
    let starts :=
      (design 2 sampleEngine).trace (encryptStarts 0#1) (next s sampleInstall) sampleRun
    starts.length = 2 ∧ starts.Nodup :=
  ⟨by decide +kernel,
    ((session_counters sampleEngine samplePower []).2.2 sampleInstall sampleRun sampleConfig
      List.mem_cons_self rfl (by decide) (by decide +kernel) (by decide +kernel)).2.1⟩

end Sample

end ZedSecure
