import ZedSecure.Rtl.SessionArbiter
import ZedSecure.Proofs.SessionRefinement

/-! The arbiter refines the session table too, on any engine that shows no data with a rejected
packet. A request counts from the cycle in which it is accepted. -/

namespace ZedSecure

open Clocked SessionTable

namespace SessionArbiter

variable {aead : EngineIn → EngineOut} {κ : Type} {E : StartDone aead κ}

def ports : List Port := [port 0, port 1, port 2, port 3]

theorem port_cases (p : Port) : p = port 0 ∨ p = port 1 ∨ p = port 2 ∨ p = port 3 := by
  revert p
  decide

theorem mem_ports (p : Port) : p ∈ ports := by
  rcases port_cases p with rfl | rfl | rfl | rfl <;> decide

/-- A family over a list without repetitions that is none but at one place. -/
theorem filterMap_only {α ρ : Type*} {l : List α} (hl : l.Nodup) {x : α} (hx : x ∈ l) {f : α → Option ρ}
    (h : ∀ y ≠ x, f y = none) : l.filterMap f = (f x).toList := by
  induction l with
  | nil => simp at hx
  | cons y ys ih =>
    obtain ⟨hy, hys⟩ := List.nodup_cons.mp hl
    rcases List.mem_cons.mp hx with rfl | hin
    · have hrest : ys.filterMap f = [] := by
        rw [List.filterMap_eq_nil_iff]
        intro z hz
        apply h
        rintro rfl
        exact hy hz
      rw [List.filterMap_cons, hrest]
      cases f x <;> rfl
    · have hne : y ≠ x := by
        rintro rfl
        exact hy hin
      rw [List.filterMap_cons, h y hne]
      exact ih hys hin

theorem filterMap_ports {ρ : Type*} (p : Port) {f : Port → Option ρ} (h : ∀ q ≠ p, f q = none) :
    ports.filterMap f = (f p).toList := filterMap_only (by decide) (mem_ports p) h

/-- The requests the arbiter takes in: those of the ports whose ready is up. -/
def requests (s : State E) (i : In κ) : List (Request 4) :=
  ports.filterMap fun p => if reqReady s p then some ((i.req p).onSlot p) else none

/-- The responses taken from the ports. -/
def responses (s : State E) : Act (In κ) → List (Response 4)
  | .reset => []
  | .tick i => ports.filterMap fun p =>
    if s.rspValid p && i.rspReady p then some ((s.rsp p).onSlot p) else none

def commands (s : State E) : Act (In κ) → List (Cmd 4)
  | .reset => [.reset]
  | .tick i =>
    (if i.cfgWrite && cfgReady s then [.configure i.cfg] else []) ++
      (requests s i).map .request ++ (responses s (.tick i)).map fun _ => .take

/-- What the session registers of the slots hold. -/
def table (s : State E) : Slots 4 := fun p => if s.sessionValid p then some (s.session p) else none

def EngineRest (s : State E) : Prop := s.engineStart = false ∧ E.idle s.engine

/-- The engine works on request `q`, whose slot is valid. -/
structure Serving (s : State E) (t : Table 4) (q : Request 4) : Prop where
  slot : q.slot = s.activeSlot
  valid : s.sessionValid s.activeSlot = true
  allowed : ¬ Refused (s.session s.activeSlot) q
  decrypt : s.activeDecrypt = q.decrypt
  counter : s.activeCounter = (s.session s.activeSlot).counter q.decrypt
  operands : s.engineIn = SessionManager.engineOperands (s.session s.activeSlot) q
  issued : E.Issued s.engineIn s.engineStart s.engine
  slots : t.slots = (serve aead (table s) q).1
  pending : t.pending = some (serve aead (table s) q).2

def Rel (s : State E) (t : Table 4) : Prop :=
  match s.state with
  | .idle | .grant => EngineRest s ∧ (∀ p, s.rspValid p = false) ∧ t.slots = table s ∧ t.pending = none
  | .waitEngine => (∀ p, s.rspValid p = false) ∧ ∃ q, Serving s t q
  | .response => EngineRest s ∧ (∀ p, s.rspValid p = decide (p = s.activeSlot)) ∧ t.slots = table s ∧
      t.pending = some ((s.rsp s.activeSlot).onSlot s.activeSlot)

theorem EngineRest.frame {s : State E} (h : EngineRest s) (i : In κ) :
    EngineRest (frame s i) ∧ E.done (frame s i).engine = false := by
  obtain ⟨hst, hid⟩ := h
  have hw := E.idle_wait s.engine i.engine hid
  simpa [EngineRest, SessionArbiter.frame, hst] using hw

theorem requests_eq (s : State E) (i : In κ) : requests s i =
    if s.state = .grant then [(i.req s.activeSlot).onSlot s.activeSlot] else [] := by
  rw [requests, filterMap_ports s.activeSlot fun q hq => by simp [reqReady, Ne.symm hq]]
  by_cases h : s.state = .grant <;> simp [reqReady, h]

theorem responses_tick (s : State E) (i : In κ) (h : ∀ p ≠ s.activeSlot, s.rspValid p = false) :
    responses s (.tick i) = if s.rspValid s.activeSlot && i.rspReady s.activeSlot then
      [(s.rsp s.activeSlot).onSlot s.activeSlot] else [] := by
  rw [responses, filterMap_ports s.activeSlot fun q hq => by simp [h q hq]]
  split_ifs <;> rfl

theorem Rel.rspValid {s : State E} {t : Table 4} (h : Rel s t) (p : Port) :
    s.rspValid p = (decide (s.state = .response) && decide (p = s.activeSlot)) := by
  cases hst : s.state <;> simp only [Rel, hst] at h
  case idle => simpa using h.2.1 p
  case grant => simpa using h.2.1 p
  case waitEngine => simpa using h.1 p
  case response => simpa using h.2.1 p

theorem commands_tick {s : State E} {t : Table 4} (h : Rel s t) (i : In κ) :
    commands s (.tick i) = match s.state with
      | .idle => if i.cfgWrite then [.configure i.cfg] else []
      | .grant => [.request ((i.req s.activeSlot).onSlot s.activeSlot)]
      | .waitEngine => []
      | .response => if i.rspReady s.activeSlot then [.take] else [] := by
  rw [commands, requests_eq, responses_tick s i fun p hp => by simp [h.rspValid p, hp], h.rspValid]
  cases hst : s.state <;> simp [cfgReady, hst]
  case response => split_ifs <;> rfl

section Steps

variable {s : State E} {t : Table 4}

theorem rel_rst (s : State E) (t : Table 4) :
    Rel ((design E).step s .reset) ((machine aead).run t (commands s .reset)).1 := by
  simp only [Design.step, design, commands, Server.run_singleton, machine]
  exact ⟨⟨rfl, E.init_idle⟩, fun _ => rfl, rfl, rfl⟩

/-- An install replaces one entry; a port that is picked waits for its acceptance. -/
theorem rel_idle (i : In κ) (hst : s.state = .idle) (h : Rel s t) :
    Rel (next s i) (if i.cfgWrite then ⟨configure t.slots i.cfg, t.pending⟩ else t) := by
  simp only [Rel, hst] at h
  obtain ⟨hrest, hrv, hslots, hpend⟩ := h
  have hs : (frame s i).state = .idle := hst
  cases hc : i.cfgWrite
  · cases hg : grantSlot s.lastGrant i.reqValid with
    | none =>
      simp only [next, hst, hc, hg, Bool.false_eq_true, if_false, Rel, hs]
      exact ⟨(hrest.frame i).1, hrv, hslots, hpend⟩
    | some p =>
      simp only [next, hst, hc, hg, Bool.false_eq_true, if_false, Rel]
      exact ⟨(hrest.frame i).1, hrv, hslots, hpend⟩
  · simp only [next, hst, hc, if_true, Rel, hs]
    refine ⟨(hrest.frame i).1, hrv, ?_, hpend⟩
    have hlt : i.cfg.slot.toNat < 4 := i.cfg.slot.isLt
    funext p
    rw [configure, if_pos hlt, hslots]
    unfold table
    by_cases hp : p = i.cfg.slot
    · subst hp
      simp only [Function.update_self]
      rfl
    · simp only [Function.update_of_ne hp]

theorem table_update (s : State E) {p : Port} (hv : s.sessionValid p = true) (e : Session) :
    (fun q => if s.sessionValid q then some (Function.update s.session p e q) else none) =
      Function.update (table s) p (some e) := by
  funext q
  by_cases hq : q = p
  · rw [hq, Function.update_self, Function.update_self, if_pos hv]
  · rw [Function.update_of_ne hq, Function.update_of_ne hq, table]

/-- The accepted request is refused at once or handed to the engine. -/
theorem rel_grant (i : In κ) (hst : s.state = .grant) (h : Rel s t) :
    Rel (next s i) ⟨(serve aead t.slots ((i.req s.activeSlot).onSlot s.activeSlot)).1,
      some (serve aead t.slots ((i.req s.activeSlot).onSlot s.activeSlot)).2⟩ := by
  simp only [Rel, hst] at h
  obtain ⟨hrest, hrv, hslots, -⟩ := h
  generalize hq : (i.req s.activeSlot).onSlot s.activeSlot = q
  have hqs : q.slot = s.activeSlot := by rw [← hq]; rfl
  have hrsp : ∀ r p, Function.update s.rspValid s.activeSlot r p = (r && decide (p = s.activeSlot)) := by
    intro r p
    by_cases hp : p = s.activeSlot
    · simp [hp]
    · simp [hp, hrv p]
  have hrefused : ∀ e, s.session s.activeSlot = e → (Refused e q ↔ 64#8 < (i.req s.activeSlot).dataLen ∨
      ((i.req s.activeSlot).decrypt = true ∧ (i.req s.activeSlot).counter ≠ e.rxCounter)) := by
    intro e _
    rw [← hq]
    rfl
  have hrefuse : s.sessionValid s.activeSlot = false ∨ Refused (s.session s.activeSlot) q →
      serve aead t.slots q = (t.slots, refusal q) := by
    intro hbad
    rw [hslots]
    rcases hbad with hv | hr
    · apply serve_none
      rw [hqs, table, hv]
      rfl
    · cases hv : s.sessionValid s.activeSlot
      · apply serve_none
        rw [hqs, table, hv]
        rfl
      · refine serve_refused ?_ hr
        rw [hqs, table, hv]
        rfl
  by_cases hbad : s.sessionValid s.activeSlot = false ∨ Refused (s.session s.activeSlot) q
  · rw [hrefuse hbad]
    rw [hrefused _ rfl] at hbad
    simp only [next, hst, hbad, if_true, Rel]
    refine ⟨(hrest.frame i).1, fun p => by rw [hrsp]; rfl, hslots, ?_⟩
    simp only [frame, Function.update_self, PortResponse.onSlot, refusal, ← hq, PortRequest.onSlot]
  · have hbad' := hbad
    rw [hrefused _ rfl] at hbad
    rw [not_or, Bool.not_eq_false] at hbad'
    simp only [next, hst, hbad, if_false, Rel]
    refine ⟨hrv, q, hqs, hbad'.1, hbad'.2, by rw [← hq]; rfl, ?_, by rw [← hq]; rfl, ?_, ?_, ?_⟩
    · simp only [Session.counter, ← hq, PortRequest.onSlot]
      cases hd : (i.req s.activeSlot).decrypt
      · rfl
      · -- a decrypt that is let through carries the expected counter
        have hc : (i.req s.activeSlot).counter = (s.session s.activeSlot).rxCounter := by
          by_contra hne
          exact hbad (Or.inr (Or.inr ⟨hd, hne⟩))
        exact hc
    · exact E.issued_of_idle (hrest.frame i).1.2 (hrest.frame i).2
    · rw [hslots]
      rfl
    · rw [hslots]
      rfl

theorem Serving.entry {q : Request 4} (h : Serving s t q) :
    table s q.slot = some (s.session s.activeSlot) := by
  rw [h.slot, table, h.valid]
  rfl

/-- The engine's result becomes the response, and a passed one moves its counter. -/
theorem rel_waitEngine (gated : ∀ x, (aead x).authOk = false → (aead x).data = 0#512) (i : In κ)
    (hst : s.state = .waitEngine) (h : Rel s t) : Rel (next s i) t := by
  simp only [Rel, hst] at h
  obtain ⟨hrv, q, hq⟩ := h
  have hs : (frame s i).state = .waitEngine := hst
  cases hd : E.done s.engine
  · simp only [next, hst, hd, Bool.false_eq_true, if_false, Rel, hs]
    exact ⟨hrv, q, hq.slot, hq.valid, hq.allowed, hq.decrypt, hq.counter, hq.operands,
      hq.issued.next hd i.engine, hq.slots, hq.pending⟩
  · obtain ⟨hstart, hidle, hres⟩ := hq.issued.answer hd
    have hrest := EngineRest.frame (s := s) ⟨hstart, hidle⟩ i
    have hserve : serve aead (table s) q = _ := serve_answer hq.entry hq.allowed rfl
    have hout : E.result s.engine = aead (SessionManager.engineOperands (s.session s.activeSlot) q) := by
      rw [hres, hq.operands]
    have hdata : (if (E.result s.engine).authOk then (E.result s.engine).data else 0#512) =
        (E.result s.engine).data := by
      cases hok : (E.result s.engine).authOk
      · rw [hout] at hok ⊢
        exact (gated _ hok).symm
      · rfl
    have hpend : t.pending = some (PortResponse.onSlot ⟨(E.result s.engine).authOk,
        !(E.result s.engine).authOk, s.activeCounter, (E.result s.engine).data,
        (E.result s.engine).tag⟩ s.activeSlot) := by
      rw [hq.pending, hserve, ← hout, answer, hdata, hq.slot, hq.counter]
      rfl
    have hvalid : ∀ p, Function.update s.rspValid s.activeSlot true p = decide (p = s.activeSlot) := by
      intro p
      by_cases hp : p = s.activeSlot
      · simp [hp]
      · simp [hp, hrv p]
    have hslots := hq.slots
    rw [hserve, ← hout] at hslots
    have hdec := hq.decrypt
    have hv := hq.valid
    cases hok : (E.result s.engine).authOk
    · rw [hok] at hpend hslots
      simp only [next, hst, hd, hok, Bool.and_false, Bool.false_eq_true, if_false, if_true, Rel]
      refine ⟨hrest.1, hvalid, hslots, ?_⟩
      simp only [frame, Function.update_self]
      exact hpend
    · rw [hok] at hpend hslots
      cases hdd : s.activeDecrypt
      · simp only [next, hst, hd, hok, hdd, Bool.and_true, Bool.not_false, if_true, Rel]
        refine ⟨hrest.1, hvalid, ?_, ?_⟩
        · rw [hslots, if_pos rfl, hq.slot, ← table_update s hv, ← hdec, hdd]
          rfl
        · simp only [frame, Function.update_self]
          exact hpend
      · simp only [next, hst, hd, hok, hdd, Bool.and_true, Bool.not_true, Bool.false_eq_true, if_false,
          if_true, Rel]
        refine ⟨hrest.1, hvalid, ?_, ?_⟩
        · rw [hslots, if_pos rfl, hq.slot, ← table_update s hv, ← hdec, hdd]
          rfl
        · simp only [frame, Function.update_self]
          exact hpend

theorem rel_response (i : In κ) (hst : s.state = .response) (h : Rel s t) :
    Rel (next s i) (if i.rspReady s.activeSlot then ⟨t.slots, none⟩ else t) := by
  simp only [Rel, hst] at h
  obtain ⟨hrest, hrv, hslots, hpend⟩ := h
  have hs : (frame s i).state = .response := hst
  cases hr : i.rspReady s.activeSlot
  · simp only [next, hst, hr, Bool.false_eq_true, if_false, Rel, hs]
    exact ⟨(hrest.frame i).1, hrv, hslots, hpend⟩
  · simp only [next, hst, hr, if_true, Rel]
    refine ⟨(hrest.frame i).1, ?_, hslots, trivial⟩
    intro p
    by_cases hp : p = s.activeSlot
    · simp [hp]
    · simp [hp, hrv p]

theorem rel_step (gated : ∀ x, (aead x).authOk = false → (aead x).data = 0#512) (s : State E) (t : Table 4)
    (x : Act (In κ)) (h : Rel s t) : Rel ((design E).step s x) ((machine aead).run t (commands s x)).1 := by
  cases x with
  | reset => exact rel_rst s t
  | tick i =>
    change Rel (next s i) _
    rw [commands_tick h]
    cases hst : s.state with
    | idle =>
      have hr := rel_idle i hst h
      cases hc : i.cfgWrite <;> simpa [hc, machine] using hr
    | grant => exact rel_grant i hst h
    | waitEngine => exact rel_waitEngine gated i hst h
    | response =>
      have hr := rel_response i hst h
      cases hc : i.rspReady s.activeSlot <;> simpa [hc, machine] using hr

theorem responses_eq (s : State E) (t : Table 4) (x : Act (In κ)) (h : Rel s t) :
    responses s x = ((machine aead).run t (commands s x)).2 := by
  cases x with
  | reset => rfl
  | tick i =>
    rw [commands_tick h, responses_tick s i fun p hp => by simp [h.rspValid p, hp], h.rspValid]
    cases hst : s.state with
    | idle => cases i.cfgWrite <;> rfl
    | grant => rfl
    | waitEngine => rfl
    | response =>
      simp only [Rel, hst] at h
      cases hr : i.rspReady s.activeSlot
      · simp
      · simp [machine, h.2.2.2]

/-- The arbiter simulates the table. -/
theorem arbiter_simulates (gated : ∀ x, (aead x).authOk = false → (aead x).data = 0#512) :
    Simulates (design E) (machine aead) commands responses Rel :=
  ⟨rel_step gated, responses_eq⟩

end Steps

end SessionArbiter

end ZedSecure
