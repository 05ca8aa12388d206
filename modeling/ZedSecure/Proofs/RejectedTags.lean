import ZedSecure.Proofs.SessionAnswers
import ZedSecure.Proofs.SessionCounters

/-! What an error response tells. A request refused before the engine is started gets an
all-zero answer; one refused by the engine gets the tag its data would have needed, and
passes when it is sent again with that tag. -/

namespace ZedSecure

open Clocked SessionManager SessionTable

variable {n : ℕ} {κ : Type}

section Defs

variable {aead : EngineIn → EngineOut} {E : StartDone aead κ}

/-- `S_IDLE` or `S_CHECK` turns the request down. -/
def RejectedEarly (s : State n E) (q : Request n) : Prop :=
  ¬ q.slot.toNat < n ∨ s.sessionValid q.slot = false ∨ 64#8 < q.dataLen ∨
    (q.decrypt = true ∧ q.counter ≠ storedCounter s q.slot true)

/-- Two tables that differ in keys at most, the words 1 to 16 of a session. -/
def SameButKeys (s s1 : State n E) : Prop :=
  s1.sessionValid = s.sessionValid ∧ ∀ slot : BitVec (slotWidth n), ∀ w < 24,
    ¬ (1 ≤ w ∧ w < 17) → s1.sessionMem (wordAddr slot w) = s.sessionMem (wordAddr slot w)

/-- From the error response `s'` on, nothing else is accepted before the same request comes
again with the tag of that response; `s2` shows its answer. -/
def Resubmitted (s' : State n E) (q : Request n) (s2 : State n E) : Prop :=
  ∃ js : List (Act (In n κ)), (∀ cmd ∈ (design n E).trace commands s' js, cmd = .take) ∧
    Answered ((design n E).run s' js) { q with tag := s'.rsp.tag } s2

/-- The error response to `q` at `s'` does not depend on keys: every state that differs from
`s` in keys only, and answers `q` with an error too, shows the same tag. -/
def KeyBlind (s : State n E) (q : Request n) (s' : State n E) : Prop :=
  ∀ s1 s1' : State n E, (design n E).Reachable s1 → SameButKeys s s1 → Answered s1 q s1' →
    s1'.rsp.error = true → s1'.rsp.tag = s'.rsp.tag


theorem Answered.idle {s s' : State n E} {q : Request n} (h : Answered s q s') :
    s.state = .idle := by
  obtain ⟨i, -, hq, -⟩ := h
  exact (request_accepted hq).1

/-- Early rejection, told from the table. -/
theorem rejectedEarly_iff {s : State n E} {t : Table n} {q : Request n} (hR : Rel s t)
    (hst : s.state = .idle) : RejectedEarly s q ↔ ∀ e, t.slots q.slot = some e → Refused e q := by
  simp only [Rel, hst] at hR
  have hslot := hR.2.2.2 q.slot
  unfold RejectedEarly
  cases he : t.slots q.slot with
  | none =>
    rw [he] at hslot
    simp only [reduceCtorEq, false_implies, implies_true, iff_true]
    by_cases hr : q.slot.toNat < n
    · exact Or.inr (Or.inl (hslot hr))
    · exact Or.inl hr
  | some e =>
    rw [he] at hslot
    rw [stored_eq hslot]
    simp [hslot.1, hslot.2.1, Refused, Session.counter]

theorem serve_early {t : Slots n} {q : Request n} (h : ∀ e, t q.slot = some e → Refused e q) :
    serve aead t q = (t, refusal q) := by
  cases he : t q.slot with
  | none => exact serve_none he
  | some e => exact serve_refused he (h e he)

theorem RejectedEarly.sameButKeys {s s1 : State n E} {q : Request n} (h : RejectedEarly s q)
    (hs : SameButKeys s s1) : RejectedEarly s1 q := by
  obtain ⟨hvalid, hmem⟩ := hs
  unfold RejectedEarly storedCounter at h ⊢
  rw [hvalid, hmem _ _ (by decide) (by decide), hmem _ _ (by decide) (by decide)]
  exact h

/-- Taking responses leaves the slots alone. -/
theorem slots_takes {cmds : List (Cmd n)} (t : Table n) (h : ∀ cmd ∈ cmds, cmd = .take) :
    ((machine aead).run t cmds).1.slots = t.slots := by
  induction cmds generalizing t with
  | nil => rfl
  | cons c cs ih =>
    obtain rfl := h c List.mem_cons_self
    exact ih _ fun cmd hcmd => h cmd (List.mem_cons_of_mem _ hcmd)

theorem Reachable.rel {s : State n E} (h : (design n E).Reachable s) : ∃ t : Table n, Rel s t := by
  obtain ⟨s0, acts, rfl⟩ := h
  exact ⟨_, (manager_simulates.run (rel_rst s0 .empty) acts).1⟩

/-- A resubmission is answered from the slots the error left. -/
theorem Resubmitted.rsp_eq {s s' s2 : State n E} {t : Table n} {q : Request n} (hR : Rel s t)
    (h : Answered s q s') (hsame : (serve aead t.slots q).1 = t.slots) (h2 : Resubmitted s' q s2) :
    s2.rsp = (serve aead t.slots { q with tag := s'.rsp.tag }).2 := by
  obtain ⟨js, hjs, hans⟩ := h2
  have hR2 := (manager_simulates.run (h.served hR).2 js).1
  rw [hans.rsp_eq hR2, slots_takes _ hjs, hsame]

end Defs

section Fixed64

variable {chacha20 : ChachaIn → BitVec 512} {poly1305 : PolyIn → BitVec 128}
  {E : StartDone (fixed64 chacha20 poly1305) κ}

/-- A tag mismatch answers with the tag the data needs, and nothing but the tag was wrong. -/
theorem fixed64_mismatch {x : EngineIn} (h : (fixed64 chacha20 poly1305 x).authOk = false) :
    (fixed64 chacha20 poly1305 { x with receivedTag := (fixed64 chacha20 poly1305 x).tag }).authOk =
      true := by
  cases hd : x.decrypt
  · simp [fixed64, hd] at h
  · by_cases ht : packetTag chacha20 poly1305 x.key x.nonce x.aad x.data = x.receivedTag
    · simp [fixed64, hd, ht] at h
    · simp [fixed64, hd, ht]

theorem fixed64_tag {x : EngineIn} (hd : x.decrypt = true) :
    (fixed64 chacha20 poly1305 x).tag = packetTag chacha20 poly1305 x.key x.nonce x.aad x.data := by
  simp only [fixed64, hd, if_true]
  split_ifs <;> rfl

theorem fixed64_wrong_tag {x : EngineIn} {v : BitVec 128} (hd : x.decrypt = true)
    (hv : (fixed64 chacha20 poly1305 x).tag ≠ v) :
    (fixed64 chacha20 poly1305 { x with receivedTag := v }).authOk = false := by
  rw [fixed64_tag hd] at hv
  simp [fixed64, hd, hv]

/-- Past the early checks the tag returned with an error is accepted. -/
theorem Resubmitted.passes {s s' s2 : State n E} {t : Table n} {q : Request n} {e : Session}
    (hR : Rel s t) (he : t.slots q.slot = some e) (hr : ¬ Refused e q) (hq : Answered s q s')
    (herr : s'.rsp.error = true) (h2 : Resubmitted s' q s2) : s2.rsp.error = false := by
  have hrsp := hq.rsp_eq hR
  have hserve : serve (fixed64 chacha20 poly1305) t.slots q = _ := serve_answer he hr rfl
  rw [hserve] at hrsp
  have hok : (fixed64 chacha20 poly1305 (engineOperands e q)).authOk = false := by
    simpa [hrsp, answer] using herr
  have htag : s'.rsp.tag = (fixed64 chacha20 poly1305 (engineOperands e q)).tag := by rw [hrsp]; rfl
  -- the second request differs in the tag only, and that is now the right one
  have hserve2 : serve (fixed64 chacha20 poly1305) t.slots { q with tag := s'.rsp.tag } = _ :=
    serve_answer (q := { q with tag := s'.rsp.tag }) he hr rfl
  rw [h2.rsp_eq hR hq (by rw [hserve, hok]; rfl), hserve2, htag]
  exact (Bool.not_eq_false' ..).mpr (fixed64_mismatch hok)

/-- For every error response and every resubmission of it with its own tag: the response has
no data, its tag is independent of the keys and the resubmission fails, exactly when the
request was turned down before the engine was started. -/
theorem rejection_tells_nothing_iff {s s' s2 : State n E} {q : Request n}
    (hs : (design n E).Reachable s) (hq : Answered s q s') (herr : s'.rsp.error = true)
    (h2 : Resubmitted s' q s2) :
    (s'.rsp.data = 0#512 ∧ KeyBlind s q s' ∧ s2.rsp.error = true) ↔ RejectedEarly s q := by
  obtain ⟨t, hR⟩ := Reachable.rel hs
  rw [rejectedEarly_iff hR hq.idle]
  constructor
  · rintro ⟨-, -, herr2⟩ e he
    by_contra hr
    rw [h2.passes hR he hr hq herr] at herr2
    cases herr2
  · intro hrefused
    have hrsp := hq.rsp_eq hR
    have hserve : serve (fixed64 chacha20 poly1305) t.slots q = _ := serve_early hrefused
    rw [hserve] at hrsp
    refine ⟨by rw [hrsp]; rfl, fun s1 s1' hs1 hsame hq1 _ => ?_, ?_⟩
    · obtain ⟨t1, hR1⟩ := Reachable.rel hs1
      have hearly := (rejectedEarly_iff hR hq.idle).mpr hrefused
      have hearly1 := (rejectedEarly_iff hR1 hq1.idle).mp (hearly.sameButKeys hsame)
      have hserve1 : serve (fixed64 chacha20 poly1305) t1.slots q = _ := serve_early hearly1
      rw [hq1.rsp_eq hR1, hserve1, hrsp]
    · have hserve2 : serve (fixed64 chacha20 poly1305) t.slots { q with tag := s'.rsp.tag } = _ :=
        serve_early hrefused
      rw [h2.rsp_eq hR hq (by rw [hserve]), hserve2]
      rfl

/-- A request for a slot without a session, sent twice. -/
theorem rejection_tells_nothing_unconfigured :
    let s := (design 2 sampleEngine).rst samplePower
    let s' := next s { sampleRequest with rspReady := false }
    let s2 := next (next s' sampleCycle) sampleRequest
    s'.rsp.data = 0#512 ∧ KeyBlind s sampleRequest.req s' ∧ s2.rsp.error = true :=
  (rejection_tells_nothing_iff ⟨samplePower, [], rfl⟩
    ⟨{ sampleRequest with rspReady := false }, [], by simp [commands, reqReady, sampleRequest,
      sampleCycle, design, rst], fun pre hpre hne => absurd (List.prefix_nil.mp hpre) hne, rfl, rfl⟩
    rfl
    ⟨[.tick sampleCycle], fun cmd hcmd => List.mem_singleton.mp hcmd, sampleRequest, [],
      List.mem_cons_self, fun pre hpre hne => absurd (List.prefix_nil.mp hpre) hne, rfl, rfl⟩).mpr
    (Or.inr (Or.inl rfl))

end Fixed64

section Failing

variable (chacha20 : ChachaIn → BitVec 512) (poly1305 : PolyIn → BitVec 128)

/-- Every request to the boxed engine's manager at rest is answered. -/
theorem answered_box {s : State n (StartDone.box (fixed64 chacha20 poly1305))} {t : Table n}
    (hR : Rel s t) (hst : s.state = .idle) (q : Request n) : ∃ s', Answered s q s' := by
  set i : In n Bool := ⟨false, default, true, q, false, true⟩
  have hq : Cmd.request q ∈ commands s (.tick i) := by simp [commands, reqReady, hst, i]
  have hrel : Rel (next s i) _ := rel_step s t (.tick i) hR
  obtain ⟨is, hquiet, hr, hend⟩ := settles i hrel rfl
  refine ⟨_, i, is, hq, hquiet, rfl, hr.rspValid_iff.mpr (hend.resolve_left ?_)⟩
  exact attempt_busy (attempt_run hrel (attempt_accept i hq) is hquiet).1

/-- A decryption request on the fresh session of `sampleConfig`. -/
def sampleForged : Request 2 := ⟨0#1, true, 64#8, 0#64, 0#512, 0#128⟩

/-- Whatever the two ciphers are, a wrong tag on a fresh session is answered with the right one,
which then passes. -/
theorem forgery_with_returned_tag : ∃ s s' s2 : State 2 (StartDone.box (fixed64 chacha20 poly1305)),
    ∃ q : Request 2, (design 2 _).Reachable s ∧ Answered s q s' ∧ s'.rsp.error = true ∧
      Resubmitted s' q s2 ∧ s2.rsp.error = false := by
  let D := design 2 (StartDone.box (fixed64 chacha20 poly1305))
  let s0 : State 2 (StartDone.box (fixed64 chacha20 poly1305)) := D.rst samplePower
  have hR0 : Rel s0 (.empty : Table 2) := rel_rst samplePower .empty
  have hR1 : Rel (next s0 sampleInstall) ⟨configure (fun _ => none) sampleConfig, none⟩ :=
    rel_idle_configure (t := .empty) sampleInstall rfl hR0 rfl
  obtain ⟨is, -, hR, hend⟩ := settles sampleCycle hR1 rfl
  have hst := hend.resolve_right fun hst => by
    simp only [Rel, hst] at hR
    cases hR.2.2.1
  set s := D.run (next s0 sampleInstall) (is.map .tick)
  let e : Session := .fresh sampleConfig
  let tag := (fixed64 chacha20 poly1305 (engineOperands e sampleForged)).tag
  let q : Request 2 := { sampleForged with tag := tag + 1#128 }
  have he : configure (fun _ => none) sampleConfig q.slot = some e := rfl
  have hr : ¬ Refused e q := (by decide : ¬ Refused (.fresh sampleConfig) sampleForged)
  obtain ⟨s', hq⟩ := answered_box chacha20 poly1305 hR hst q
  have hserve : serve (fixed64 chacha20 poly1305) _ q = _ := serve_answer he hr rfl
  have hrsp := hq.rsp_eq hR
  have hne : tag ≠ tag + 1#128 := by
    intro heq
    have := congrArg (· - tag) heq
    simp at this
  have hok : (fixed64 chacha20 poly1305 (engineOperands e q)).authOk = false :=
    fixed64_wrong_tag rfl hne
  have herr : s'.rsp.error = true := by
    rw [hrsp, hserve]
    simp [answer, hok]
  -- the error is taken, and the request comes again with its tag
  have hR' := (hq.served hR).2
  have hv : s'.rspValid = true := hq.choose_spec.choose_spec.2.2.2
  have hst' := hR'.rspValid_iff.mp hv
  have htake := rel_response sampleCycle hst' hR'
  have hidle : (next s' sampleCycle).state = .idle := by
    simp only [next, hst']
    rfl
  obtain ⟨s2, hq2⟩ := answered_box chacha20 poly1305 htake hidle { q with tag := s'.rsp.tag }
  have h2 : Resubmitted s' q s2 := by
    refine ⟨[.tick sampleCycle], fun cmd hcmd => ?_, hq2⟩
    simp only [Design.trace, List.append_nil] at hcmd
    rw [commands_busy _ (by rw [hst']; decide), hv] at hcmd
    exact List.mem_singleton.mp hcmd
  exact ⟨s, s', s2, q, ⟨samplePower, .tick sampleInstall :: is.map .tick, rfl⟩, hq, herr, h2,
    h2.passes hR he hr hq herr⟩

/-- So no choice of ciphers makes every error response of the manager safe to show. -/
theorem rejection_tells_something : ¬ ∃ chacha20 poly1305,
    ∀ (E : StartDone (fixed64 chacha20 poly1305) Bool) (s s' : State 2 E) (q : Request 2),
      (design 2 E).Reachable s → Answered s q s' → s'.rsp.error = true →
      s'.rsp.data = 0#512 ∧ KeyBlind s q s' ∧
        ∀ s2, Resubmitted s' q s2 → s2.rsp.error = true := by
  rintro ⟨chacha20, poly1305, h⟩
  obtain ⟨s, s', s2, q, hs, hq, herr, h2, hok⟩ := forgery_with_returned_tag chacha20 poly1305
  have herr2 := (h _ s s' q hs hq herr).2.2 s2 h2
  rw [hok] at herr2
  cases herr2

end Failing

end ZedSecure
