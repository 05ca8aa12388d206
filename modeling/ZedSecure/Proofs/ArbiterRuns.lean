import ZedSecure.Clocked.RoundRobin
import ZedSecure.Proofs.AeadRfc
import ZedSecure.Proofs.ArbiterRefinement

/-! Runs of the arbiter whose ports hold their requests until they are accepted: every accepted
request is answered once on its own port, responses stay until they are taken, and a waiting port
sees at most three other acceptances. -/

namespace ZedSecure

open Clocked SessionTable RoundRobin

namespace SessionArbiter

variable {aead : EngineIn → EngineOut} {κ : Type} {E : StartDone aead κ}

section Turns

/-- A port's place on the circle. -/
def place (p : Port) : Fin 4 := ⟨p.toNat, p.isLt⟩

def atPlace (x : Fin 4) : Port := port x.val

theorem atPlace_place (p : Port) : atPlace (place p) = p := BitVec.eq_of_toNat_eq (Nat.mod_eq_of_lt p.isLt)

theorem place_inj {p q : Port} (h : place p = place q) : p = q :=
  BitVec.eq_of_toNat_eq (Fin.mk.inj h)

/-- How many ports are searched before `p`. -/
def ahead (lastGrant p : Port) : ℕ := distance (place lastGrant + 1) (place p)

theorem ahead_lt (last p : Port) : ahead last p < 4 := distance_lt _ _

theorem ahead_self (p : Port) : ahead p p = 3 := distance_served _

theorem ahead_inj {last p q : Port} (h : ahead last p = ahead last q) : p = q := place_inj (distance_inj h)

/-- The search order is the circle behind the previous winner. -/
theorem searchOrder_eq (last : Port) : (searchOrder last).map place =
    (List.finRange 4).map (place last + 1 + ·) := by
  rcases port_cases last with rfl | rfl | rfl | rfl <;> decide

/-- The requests as a round-robin queue. -/
def queue (last : Port) (valid : Port → Bool) : Queue 4 Unit :=
  ⟨fun x => if valid (atPlace x) then some () else none, place last + 1⟩

theorem grantSlot_eq (last : Port) (valid : Port → Bool) :
    (grantSlot last valid).map place = (queue last valid).pick.map Prod.fst := by
  rw [pick_slot, queue, ← searchOrder_eq, List.find?_map, grantSlot]
  refine congrArg _ (List.find?_congr fun p _ => ?_)
  simp only [Function.comp, atPlace_place]
  cases valid p <;> rfl

/-- The winner is valid, and no valid port is searched before it. -/
theorem grantSlot_first {last q : Port} {valid : Port → Bool} (h : grantSlot last valid = some q) :
    valid q = true ∧ ∀ p, valid p = true → ahead last q ≤ ahead last p := by
  have hpick := grantSlot_eq last valid
  rw [h, Option.map_some] at hpick
  obtain ⟨⟨x, u⟩, hx, hq⟩ := Option.map_eq_some_iff.mp hpick.symm
  obtain ⟨-, hmin⟩ := pick_eq_some.mp hx
  refine ⟨List.find?_some h, ?_⟩
  intro p hp
  have hle := hmin (place p) (by simp [queue, atPlace_place, hp])
  rw [show x = place q from hq] at hle
  exact hle

theorem grantSlot_none {last : Port} {valid : Port → Bool} (h : grantSlot last valid = none) (p : Port) :
    valid p = false := by
  have hmem : p ∈ searchOrder last := by
    rcases port_cases last with rfl | rfl | rfl | rfl <;>
      rcases port_cases p with rfl | rfl | rfl | rfl <;> decide
  simpa using List.find?_eq_none.mp h p hmem

/-- After another port's turn fewer are ahead. -/
theorem ahead_next {last p q : Port} (h : ahead last q < ahead last p) : ahead q p < ahead last p := by
  have hpast : ahead q p = _ := distance_past h
  rw [hpast]
  change ahead last p - ahead last q - 1 < ahead last p
  omega

end Turns

section Events

/-- The handshake that accepts a request of port `p`. -/
def accepted (s : State E) (i : In κ) (p : Port) : Bool := reqReady s p && i.reqValid p

def taken (s : State E) (i : In κ) (p : Port) : Bool := s.rspValid p && i.rspReady p

/-- A port that is not accepted keeps its request up, and its operands. -/
def Keeps (s : State E) (i i' : In κ) : Prop :=
  ∀ p, i.reqValid p = true → accepted s i p = false → i'.reqValid p = true ∧ i'.req p = i.req p

/-- A port that has been accepted and whose response has not been taken. -/
def outstanding (s : State E) (p : Port) : Bool :=
  (s.state = .waitEngine || s.state = .response) && s.activeSlot = p

/-- A picked port is the last winner, and still asks. -/
def Granted (s : State E) (i : In κ) : Prop :=
  s.state = .grant → s.lastGrant = s.activeSlot ∧ i.reqValid s.activeSlot = true

theorem granted_next {s : State E} {i i' : In κ} (hkeep : Keeps s i i') : Granted (next s i) i' := by
  intro hg
  have hs : (frame s i).state = s.state := rfl
  cases hst : s.state with
  | idle =>
    cases hc : i.cfgWrite
    · cases hgrant : grantSlot s.lastGrant i.reqValid with
      | none =>
        simp only [next, hst, hc, hgrant, Bool.false_eq_true, if_false, hs] at hg
        cases hg
      | some p =>
        have hvalid := (grantSlot_first hgrant).1
        have hheld := (hkeep p hvalid (by simp [accepted, reqReady, hst])).1
        simp only [next, hst, hc, hgrant, Bool.false_eq_true, if_false]
        exact ⟨trivial, hheld⟩
    · simp only [next, hst, hc, if_true, hs] at hg
      cases hg
  | grant =>
    simp only [next, hst] at hg
    split_ifs at hg
  | waitEngine =>
    simp only [next, hst] at hg
    split_ifs at hg
    rw [hs, hst] at hg
    cases hg
  | response =>
    simp only [next, hst] at hg
    split_ifs at hg
    rw [hs, hst] at hg
    cases hg

/-- An acceptance makes a port owed a response, and taking the response settles it. -/
theorem outstanding_next {s : State E} {t : Table 4} {i : In κ} (h : Rel s t) (hg : Granted s i) (p : Port) :
    (outstanding s p).toNat + (accepted s i p).toNat =
      (taken s i p).toNat + (outstanding (next s i) p).toNat := by
  have hv := h.rspValid p
  have hs : (frame s i).state = s.state := rfl
  cases hst : s.state with
  | idle =>
    have hnext : (next s i).state = .idle ∨ (next s i).state = .grant := by
      cases hc : i.cfgWrite
      · cases hgrant : grantSlot s.lastGrant i.reqValid <;> simp [next, hst, hc, hgrant, hs]
      · simp [next, hst, hc, hs]
    have hout : outstanding (next s i) p = false := by
      rcases hnext with hn | hn <;> simp [outstanding, hn]
    rw [hout]
    simp [outstanding, accepted, taken, reqReady, hst, hv]
  | grant =>
    have hnext : (next s i).activeSlot = s.activeSlot ∧
        ((next s i).state = .waitEngine ∨ (next s i).state = .response) := by
      simp only [next, hst]
      split_ifs <;> simp [frame]
    have hout : outstanding (next s i) p = decide (s.activeSlot = p) := by
      rcases hnext with ⟨ha, hn | hn⟩ <;> simp [outstanding, hn, ha]
    have hvalid := (hg hst).2
    by_cases hp : s.activeSlot = p
    · subst hp
      rw [hout]
      simp [outstanding, accepted, taken, reqReady, hst, hv, hvalid]
    · rw [hout]
      simp [outstanding, accepted, taken, reqReady, hst, hv, hp]
  | waitEngine =>
    have hnext : (next s i).activeSlot = s.activeSlot ∧
        ((next s i).state = .waitEngine ∨ (next s i).state = .response) := by
      simp only [next, hst]
      split_ifs <;> simp [frame, hst]
    have hout : outstanding (next s i) p = decide (s.activeSlot = p) := by
      rcases hnext with ⟨ha, hn | hn⟩ <;> simp [outstanding, hn, ha]
    rw [hout]
    simp [outstanding, accepted, taken, reqReady, hst, hv]
  | response =>
    by_cases hp : s.activeSlot = p
    · subst hp
      cases hr : i.rspReady s.activeSlot <;>
        simp [next, outstanding, accepted, taken, reqReady, hst, hv, hr, hs]
      simp [frame]
    · have hout : outstanding (next s i) p = false := by
        cases hr : i.rspReady s.activeSlot <;> simp [next, outstanding, hst, hr, frame, hp]
      rw [hout]
      simp [outstanding, accepted, taken, reqReady, hst, hv, hp, Ne.symm hp]

end Events

section Fairness

/-- The acceptances a waiting port may still see on the other ports. -/
def budget (s : State E) (p : Port) : ℕ :=
  if s.state = .grant ∧ s.activeSlot = p then 0
  else ahead s.lastGrant p + if s.state = .grant then 1 else 0

theorem budget_le {s : State E} {i : In κ} (hg : Granted s i) (p : Port) : budget s p ≤ 3 := by
  have hlt := ahead_lt s.lastGrant p
  unfold budget
  split_ifs with hpicked hgrant
  · omega
  · -- the last winner itself is the farthest port
    have hlast := (hg hgrant).1
    have hne : ahead s.lastGrant p ≠ 3 := by
      rw [← ahead_self s.lastGrant]
      intro heq
      exact hpicked ⟨hgrant, hlast ▸ (ahead_inj heq).symm⟩
    omega
  · omega

/-- Each acceptance of another port uses up one. -/
theorem budget_next {s : State E} {i : In κ} {p : Port} (hg : Granted s i) (hv : i.reqValid p = true)
    (hp : accepted s i p = false) :
    budget (next s i) p + (ports.filter (accepted s i)).length ≤ budget s p := by
  have hs : (frame s i).state = s.state := rfl
  have hnone : s.state ≠ .grant → ports.filter (accepted s i) = [] := by
    intro hst
    rw [List.filter_eq_nil_iff]
    intro q _
    simp [accepted, reqReady, hst]
  cases hst : s.state with
  | idle =>
    rw [hnone (by simp [hst])]
    cases hc : i.cfgWrite
    · cases hgrant : grantSlot s.lastGrant i.reqValid with
      | none => exact absurd hv (by simp [grantSlot_none hgrant p])
      | some q =>
        by_cases hqp : q = p
        · simp [budget, next, hst, hc, hgrant, hqp]
        · have hle := (grantSlot_first hgrant).2 p hv
          have hlt : ahead s.lastGrant q < ahead s.lastGrant p :=
            lt_of_le_of_ne hle fun heq => hqp (ahead_inj heq)
          have hnext := ahead_next hlt
          simp [budget, next, hst, hc, hgrant, hqp]
          omega
    · simp [budget, next, hst, hc, hs]
      rfl
  | grant =>
    have hne : s.activeSlot ≠ p := by
      rintro rfl
      simp [accepted, reqReady, hst, (hg hst).2] at hp
    have hone : ports.filter (accepted s i) = [s.activeSlot] := by
      rw [← List.filterMap_eq_filter, filterMap_ports s.activeSlot fun q hq => by
        simp [accepted, reqReady, Ne.symm hq, Option.guard]]
      simp [accepted, reqReady, hst, (hg hst).2, Option.guard]
    rw [hone]
    have hnext : (next s i).lastGrant = s.lastGrant ∧ (next s i).state ≠ .grant := by
      simp only [next, hst]
      split_ifs <;> simp [frame]
    simp [budget, hst, hne, hnext.1, hnext.2]
  | waitEngine =>
    rw [hnone (by simp [hst])]
    have hnext : (next s i).lastGrant = s.lastGrant ∧ (next s i).state ≠ .grant := by
      simp only [next, hst]
      split_ifs <;> simp [frame, hst]
    simp [budget, hst, hnext.1, hnext.2]
  | response =>
    rw [hnone (by simp [hst])]
    have hnext : (next s i).lastGrant = s.lastGrant ∧ (next s i).state ≠ .grant := by
      simp only [next, hst]
      split_ifs <;> simp [frame, hst]
    simp [budget, hst, hnext.1, hnext.2]

end Fairness

section Runs

/-- An endless run from reset whose ports hold their requests. -/
structure Run (s : ℕ → State E) (ins : ℕ → In κ) : Prop where
  start : s 0 = .init E
  step : ∀ n, s (n + 1) = next (s n) (ins n)
  keeps : ∀ n, Keeps (s n) (ins n) (ins (n + 1))

/-- The engine answers every start, after any number of cycles. -/
def EngineAnswers (s : ℕ → State E) : Prop :=
  ∀ n, (s n).state = .waitEngine → ∃ m ≥ n, E.done (s m).engine = true

/-- The ports accepted in `k` cycles from cycle `n`, in order. -/
def turns (s : ℕ → State E) (ins : ℕ → In κ) (n k : ℕ) : List Port :=
  (List.range' n k).flatMap fun j => ports.filter (accepted (s j) (ins j))

def acceptances (s : ℕ → State E) (ins : ℕ → In κ) (p : Port) (n : ℕ) : ℕ :=
  (List.range n).countP fun j => accepted (s j) (ins j) p

def takings (s : ℕ → State E) (ins : ℕ → In κ) (p : Port) (n : ℕ) : ℕ :=
  (List.range n).countP fun j => taken (s j) (ins j) p

variable {s : ℕ → State E} {ins : ℕ → In κ}

theorem Run.granted (h : Run s ins) (n : ℕ) : Granted (s n) (ins n) := by
  cases n with
  | zero =>
    intro hg
    rw [h.start] at hg
    cases hg
  | succ n =>
    rw [h.step n]
    exact granted_next (h.keeps n)

variable (gated : ∀ x, (aead x).authOk = false → (aead x).data = 0#512)

include gated in
theorem Run.rel (h : Run s ins) (n : ℕ) : ∃ t, Rel (s n) t := by
  induction n with
  | zero =>
    rw [h.start]
    exact ⟨.empty, rel_rst (.init E) .empty⟩
  | succ n ih =>
    obtain ⟨t, ht⟩ := ih
    rw [h.step n]
    exact ⟨_, rel_step gated (s n) t (.tick (ins n)) ht⟩

include gated in
/-- What was accepted and not yet answered for good is one request at most. -/
theorem Run.account (h : Run s ins) (p : Port) (n : ℕ) :
    acceptances s ins p n = takings s ins p n + (outstanding (s n) p).toNat := by
  induction n with
  | zero =>
    simp [acceptances, takings, outstanding, h.start, State.init]
  | succ n ih =>
    obtain ⟨t, ht⟩ := h.rel gated n
    have hnext := outstanding_next ht (h.granted n) p
    rw [← h.step n] at hnext
    simp only [acceptances, takings, List.range_succ, List.countP_append, List.countP_singleton] at ih ⊢
    cases ha : accepted (s n) (ins n) p <;> cases hk : taken (s n) (ins n) p <;>
      simp only [ha, hk, Bool.toNat_true, Bool.toNat_false, if_true, if_false, Bool.false_eq_true] at hnext ⊢ <;>
      omega

theorem waitEngine_next {s : State E} (i : In κ) (hst : s.state = .waitEngine) :
    (next s i).activeSlot = s.activeSlot ∧
      (next s i).state = if E.done s.engine then .response else .waitEngine := by
  simp only [next, hst]
  split_ifs <;> simp [frame, hst]

include gated in
/-- The engine's answer brings the response of the request it works on. -/
theorem Run.response_comes (h : Run s ins) (hengine : EngineAnswers s) {n : ℕ} {t : Table 4}
    (hst : (s n).state = .waitEngine) (ht : Rel (s n) t) :
    ∃ m > n, (s m).state = .response ∧ (s m).activeSlot = (s n).activeSlot ∧ Rel (s m) t ∧
      ∀ j, n ≤ j → j < m → (s j).state = .waitEngine := by
  obtain ⟨M, hM, hdone⟩ := hengine n hst
  induction hk : M - n using Nat.strong_induction_on generalizing n with
  | _ k ih =>
    have hrel := rel_waitEngine gated (ins n) hst ht
    have hnext := waitEngine_next (ins n) hst
    rw [← h.step n] at hrel hnext
    cases hd : E.done (s n).engine
    · have hne : M ≠ n := by
        rintro rfl
        rw [hdone] at hd
        cases hd
      rw [hd] at hnext
      obtain ⟨m, hm, hresp, hactive, hrelm, hwait⟩ :=
        ih (M - (n + 1)) (by omega) hnext.2 hrel (by omega) rfl
      refine ⟨m, by omega, hresp, hactive.trans hnext.1, hrelm, ?_⟩
      intro j hj hlt
      rcases Nat.eq_or_lt_of_le hj with rfl | hgt
      · exact hst
      · exact hwait j hgt hlt
    · rw [hd] at hnext
      refine ⟨n + 1, by omega, hnext.2, hnext.1, hrel, ?_⟩
      intro j hj hlt
      rwa [show j = n by omega]

include gated in
/-- An accepted request is answered on its port, by the table's answer. -/
theorem Run.answered (h : Run s ins) (hengine : EngineAnswers s) {n : ℕ} {p : Port}
    (ha : accepted (s n) (ins n) p = true) : ∃ m > n, (s m).rspValid p = true ∧
      ((s m).rsp p).onSlot p = (serve aead (table (s n)) (((ins n).req p).onSlot p)).2 ∧
      ∀ j, n ≤ j → j < m → (s j).rspValid p = false := by
  obtain ⟨t, ht⟩ := h.rel gated n
  have hgrant : (s n).state = .grant ∧ (s n).activeSlot = p := by
    simp only [accepted, reqReady, Bool.and_eq_true, decide_eq_true_eq] at ha
    exact ha.1
  obtain ⟨hst, rfl⟩ := hgrant
  have hslots : t.slots = table (s n) := by
    have h' := ht
    simp only [Rel, hst] at h'
    exact h'.2.2.1
  have hrel := rel_grant (ins n) hst ht
  rw [hslots, ← h.step n] at hrel
  have hnext : (s (n + 1)).activeSlot = (s n).activeSlot ∧
      ((s (n + 1)).state = .waitEngine ∨ (s (n + 1)).state = .response) := by
    rw [h.step n]
    simp only [next, hst]
    split_ifs <;> simp [frame]
  have hquiet : (s n).rspValid (s n).activeSlot = false := by simp [ht.rspValid, hst]
  have hshow : ∀ m, (s m).state = .response → (s m).activeSlot = (s n).activeSlot →
      Rel (s m) ⟨(serve aead (table (s n)) (((ins n).req (s n).activeSlot).onSlot (s n).activeSlot)).1,
        some (serve aead (table (s n)) (((ins n).req (s n).activeSlot).onSlot (s n).activeSlot)).2⟩ →
      (s m).rspValid (s n).activeSlot = true ∧ ((s m).rsp (s n).activeSlot).onSlot (s n).activeSlot =
        (serve aead (table (s n)) (((ins n).req (s n).activeSlot).onSlot (s n).activeSlot)).2 := by
    intro m hresp hactive hrelm
    refine ⟨by simp [hrelm.rspValid, hresp, hactive], ?_⟩
    simp only [Rel, hresp, hactive] at hrelm
    exact (Option.some.inj hrelm.2.2.2).symm
  rcases hnext with ⟨hactive, hwait | hresp⟩
  · obtain ⟨m, hm, hresp, hactive', hrelm, hwaits⟩ := h.response_comes gated hengine hwait hrel
    obtain ⟨hv, hr⟩ := hshow m hresp (hactive'.trans hactive) hrelm
    refine ⟨m, by omega, hv, hr, ?_⟩
    intro j hj hlt
    rcases Nat.eq_or_lt_of_le hj with rfl | hgt
    · exact hquiet
    · obtain ⟨u, hu⟩ := h.rel gated j
      simp [hu.rspValid, hwaits j hgt hlt]
  · obtain ⟨hv, hr⟩ := hshow (n + 1) hresp hactive hrel
    refine ⟨n + 1, by omega, hv, hr, ?_⟩
    intro j hj hlt
    rwa [show j = n by omega]

end Runs

section Ports

theorem fixed64_gated (chacha20 : ChachaIn → BitVec 512) (poly1305 : PolyIn → BitVec 128) (x : EngineIn)
    (h : (fixed64 chacha20 poly1305 x).authOk = false) : (fixed64 chacha20 poly1305 x).data = 0#512 := by
  simp only [fixed64] at h ⊢
  split_ifs at h ⊢
  rfl

/-- What port `p` sees of a run: `answered` and `once` give every accepted request one response,
`stable` keeps it until it is taken, `undisturbed` keeps the other ports' business off the port, and
`fair` and `reached` bound its wait. -/
structure Serves (s : ℕ → State E) (ins : ℕ → In κ) (p : Port) : Prop where
  answered : ∀ n, accepted (s n) (ins n) p = true → ∃ m > n, (s m).rspValid p = true ∧
    ((s m).rsp p).onSlot p = (serve aead (table (s n)) (((ins n).req p).onSlot p)).2 ∧
    ∀ j, n ≤ j → j < m → (s j).rspValid p = false
  once : ∀ n, takings s ins p n ≤ acceptances s ins p n ∧ acceptances s ins p n ≤ takings s ins p n + 1 ∧
    ((s n).rspValid p = true → acceptances s ins p n = takings s ins p n + 1)
  stable : ∀ n, (s n).rspValid p = true → if (ins n).rspReady p then (s (n + 1)).rspValid p = false
    else (s (n + 1)).rspValid p = true ∧ (s (n + 1)).rsp p = (s n).rsp p
  undisturbed : ∀ n, acceptances s ins p n = takings s ins p n → accepted (s n) (ins n) p = false →
    (s (n + 1)).rsp p = (s n).rsp p ∧ (s (n + 1)).rspValid p = (s n).rspValid p
  fair : ∀ n k, (ins n).reqValid p = true → p ∉ turns s ins n k → (turns s ins n k).length ≤ 3
  reached : (∀ n, ∃ m ≥ n, (s m).state = .idle ∧ (ins m).cfgWrite = false) →
    ∀ n, (ins n).reqValid p = true → ∃ m ≥ n, accepted (s m) (ins m) p = true

variable {chacha20 : ChachaIn → BitVec 512} {poly1305 : PolyIn → BitVec 128}
  {E : StartDone (fixed64 chacha20 poly1305) κ} {s : ℕ → State E} {ins : ℕ → In κ}

/-- An install on slot 0, and from then on encrypts on ports 0 and 2 without end. -/
def sampleIn (n : ℕ) : In ((Unit × Unit)) :=
  { cfgWrite := n = 0, cfg := ⟨port 0, true, 7#32, 1#256, 2#256, 3#32, 4#32⟩
    reqValid := fun p => p = port 0 ∨ p = port 2, req := fun _ => ⟨false, 5#8, 0#64, 6#512, 0#128⟩
    rspReady := fun _ => true, engine := ((), ()) }

def sampleRun : ℕ → State AeadEngine.packetEngine :=
  (design AeadEngine.packetEngine).stream (.init _) sampleIn

end Ports

end SessionArbiter

end ZedSecure
