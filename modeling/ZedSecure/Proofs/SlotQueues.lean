import ZedSecure.Proofs.OpenRequests

/-! What is queued for a slot, and who has it: a free slot has at most its open queued, an occupied one the data of
its owner and at last one leave. -/

namespace ZedSecure

namespace DemoController

variable {n : ℕ}

def Op.slot : Op n → Option ℕ
  | .open _ k | .leave _ k | .data _ k _ => some k
  | .swkem => none

/-- The commands queued for a slot, in order. -/
def queue (w : Worker n) (k : ℕ) : List (Op n) := (w.commands.map (·.op)).filter fun op => op.slot = some k

/-- What may be queued for a slot, by what the board has in it. -/
inductive Queued (k : ℕ) : Option (Owner n) → List (Op n) → Prop where
  | free : Queued k none []
  | opening (o : Owner n) : Queued k none [.open o k]
  | held (o : Owner n) : Queued k (some o) []
  | leaving (o : Owner n) : Queued k (some o) [.leave o k]
  | data (o : Owner n) (tamper : Bool) (q : List (Op n)) (h : Queued k (some o) q) :
      Queued k (some o) (.data o k tamper :: q)

/-- No leave is queued. -/
def Kept (q : List (Op n)) : Prop := ∀ o k, Op.leave o k ∉ q

section Queued

variable {k : ℕ} {o : Owner n} {st : Option (Owner n)} {q : List (Op n)}

theorem Queued.append_data (h : Queued k st q) (hst : st = some o) (hkept : Kept q) (tamper : Bool) :
    Queued k (some o) (q ++ [.data o k tamper]) := by
  induction h with
  | free | opening => cases hst
  | held => exact .data o tamper [] (.held o)
  | leaving o' => exact absurd List.mem_cons_self (hkept o' k)
  | data o' t q _ ih =>
    obtain rfl := Option.some.inj hst
    exact .data o' t _ (ih rfl fun o'' k'' hmem => hkept o'' k'' (List.mem_cons_of_mem _ hmem))

theorem Queued.append_leave (h : Queued k st q) (hst : st = some o) (hkept : Kept q) :
    Queued k (some o) (q ++ [.leave o k]) := by
  induction h with
  | free | opening => cases hst
  | held => exact .leaving o
  | leaving o' => exact absurd List.mem_cons_self (hkept o' k)
  | data o' t q _ ih =>
    obtain rfl := Option.some.inj hst
    exact .data o' t _ (ih rfl fun o'' k'' hmem => hkept o'' k'' (List.mem_cons_of_mem _ hmem))

/-- Nothing but its open is queued for a free slot. -/
theorem Queued.of_none (h : Queued k st q) (hst : st = none) : q = [] ∨ ∃ o, q = [Op.open o k] := by
  cases h with
  | free => exact Or.inl rfl
  | opening o => exact Or.inr ⟨o, rfl⟩
  | held | leaving | data => cases hst

/-- An open finds the slot free, and nothing comes after it. -/
theorem Queued.of_open (h : Queued k st (.open o k :: q)) : st = none ∧ q = [] := by
  cases h
  exact ⟨rfl, rfl⟩

/-- A leave finds the session of its owner, and nothing comes after it. -/
theorem Queued.of_leave (h : Queued k st (.leave o k :: q)) : st = some o ∧ q = [] := by
  cases h
  exact ⟨rfl, rfl⟩

/-- Data finds the session of its owner. -/
theorem Queued.of_data {tamper : Bool} (h : Queued k st (.data o k tamper :: q)) : st = some o ∧ Queued k st q := by
  cases h with
  | data _ _ _ h => exact ⟨rfl, h⟩

end Queued

section Queues

variable {s : State n} {b b' : Board} {op : Op n} {context : Context} {k : ℕ}

theorem queue_cons {w : Worker n} {c : BoardCommand n} {cs : List (BoardCommand n)} (h : w.commands = c :: cs)
    {w' : Worker n} (h' : w'.commands = cs) (k : ℕ) :
    queue w k = if c.op.slot = some k then c.op :: queue w' k else queue w' k := by
  simp only [queue, h, h', List.map_cons, List.filter_cons, decide_eq_true_eq]

theorem queue_submit : queue ((submit s b op context).workers b) k =
    queue (s.workers b) k ++ if op.slot = some k then [op] else [] := by
  rw [submit_workers_self]
  simp only [queue, List.map_append, List.filter_append, List.map_cons, List.map_nil, List.filter_cons, List.filter_nil,
    decide_eq_true_eq]

theorem mem_queue {w : Worker n} : op ∈ queue w k ↔ (∃ c ∈ w.commands, c.op = op) ∧ op.slot = some k := by
  simp only [queue, List.mem_filter, List.mem_map, decide_eq_true_eq]

/-- What is queued is on its way. -/
theorem flies_of_queue (h : op ∈ queue (s.workers b) k) : ∃ x, Flies s b x op := by
  obtain ⟨⟨c, hc, rfl⟩, -⟩ := mem_queue.mp h
  exact ⟨c.commandId, List.mem_append_right _ (List.mem_map.mpr ⟨c, hc, rfl⟩)⟩

theorem flies_of_result {r : BoardResult n} (h : r ∈ (s.workers b).results) : Flies s b r.commandId r.op :=
  List.mem_append_left _ (List.mem_map.mpr ⟨r, h, rfl⟩)

end Queues

/-- The session of `o` stands in slot `k` of a board, and nobody has given it up. -/
structure Session (s : State n) (o : Owner n) (b : Board) (k : ℕ) : Prop where
  here : (s.workers b).slots k = some o
  reserved : s.reserved b k = false
  kept : Kept (queue (s.workers b) k)

structure Stocked (s : State n) : Prop where
  queued : ∀ b k, Queued k ((s.workers b).slots k) (queue (s.workers b) k)
  opened : ∀ b r o k, r ∈ (s.workers b).results → r.op = .open o k → (r.ok || r.blocked) = true →
    (s.workers b).slots k = some o ∧ queue (s.workers b) k = []
  held : ∀ i b, (s.vehicles i).board = some b → (s.vehicles i).state ≠ .exiting →
    ∃ k, (s.vehicles i).slot = some k ∧ Session s (owner s i) b k
  linked : ∀ i, (s.vehicles i).state = .connected ∨ (s.vehicles i).state = .handover → (s.vehicles i).board.isSome

section Changes

variable {s s' : State n} {i : Fin n} {v : Vehicle} {b b' : Board} {o : Owner n} {k k' : ℕ} {op : Op n}
  {context : Context}

theorem Stocked.setVehicle (h : Stocked s)
    (hheld : ∀ b, v.board = some b → v.state ≠ .exiting →
      ∃ k, v.slot = some k ∧ Session s ⟨v.vehicleId, i⟩ b k)
    (hlinked : v.state = .connected ∨ v.state = .handover → v.board.isSome) : Stocked (setVehicle s i v) := by
  refine ⟨h.queued, h.opened, ?_, ?_⟩
  · intro j b
    by_cases hj : j = i
    · subst hj
      rw [setVehicle_self, owner, setVehicle_self]
      intro hb hst
      obtain ⟨k, hk, hs⟩ := hheld b hb hst
      exact ⟨k, hk, hs.here, hs.reserved, hs.kept⟩
    · rw [setVehicle_of_ne s i v hj, owner_setVehicle hj]
      intro hb hst
      obtain ⟨k, hk, hs⟩ := h.held j b hb hst
      exact ⟨k, hk, hs.here, hs.reserved, hs.kept⟩
  · intro j
    by_cases hj : j = i
    · subst hj
      rw [setVehicle_self]
      exact hlinked
    · rw [setVehicle_of_ne s i v hj]
      exact h.linked j

/-- Sessions and queues are as before, and no reservation concerns a session. -/
theorem Stocked.of_eq (h : Stocked s) (hslots : ∀ b, (s'.workers b).slots = (s.workers b).slots)
    (hqueue : ∀ b k, queue (s'.workers b) k = queue (s.workers b) k)
    (hresults : ∀ b r, r ∈ (s'.workers b).results → r ∈ (s.workers b).results) (hv : s'.vehicles = s.vehicles)
    (hres : ∀ b k, (s.workers b).slots k ≠ none → s.reserved b k = false → s'.reserved b k = false) : Stocked s' := by
  refine ⟨?_, ?_, ?_, ?_⟩
  · intro b k
    rw [hslots, hqueue]
    exact h.queued b k
  · intro b r o k hr
    rw [hslots, hqueue]
    exact h.opened b r o k (hresults b r hr)
  · intro i b
    rw [hv]
    intro hb hst
    obtain ⟨k, hk, hs⟩ := h.held i b hb hst
    refine ⟨k, hk, ?_, hres b k (by rw [hs.here]; simp) hs.reserved, ?_⟩
    · rw [hslots, owner, hv]
      exact hs.here
    · rw [hqueue]
      exact hs.kept
  · intro i
    rw [hv]
    exact h.linked i

/-- What has to hold of the slot for a command to be submitted. -/
def Suits (s : State n) (b : Board) : Op n → Prop
  | .open _ k => (s.workers b).slots k = none ∧ ∀ x o', ¬ Flies s b x (.open o' k)
  | .data o k _ => Session s o b k
  | .leave o k => Session s o b k ∧
      ∀ j, (s.vehicles j).board = some b → (s.vehicles j).slot = some k → (s.vehicles j).state = .exiting
  | .swkem => True

/-- No answered open waits on a slot with a session. -/
theorem Stocked.not_opened (ha : Asked s) (hs : Session s o b k) {r : BoardResult n} {o' : Owner n}
    (hr : r ∈ (s.workers b).results) : r.op ≠ .open o' k := by
  intro hop
  have hfly := flies_of_result hr
  rw [hop] at hfly
  have hres := (ha.opens b _ o' k hfly).1
  rw [hs.reserved] at hres
  cases hres

theorem Stocked.submit (h : Stocked s) (ha : Asked s) (hsuits : Suits s b op) : Stocked (submit s b op context) := by
  have hother : ∀ k, op.slot ≠ some k → queue ((DemoController.submit s b op context).workers b) k =
      queue (s.workers b) k := by
    intro k hk
    rw [queue_submit, if_neg hk, List.append_nil]
  have hqueue : ∀ b' k, queue ((DemoController.submit s b op context).workers b') k = queue (s.workers b') k ∨
      (b' = b ∧ op.slot = some k ∧ queue ((DemoController.submit s b op context).workers b') k =
        queue (s.workers b') k ++ [op]) := by
    intro b' k
    by_cases hb : b' = b
    · subst hb
      by_cases hk : op.slot = some k
      · exact Or.inr ⟨rfl, hk, by rw [queue_submit, if_pos hk]⟩
      · exact Or.inl (hother k hk)
    · exact Or.inl (by rw [submit_workers_of_ne hb])
  refine ⟨?_, ?_, ?_, h.linked⟩
  · intro b' k
    have hq := h.queued b' k
    rw [submit_slots]
    rcases hqueue b' k with heq | ⟨rfl, hk, heq⟩
    · rw [heq]
      exact hq
    · rw [heq]
      cases op with
      | «open» o k' =>
        obtain rfl := Option.some.inj hk
        obtain ⟨hnone, hfree⟩ := hsuits
        rw [hnone]
        rcases hq.of_none hnone with hnil | ⟨o', hopen⟩
        · rw [hnil]
          exact .opening o
        · obtain ⟨x, hx⟩ := @flies_of_queue _ s b' (.open o' k') k' (by simp [hopen])
          exact absurd hx (hfree x o')
      | leave o k' =>
        obtain rfl := Option.some.inj hk
        have hs := hsuits.1
        rw [hs.here]
        exact hq.append_leave hs.here hs.kept
      | data o k' tamper =>
        obtain rfl := Option.some.inj hk
        have hs : Session s o b' k' := hsuits
        rw [hs.here]
        exact hq.append_data hs.here hs.kept tamper
      | swkem => cases hk
  · intro b' r o k hr hop hok
    rw [submit_results] at hr
    obtain ⟨hsome, hnil⟩ := h.opened b' r o k hr hop hok
    rw [submit_slots]
    refine ⟨hsome, ?_⟩
    rcases hqueue b' k with heq | ⟨rfl, hk, -⟩
    · rw [heq, hnil]
    · exfalso
      cases op with
      | «open» o' k' =>
        obtain rfl := Option.some.inj hk
        rw [hsuits.1] at hsome
        cases hsome
      | leave o' k' =>
        obtain rfl := Option.some.inj hk
        exact Stocked.not_opened ha hsuits.1 hr hop
      | data o' k' tamper =>
        obtain rfl := Option.some.inj hk
        exact Stocked.not_opened ha (o := o') hsuits hr hop
      | swkem => cases hk
  · intro i b' hb hst
    obtain ⟨k, hk, hs⟩ := h.held i b' hb hst
    refine ⟨k, hk, ?_, hs.reserved, ?_⟩
    · rw [submit_slots]
      exact hs.here
    · rcases hqueue b' k with heq | ⟨rfl, hslot, heq⟩
      · rw [heq]
        exact hs.kept
      · rw [heq]
        intro o' k' hmem
        rcases List.mem_append.mp hmem with hmem | hmem
        · exact hs.kept o' k' hmem
        · obtain rfl := List.mem_singleton.mp hmem
          obtain rfl := Option.some.inj hslot
          exact hst (hsuits.2 i hb hk)

end Changes

section Worker

variable {s : State n} {b : Board} {o : Outcome}

/-- One worker takes its next command. -/
def worked (s : State n) (b : Board) (o : Outcome) : State n :=
  { s with workers := Function.update s.workers b (workerRun (s.workers b) o) }

theorem worked_self : (worked s b o).workers b = workerRun (s.workers b) o := Function.update_self _ _ _

theorem worked_of_ne {b' : Board} (h : b' ≠ b) : (worked s b o).workers b' = s.workers b' := Function.update_of_ne h _ _

theorem flight_worked (b' : Board) : flight ((worked s b o).workers b') = flight (s.workers b') := by
  by_cases h : b' = b
  · rw [h, worked_self, flight_workerRun]
  · rw [worked_of_ne h]

/-- A round touches the slot of its command only. -/
theorem workerRun_slots {w : Worker n} {c : BoardCommand n} {cs : List (BoardCommand n)} (h : w.commands = c :: cs)
    {k : ℕ} (hk : c.op.slot ≠ some k) : (workerRun w o).slots k = w.slots k := by
  rw [(workerRun_cons h).2.2]
  cases hop : c.op with
  | «open» owner slot =>
    have hne : k ≠ slot := by
      rintro rfl
      simp [hop, Op.slot] at hk
    dsimp only
    split_ifs
    · exact Function.update_of_ne hne _ _
    · rfl
  | leave owner slot =>
    have hne : k ≠ slot := by
      rintro rfl
      simp [hop, Op.slot] at hk
    dsimp only
    split_ifs
    · exact Function.update_of_ne hne _ _
    · rfl
  | data | swkem => rfl

/-- What a round leaves in the slot of its command. -/
theorem workerRun_queued {w : Worker n} {c : BoardCommand n} {cs : List (BoardCommand n)} (h : w.commands = c :: cs)
    {k : ℕ} (hk : c.op.slot = some k) (hq : Queued k (w.slots k) (c.op :: queue (workerRun w o) k)) :
    Queued k ((workerRun w o).slots k) (queue (workerRun w o) k) := by
  rw [(workerRun_cons h).2.2]
  cases hop : c.op with
  | «open» owner slot =>
    rw [hop] at hk hq
    obtain rfl := Option.some.inj hk
    obtain ⟨hnone, hnil⟩ := hq.of_open
    rw [hnil]
    dsimp only
    split_ifs
    · rw [Function.update_self]
      exact .held owner
    · rw [hnone]
      exact .free
  | leave owner slot =>
    rw [hop] at hk hq
    obtain rfl := Option.some.inj hk
    obtain ⟨hsome, hnil⟩ := hq.of_leave
    rw [hnil]
    dsimp only
    split_ifs
    · rw [Function.update_self]
      exact .free
    · rw [hsome]
      exact .held owner
  | data owner slot tamper =>
    rw [hop] at hk hq
    obtain rfl := Option.some.inj hk
    exact hq.of_data.2
  | swkem =>
    rw [hop] at hk
    cases hk

theorem Stocked.worker (h : Stocked s) (ha : Asked s) : Stocked (worked s b o) := by
  cases hc : (s.workers b).commands with
  | nil =>
    have hsame : worked s b o = s := by
      rw [worked, workerRun_nil hc, Function.update_eq_self]
    rw [hsame]
    exact h
  | cons c cs =>
    obtain ⟨hcs, hrs, -⟩ := workerRun_cons (o := o) hc
    have hqueue := queue_cons hc hcs
    have hhead : Flies s b c.commandId c.op := by
      refine List.mem_append_right _ ?_
      rw [hc]
      exact List.mem_cons_self
    refine ⟨?_, ?_, ?_, h.linked⟩
    · intro b' k
      by_cases hb : b' = b
      · subst hb
        have hq := h.queued b' k
        rw [worked_self]
        rw [hqueue k] at hq
        by_cases hk : c.op.slot = some k
        · rw [if_pos hk] at hq
          exact workerRun_queued hc hk hq
        · rw [if_neg hk] at hq
          rw [workerRun_slots hc hk]
          exact hq
      · rw [worked_of_ne hb]
        exact h.queued b' k
    · intro b' r o' k hr hop hok
      by_cases hb : b' = b
      · subst hb
        rw [worked_self] at hr ⊢
        rw [hrs, List.mem_append, List.mem_singleton] at hr
        rcases hr with hr | rfl
        · obtain ⟨hsome, hnil⟩ := h.opened b' r o' k hr hop hok
          rw [hqueue k] at hnil
          by_cases hk : c.op.slot = some k
          · rw [if_pos hk] at hnil
            cases hnil
          · rw [if_neg hk] at hnil
            rw [workerRun_slots hc hk]
            exact ⟨hsome, hnil⟩
        · have hop' : c.op = .open o' k := hop
          have hq := h.queued b' k
          rw [hqueue k, hop', if_pos (show (Op.open o' k).slot = some k from rfl)] at hq
          simp only [hop', Bool.or_false] at hok
          rw [(workerRun_cons hc).2.2, hop']
          simp only [hok, if_true]
          exact ⟨Function.update_self _ _ _, hq.of_open.2⟩
      · rw [worked_of_ne hb] at hr ⊢
        exact h.opened b' r o' k hr hop hok
    · intro i b' hboard hst
      obtain ⟨k, hk, hs⟩ := h.held i b' hboard hst
      refine ⟨k, hk, ?_⟩
      by_cases hb : b' = b
      · subst hb
        have hkept := hs.kept
        rw [hqueue k] at hkept
        by_cases hslot : c.op.slot = some k
        · rw [if_pos hslot] at hkept
          refine ⟨?_, hs.reserved, ?_⟩
          · rw [worked_self, (workerRun_cons hc).2.2]
            cases hop : c.op with
            | «open» o' k' =>
              rw [hop] at hslot hhead
              obtain rfl := Option.some.inj hslot
              have hres := (ha.opens b' _ o' k' hhead).1
              rw [hs.reserved] at hres
              cases hres
            | leave o' k' =>
              rw [hop] at hkept
              exact absurd List.mem_cons_self (hkept o' k')
            | data | swkem => exact hs.here
          · rw [worked_self]
            exact fun o' k' hmem => hkept o' k' (List.mem_cons_of_mem _ hmem)
        · rw [if_neg hslot] at hkept
          refine ⟨?_, hs.reserved, ?_⟩
          · rw [worked_self, workerRun_slots hc hslot]
            exact hs.here
          · rw [worked_self]
            exact hkept
      · refine ⟨?_, hs.reserved, ?_⟩
        · rw [worked_of_ne hb]
          exact hs.here
        · rw [worked_of_ne hb]
          exact hs.kept

end Worker

end DemoController

end ZedSecure
