import ZedSecure.Proofs.VehicleIds

/-! The commands on their way: from `_submit` until their result is collected. A worker only moves them along, and
`_pending` knows each of them under its own id. -/

namespace ZedSecure

namespace DemoController

variable {n : ℕ}

/-- The commands of a worker that have no collected result yet, oldest first. -/
def flight (w : Worker n) : List (ℕ × Op n) :=
  w.results.map (fun r => (r.commandId, r.op)) ++ w.commands.map (fun c => (c.commandId, c.op))

/-- Command `x` of board `b` is on its way. -/
def Flies (s : State n) (b : Board) (x : ℕ) (op : Op n) : Prop := (x, op) ∈ flight (s.workers b)

/-- The context that a command is submitted with. -/
def Fits (b : Board) : Op n → Context → Prop
  | .open o _, .open vehicleId _ target => vehicleId = o.vehicleId ∧ target = b
  | .leave o _, .leave vehicleId _ => vehicleId = o.vehicleId
  | .data o _ _, .data vehicleId _ => vehicleId = o.vehicleId
  | .swkem, .swkem board => board = b
  | _, _ => False

section Worker

variable {w : Worker n} {o : Outcome}

/-- What a round of the worker does: the oldest command becomes the newest result. -/
theorem workerRun_cons {c : BoardCommand n} {cs : List (BoardCommand n)} (h : w.commands = c :: cs) :
    (workerRun w o).commands = cs ∧
      (workerRun w o).results = w.results ++
        [⟨c.commandId, c.op, o.ok, match c.op with | .open .. | .leave .. => false | _ => o.blocked⟩] ∧
      (workerRun w o).slots = match c.op with
        | .open owner slot => if o.ok then Function.update w.slots slot (some owner) else w.slots
        | .leave _ slot => if o.ok then Function.update w.slots slot none else w.slots
        | _ => w.slots := by
  simp only [workerRun, h]
  cases c.op <;> exact ⟨rfl, rfl, rfl⟩

theorem workerRun_nil (h : w.commands = []) : workerRun w o = w := by simp only [workerRun, h]

/-- A worker moves commands along. -/
theorem flight_workerRun (w : Worker n) (o : Outcome) : flight (workerRun w o) = flight w := by
  cases h : w.commands with
  | nil => rw [workerRun_nil h]
  | cons c cs =>
    obtain ⟨hcs, hrs, -⟩ := workerRun_cons (o := o) h
    simp only [flight, hcs, hrs, h, List.map_append, List.map_cons, List.map_nil, List.append_assoc, List.singleton_append]

end Worker

section Submit

variable {s : State n} {b b' : Board} {op op' : Op n} {context : Context} {x : ℕ}

theorem submit_workers_self : (submit s b op context).workers b =
    { s.workers b with commands := (s.workers b).commands ++ [⟨s.commandIds, op⟩] } := Function.update_self _ _ _

theorem submit_workers_of_ne (h : b' ≠ b) : (submit s b op context).workers b' = s.workers b' :=
  Function.update_of_ne h _ _

theorem submit_slots (b' : Board) : ((submit s b op context).workers b').slots = (s.workers b').slots := by
  by_cases h : b' = b
  · rw [h, submit_workers_self]
  · rw [submit_workers_of_ne h]

theorem submit_results (b' : Board) : ((submit s b op context).workers b').results = (s.workers b').results := by
  by_cases h : b' = b
  · rw [h, submit_workers_self]
  · rw [submit_workers_of_ne h]

theorem submit_pending_self : (submit s b op context).pending s.commandIds = some context := Function.update_self _ _ _

theorem submit_pending_of_ne (h : x ≠ s.commandIds) : (submit s b op context).pending x = s.pending x :=
  Function.update_of_ne h _ _

theorem flight_submit : flight ((submit s b op context).workers b) = flight (s.workers b) ++ [(s.commandIds, op)] := by
  rw [submit_workers_self]
  simp only [flight, List.map_append, List.map_cons, List.map_nil, List.append_assoc]

theorem flies_submit : Flies (submit s b op context) b' x op' ↔
    Flies s b' x op' ∨ (b' = b ∧ x = s.commandIds ∧ op' = op) := by
  unfold Flies
  by_cases h : b' = b
  · subst h
    rw [flight_submit, List.mem_append, List.mem_singleton, Prod.mk.injEq]
    exact or_congr_right (by simp)
  · rw [submit_workers_of_ne h]
    exact ⟨Or.inl, fun hor => hor.resolve_right fun hnew => h hnew.1⟩

end Submit

/-- `_pending` knows what is on its way, and nothing else. -/
structure Tracked (s : State n) : Prop where
  fresh : ∀ b x op, Flies s b x op → x < s.commandIds
  nodup : ∀ b, ((flight (s.workers b)).map Prod.fst).Nodup
  apart : ∀ x op y op', Flies s .A x op → Flies s .B y op' → x ≠ y
  known : ∀ b x op, Flies s b x op → ∃ context, s.pending x = some context ∧ Fits b op context
  back : ∀ x context, s.pending x = some context → ∃ b op, Flies s b x op

section Tracked

variable {s s' : State n} {b b' : Board} {op op' : Op n} {context : Context} {x : ℕ}

/-- An id names one command. -/
theorem Tracked.unique (h : Tracked s) (h1 : Flies s b x op) (h2 : Flies s b' x op') : b = b' ∧ op = op' := by
  have hboard : b = b' := by
    cases b <;> cases b'
    · rfl
    · exact absurd rfl (h.apart x op x op' h1 h2)
    · exact absurd rfl (h.apart x op' x op h2 h1)
    · rfl
  subst hboard
  exact ⟨rfl, congrArg Prod.snd (List.inj_on_of_nodup_map (h.nodup b) h1 h2 rfl)⟩

theorem Tracked.submit (h : Tracked s) (hfits : Fits b op context) : Tracked (submit s b op context) := by
  refine ⟨?_, ?_, ?_, ?_, ?_⟩
  · intro b' x op' hx
    rcases flies_submit.mp hx with hx | ⟨-, rfl, -⟩
    · exact Nat.lt_succ_of_lt (h.fresh b' x op' hx)
    · exact Nat.lt_succ_self _
  · intro b'
    by_cases hb : b' = b
    · subst hb
      rw [flight_submit, List.map_append, List.nodup_append]
      refine ⟨h.nodup b', List.nodup_singleton _, ?_⟩
      rintro x hx y hy rfl
      obtain ⟨⟨z, op'⟩, hz, rfl⟩ := List.mem_map.mp hx
      rw [List.map_singleton, List.mem_singleton] at hy
      exact absurd hy (h.fresh b' z op' hz).ne
    · rw [submit_workers_of_ne hb]
      exact h.nodup b'
  · intro x opx y opy hx hy
    rcases flies_submit.mp hx with hx | ⟨rfl, rfl, -⟩
    · rcases flies_submit.mp hy with hy | ⟨-, rfl, -⟩
      · exact h.apart x opx y opy hx hy
      · exact (h.fresh _ x opx hx).ne
    · rcases flies_submit.mp hy with hy | ⟨hb, -⟩
      · exact (h.fresh _ y opy hy).ne'
      · cases hb
  · intro b' x op' hx
    rcases flies_submit.mp hx with hx | ⟨rfl, rfl, rfl⟩
    · rw [submit_pending_of_ne (h.fresh b' x op' hx).ne]
      exact h.known b' x op' hx
    · exact ⟨context, submit_pending_self, hfits⟩
  · intro x c hx
    by_cases hnew : x = s.commandIds
    · exact ⟨b, op, flies_submit.mpr (Or.inr ⟨rfl, hnew, rfl⟩)⟩
    · rw [submit_pending_of_ne hnew] at hx
      obtain ⟨b', op', hold⟩ := h.back x c hx
      exact ⟨b', op', flies_submit.mpr (Or.inl hold)⟩

/-- Only the flights, the ids and `_pending` count. -/
theorem Tracked.of_eq (h : Tracked s) (hf : ∀ b, flight (s'.workers b) = flight (s.workers b))
    (hp : s'.pending = s.pending) (hc : s'.commandIds = s.commandIds) : Tracked s' := by
  have hflies : ∀ b x op, Flies s' b x op ↔ Flies s b x op := by
    intro b x op
    rw [Flies, hf]
    rfl
  refine ⟨?_, ?_, ?_, ?_, ?_⟩
  · intro b x op hx
    rw [hc]
    exact h.fresh b x op ((hflies b x op).mp hx)
  · intro b
    rw [hf]
    exact h.nodup b
  · intro x op y op' hx hy
    exact h.apart x op y op' ((hflies _ _ _).mp hx) ((hflies _ _ _).mp hy)
  · intro b x op hx
    rw [hp]
    exact h.known b x op ((hflies b x op).mp hx)
  · intro x c hx
    rw [hp] at hx
    obtain ⟨b, op, hold⟩ := h.back x c hx
    exact ⟨b, op, (hflies b x op).mpr hold⟩

end Tracked

section Pop

variable {s : State n} {b b' : Board} {op : Op n} {x : ℕ} {r : BoardResult n} {rs : List (BoardResult n)}

/-- The oldest result of a board is taken, and its context with it. -/
def pop (s : State n) (b : Board) (r : BoardResult n) (rs : List (BoardResult n)) : State n :=
  { s with
    workers := Function.update s.workers b { s.workers b with results := rs }
    pending := Function.update s.pending r.commandId none }

theorem pop_workers_self : (pop s b r rs).workers b = { s.workers b with results := rs } := Function.update_self _ _ _

theorem pop_workers_of_ne (h : b' ≠ b) : (pop s b r rs).workers b' = s.workers b' := Function.update_of_ne h _ _

theorem pop_pending_self : (pop s b r rs).pending r.commandId = none := Function.update_self _ _ _

theorem pop_pending_of_ne (h : x ≠ r.commandId) : (pop s b r rs).pending x = s.pending x :=
  Function.update_of_ne h _ _

theorem flight_pop (hr : (s.workers b).results = r :: rs) :
    flight (s.workers b) = (r.commandId, r.op) :: flight ((pop s b r rs).workers b) := by
  rw [pop_workers_self]
  simp only [flight, hr, List.map_cons, List.cons_append]

theorem flies_head (hr : (s.workers b).results = r :: rs) : Flies s b r.commandId r.op := by
  rw [Flies, flight_pop hr]
  exact List.mem_cons_self

/-- All others are still on their way. -/
theorem flies_pop (h : Tracked s) (hr : (s.workers b).results = r :: rs) :
    Flies (pop s b r rs) b' x op ↔ Flies s b' x op ∧ x ≠ r.commandId := by
  by_cases hb : b' = b
  · subst hb
    have hnodup := h.nodup b'
    rw [flight_pop hr, List.map_cons, List.nodup_cons] at hnodup
    unfold Flies
    rw [flight_pop hr, List.mem_cons, Prod.mk.injEq]
    constructor
    · intro hx
      refine ⟨Or.inr hx, ?_⟩
      rintro rfl
      exact hnodup.1 (List.mem_map.mpr ⟨_, hx, rfl⟩)
    · rintro ⟨⟨rfl, -⟩ | hx, hne⟩
      · exact absurd rfl hne
      · exact hx
  · have hsame : Flies (pop s b r rs) b' x op ↔ Flies s b' x op := by rw [Flies, pop_workers_of_ne hb]; rfl
    rw [hsame]
    refine ⟨fun hx => ⟨hx, ?_⟩, And.left⟩
    rintro rfl
    exact hb (h.unique hx (flies_head hr)).1

theorem Tracked.pop (h : Tracked s) (hr : (s.workers b).results = r :: rs) : Tracked (pop s b r rs) := by
  refine ⟨?_, ?_, ?_, ?_, ?_⟩
  · intro b' x op hx
    exact h.fresh b' x op ((flies_pop h hr).mp hx).1
  · intro b'
    by_cases hb : b' = b
    · subst hb
      have hnodup := h.nodup b'
      rw [flight_pop hr, List.map_cons, List.nodup_cons] at hnodup
      exact hnodup.2
    · rw [pop_workers_of_ne hb]
      exact h.nodup b'
  · intro x op y op' hx hy
    exact h.apart x op y op' ((flies_pop h hr).mp hx).1 ((flies_pop h hr).mp hy).1
  · intro b' x op hx
    obtain ⟨hold, hne⟩ := (flies_pop h hr).mp hx
    rw [pop_pending_of_ne hne]
    exact h.known b' x op hold
  · intro x c hx
    have hne : x ≠ r.commandId := by
      rintro rfl
      rw [pop_pending_self] at hx
      cases hx
    rw [pop_pending_of_ne hne] at hx
    obtain ⟨b', op, hold⟩ := h.back x c hx
    exact ⟨b', op, (flies_pop h hr).mpr ⟨hold, hne⟩⟩

/-- What `collect` does: a result is taken and handled. -/
theorem collect_eq (h : Tracked s) : collect s b = s ∨ ∃ r rs context, (s.workers b).results = r :: rs ∧
    s.pending r.commandId = some context ∧ Fits b r.op context ∧ collect s b = handle (pop s b r rs) b r context := by
  cases hr : (s.workers b).results with
  | nil => exact Or.inl (by simp only [collect, hr])
  | cons r rs =>
    obtain ⟨context, hp, hfits⟩ := h.known b r.commandId r.op (flies_head hr)
    refine Or.inr ⟨r, rs, context, rfl, hp, hfits, ?_⟩
    simp only [collect, hr, hp]
    rfl

end Pop

end DemoController

end ZedSecure
