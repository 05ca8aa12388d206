import Mathlib.Tactic.Common
import ZedSecure.Clocked.Design

/-! A client that gives a design its commands one after the other: it offers a command until it is
taken in, and where an answer is due it waits until it has taken the answer. Any design that follows
a server in such a conversation gets through every list of commands, with the server's answers. -/

namespace Clocked

/-- How a client talks to a design: the pins it drives for an offered command and for its readiness,
when the offer is taken in, and the answer that shows. -/
structure Endpoint (σ ι κ ρ ε : Type*) where
  next : σ → ι → σ
  pins : Option κ → Bool → ε → ι
  accepts : σ → κ → Bool
  shows : σ → Option ρ
  answers : κ → Bool

/-- What is left to do, and what has been received. -/
structure Client (κ ρ : Type*) where
  todo : List κ
  offering : Bool
  waiting : Bool
  got : List ρ

namespace Client

variable {κ ρ : Type*}

def start (cs : List κ) : Client κ ρ := ⟨cs, false, false, []⟩

/-- Every command is taken in and every answer that is due has been taken. -/
def Finished (c : Client κ ρ) : Prop := c.todo = [] ∧ c.offering = false ∧ c.waiting = false

end Client

/-- The client's own timing in one cycle, and whatever else drives the pins. -/
structure Turn (ε : Type*) where
  go : Bool
  ready : Bool
  rest : ε

/-- What a conversation is at: nothing, a command on the pins, or an answer due. -/
inductive Phase (κ ρ : Type*) where
  | rest
  | offer (c : κ)
  | answer (r : ρ)

namespace Endpoint

variable {σ ι κ ρ ε α : Type*} (P : Endpoint σ ι κ ρ ε)

/-- One cycle of the client and the design. -/
def turn (x : σ × Client κ ρ) (e : Turn ε) : σ × Client κ ρ :=
  let c := x.2
  let offer := if c.offering then c.todo.head? else none
  (P.next x.1 (P.pins offer e.ready e.rest),
    match offer with
    | some k =>
      if P.accepts x.1 k then { c with todo := c.todo.tail, offering := false, waiting := P.answers k } else c
    | none =>
      if c.waiting then
        match P.shows x.1 with
        | some r => if e.ready then { c with waiting := false, got := c.got ++ [r] } else c
        | none => c
      else { c with offering := e.go && !c.todo.isEmpty })

def loop (x : σ × Client κ ρ) (env : ℕ → Turn ε) : ℕ → σ × Client κ ρ
  | 0 => x
  | n + 1 => P.turn (loop x env n) (env n)

theorem loop_add (x : σ × Client κ ρ) (env : ℕ → Turn ε) (n m : ℕ) :
    P.loop x env (n + m) = P.loop (P.loop x env n) (fun i => env (n + i)) m := by
  induction m with
  | zero => rfl
  | succ m ih => exact congrArg (fun y => P.turn y (env (n + m))) ih

theorem loop_cons (x : σ × Client κ ρ) (env : ℕ → Turn ε) (n : ℕ) :
    P.loop x env (n + 1) = P.loop (P.turn x (env 0)) (fun i => env (i + 1)) n := by
  rw [Nat.add_comm, loop_add]
  simp only [Nat.add_comm 1]
  rfl

theorem turn_rest (s : σ) (todo : List κ) (got : List ρ) (e : Turn ε) :
    P.turn (s, ⟨todo, false, false, got⟩) e =
      (P.next s (P.pins none e.ready e.rest), ⟨todo, e.go && !todo.isEmpty, false, got⟩) := rfl

theorem turn_offer (s : σ) (c : κ) (cs : List κ) (got : List ρ) (e : Turn ε) :
    P.turn (s, ⟨c :: cs, true, false, got⟩) e = (P.next s (P.pins (some c) e.ready e.rest),
      if P.accepts s c then ⟨cs, false, P.answers c, got⟩ else ⟨c :: cs, true, false, got⟩) := rfl

theorem turn_answer (s : σ) (todo : List κ) (got : List ρ) (e : Turn ε) :
    P.turn (s, ⟨todo, false, true, got⟩) e = (P.next s (P.pins none e.ready e.rest),
      match P.shows s with
      | some r => if e.ready then ⟨todo, false, false, got ++ [r]⟩ else ⟨todo, false, true, got⟩
      | none => ⟨todo, false, true, got⟩) := rfl

/-- The design follows the server `T`: `R` relates its state to the server's in each phase, and
`left` counts down to the next handshake. -/
structure Follows (T : Server α κ ρ) (R : σ → α → Phase κ ρ → Prop) (left : σ → ℕ) : Prop where
  rest : ∀ {s a} (rdy : Bool) (e : ε), R s a .rest → R (P.next s (P.pins none rdy e)) a .rest
  offered : ∀ {s a} c, R s a .rest → R s a (.offer c)
  held : ∀ {s a c} (rdy : Bool) (e : ε), R s a (.offer c) → P.accepts s c = false →
    R (P.next s (P.pins (some c) rdy e)) a (.offer c) ∧ left (P.next s (P.pins (some c) rdy e)) < left s
  told : ∀ {s a c} (rdy : Bool) (e : ε), R s a (.offer c) → P.accepts s c = true → P.answers c = false →
    R (P.next s (P.pins (some c) rdy e)) (T.step a c).1 .rest ∧ (T.step a c).2 = []
  asked : ∀ {s a c} (rdy : Bool) (e : ε), R s a (.offer c) → P.accepts s c = true → P.answers c = true →
    ∃ r, R (P.next s (P.pins (some c) rdy e)) (T.step a c).1 (.answer r) ∧ (T.step a c).2 = [r]
  works : ∀ {s a r} (rdy : Bool) (e : ε), R s a (.answer r) → P.shows s = none →
    R (P.next s (P.pins none rdy e)) a (.answer r) ∧ left (P.next s (P.pins none rdy e)) < left s
  shown : ∀ {s a r r'}, R s a (.answer r) → P.shows s = some r' → r' = r
  kept : ∀ {s a r} (e : ε), R s a (.answer r) → P.shows s = some r →
    R (P.next s (P.pins none false e)) a (.answer r) ∧ P.shows (P.next s (P.pins none false e)) = some r
  taken : ∀ {s a r} (e : ε), R s a (.answer r) → P.shows s = some r →
    R (P.next s (P.pins none true e)) a .rest

/-- Again and again the client is willing to go on, and to take an answer. -/
structure Fair (env : ℕ → Turn ε) : Prop where
  go : ∀ n, ∃ m ≥ n, (env m).go = true
  ready : ∀ n, ∃ m ≥ n, (env m).ready = true

theorem Fair.shift {env : ℕ → Turn ε} (h : Fair env) (n : ℕ) : Fair fun i => env (n + i) := by
  refine ⟨fun k => ?_, fun k => ?_⟩
  · obtain ⟨m, hm, hgo⟩ := h.go (n + k)
    refine ⟨m - n, by omega, ?_⟩
    rwa [Nat.add_sub_cancel' (by omega)]
  · obtain ⟨m, hm, hready⟩ := h.ready (n + k)
    refine ⟨m - n, by omega, ?_⟩
    rwa [Nat.add_sub_cancel' (by omega)]

variable {P} {T : Server α κ ρ} {R : σ → α → Phase κ ρ → Prop} {left : σ → ℕ} (F : P.Follows T R left)

include F in
/-- The next command comes onto the pins. -/
theorem Follows.offers {s : σ} {a : α} (hR : R s a .rest) (env : ℕ → Turn ε) (hgo : ∃ m, (env m).go = true)
    (c : κ) (cs : List κ) (got : List ρ) :
    ∃ n s', P.loop (s, ⟨c :: cs, false, false, got⟩) env n = (s', ⟨c :: cs, true, false, got⟩) ∧ R s' a .rest := by
  obtain ⟨m, hm⟩ := hgo
  induction m generalizing s env with
  | zero =>
    refine ⟨1, _, ?_, F.rest (env 0).ready (env 0).rest hR⟩
    rw [loop_cons, turn_rest, hm]
    rfl
  | succ m ih =>
    have hnext := F.rest (env 0).ready (env 0).rest hR
    cases h0 : (env 0).go
    · obtain ⟨n, s', hloop, hR'⟩ := ih hnext (fun i => env (i + 1)) hm
      refine ⟨n + 1, s', ?_, hR'⟩
      rw [loop_cons, turn_rest, h0]
      exact hloop
    · refine ⟨1, _, ?_, hnext⟩
      rw [loop_cons, turn_rest, h0]
      rfl

include F in
/-- An offered command is taken in. -/
theorem Follows.accepted {s : σ} {a : α} {c : κ} (hR : R s a (.offer c)) (env : ℕ → Turn ε) (cs : List κ)
    (got : List ρ) : ∃ n s', P.loop (s, ⟨c :: cs, true, false, got⟩) env n =
      (s', ⟨cs, false, P.answers c, got⟩) ∧
        if P.answers c then ∃ r, R s' (T.step a c).1 (.answer r) ∧ (T.step a c).2 = [r]
        else R s' (T.step a c).1 .rest ∧ (T.step a c).2 = [] := by
  induction hl : left s using Nat.strong_induction_on generalizing s env with
  | _ l ih =>
    cases hacc : P.accepts s c
    · obtain ⟨hR', hlt⟩ := F.held (env 0).ready (env 0).rest hR hacc
      obtain ⟨n, s', hloop, hend⟩ := ih _ (hl ▸ hlt) hR' (fun i => env (i + 1)) rfl
      refine ⟨n + 1, s', ?_, hend⟩
      rw [loop_cons, turn_offer, hacc]
      exact hloop
    · refine ⟨1, P.next s (P.pins (some c) (env 0).ready (env 0).rest), ?_, ?_⟩
      · rw [loop_cons, turn_offer, hacc]
        rfl
      · cases hans : P.answers c
        · exact F.told _ _ hR hacc hans
        · exact F.asked _ _ hR hacc hans

include F in
/-- An answer that is due shows. -/
theorem Follows.shows {s : σ} {a : α} {r : ρ} (hR : R s a (.answer r)) (env : ℕ → Turn ε) (todo : List κ)
    (got : List ρ) : ∃ n s', P.loop (s, ⟨todo, false, true, got⟩) env n = (s', ⟨todo, false, true, got⟩) ∧
      R s' a (.answer r) ∧ P.shows s' = some r := by
  induction hl : left s using Nat.strong_induction_on generalizing s env with
  | _ l ih =>
    cases hshow : P.shows s with
    | none =>
      obtain ⟨hR', hlt⟩ := F.works (env 0).ready (env 0).rest hR hshow
      obtain ⟨n, s', hloop, hend⟩ := ih _ (hl ▸ hlt) hR' (fun i => env (i + 1)) rfl
      refine ⟨n + 1, s', ?_, hend⟩
      rw [loop_cons, turn_answer, hshow]
      exact hloop
    | some r' =>
      have hr := F.shown hR hshow
      exact ⟨0, s, rfl, hR, hr ▸ hshow⟩

include F in
/-- An answer that shows is taken. -/
theorem Follows.takes {s : σ} {a : α} {r : ρ} (hR : R s a (.answer r)) (hshow : P.shows s = some r)
    (env : ℕ → Turn ε) (hready : ∃ m, (env m).ready = true) (todo : List κ) (got : List ρ) :
    ∃ n s', P.loop (s, ⟨todo, false, true, got⟩) env n = (s', ⟨todo, false, false, got ++ [r]⟩) ∧
      R s' a .rest := by
  obtain ⟨m, hm⟩ := hready
  induction m generalizing s env with
  | zero =>
    refine ⟨1, _, ?_, F.taken (env 0).rest hR hshow⟩
    rw [loop_cons, turn_answer, hshow, hm]
    rfl
  | succ m ih =>
    cases h0 : (env 0).ready
    · obtain ⟨hR', hshow'⟩ := F.kept (env 0).rest hR hshow
      obtain ⟨n, s', hloop, hend⟩ := ih hR' hshow' (fun i => env (i + 1)) hm
      refine ⟨n + 1, s', ?_, hend⟩
      rw [loop_cons, turn_answer, hshow, h0]
      exact hloop
    · refine ⟨1, _, ?_, F.taken (env 0).rest hR hshow⟩
      rw [loop_cons, turn_answer, hshow, h0]
      rfl

include F in
/-- One command with its answer. -/
theorem Follows.serves {s : σ} {a : α} (hR : R s a .rest) {env : ℕ → Turn ε} (hfair : Fair env) (c : κ)
    (cs : List κ) (got : List ρ) : ∃ n s', P.loop (s, ⟨c :: cs, false, false, got⟩) env n =
      (s', ⟨cs, false, false, got ++ (T.step a c).2⟩) ∧ R s' (T.step a c).1 .rest := by
  obtain ⟨n, s₁, hoffer, hR₁⟩ := F.offers hR env ⟨_, (hfair.go 0).choose_spec.2⟩ c cs got
  obtain ⟨m, s₂, haccept, hend⟩ := F.accepted (F.offered c hR₁) (fun i => env (n + i)) cs got
  cases hans : P.answers c
  · simp only [hans, Bool.false_eq_true, if_false] at haccept hend
    refine ⟨n + m, s₂, ?_, hend.1⟩
    rw [loop_add, hoffer, haccept, hend.2, List.append_nil]
  · simp only [hans, if_true] at haccept hend
    obtain ⟨r, hR₂, hout⟩ := hend
    obtain ⟨k, s₃, hwait, hR₃, hshow⟩ := F.shows hR₂ (fun i => env (n + (m + i))) cs got
    have hready := (hfair.shift (n + (m + k))).ready 0
    obtain ⟨j, s₄, htake, hR₄⟩ := F.takes hR₃ hshow (fun i => env (n + (m + (k + i))))
      ⟨hready.choose, by simpa [Nat.add_assoc] using hready.choose_spec.2⟩ cs got
    refine ⟨n + (m + (k + j)), s₄, ?_, hR₄⟩
    rw [loop_add, hoffer, loop_add, haccept, loop_add, hwait, htake, hout]

include F in
/-- Every list of commands is worked off, with the server's answers. -/
theorem Follows.completes (cs : List κ) {s : σ} {a : α} (hR : R s a .rest) {env : ℕ → Turn ε} (hfair : Fair env)
    (got : List ρ) : ∃ n s', P.loop (s, ⟨cs, false, false, got⟩) env n =
      (s', ⟨[], false, false, got ++ (T.run a cs).2⟩) := by
  induction cs generalizing s a env got with
  | nil => exact ⟨0, s, by simp [loop]⟩
  | cons c cs ih =>
    obtain ⟨n, s', hfirst, hR'⟩ := F.serves hR hfair c cs got
    obtain ⟨m, s'', hrest⟩ := ih hR' (hfair.shift n) (got ++ (T.step a c).2)
    refine ⟨n + m, s'', ?_⟩
    rw [loop_add, hfirst, hrest, Server.run, List.append_assoc]

end Endpoint

end Clocked
