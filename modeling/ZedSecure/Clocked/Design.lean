import Mathlib.Data.List.Nodup
import Mathlib.Data.Set.Basic

/-! Clocked designs as functions of one clock edge, with an asynchronous reset.
A run is a list of resets and edges. The file gives the rules every later proof
uses: invariants of runs, observations along a run, and simulation by a machine
that answers commands. -/

namespace Clocked

/-- One point of a run: the reset pulls the registers, or an edge comes with the reset released. -/
inductive Act (ι : Type*) where
  | reset
  | tick (i : ι)

def Act.map {ι ι' : Type*} (f : ι → ι') : Act ι → Act ι'
  | .reset => .reset
  | .tick i => .tick (f i)

/-- `rst` need not touch everything: a block memory survives it. -/
structure Design (σ ι : Type*) where
  rst : σ → σ
  next : σ → ι → σ

namespace Design

variable {σ ι ε κ ρ α : Type*} (D : Design σ ι)

def step (s : σ) : Act ι → σ
  | .reset => D.rst s
  | .tick i => D.next s i

def run (s : σ) (acts : List (Act ι)) : σ := acts.foldl D.step s

/-- Power-up leaves the registers at any value, so a run begins with a reset. -/
def Reachable (s : σ) : Prop := ∃ s0 acts, s = D.run (D.rst s0) acts

@[simp] theorem run_nil (s : σ) : D.run s [] = s := rfl

@[simp] theorem run_cons (s : σ) (x : Act ι) (acts : List (Act ι)) :
    D.run s (x :: acts) = D.run (D.step s x) acts := rfl

theorem run_append (s : σ) (xs ys : List (Act ι)) :
    D.run s (xs ++ ys) = D.run (D.run s xs) ys := List.foldl_append

/-- A run keeps what every step keeps. -/
theorem run_induct {P : σ → Prop} (hstep : ∀ s x, P s → P (D.step s x)) {s : σ} (hs : P s)
    (acts : List (Act ι)) : P (D.run s acts) := by
  induction acts generalizing s with
  | nil => exact hs
  | cons x acts ih => exact ih (hstep s x hs)

theorem reachable_induct {P : σ → Prop} (hrst : ∀ s, P (D.rst s))
    (hnext : ∀ s i, P s → P (D.next s i)) {s : σ} (h : D.Reachable s) : P s := by
  obtain ⟨s0, acts, rfl⟩ := h
  refine D.run_induct (fun s x hs => ?_) (hrst s0) acts
  cases x with
  | reset => exact hrst s
  | tick i => exact hnext s i hs

/-- Every edge of the run meets `C`. -/
def AllSteps (C : σ → ι → Prop) : σ → List (Act ι) → Prop
  | _, [] => True
  | s, .reset :: acts => AllSteps C (D.rst s) acts
  | s, .tick i :: acts => C s i ∧ AllSteps C (D.next s i) acts

instance decidableAllSteps (C : σ → ι → Prop) [∀ s i, Decidable (C s i)] :
    (s : σ) → (acts : List (Act ι)) → Decidable (D.AllSteps C s acts)
  | _, [] => .isTrue trivial
  | s, .reset :: acts => decidableAllSteps C (D.rst s) acts
  | s, .tick i :: acts =>
    have := decidableAllSteps C (D.next s i) acts
    inferInstanceAs (Decidable (C s i ∧ D.AllSteps C (D.next s i) acts))

/-- A run whose edges all meet `C` keeps what such an edge keeps. -/
theorem run_induct_of {C : σ → ι → Prop} {P : σ → Prop} (hrst : ∀ s, P s → P (D.rst s))
    (hnext : ∀ s i, P s → C s i → P (D.next s i)) {s : σ} (hs : P s) {acts : List (Act ι)}
    (hC : D.AllSteps C s acts) : P (D.run s acts) := by
  induction acts generalizing s with
  | nil => exact hs
  | cons x acts ih =>
    cases x with
    | reset => exact ih (hrst s hs) hC
    | tick i => exact ih (hnext s i hs hC.1) hC.2

/-- What an observer writes down along a run. -/
def trace (obs : σ → Act ι → List ε) : σ → List (Act ι) → List ε
  | _, [] => []
  | s, x :: acts => obs s x ++ trace obs (D.step s x) acts

theorem trace_append (obs : σ → Act ι → List ε) (s : σ) (xs ys : List (Act ι)) :
    D.trace obs s (xs ++ ys) = D.trace obs s xs ++ D.trace obs (D.run s xs) ys := by
  induction xs generalizing s with
  | nil => rfl
  | cons x xs ih => simp only [List.cons_append, trace, ih, List.append_assoc, run_cons]

/-- The state before cycle `n` of an endless run without resets. -/
def stream (s : σ) (ins : ℕ → ι) : ℕ → σ
  | 0 => s
  | n + 1 => D.next (stream s ins n) (ins n)

/-- What an observer has written down before cycle `n`. -/
def gather (obs : σ → ι → List ε) (s : σ) (ins : ℕ → ι) : ℕ → List ε
  | 0 => []
  | n + 1 => gather obs s ins n ++ obs (D.stream s ins n) (ins n)

/-- The design beside a record of its run: `upd` writes down what each point adds. -/
def withLog {γ : Type*} (upd : σ → Act ι → γ → γ) : Design (σ × γ) ι where
  rst p := (D.rst p.1, upd p.1 .reset p.2)
  next p i := (D.next p.1 i, upd p.1 (.tick i) p.2)

theorem run_withLog {γ : Type*} (upd : σ → Act ι → γ → γ) (p : σ × γ) (acts : List (Act ι)) :
    ((D.withLog upd).run p acts).1 = D.run p.1 acts := by
  induction acts generalizing p with
  | nil => rfl
  | cons x acts ih => cases x <;> exact ih _

theorem reachable_withLog {γ : Type*} (upd : σ → Act ι → γ → γ) (g : γ) {s : σ}
    (h : D.Reachable s) : ∃ g', (D.withLog upd).Reachable (s, g') := by
  obtain ⟨s0, acts, rfl⟩ := h
  have hrun := D.run_withLog upd (D.rst s0, upd s0 .reset g) acts
  exact ⟨_, (s0, g), acts, Prod.ext hrun.symm rfl⟩

/-- Two copies side by side, reset together and each on its own inputs. -/
def pair : Design (σ × σ) (ι × ι) where
  rst p := (D.rst p.1, D.rst p.2)
  next p i := (D.next p.1 i.1, D.next p.2 i.2)

theorem pair_run (p : σ × σ) (acts : List (Act (ι × ι))) :
    D.pair.run p acts = (D.run p.1 (acts.map (Act.map Prod.fst)), D.run p.2 (acts.map (Act.map Prod.snd))) := by
  induction acts generalizing p with
  | nil => rfl
  | cons x acts ih => cases x <;> exact ih _

/-- Two runs that stay related by what their edges keep look the same. -/
theorem pair_trace {C : σ × σ → ι × ι → Prop} {R : σ × σ → Prop} {obs : σ → Act ι → List ε}
    (hrst : ∀ p, R p → R (D.pair.rst p)) (hnext : ∀ p i, R p → C p i → R (D.pair.next p i))
    (hobs : ∀ p i, R p → C p i → obs p.1 (.tick i.1) = obs p.2 (.tick i.2))
    (hobs' : ∀ p, R p → obs p.1 .reset = obs p.2 .reset) {p : σ × σ} (hp : R p)
    {acts : List (Act (ι × ι))} (hC : D.pair.AllSteps C p acts) :
    D.trace obs p.1 (acts.map (Act.map Prod.fst)) = D.trace obs p.2 (acts.map (Act.map Prod.snd)) := by
  induction acts generalizing p with
  | nil => rfl
  | cons x acts ih =>
    simp only [List.map_cons, trace]
    cases x with
    | reset =>
      have hrest := ih (hrst p hp) hC
      simp only [Act.map] at hrest ⊢
      rw [hobs' p hp]
      exact congrArg _ hrest
    | tick i =>
      have hrest := ih (hnext p i hp hC.1) hC.2
      simp only [Act.map] at hrest ⊢
      rw [hobs p i hp hC.1]
      exact congrArg _ hrest

end Design

/-- A machine that answers each command at once, with any number of outputs. -/
structure Server (α κ ρ : Type*) where
  step : α → κ → α × List ρ

namespace Server

variable {α κ ρ : Type*} (T : Server α κ ρ)

def run : α → List κ → α × List ρ
  | a, [] => (a, [])
  | a, c :: cs =>
      let r := T.step a c
      let q := run r.1 cs
      (q.1, r.2 ++ q.2)

@[simp] theorem run_nil (a : α) : T.run a [] = (a, []) := rfl

theorem run_append (a : α) (xs ys : List κ) :
    T.run a (xs ++ ys) =
      ((T.run (T.run a xs).1 ys).1, (T.run a xs).2 ++ (T.run (T.run a xs).1 ys).2) := by
  induction xs generalizing a with
  | nil => rfl
  | cons c cs ih => simp only [List.cons_append, run, ih, List.append_assoc]

@[simp] theorem run_singleton (a : α) (c : κ) : T.run a [c] = T.step a c := by simp [run]

end Server

/-- `D` looks like `T` through `R`: each point of a run hands over some commands, shows the
outputs `T` gives to them, and ends in related states. -/
structure Simulates {σ ι α κ ρ : Type*} (D : Design σ ι) (T : Server α κ ρ)
    (cmds : σ → Act ι → List κ) (outs : σ → Act ι → List ρ) (R : σ → α → Prop) : Prop where
  rel : ∀ s a x, R s a → R (D.step s x) (T.run a (cmds s x)).1
  out : ∀ s a x, R s a → outs s x = (T.run a (cmds s x)).2

/-- Simulation of every step is simulation of every run. -/
theorem Simulates.run {σ ι α κ ρ : Type*} {D : Design σ ι} {T : Server α κ ρ}
    {cmds : σ → Act ι → List κ} {outs : σ → Act ι → List ρ} {R : σ → α → Prop}
    (h : Simulates D T cmds outs R) {s : σ} {a : α} (hR : R s a) (acts : List (Act ι)) :
    R (D.run s acts) (T.run a (D.trace cmds s acts)).1 ∧
      D.trace outs s acts = (T.run a (D.trace cmds s acts)).2 := by
  induction acts generalizing s a with
  | nil => exact ⟨hR, rfl⟩
  | cons x acts ih =>
    obtain ⟨hrel, hout⟩ := ih (h.rel s a x hR)
    simp only [Design.trace, Design.run_cons, Server.run_append]
    exact ⟨hrel, by rw [hout, h.out s a x hR]⟩

/-- `xs` is `f 0, f 1, ...`: what an observer of a counter writes down. -/
def Numbered {β : Type*} (f : ℕ → β) (xs : List β) : Prop := xs = (List.range xs.length).map f

namespace Numbered

variable {β : Type*} {f : ℕ → β} {xs : List β}

theorem nil : Numbered f [] := rfl

theorem snoc (h : Numbered f xs) {y : β} (hy : y = f xs.length) : Numbered f (xs ++ [y]) := by
  unfold Numbered at h ⊢
  rw [List.length_append, List.length_singleton, List.range_succ, List.map_append, ← h, hy]
  rfl

theorem head {x : β} (h : Numbered f (x :: xs)) : x = f 0 := by
  simp only [Numbered, List.length_cons, List.range_succ_eq_map, List.map_cons, List.cons.injEq] at h
  exact h.1

theorem tail (h : Numbered f xs) : Numbered (fun j => f (j + 1)) xs.tail := by
  cases xs with
  | nil => exact nil
  | cons x xs =>
    simp only [Numbered, List.length_cons, List.range_succ_eq_map, List.map_cons, List.cons.injEq,
      List.map_map] at h
    exact h.2

theorem nodup (h : Numbered f xs) {b : ℕ} (hb : xs.length ≤ b)
    (hf : ∀ i < b, ∀ j < b, f i = f j → i = j) : xs.Nodup := by
  unfold Numbered at h
  rw [h]
  refine List.Nodup.map_on (fun i hi j hj hij => ?_) List.nodup_range
  rw [List.mem_range] at hi hj
  exact hf i (by omega) j (by omega) hij

end Numbered

end Clocked
