import ZedSecure.Clocked.Design
import Mathlib.Tactic.Common

/-! A port that takes addresses and data apart, puts them together to writes and answers each of them, and
that answers reads. What it buffers is conserved: what came in has gone out or is still there. -/

namespace Clocked

namespace Design

variable {σ ι ε : Type*} (D : Design σ ι)

/-- What is observed of the edges. -/
def onTick (f : σ → ι → List ε) : σ → Act ι → List ε
  | _, .reset => []
  | s, .tick i => f s i

/-- What is observed along edges without a reset. -/
def ticks (f : σ → ι → List ε) (s : σ) (is : List ι) : List ε := D.trace (onTick f) s (is.map .tick)

/-- The state after them. -/
def after (s : σ) (is : List ι) : σ := D.run s (is.map .tick)

variable {D}

@[simp] theorem ticks_nil (f : σ → ι → List ε) (s : σ) : D.ticks f s [] = [] := rfl

@[simp] theorem ticks_cons (f : σ → ι → List ε) (s : σ) (i : ι) (is : List ι) :
    D.ticks f s (i :: is) = f s i ++ D.ticks f (D.next s i) is := rfl

@[simp] theorem after_nil (s : σ) : D.after s [] = s := rfl

@[simp] theorem after_cons (s : σ) (i : ι) (is : List ι) : D.after s (i :: is) = D.after (D.next s i) is := rfl

theorem after_append (s : σ) (is js : List ι) : D.after s (is ++ js) = D.after (D.after s is) js := by
  rw [after, List.map_append, run_append]
  rfl

theorem ticks_append (f : σ → ι → List ε) (s : σ) (is js : List ι) :
    D.ticks f s (is ++ js) = D.ticks f s is ++ D.ticks f (D.after s is) js := by
  rw [ticks, List.map_append, trace_append]
  rfl

theorem map_ticks {δ : Type*} (f : σ → ι → List ε) (g : ε → δ) (s : σ) (is : List ι) :
    (D.ticks f s is).map g = D.ticks (fun s i => (f s i).map g) s is := by
  induction is generalizing s with
  | nil => rfl
  | cons i is ih => simp only [ticks_cons, List.map_append, ih]

theorem after_induct {C : σ → ι → Prop} {I : σ → Prop} (hinv : ∀ s i, I s → C s i → I (D.next s i)) {s : σ}
    (hs : I s) {is : List ι} (hC : D.AllSteps C s (is.map .tick)) : I (D.after s is) := by
  induction is generalizing s with
  | nil => exact hs
  | cons i is ih => exact ih (hinv s i hs hC.1) hC.2

theorem allSteps_append {C : σ → ι → Prop} {s : σ} {is js : List ι}
    (h : D.AllSteps C s ((is ++ js).map .tick)) :
    D.AllSteps C s (is.map .tick) ∧ D.AllSteps C (D.after s is) (js.map .tick) := by
  induction is generalizing s with
  | nil => exact ⟨trivial, h⟩
  | cons i is ih =>
    obtain ⟨hfirst, hrest⟩ := ih h.2
    exact ⟨⟨h.1, hfirst⟩, hrest⟩

end Design

section Conservation

variable {σ ι ε : Type*} {D : Design σ ι} {C : σ → ι → Prop} {I : σ → Prop}

theorem conserved {q : σ → List ε} {came went : σ → ι → List ε} (hinv : ∀ s i, I s → C s i → I (D.next s i))
    (hstep : ∀ s i, I s → C s i → q s ++ came s i = went s i ++ q (D.next s i)) {s : σ} (hs : I s) {is : List ι}
    (hC : D.AllSteps C s (is.map .tick)) : q s ++ D.ticks came s is = D.ticks went s is ++ q (D.after s is) := by
  induction is generalizing s with
  | nil => simp
  | cons i is ih =>
    have hrest := ih (hinv s i hs hC.1) hC.2
    rw [Design.ticks_cons, Design.ticks_cons, Design.after_cons, ← List.append_assoc, hstep s i hs hC.1,
      List.append_assoc, hrest, List.append_assoc]

theorem conserved_count {δ : Type*} {q : σ → ℕ} {came : σ → ι → List ε} {went : σ → ι → List δ}
    (hinv : ∀ s i, I s → C s i → I (D.next s i))
    (hstep : ∀ s i, I s → C s i → q s + (came s i).length = (went s i).length + q (D.next s i)) {s : σ} (hs : I s)
    {is : List ι} (hC : D.AllSteps C s (is.map .tick)) :
    q s + (D.ticks came s is).length = (D.ticks went s is).length + q (D.after s is) := by
  induction is generalizing s with
  | nil => simp
  | cons i is ih =>
    have hrest := ih (hinv s i hs hC.1) hC.2
    have hfirst := hstep s i hs hC.1
    simp only [Design.ticks_cons, Design.after_cons, List.length_append]
    omega

/-- A view of the state that each edge changes by what is observed of it. -/
theorem folded {β : Type*} (view : σ → β) (obs : σ → ι → List ε) (f : β → ε → β)
    (hinv : ∀ s i, I s → C s i → I (D.next s i))
    (hstep : ∀ s i, I s → C s i → view (D.next s i) = (obs s i).foldl f (view s)) {s : σ} (hs : I s) {is : List ι}
    (hC : D.AllSteps C s (is.map .tick)) : view (D.after s is) = (D.ticks obs s is).foldl f (view s) := by
  induction is generalizing s with
  | nil => rfl
  | cons i is ih =>
    rw [Design.after_cons, ih (hinv s i hs hC.1) hC.2, hstep s i hs hC.1, Design.ticks_cons, List.foldl_append]

end Conservation

/-- What a port shows of a cycle: the beats it takes, the write it does, the answers that are taken from it. -/
structure Port (σ ι α δ : Type*) where
  aw : σ → ι → List α
  w : σ → ι → List δ
  write : σ → ι → List (α × δ)
  bvalid : σ → Bool
  b : σ → ι → List Unit
  ar : σ → ι → List Unit
  rvalid : σ → Bool
  r : σ → ι → List Unit

namespace Port

variable {σ ι α δ : Type*} (P : Port σ ι α δ) (D : Design σ ι)

/-- The addresses and the data that were taken, the first with the first and so on. -/
def beats (s : σ) (is : List ι) : List (α × δ) := (D.ticks P.aw s is).zip (D.ticks P.w s is)

/-- In a run of edges nothing that is taken gets lost or is done twice. -/
structure Exact (s : σ) (is : List ι) : Prop where
  writes : D.ticks P.write s is <+: P.beats D s is
  written : ∀ js ks, is = js ++ ks → 2 ≤ ks.length → P.beats D s js <+: D.ticks P.write s is
  answers : (D.ticks P.b s is).length ≤ (P.beats D s is).length
  answered : ∀ js ks, is = js ++ ks → 1 ≤ ks.length →
    (P.beats D s js).length ≤ (D.ticks P.b s is).length + (P.bvalid (D.after s is)).toNat
  b_stays : ∀ js i ks, is = js ++ i :: ks → P.bvalid (D.after s js) = true → P.b (D.after s js) i = [] →
    P.bvalid (D.after s (js ++ [i])) = true
  reads : (D.ticks P.r s is).length ≤ (D.ticks P.ar s is).length
  read : ∀ js ks, is = js ++ ks → 2 ≤ ks.length →
    (D.ticks P.ar s js).length ≤ (D.ticks P.r s is).length + (P.rvalid (D.after s is)).toNat
  r_stays : ∀ js i ks, is = js ++ i :: ks → P.rvalid (D.after s js) = true → P.r (D.after s js) i = [] →
    P.rvalid (D.after s (js ++ [i])) = true

/-- What a port holds: an address, a datum, a write still to be done, and a read still to be answered. -/
structure Buffers (σ α δ : Type*) where
  addr : σ → List α
  data : σ → List δ
  write : σ → List (α × δ)
  waiting : σ → ℕ

/-- An address and a datum that have met. -/
def Buffers.met {σ α δ : Type*} (B : Buffers σ α δ) (s : σ) : List (α × δ) := (B.addr s).zip (B.data s)

/-- One edge conserves the buffers, and nothing stays in them for longer than two edges. -/
structure Keeps (B : Buffers σ α δ) (C : σ → ι → Prop) (I : σ → Prop) : Prop where
  inv : ∀ s i, I s → C s i → I (D.next s i)
  addr : ∀ s i, I s → C s i → B.addr s ++ P.aw s i = (B.met s).map Prod.fst ++ B.addr (D.next s i)
  data : ∀ s i, I s → C s i → B.data s ++ P.w s i = (B.met s).map Prod.snd ++ B.data (D.next s i)
  write : ∀ s i, I s → C s i → B.write s ++ B.met s = P.write s i ++ B.write (D.next s i)
  written : ∀ s i j, I s → C s i → C (D.next s i) j →
    (B.write s ++ B.met s).length ≤ (P.write s i ++ P.write (D.next s i) j).length
  b : ∀ s i, I s → C s i → (P.bvalid s).toNat + (B.met s).length = (P.b s i).length + (P.bvalid (D.next s i)).toNat
  r : ∀ s i, I s → C s i → ((P.rvalid s).toNat + B.waiting s) + (P.ar s i).length =
    (P.r s i).length + ((P.rvalid (D.next s i)).toNat + B.waiting (D.next s i))
  r_stays : ∀ s i, I s → C s i → P.rvalid s = true → P.r s i = [] → P.rvalid (D.next s i) = true
  waiting : ∀ s i j, I s → C s i → C (D.next s i) j →
    B.waiting (D.next (D.next s i) j) ≤ (P.ar s i).length + (P.ar (D.next s i) j).length

section Rule

variable {P D} {B : Buffers σ α δ} {C : σ → ι → Prop} {I : σ → Prop}

/-- The pairs in the order in which they met, along a run from empty buffers. -/
theorem Keeps.run (h : P.Keeps D B C I) {s : σ} (hs : I s) {is : List ι} (hC : D.AllSteps C s (is.map .tick)) :
    let met := D.ticks (fun s _ => B.met s) s is
    B.addr s ++ D.ticks P.aw s is = met.map Prod.fst ++ B.addr (D.after s is) ∧
      B.data s ++ D.ticks P.w s is = met.map Prod.snd ++ B.data (D.after s is) ∧
      B.write s ++ met = D.ticks P.write s is ++ B.write (D.after s is) := by
  refine ⟨?_, ?_, conserved h.inv h.write hs hC⟩
  · rw [Design.map_ticks]
    exact conserved h.inv h.addr hs hC
  · rw [Design.map_ticks]
    exact conserved h.inv h.data hs hC

/-- From empty buffers: what was taken has met, or waits on one side. -/
theorem Keeps.beats (h : P.Keeps D B C I) {s : σ} (hs : I s) (ha : B.addr s = []) (hd : B.data s = []) {is : List ι}
    (hC : D.AllSteps C s (is.map .tick)) :
    P.beats D s is = D.ticks (fun s _ => B.met s) s is ++ B.met (D.after s is) := by
  obtain ⟨haddr, hdata, -⟩ := h.run hs hC
  rw [ha, List.nil_append] at haddr
  rw [hd, List.nil_append] at hdata
  rw [Port.beats, haddr, hdata, List.zip_append (by simp), List.zip_map', Buffers.met]
  simp

/-- One edge later all that was taken in pairs has met. -/
theorem Keeps.beats_met (h : P.Keeps D B C I) {s : σ} (hs : I s) (ha : B.addr s = []) (hd : B.data s = [])
    {js ks : List ι} (hlen : 1 ≤ ks.length) (hC : D.AllSteps C s ((js ++ ks).map .tick)) :
    P.beats D s js <+: D.ticks (fun s _ => B.met s) s (js ++ ks) := by
  rw [h.beats hs ha hd (Design.allSteps_append hC).1, Design.ticks_append]
  cases ks with
  | nil => simp at hlen
  | cons i ks =>
    rw [Design.ticks_cons, ← List.append_assoc]
    exact List.prefix_append _ _

/-- And two edges later it is written. -/
theorem Keeps.beats_written (h : P.Keeps D B C I) {s : σ} (hs : I s) (ha : B.addr s = []) (hd : B.data s = [])
    (hw : B.write s = []) {js ks : List ι} (hlen : 2 ≤ ks.length) (hC : D.AllSteps C s ((js ++ ks).map .tick)) :
    P.beats D s js <+: D.ticks P.write s (js ++ ks) := by
  obtain ⟨hfirst, hrest⟩ := Design.allSteps_append hC
  have hmet := (h.run hs hC).2.2
  have hmet' := (h.run hs hfirst).2.2
  have hinv := Design.after_induct h.inv hs hfirst
  rw [hw, List.nil_append] at hmet hmet'
  have hin := h.beats_met hs ha hd (by omega) hC
  rw [hmet] at hin
  refine List.prefix_of_prefix_length_le hin (List.prefix_append _ _) ?_
  match ks, hlen, hrest with
  | i :: j :: ks, _, hrest =>
    have hsoon := h.written _ i j hinv hrest.1 hrest.2.1
    rw [h.beats hs ha hd hfirst, hmet', Design.ticks_append]
    simp only [List.length_append, Design.ticks_cons] at hsoon ⊢
    omega

/-- A read is answered two edges later, or waits because it came after. -/
theorem Keeps.read_offered (h : P.Keeps D B C I) {s : σ} (hs : I s) (hr : P.rvalid s = false) (hwait : B.waiting s = 0)
    {js ks : List ι} (hlen : 2 ≤ ks.length) (hC : D.AllSteps C s ((js ++ ks).map .tick)) :
    (D.ticks P.ar s js).length ≤
      (D.ticks P.r s (js ++ ks)).length + (P.rvalid (D.after s (js ++ ks))).toNat := by
  have hcount := conserved_count h.inv h.r hs hC
  simp only [hr, hwait, Bool.toNat_false, Nat.zero_add] at hcount
  -- the last two edges
  obtain ⟨ls, i, j, rfl⟩ : ∃ ls i j, ks = ls ++ [i, j] := by
    rcases List.eq_nil_or_concat' ks with rfl | ⟨ls, j, rfl⟩
    · simp at hlen
    · rcases List.eq_nil_or_concat' ls with rfl | ⟨ls, i, rfl⟩
      · simp at hlen
      · exact ⟨ls, i, j, by simp⟩
  rw [← List.append_assoc] at hC hcount ⊢
  obtain ⟨hfirst, hrest⟩ := Design.allSteps_append hC
  have hlate := h.waiting _ i j (Design.after_induct h.inv hs hfirst) hrest.1 hrest.2.1
  rw [Design.after_append s (js ++ ls)] at hcount ⊢
  rw [Design.ticks_append P.ar s (js ++ ls), Design.ticks_append P.ar s js] at hcount
  simp only [List.length_append, Design.ticks_cons, Design.ticks_nil, Design.after_cons, Design.after_nil,
    List.length_nil] at hcount ⊢
  omega

/-- A port that conserves its buffers is exact. -/
theorem Keeps.exact (h : P.Keeps D B C I) {s : σ} (hs : I s) (ha : B.addr s = []) (hd : B.data s = [])
    (hw : B.write s = []) (hb : P.bvalid s = false) (hr : P.rvalid s = false) (hwait : B.waiting s = 0)
    {is : List ι} (hC : D.AllSteps C s (is.map .tick)) : P.Exact D s is := by
  have hmet := (h.run hs hC).2.2
  rw [hw, List.nil_append] at hmet
  have hbeats := h.beats hs ha hd hC
  have hanswers := conserved_count h.inv h.b hs hC
  have hreads := conserved_count h.inv h.r hs hC
  simp only [hb, hr, hwait, Bool.toNat_false, Nat.zero_add] at hanswers hreads
  exact
    { writes := by
        rw [hbeats, hmet, List.append_assoc]
        exact List.prefix_append _ _
      written := by
        rintro js ks rfl hlen
        exact h.beats_written hs ha hd hw hlen hC
      answers := by
        rw [hbeats, List.length_append]
        omega
      answered := by
        rintro js ks rfl hlen
        have hle := (h.beats_met hs ha hd hlen hC).length_le
        omega
      b_stays := by
        rintro js i ks rfl hvalid hb
        obtain ⟨hfirst, hrest⟩ := Design.allSteps_append hC
        have hcount := h.b _ i (Design.after_induct h.inv hs hfirst) hrest.1
        rw [Design.after_append, Design.after_cons, Design.after_nil]
        simp only [hvalid, hb, Bool.toNat_true, List.length_nil] at hcount
        exact Bool.toNat_eq_one.mp (le_antisymm (Bool.toNat_le _) (by omega))
      reads := by omega
      read := by
        rintro js ks rfl hlen
        exact h.read_offered hs hr hwait hlen hC
      r_stays := by
        rintro js i ks rfl hvalid hr
        obtain ⟨hfirst, hrest⟩ := Design.allSteps_append hC
        rw [Design.after_append, Design.after_cons, Design.after_nil]
        exact h.r_stays _ i (Design.after_induct h.inv hs hfirst) hrest.1 hvalid hr }

end Rule

end Port

section Places

variable {α δ : Type*}

/-- A place that is taken or free. -/
def place (taken : Bool) (x : α) : List α := if taken then [x] else []

/-- The handshake of a channel as a list of what it brings. -/
def beat (valid ready : Bool) (x : α) : List α := place (valid && ready) x

theorem place_length (taken : Bool) (x : α) : (place taken x).length = taken.toNat := by
  cases taken <;> rfl

/-- One place for an address and one for a datum. While both are taken they meet, unless an answer `b` is offered;
a channel is ready when its place is free and no answer is offered. -/
theorem place_addr {aHeld dHeld b valid : Bool} (q a : α) (d : δ) (hheld : (aHeld || dHeld) = true → b = false) :
    place aHeld q ++ beat valid (!aHeld && !b) a = ((place aHeld q).zip (place dHeld d)).map Prod.fst ++
      place (!(aHeld && dHeld && !b) && (aHeld || (valid && (!aHeld && !b))))
        (if valid && (!aHeld && !b) then a else q) := by
  revert hheld
  cases aHeld <;> cases dHeld <;> cases b <;> cases valid <;> simp [place, beat]

theorem place_data {aHeld dHeld b valid : Bool} (q : α) (d x : δ) (hheld : (aHeld || dHeld) = true → b = false) :
    place dHeld d ++ beat valid (!dHeld && !b) x = ((place aHeld q).zip (place dHeld d)).map Prod.snd ++
      place (!(aHeld && dHeld && !b) && (dHeld || (valid && (!dHeld && !b))))
        (if valid && (!dHeld && !b) then x else d) := by
  revert hheld
  cases aHeld <;> cases dHeld <;> cases b <;> cases valid <;> simp [place, beat]

theorem place_met {aHeld dHeld b : Bool} (q : α) (d : δ) (hheld : (aHeld || dHeld) = true → b = false) :
    (place aHeld q).zip (place dHeld d) = place (aHeld && dHeld && !b) (q, d) := by
  revert hheld
  cases aHeld <;> cases dHeld <;> cases b <;> simp [place]

/-- The answer to what has met is offered, and none is offered before. -/
theorem place_answer {aHeld dHeld b ready : Bool} (q : α) (d : δ) (hheld : (aHeld || dHeld) = true → b = false) :
    b.toNat + ((place aHeld q).zip (place dHeld d)).length =
      (beat b ready ()).length + ((aHeld && dHeld && !b) || (b && !ready)).toNat := by
  revert hheld
  cases aHeld <;> cases dHeld <;> cases b <;> cases ready <;> simp [place, beat]

/-- An answer `v` is offered to each read that is taken. -/
theorem place_read (v valid ready : Bool) : v.toNat + (beat valid (!v) ()).length =
    (beat v ready ()).length + ((valid && !v) || (v && !ready)).toNat := by
  cases v <;> cases valid <;> cases ready <;> rfl

/-- Nobody took what is offered. -/
theorem not_ready_of_beat {valid ready : Bool} {x : α} (h : beat valid ready x = []) (hv : valid = true) :
    ready = false := by
  cases ready
  · rfl
  · simp [beat, place, hv] at h

end Places

end Clocked
