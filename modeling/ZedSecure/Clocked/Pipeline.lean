import Mathlib.Data.Set.Insert
import ZedSecure.Clocked.Leads

/-! Pipelines over a memory. A controller issues one item an edge; the item reads its cells at once and writes
them some stages later, while later items are being read. Where no two items share a cell, the memory ends as if
the items had been worked on one after the other. -/

namespace Clocked

namespace Design

variable {σ ι : Type*} (D : Design σ ι)

/-- Every `n` edges whose inputs meet `C` go from `P` to `Q`, through states in `W`. -/
def Takes (C : ι → Prop) (W : σ → Prop) (n : ℕ) (P Q : σ → Prop) : Prop :=
  ∀ s ins, P s → (∀ k < n, C (ins k)) → (∀ k < n, W (D.stream s ins k)) ∧ Q (D.stream s ins n)

variable {D} {C : ι → Prop} {W P Q R : σ → Prop} {m n : ℕ}

/-- A stretch of a run depends on its own inputs only. -/
theorem stream_congr {s : σ} {ins ins' : ℕ → ι} (h : ∀ k < n, ins k = ins' k) :
    D.stream s ins n = D.stream s ins' n := by
  induction n with
  | zero => rfl
  | succ n ih => rw [stream, stream, ih fun k hk => h k (by omega), h n (Nat.lt_succ_self n)]

namespace Takes

theorem step (hW : ∀ s, P s → W s) (hnext : ∀ s i, C i → P s → Q (D.next s i)) : D.Takes C W 1 P Q := by
  intro s ins hP hC
  refine ⟨fun k hk => ?_, hnext s (ins 0) (hC 0 Nat.one_pos) hP⟩
  obtain rfl : k = 0 := by omega
  exact hW s hP

theorem trans (hPQ : D.Takes C W m P Q) (hQR : D.Takes C W n Q R) : D.Takes C W (m + n) P R := by
  intro s ins hP hC
  obtain ⟨hm, hQ⟩ := hPQ s ins hP fun k hk => hC k (by omega)
  obtain ⟨hn, hR⟩ := hQR _ (fun k => ins (m + k)) hQ fun k hk => hC (m + k) (by omega)
  refine ⟨fun k hk => ?_, by rwa [stream_add]⟩
  rcases Nat.lt_or_ge k m with hlt | hge
  · exact hm k hlt
  · obtain ⟨j, rfl⟩ := Nat.exists_eq_add_of_le hge
    rw [stream_add]
    exact hn j (by omega)

theorem mono {P' Q' : σ → Prop} (h : D.Takes C W n P Q) (hP : ∀ s, P' s → P s) (hQ : ∀ s, Q s → Q' s) :
    D.Takes C W n P' Q' := by
  intro s ins hs hC
  obtain ⟨hW, hend⟩ := h s ins (hP s hs) hC
  exact ⟨hW, hQ _ hend⟩

/-- A loop of rounds of `m` edges. -/
theorem iterate {I : ℕ → σ → Prop} (h : ∀ j < n, D.Takes C W m (I j) (I (j + 1))) :
    D.Takes C W (n * m) (I 0) (I n) := by
  induction n with
  | zero =>
    rw [Nat.zero_mul]
    exact fun s ins hP _ => ⟨fun k hk => absurd hk (Nat.not_lt_zero k), hP⟩
  | succ n ih =>
    rw [Nat.succ_mul]
    exact (ih fun j hj => h j (by omega)).trans (h n (by omega))

end Takes

end Design

/-- A pass over a memory, item after item. -/
structure Pass (α β : Type*) where
  cells : ℕ → Set α
  step : (α → β) → ℕ → α → β

namespace Pass

variable {α β : Type*} (p : Pass α β) {f g : α → β} {j k n N : ℕ}

/-- The first `n` items are done. -/
def after (f : α → β) (n : ℕ) : α → β := (List.range n).foldl p.step f

/-- Each of the first `N` items works on cells of its own. -/
structure Local (N : ℕ) : Prop where
  frame : ∀ f, ∀ k < N, ∀ x ∉ p.cells k, p.step f k x = f x
  congr : ∀ f g, ∀ k < N, (∀ x ∈ p.cells k, f x = g x) → ∀ x ∈ p.cells k, p.step f k x = p.step g k x
  disjoint : ∀ j < N, ∀ k < N, j ≠ k → ∀ x ∈ p.cells j, x ∉ p.cells k

theorem after_succ (f : α → β) (n : ℕ) : p.after f (n + 1) = p.step (p.after f n) n := by
  rw [after, List.range_succ, List.foldl_append]
  rfl

variable {p}

namespace Local

variable (h : p.Local N)

include h

/-- What no item has written yet. -/
theorem after_unread (hn : n ≤ N) {x : α} (hx : ∀ j < n, x ∉ p.cells j) : p.after f n x = f x := by
  induction n with
  | zero => rfl
  | succ n ih =>
    rw [after_succ, h.frame _ n hn x (hx n (Nat.lt_succ_self n))]
    exact ih (Nat.le_of_succ_le hn) fun j hj => hx j (by omega)

/-- An item still finds its cells as they were. -/
theorem after_ahead (hn : n ≤ k) (hk : k < N) {x : α} (hx : x ∈ p.cells k) : p.after f n x = f x :=
  h.after_unread (by omega) fun j hj hmem =>
    h.disjoint j (by omega) k hk (by omega) x hmem hx

/-- Each item does to its cells what it would have done first. -/
theorem after_done (hn : n ≤ N) (hk : k < n) {x : α} (hx : x ∈ p.cells k) : p.after f n x = p.step f k x := by
  induction n with
  | zero => omega
  | succ n ih =>
    rw [after_succ]
    rcases Nat.lt_succ_iff_lt_or_eq.mp hk with hlt | rfl
    · rw [h.frame _ n hn x (h.disjoint k (by omega) n hn (by omega) x hx)]
      exact ih (by omega) hlt
    · exact h.congr _ _ k hn (fun y hy => h.after_ahead le_rfl hn hy) x hx

end Local

section Shapes

variable [DecidableEq α]

/-- Each item takes a cell to a new value. -/
def each (c : ℕ → α) (u : ℕ → β → β) : Pass α β where
  cells k := {c k}
  step f k := Function.update f (c k) (u k (f (c k)))

theorem each_local {c : ℕ → α} {u : ℕ → β → β} (hc : ∀ j < N, ∀ k < N, c j = c k → j = k) : (each c u).Local N where
  frame f k _ x hx := Function.update_of_ne (fun h => hx (Set.mem_singleton_iff.mpr h)) _ _
  congr f g k _ hfg x hx := by
    obtain rfl := Set.mem_singleton_iff.mp hx
    simp only [each, Function.update_self, hfg _ (Set.mem_singleton _)]
  disjoint j hj k hk hne x hx hx' := by
    obtain rfl := Set.mem_singleton_iff.mp hx
    exact hne (hc j hj k hk (Set.mem_singleton_iff.mp hx'))

/-- Each item takes a pair of cells to a new pair of values. -/
def pairs (lo hi : ℕ → α) (u v : ℕ → β → β → β) : Pass α β where
  cells k := {lo k, hi k}
  step f k :=
    Function.update (Function.update f (lo k) (u k (f (lo k)) (f (hi k)))) (hi k) (v k (f (lo k)) (f (hi k)))

variable {lo hi : ℕ → α} {u v : ℕ → β → β → β}

theorem pairs_lo (f : α → β) (h : lo k ≠ hi k) : (pairs lo hi u v).step f k (lo k) = u k (f (lo k)) (f (hi k)) := by
  simp only [pairs, Function.update_of_ne h, Function.update_self]

theorem pairs_hi (f : α → β) : (pairs lo hi u v).step f k (hi k) = v k (f (lo k)) (f (hi k)) :=
  Function.update_self _ _ _

theorem pairs_local (hlo : ∀ j < N, ∀ k < N, lo j = lo k → j = k) (hhi : ∀ j < N, ∀ k < N, hi j = hi k → j = k)
    (hne : ∀ j < N, ∀ k < N, lo j ≠ hi k) : (pairs lo hi u v).Local N where
  frame f k _ x hx := by
    simp only [pairs, Set.mem_insert_iff, Set.mem_singleton_iff, not_or] at hx ⊢
    rw [Function.update_of_ne hx.2, Function.update_of_ne hx.1]
  congr f g k hk hfg x hx := by
    have hl := hfg (lo k) (Set.mem_insert _ _)
    have hh := hfg (hi k) (Set.mem_insert_of_mem _ rfl)
    rcases hx with rfl | rfl
    · rw [pairs_lo f (hne k hk k hk), pairs_lo g (hne k hk k hk), hl, hh]
    · rw [pairs_hi, pairs_hi, hl, hh]
  disjoint j hj k hk hjk := by
    rintro x (rfl | rfl) (h | h)
    · exact hjk (hlo j hj k hk h)
    · exact hne j hj k hk h
    · exact hne k hk j hj h.symm
    · exact hjk (hhi j hj k hk h)

end Shapes

end Pass

/-- A pipeline: what the controller shows at each edge, and what it is for a stage to hold an item or a bubble. -/
structure Pipeline (σ α β : Type*) where
  depth : ℕ
  count : ℕ
  ctrl : ℕ → σ → Prop
  item : ℕ → ℕ → σ → Prop
  bubble : ℕ → σ → Prop
  mem : σ → α → β

namespace Pipeline

variable {σ ι α β : Type*} (l : Pipeline σ α β) (D : Design σ ι) (C : ι → Prop) (p : Pass α β) (f : α → β)

/-- Before edge `t`: the items issued in the last edges stand in the stages, the older ones are done. -/
structure At (t : ℕ) (s : σ) : Prop where
  ctrl : l.ctrl t s
  item : ∀ k j, 1 ≤ k → k ≤ l.depth → j + k = t → j < l.count → l.item k j s
  bubble : ∀ k, 1 ≤ k → k ≤ l.depth → (t < k ∨ l.count + k ≤ t) → l.bubble k s
  mem : l.mem s = p.after f (min (t - l.depth) l.count)

/-- The pipeline before its first item. -/
structure Ready (s : σ) : Prop where
  ctrl : l.ctrl 0 s
  bubble : ∀ k, 1 ≤ k → k ≤ l.depth → l.bubble k s
  mem : l.mem s = f

/-- The pipeline after its last item. -/
structure Drained (s : σ) : Prop where
  ctrl : l.ctrl (l.count + l.depth) s
  bubble : ∀ k, 1 ≤ k → k ≤ l.depth → l.bubble k s
  mem : l.mem s = p.after f l.count

/-- What a single edge has to do. -/
structure Works : Prop where
  depth_pos : 1 ≤ l.depth
  cells : p.Local l.count
  issue : ∀ t s i, C i → l.ctrl t s → t < l.count → (∀ x ∈ p.cells t, l.mem s x = f x) → l.item 1 t (D.next s i)
  dry : ∀ t s i, C i → l.ctrl t s → l.count ≤ t → t < l.count + l.depth → l.bubble 1 (D.next s i)
  moves : ∀ s i k j, C i → l.ctrl (j + k) s → 1 ≤ k → k < l.depth → j < l.count → l.item k j s →
    l.item (k + 1) j (D.next s i)
  empties : ∀ t s i k, C i → l.ctrl t s → t < l.count + l.depth → 1 ≤ k → k < l.depth →
    l.bubble k s → l.bubble (k + 1) (D.next s i)
  writes : ∀ s i j, C i → l.ctrl (j + l.depth) s → j < l.count → l.item l.depth j s →
    (∀ x ∈ p.cells j, l.mem s x = f x) → l.mem (D.next s i) = p.step (l.mem s) j
  keeps : ∀ t s i, C i → l.ctrl t s → t < l.count + l.depth → l.bubble l.depth s → l.mem (D.next s i) = l.mem s
  ctrl_next : ∀ t s i, C i → l.At p f t s → t < l.count + l.depth → l.ctrl (t + 1) (D.next s i)

variable {l D C p f}

theorem Ready.at_zero {s : σ} (h : l.Ready f s) : l.At p f 0 s where
  ctrl := h.ctrl
  item k j hk _ hjk _ := absurd hjk (by omega)
  bubble k hk hkd _ := h.bubble k hk hkd
  mem := by rw [h.mem, Nat.zero_sub, Nat.zero_min]; rfl

theorem At.drained {s : σ} (h : l.At p f (l.count + l.depth) s) : l.Drained p f s where
  ctrl := h.ctrl
  bubble k hk hkd := h.bubble k hk hkd (Or.inr (by omega))
  mem := by rw [h.mem, Nat.add_sub_cancel, Nat.min_self]

namespace Works

variable (h : l.Works D C p f) {t : ℕ} {s : σ} {i : ι}

include h

/-- The cells of an item that is not done are as they were. -/
theorem mem_ahead (hat : l.At p f t s) {j : ℕ} (hj : j < l.count) (htj : t ≤ j + l.depth) :
    ∀ x ∈ p.cells j, l.mem s x = f x := by
  intro x hx
  rw [hat.mem]
  exact h.cells.after_ahead (by omega) hj hx

theorem next_mem (hi : C i) (hat : l.At p f t s) (ht : t < l.count + l.depth) :
    l.mem (D.next s i) = p.after f (min (t + 1 - l.depth) l.count) := by
  have hd := h.depth_pos
  rcases Nat.lt_or_ge t l.depth with hlt | hge
  · rw [h.keeps t s i hi hat.ctrl ht (hat.bubble l.depth hd le_rfl (Or.inl hlt)), hat.mem]
    congr 1
    omega
  · obtain ⟨j, rfl⟩ := Nat.exists_eq_add_of_le' hge
    have hj : j < l.count := by omega
    rw [h.writes s i j hi hat.ctrl hj (hat.item l.depth j hd le_rfl rfl hj) (h.mem_ahead hat hj le_rfl),
      hat.mem, show min (j + l.depth - l.depth) l.count = j by omega,
      show min (j + l.depth + 1 - l.depth) l.count = j + 1 by omega, p.after_succ]

theorem next_at (hi : C i) (hat : l.At p f t s) (ht : t < l.count + l.depth) : l.At p f (t + 1) (D.next s i) where
  ctrl := h.ctrl_next t s i hi hat ht
  item := by
    intro k j hk hkd hjk hj
    obtain ⟨k, rfl⟩ := Nat.exists_eq_add_of_le' hk
    obtain rfl : t = j + k := by omega
    rcases Nat.eq_zero_or_pos k with rfl | hpos
    · exact h.issue _ s i hi hat.ctrl hj (h.mem_ahead hat hj (by omega))
    · exact h.moves s i k j hi hat.ctrl hpos (by omega) hj (hat.item k j hpos (by omega) rfl hj)
  bubble := by
    intro k hk hkd hout
    obtain ⟨k, rfl⟩ := Nat.exists_eq_add_of_le' hk
    rcases Nat.eq_zero_or_pos k with rfl | hpos
    · exact h.dry t s i hi hat.ctrl (by omega) ht
    · exact h.empties t s i k hi hat.ctrl ht hpos (by omega) (hat.bubble k hpos (by omega) (by omega))
  mem := h.next_mem hi hat ht

/-- The whole pass. -/
theorem takes {W : σ → Prop} (hW : ∀ t s, t < l.count + l.depth → l.ctrl t s → W s) :
    D.Takes C W (l.count + l.depth) (l.Ready f) (l.Drained p f) := by
  intro s ins hready hC
  have hrun : ∀ t ≤ l.count + l.depth, l.At p f t (D.stream s ins t) := by
    intro t
    induction t with
    | zero => exact fun _ => hready.at_zero
    | succ t ih => exact fun ht => h.next_at (hC t ht) (ih (by omega)) ht
  exact ⟨fun k hk => hW k _ hk (hrun k (by omega)).ctrl, (hrun _ le_rfl).drained⟩

end Works

end Pipeline

end Clocked
