import ZedSecure.Clocked.Pipeline
import ZedSecure.Proofs.PolyBanks

/-! The layers of both transforms in the pipeline: the walk of the sequencer over the blocks, and what each stage
holds of a butterfly. -/

namespace ZedSecure

open Clocked

namespace PolyAccelerator

open PolyLoops

section Walk

variable {span t : ℕ}

/-- The upper address of butterfly `t` of a layer. -/
def lo (span t : ℕ) : ℕ := 2 * span * (t / span) + t % span

/-- Inside a block the address goes up by one; after it the next block begins. -/
theorem walk (hs : span ∈ spans) (ht : t + 1 < 128) :
    (lo span t = 2 * span * (t / span) + span - 1 → 2 * span * (t / span) + 2 * span < 256 ∧
      lo span (t + 1) = 2 * span * (t / span) + 2 * span ∧ (t + 1) / span = t / span + 1) ∧
    (lo span t ≠ 2 * span * (t / span) + span - 1 → lo span (t + 1) = lo span t + 1 ∧ (t + 1) / span = t / span) := by
  simp only [spans, List.mem_cons, List.not_mem_nil, or_false] at hs
  rcases hs with rfl | rfl | rfl | rfl | rfl | rfl | rfl <;> simp only [lo] <;> omega

theorem walk_end (hs : span ∈ spans) : lo span 127 = 2 * span * (127 / span) + span - 1 ∧
    256 ≤ 2 * span * (127 / span) + 2 * span := by
  simp only [spans, List.mem_cons, List.not_mem_nil, or_false] at hs
  rcases hs with rfl | rfl | rfl | rfl | rfl | rfl | rfl <;> decide

theorem lo_lt (hs : span ∈ spans) (ht : t < 128) : lo span t + span < 256 := by
  simp only [spans, List.mem_cons, List.not_mem_nil, or_false] at hs
  rcases hs with rfl | rfl | rfl | rfl | rfl | rfl | rfl <;> simp only [lo] <;> omega

theorem lo_mod (hs : span ∈ spans) : lo span t % (2 * span) = t % span ∧ t % span < span := by
  have hpos : 0 < span := by
    rcases Nat.eq_zero_or_pos span with rfl | hpos
    · exact absurd hs (by decide)
    · exact hpos
  have hlt := Nat.mod_lt t hpos
  rw [lo, Nat.mul_add_mod, Nat.mod_eq_of_lt (by omega)]
  exact ⟨rfl, hlt⟩

theorem lo_inj (hs : span ∈ spans) {u : ℕ} (h : lo span t = lo span u) : t = u := by
  simp only [spans, List.mem_cons, List.not_mem_nil, or_false] at hs
  rcases hs with rfl | rfl | rfl | rfl | rfl | rfl | rfl <;> simp only [lo] at h <;> omega

theorem lo_ne (hs : span ∈ spans) {u : ℕ} : lo span t ≠ lo span u + span := by
  intro h
  have ht := lo_mod (t := t) hs
  have hu := lo_mod (t := u) hs
  have hlt : lo span u % (2 * span) + span < 2 * span := by omega
  rw [h, Nat.add_mod, Nat.mod_eq_of_lt (show span < 2 * span by omega), Nat.mod_eq_of_lt hlt] at ht
  omega

theorem ofNat_inj {x y : ℕ} (hx : x < 256) (hy : y < 256) (h : BitVec.ofNat 8 x = BitVec.ofNat 8 y) : x = y := by
  have := congrArg BitVec.toNat h
  rwa [BitVec.toNat_ofNat, BitVec.toNat_ofNat, Nat.mod_eq_of_lt hx, Nat.mod_eq_of_lt hy] at this

theorem parity_lo (hs : span ∈ spans) (ht : t < 128) :
    parity (BitVec.ofNat 8 (lo span t + span)) = !parity (BitVec.ofNat 8 (lo span t)) :=
  parity_pair span hs (lo span t) (by have := lo_lt hs ht; omega) (by rw [(lo_mod hs).1]; exact (lo_mod hs).2)

/-- A layer as a pass over pairs of coefficients. -/
def layer (span : ℕ) (u v : ℕ → BitVec 16 → BitVec 16 → BitVec 16) : Pass (BitVec 8) (BitVec 16) :=
  Pass.pairs (fun t => BitVec.ofNat 8 (lo span t)) (fun t => BitVec.ofNat 8 (lo span t + span)) u v

theorem layer_local (hs : span ∈ spans) (u v : ℕ → BitVec 16 → BitVec 16 → BitVec 16) : (layer span u v).Local 128 := by
  have hlt : ∀ j < 128, lo span j + span < 256 := fun j hj => lo_lt hs hj
  apply Pass.pairs_local
  · intro j hj k hk h
    exact lo_inj hs (ofNat_inj (by have := hlt j hj; omega) (by have := hlt k hk; omega) h)
  · intro j hj k hk h
    have := ofNat_inj (hlt j hj) (hlt k hk) h
    exact lo_inj hs (by omega)
  · intro j hj k hk h
    exact lo_ne hs (ofNat_inj (by have := hlt j hj; omega) (hlt k hk) h)

theorem loop_zero {α : Type*} (body : α → ℕ → α) (a : α) : loop 0 body a = a := rfl

theorem loop_succ {α : Type*} (n : ℕ) (body : α → ℕ → α) (a : α) : loop (n + 1) body a = body (loop n body a) n := by
  rw [loop, List.range_succ, List.foldl_append]
  rfl

theorem loop_add {α : Type*} (m n : ℕ) (body : α → ℕ → α) (a : α) :
    loop (m + n) body a = loop n (fun a j => body a (m + j)) (loop m body a) := by
  rw [loop, List.range_add, List.foldl_append, List.foldl_map]
  rfl

theorem loop_congr {α : Type*} {n : ℕ} {body body' : α → ℕ → α} (h : ∀ a, ∀ j < n, body a j = body' a j) (a : α) :
    loop n body a = loop n body' a := by
  apply List.foldl_ext
  intro a j hj
  exact h a j (List.mem_range.mp hj)

/-- A loop over blocks of loops is one loop. -/
theorem loop_blocks {α : Type*} (m n : ℕ) (hn : 0 < n) (body : α → ℕ → ℕ → α) (a : α) :
    loop m (fun a b => loop n (fun a j => body a b j) a) a = loop (m * n) (fun a t => body a (t / n) (t % n)) a := by
  induction m with
  | zero =>
    rw [Nat.zero_mul]
    rfl
  | succ m ih =>
    rw [loop_succ, ih, Nat.succ_mul, loop_add]
    apply loop_congr
    intro a j hj
    rw [Nat.mul_comm m n, Nat.mul_add_div hn, Nat.div_eq_of_lt hj, Nat.add_zero, Nat.mul_add_mod, Nat.mod_eq_of_lt hj]

theorem span_blocks (hs : span ∈ spans) : 0 < span ∧ 128 / span * span = 128 := by
  simp only [spans, List.mem_cons, List.not_mem_nil, or_false] at hs
  rcases hs with rfl | rfl | rfl | rfl | rfl | rfl | rfl <;> decide

theorem nttLayer_eq (hs : span ∈ spans) (k : ℕ) (f : Coeffs) : nttLayer span k f =
    (layer span (fun t x y => x + fqmul y (zetas (k + t / span))) fun t x y => x - fqmul y (zetas (k + t / span))).after
      f 128 := by
  rw [nttLayer, loop_blocks _ _ (span_blocks hs).1 fun f b j =>
    butterfly (zetas (k + b)) (BitVec.ofNat 8 (2 * span * b + j)) (BitVec.ofNat 8 (2 * span * b + j + span)) f,
    (span_blocks hs).2]
  rfl

theorem inttLayer_eq (hs : span ∈ spans) (k : ℕ) (f : Coeffs) : inttLayer span k f =
    (layer span (fun _ x y => barrett (x + y)) fun t x y => fqmul (y - x) (zetas (k - t / span))).after f 128 := by
  rw [inttLayer, loop_blocks _ _ (span_blocks hs).1 fun f b j =>
    inverseButterfly (zetas (k - b)) (BitVec.ofNat 8 (2 * span * b + j)) (BitVec.ofNat 8 (2 * span * b + j + span)) f,
    (span_blocks hs).2]
  rfl

end Walk

end PolyAccelerator

end ZedSecure
