import ZedSecure.Rtl.DecapsEngine

/-! The hash commands a decapsulation starts. At each point of its run the commands still
to come are determined by the two controllers' states, and every command started is the
head of that list. -/

namespace ZedSecure

namespace Reencrypt

/-- The hash commands from operation `o` on. -/
def Op.hashes : Op → List (BitVec 3)
  | .FM | .NS0 => [4, 4, 4, 4, 4, 3, 3, 3, 3]
  | .NS1 => [4, 4, 4, 4, 3, 3, 3, 3]
  | .NE0 => [4, 4, 4, 3, 3, 3, 3]
  | .NE1 => [4, 4, 3, 3, 3, 3]
  | .NEP => [4, 3, 3, 3, 3]
  | .NT0 | .NT1 | .M00 => [3, 3, 3, 3]
  | .B00 | .M01 => [3, 3, 3]
  | .B01 | .AB0 | .IB0 | .EB0 | .CB0 | .M10 => [3, 3]
  | .B10 | .M11 => [3]
  | _ => []

/-- The commands after `o`. -/
def Op.later (o : Op) : List (BitVec 3) :=
  match o.next with
  | some o' => o'.hashes
  | none => []

def St.hashes : St → List (BitVec 3)
  | .idle | .done => []
  | .start o => o.hashes
  | .wait o => o.later

theorem Op.hashes_eq (o : Op) (rho coins : BitVec 256) :
    o.hashes =
      (if hashStart (.start o) then [(hashJob (.start o) rho coins).command] else []) ++ o.later := by
  cases o <;> rfl

theorem Op.length_hashes (o : Op) : o.hashes.length ≤ 9 := by cases o <;> decide

theorem Op.length_later (o : Op) : o.later.length ≤ 9 := by
  unfold Op.later
  rcases o.next with _ | o'
  · exact Nat.zero_le 9
  · exact o'.length_hashes

theorem St.length_hashes (st : St) : st.hashes.length ≤ 9 := by
  rcases st with _ | o | o | _
  · exact Nat.zero_le 9
  · exact o.length_hashes
  · exact o.length_later
  · exact Nat.zero_le 9

theorem St.next_wait (o : Op) (start : Bool) (d : Dones) :
    (St.wait o).next start d =
      if o.finished d then (match o.next with | some o' => .start o' | none => .done)
      else .wait o := rfl

/-- A running re-encryption starts the head of its list or keeps the list. -/
theorem St.hashes_next {st : St} (h : st ≠ .idle) (start : Bool) (d : Dones) (rho coins : BitVec 256) :
    (if hashStart st then [(hashJob st rho coins).command] else []) ++ (st.next start d).hashes =
      st.hashes := by
  rcases st with _ | o | o | _
  · exact absurd rfl h
  · exact (o.hashes_eq rho coins).symm
  · rw [St.next_wait]
    by_cases hd : o.finished d = true
    · rw [if_pos hd]
      simp only [St.hashes, Op.later]
      rcases o.next with _ | o' <;> rfl
    · rw [if_neg hd]
      rfl
  · rfl

theorem St.next_ne_idle {st : St} (h : st ≠ .idle) (hd : st ≠ .done) (start : Bool) (d : Dones) :
    st.next start d ≠ .idle := by
  rcases st with _ | o | o | _
  · exact absurd rfl h
  · simp [St.next]
  · rw [St.next_wait]
    by_cases hf : o.finished d = true
    · rw [if_pos hf]
      rcases o.next with _ | o' <;> simp
    · rw [if_neg hf]
      simp
  · exact absurd rfl hd

end Reencrypt

namespace DecapsEngine

variable {dp : Datapath}

/-- H, G, the five noise polynomials, the four matrix entries, J. -/
def schedule : List (BitVec 3) := [0, 1, 4, 4, 4, 4, 4, 3, 3, 3, 3, 2]

/-- The commands the engine has still to start; `starting` when its start pin is up. -/
def left (starting : Bool) (s : State dp) : List (BitVec 3) :=
  match s.state with
  | .idle => if starting then schedule else []
  | .D_S | .D_W | .U_S | .U_W | .H_S => schedule
  | .H_W | .G_S => schedule.drop 1
  | .G_W | .E_S => schedule.drop 2
  | .E_W => s.enc.hashes ++ [2]
  | .J_S => [2]
  | .J_W | .select | .done => []

/-- The re-encryption runs exactly in `E_W`. -/
def Phased (s : State dp) : Prop := s.state = .E_W ↔ s.enc ≠ .idle

/-- The engine waits for the hash engine. -/
def awaitsHash (s : State dp) : Prop :=
  s.state = .H_W ∨ s.state = .G_W ∨ s.state = .J_W ∨
    ∃ o, s.enc = .wait o ∧ o.resource = .hash

theorem Phased.enc_idle {s : State dp} (h : Phased s) (hst : s.state ≠ .E_W) : s.enc = .idle :=
  by_contra fun hne => hst (h.mpr hne)

theorem phased_rst (s : State dp) : Phased (rst s) := by simp [Phased, rst]

theorem state_next_control (s : State dp) (i : In) :
    (next s i).state = (control s i (datapathOut s i)).state := rfl

theorem enc_next (s : State dp) (i : In) :
    (next s i).enc =
      s.enc.next (decide (s.state = .E_S)) (dones (datapathOut s i) i.hashDone) := rfl

theorem phased_next {s : State dp} (h : Phased s) (i : In) : Phased (next s i) := by
  unfold Phased at h ⊢
  rw [enc_next, state_next_control]
  rcases hst : s.state with _ | _ | _ | _ | _ | _ | _ | _ | _ | _ | _ | _ | _ | _ | _
  case E_S =>
    have he : s.enc = .idle := Phased.enc_idle h (by simp [hst])
    simp [control, hst, he, Reencrypt.St.next]
  case E_W =>
    have he : s.enc ≠ .idle := h.mp hst
    by_cases hd : s.enc = .done
    · simp [control, hst, hd, Reencrypt.St.next]
    · have hn := Reencrypt.St.next_ne_idle he hd false (dones (datapathOut s i) i.hashDone)
      simp [control, hst, hd, hn]
  all_goals
    have he : s.enc = .idle := Phased.enc_idle h (by simp [hst])
    simp only [control, hst, he, Reencrypt.St.next, apply_ite State.state]
    simp only [reduceCtorEq, decide_false, Bool.false_eq_true, if_false, ne_eq,
      not_true_eq_false, iff_false]
    try split_ifs <;> simp

/-- Each command started is the first of those left. -/
theorem left_next {s : State dp} (h : Phased s) (i : In) :
    (if hashStart s then [(hashJob s (datapathOut s i)).command] else []) ++ left false (next s i) =
      left i.start s := by
  unfold Phased at h
  unfold left
  rw [enc_next, state_next_control]
  rcases hst : s.state with _ | _ | _ | _ | _ | _ | _ | _ | _ | _ | _ | _ | _ | _ | _
  case E_W =>
    have he : s.enc ≠ .idle := h.mp hst
    have hn := Reencrypt.St.hashes_next he (decide (s.state = .E_S))
      (dones (datapathOut s i) i.hashDone) (datapathOut s i).rho (Clocked.slice s.gdigest 256 256)
    by_cases hd : s.enc = .done
    · simp [control, hst, hd, hashStart, Reencrypt.hashStart, Reencrypt.St.hashes]
    · rw [hst] at hn
      simp only [control, hst, hd, hashStart, hashJob, if_false, ← hn, List.append_assoc]
  case E_S =>
    have he : s.enc = .idle := Phased.enc_idle h (by simp [hst])
    simp [control, hst, he, hashStart, Reencrypt.hashStart, Reencrypt.St.next, schedule]
    rfl
  all_goals
    simp only [control, hst, hashStart, hashJob, HashJob.zero, apply_ite State.state]
    split_ifs <;> simp_all [schedule]

theorem left_eq_or_length_lt (b : Bool) (s : State dp) :
    left b s = schedule ∨ (left b s).length < 12 := by
  unfold left
  have he := s.enc.length_hashes
  rcases hst : s.state with _ | _ | _ | _ | _ | _ | _ | _ | _ | _ | _ | _ | _ | _ | _
  case idle => cases b <;> simp
  case E_W =>
    right
    simp only [List.length_append, List.length_singleton]
    omega
  all_goals simp [schedule]

theorem left_done {s : State dp} (h : done s = true) : left false s = [] := by
  simp only [done, decide_eq_true_eq] at h
  simp [left, h]

theorem not_awaitsHash_of_hashStart {s : State dp} (h : Phased s) (hs : hashStart s = true) :
    ¬ awaitsHash s := by
  unfold Phased at h
  rintro (hst | hst | hst | ⟨o, he, -⟩)
  · simp [hashStart, hst] at hs
  · simp [hashStart, hst] at hs
  · simp [hashStart, hst] at hs
  · have hst : s.state = .E_W := h.mpr (by simp [he])
    simp [hashStart, hst, he, Reencrypt.hashStart] at hs

theorem awaitsHash_of_hashStart {s : State dp} (hs : hashStart s = true) (i : In) :
    awaitsHash (next s i) := by
  unfold awaitsHash
  rw [enc_next, state_next_control]
  rcases hst : s.state with _ | _ | _ | _ | _ | _ | _ | _ | _ | _ | _ | _ | _ | _ | _
  case E_W | E_S =>
    simp only [hashStart, hst] at hs
    rcases he : s.enc with _ | o | o | _ <;> simp [he, Reencrypt.hashStart] at hs
    exact Or.inr (Or.inr (Or.inr ⟨o, by simp [Reencrypt.St.next], hs⟩))
  all_goals simp [hashStart, hst] at hs
  all_goals simp [control, hst]

theorem awaitsHash_next {s : State dp} (ha : awaitsHash s) {i : In} (hi : i.hashDone = false) :
    awaitsHash (next s i) := by
  unfold awaitsHash at ha ⊢
  rw [enc_next, state_next_control]
  rcases ha with hst | hst | hst | ⟨o, he, ho⟩
  · simp [control, hst, hi]
  · simp [control, hst, hi]
  · simp [control, hst, hi]
  · refine Or.inr (Or.inr (Or.inr ⟨o, ?_, ho⟩))
    simp [he, Reencrypt.St.next, Reencrypt.Op.finished, ho, dones, hi]

/-- An idle engine stays idle without a start. -/
theorem next_idle {s : State dp} (hst : s.state = .idle) {i : In} (hi : i.start = false) :
    (next s i).state = .idle := by
  rw [state_next_control]
  simp [control, hst, hi]

theorem next_done {s : State dp} (h : done s = true) (i : In) : (next s i).state = .idle := by
  simp only [done, decide_eq_true_eq] at h
  rw [state_next_control]
  simp [control, h]

theorem idle_of_phased {s : State dp} (h : Phased s) (hst : s.state = .idle) :
    hashStart s = false ∧ ¬ awaitsHash s ∧ done s = false := by
  have he : s.enc = .idle := h.enc_idle (by simp [hst])
  exact ⟨by simp [hashStart, hst], by simp [awaitsHash, hst, he], by simp [done, hst]⟩

end DecapsEngine

end ZedSecure
