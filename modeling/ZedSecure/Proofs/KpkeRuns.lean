import ZedSecure.Proofs.BridgeScripts

/-! Runs of the two K-PKE engines with their bridge. -/

namespace ZedSecure

open Clocked

open PolyBridge (Tracked Log Job busy ready done)

namespace Reencrypt

variable {e : Engine} {i : EngineIn} {o : Op}

theorem script_sound : script.Sound where
  starts _ := rfl
  slot o := by cases o <;> decide
  apart o j hj := by
    cases o <;> first | exact absurd hj (Option.not_mem_none j) | (obtain rfl := Option.some.inj hj; decide)
  chained o h := by cases o <;> first | exact ⟨rfl, _, rfl, rfl, rfl⟩ | exact absurd h (by decide)
  handed o o' hover hn ho := by
    cases o <;> cases hn <;>
      first | exact ⟨rfl, rfl⟩ | exact absurd hover (by decide) | exact absurd ho (by decide)

theorem uses_eq (st : St) : script.uses st.place = bridgeOp st := by
  cases st <;> rfl

theorem follows : script.Follows e.poly e.st.place (e.next i).st.place (bridgeIn e.st) := by
  obtain ⟨st, p⟩ := e
  cases st with
  | idle =>
    refine ⟨rfl, ?_⟩
    rw [Engine.next, St.next]
    cases i.start
    · exact Or.inl rfl
    · exact Or.inr ⟨.FM, rfl, rfl⟩
  | start o => exact ⟨rfl, rfl⟩
  | wait o =>
    refine ⟨rfl, o.finished (Engine.dones ⟨.wait o, p⟩ i), fun ho => ?_, ?_⟩
    · rw [Op.finished, of_decide_eq_true ho]
      rfl
    · rw [Engine.next, St.next]
      cases o.finished (Engine.dones ⟨.wait o, p⟩ i)
      · rfl
      · cases hn : o.next <;> simp [PolyBridge.Script.follow, script, hn, St.place]
  | done => exact ⟨rfl, Or.inl rfl⟩

theorem linked_reachable {q : Engine × Log} (h : recorded.Reachable q) :
    Tracked (q.1.poly, q.2) ∧ script.Linked q.1.st.place q.1.poly q.2 := by
  refine Design.reachable_induct recorded
    (P := fun q => Tracked (q.1.poly, q.2) ∧ script.Linked q.1.st.place q.1.poly q.2)
    (fun q => ⟨PolyBridge.tracked_rst (q.1.poly, q.2), rfl⟩) (fun q i hq => ?_) h
  have hnext := PolyBridge.Script.linked_next i.port script_sound hq.1 hq.2 (@follows q.1 i)
  rwa [uses_eq] at hnext

/-- The control and the bridge fit each other: every command finds the bridge ready, the bridge has nothing to do while
another unit is at work, and when an operation that waits for its result is over, the memory is what its commands,
overlapped or not, make of the one they began with. -/
theorem reencrypt_fits {q : Engine × Log} (h : recorded.Reachable q) :
    (bridgeStart q.1.st = true → ready q.1.poly.ctrl q.1.poly.core.ctrl.done = true) ∧
      (bridgeOp q.1.st = false → busy q.1.poly.ctrl = false) ∧
      ∀ o, q.1.st = .wait o → o.resource = .bridge → done q.1.poly.ctrl = true →
        q.1.poly.ram.mem = (script.phase o).foldl Job.exec q.2.mem := by
  obtain ⟨htracked, hlink⟩ := linked_reachable h
  refine ⟨fun hstart => ?_, fun hop => hlink.not_busy ((uses_eq _).trans hop), fun o hs ho hdone => ?_⟩
  · cases hs : q.1.st with
    | start o =>
      rw [hs] at hstart hlink
      exact PolyBridge.Script.Linked.ready hlink hstart
    | idle | done | wait o =>
      rw [hs] at hstart
      exact absurd hstart Bool.false_ne_true
  · rw [hs] at hlink
    exact PolyBridge.Script.linked_done htracked hlink (decide_eq_true ho) hdone

/-- A re-encryption up to its first noise polynomial. -/
def sampling : Engine × Log :=
  recorded.run (recorded.rst (⟨.idle, PolyBridge.blank.1⟩, PolyBridge.blank.2))
    [.tick ⟨true, false, false, false, false, ⟨false, 0, 0⟩⟩,
      .tick ⟨false, false, false, false, false, ⟨true, 1792, 5⟩⟩,
      .tick ⟨false, true, false, false, false, ⟨true, 1793, 6⟩⟩]

theorem reencrypt_fits_sampling : busy sampling.1.poly.ctrl = false :=
  (@reencrypt_fits sampling ⟨_, _, rfl⟩).2.1 rfl

theorem place_wait {st : St} (h : st.place = .wait o) : st = .wait o := by
  cases st <;> cases h
  rfl

theorem wait_next {d : Dones} {b : Bool} (h : o.finished d = true) : St.next (.wait o) b d ≠ .wait o := by
  rw [St.next, h, if_pos rfl]
  cases o.next <;> exact St.noConfusion

theorem next_free {d : Dones} {b : Bool} (h : (St.next (.wait o) b d).place = .free) :
    St.next (.wait o) b d = .done := by
  rw [St.next] at h ⊢
  cases hf : o.finished d <;> rw [hf] at h
  · cases h
  · cases hn : o.next with
    | none => rfl
    | some o' =>
      rw [hn] at h
      cases h

theorem goes {q : Engine × Log} (h : recorded.Reachable q) (ins : ℕ → EngineIn) :
    script.Goes (fun t => (recorded.stream q ins t).1.st.place)
      (fun t => ((recorded.stream q ins t).1.poly, (recorded.stream q ins t).2))
      (fun t => bridgeIn (recorded.stream q ins t).1.st) fun t => (ins t).port where
  linked := linked_reachable h
  follows _ := follows
  next t := by
    rw [uses_eq]
    rfl

/-- If the other units answer, a re-encryption that has begun comes to its end. -/
theorem reencrypt_completes {q : Engine × Log} (h : recorded.Reachable q)
    (hst : q.1.st = .start o ∨ q.1.st = .wait o) {ins : ℕ → EngineIn}
    (hanswers : ∀ t o, (recorded.stream q ins t).1.st = .wait o → o.resource ≠ .bridge →
      ∃ k, o.finished ((recorded.stream q ins (t + k)).1.dones (ins (t + k))) = true) :
    ∃ t, (recorded.stream q ins t).1.st = .done := by
  have hothers : ∀ t o, (recorded.stream q ins t).1.st.place = .wait o → script.mine o = false →
      ∃ k, (recorded.stream q ins (t + k)).1.st.place = .wait o →
        (recorded.stream q ins (t + k + 1)).1.st.place ≠ .wait o := fun t o ha ho => by
    obtain ⟨k, hk⟩ := hanswers t o (place_wait ha) (of_decide_eq_false ho)
    refine ⟨k, fun hw hp => ?_⟩
    have hnext : (recorded.stream q ins (t + k + 1)).1.st =
        St.next (.wait o) (ins (t + k)).start ((recorded.stream q ins (t + k)).1.dones (ins (t + k))) := by
      rw [← place_wait hw]
      rfl
    exact wait_next hk (hnext.symm.trans (place_wait hp))
  have hbegun : (recorded.stream q ins 0).1.st.place = .start o ∨ (recorded.stream q ins 0).1.st.place = .wait o :=
    hst.imp (congrArg St.place) (congrArg St.place)
  obtain ⟨s, -, o', hlast, hfree⟩ := (goes h ins).completes script_sound hothers (fun o => 31 - o.ctorIdx)
    (fun o o' hn => by cases o <;> cases hn <;> decide) hbegun
  have hnext : (recorded.stream q ins (s + 1)).1.st =
      St.next (.wait o') (ins s).start ((recorded.stream q ins s).1.dones (ins s)) := by
    rw [← place_wait hlast]
    rfl
  refine ⟨s + 1, hnext.trans (next_free ?_)⟩
  rw [← hnext]
  exact hfree

/-- Every other unit answers at once. -/
def answering : EngineIn := ⟨false, true, true, true, true, ⟨false, 0, 0⟩⟩

theorem reencrypt_completes_sampling : ∃ t, (recorded.stream sampling (fun _ => answering) t).1.st = .done :=
  @reencrypt_completes .NS0 sampling ⟨_, _, rfl⟩ (Or.inl rfl) (fun _ => answering) fun _ o _ ho =>
    ⟨0, by cases o <;> first | rfl | exact absurd rfl ho⟩

end Reencrypt

namespace Decrypt

variable {e : Engine} {i : EngineIn} {o : Op}

theorem script_sound : script.Sound where
  starts _ := rfl
  slot o := by cases o <;> decide
  apart o j hj := by
    cases o <;> first | exact absurd hj (Option.not_mem_none j) | (obtain rfl := Option.some.inj hj; decide)
  chained o h := by cases o <;> first | exact ⟨rfl, _, rfl, rfl, rfl⟩ | exact absurd h (by decide)
  handed o o' hover hn ho := by
    cases o <;> cases hn <;>
      first | exact ⟨rfl, rfl⟩ | exact absurd hover (by decide) | exact absurd ho (by decide)

theorem uses_eq (st : St) : script.uses st.place = bridgeOp st := by
  cases st <;> rfl

theorem finished_eq (ho : o.onBridge = true) : o.finished (e.dones i) = script.finishes e.poly o := by
  cases o <;> first | rfl | exact absurd ho Bool.false_ne_true

theorem follows : script.Follows e.poly e.st.place (e.next i).st.place (bridgeIn e.st) := by
  cases hs : e.st with
  | idle =>
    refine ⟨rfl, ?_⟩
    rw [Engine.next, hs, St.next]
    cases i.start
    · exact Or.inl rfl
    · exact Or.inr ⟨.U, rfl, rfl⟩
  | start o => exact ⟨rfl, by rw [Engine.next, hs]; rfl⟩
  | wait o =>
    refine ⟨rfl, o.finished (e.dones i), fun ho => finished_eq ho, ?_⟩
    rw [Engine.next, hs, St.next]
    cases o.finished (e.dones i)
    · rfl
    · cases hn : o.next <;> simp [PolyBridge.Script.follow, script, hn, St.place]
  | done => exact ⟨rfl, Or.inl (by rw [Engine.next, hs]; rfl)⟩

theorem linked_reachable {q : Engine × Log} (h : recorded.Reachable q) :
    Tracked (q.1.poly, q.2) ∧ script.Linked q.1.st.place q.1.poly q.2 := by
  refine Design.reachable_induct recorded
    (P := fun q => Tracked (q.1.poly, q.2) ∧ script.Linked q.1.st.place q.1.poly q.2)
    (fun q => ⟨PolyBridge.tracked_rst (q.1.poly, q.2), rfl⟩) (fun q i hq => ?_) h
  have hnext := PolyBridge.Script.linked_next i.port script_sound hq.1 hq.2 (@follows q.1 i)
  rwa [uses_eq] at hnext

/-- The counters as an operation starts. -/
def Op.counted : Op → BitVec 2 × BitVec 2 × Bool
  | .U | .N0 => (0, 0, false)
  | .N1 => (1, 0, false)
  | .B0 => (2, 0, false)
  | .B1 => (2, 1, false)
  | .A | .I => (2, 2, false)
  | .S | .M => (2, 2, true)

def Counted (e : Engine) : Prop :=
  match e.st with
  | .idle => True
  | .start o => (e.forwardCount, e.multiplyCount, e.inverseSeen) = o.counted
  | .wait o => (e.forwardCount, e.multiplyCount, e.inverseSeen) = (o.next.map Op.counted).getD (2, 2, true)
  | .done => (e.forwardCount, e.multiplyCount, e.inverseSeen) = (2, 2, true)

theorem counted_next (h : Counted e) : Counted (e.next i) := by
  obtain ⟨st, f, m, v, p⟩ := e
  cases st with
  | idle =>
    rw [Counted, Engine.next, St.next]
    cases i.start
    · trivial
    · rfl
  | start o => cases o <;> cases h <;> rfl
  | wait o =>
    rw [Counted, Engine.next, St.next]
    cases o.finished (Engine.dones ⟨.wait o, f, m, v, p⟩ i)
    · exact h
    · cases o <;> exact h
  | done => trivial

theorem counted_reachable {q : Engine × Log} (h : recorded.Reachable q) : Counted q.1 :=
  Design.reachable_induct recorded (P := fun q => Counted q.1) (fun _ => trivial) (fun _ _ hq => counted_next hq) h

/-- The control and the bridge fit each other here too, with up to four commands in a row; and the message is never
withheld: the counters that guard it always agree at the end. -/
theorem decrypt_fits {q : Engine × Log} (h : recorded.Reachable q) :
    (bridgeStart q.1.st = true → ready q.1.poly.ctrl q.1.poly.core.ctrl.done = true) ∧
      (bridgeOp q.1.st = false → busy q.1.poly.ctrl = false) ∧
      (∀ o, q.1.st = .wait o → o.onBridge = true → done q.1.poly.ctrl = true →
        q.1.poly.ram.mem = (script.phase o).foldl Job.exec q.2.mem) ∧
      ∀ msg, q.1.st = .done → q.1.message msg = msg := by
  obtain ⟨htracked, hlink⟩ := linked_reachable h
  have hcounted := counted_reachable h
  refine ⟨fun hstart => ?_, fun hop => hlink.not_busy ((uses_eq _).trans hop), fun o hs ho hdone => ?_,
    fun msg hs => ?_⟩
  · cases hs : q.1.st with
    | start o =>
      rw [hs] at hstart hlink
      exact PolyBridge.Script.Linked.ready hlink hstart
    | idle | done | wait o =>
      rw [hs] at hstart
      exact absurd hstart Bool.false_ne_true
  · rw [hs] at hlink
    exact PolyBridge.Script.linked_done htracked hlink ho hdone
  · rw [Counted, hs] at hcounted
    obtain ⟨hf, hm, hv⟩ : q.1.forwardCount = 2 ∧ q.1.multiplyCount = 2 ∧ q.1.inverseSeen = true := by
      simpa using hcounted
    rw [Engine.message, Engine.operationFault, hf, hm, hv]
    rfl

/-- A decryption up to its first transform. -/
def unpacking : Engine × Log :=
  recorded.run (recorded.rst (⟨.idle, 0, 0, false, PolyBridge.blank.1⟩, PolyBridge.blank.2))
    [.tick ⟨true, false, false, false, ⟨false, 0, 0⟩⟩, .tick ⟨false, false, false, false, ⟨true, 0, 5⟩⟩,
      .tick ⟨false, true, false, false, ⟨true, 1, 6⟩⟩]

theorem decrypt_fits_unpacking :
    ready unpacking.1.poly.ctrl unpacking.1.poly.core.ctrl.done = true :=
  (@decrypt_fits unpacking ⟨_, _, rfl⟩).1 rfl

theorem place_wait {st : St} (h : st.place = .wait o) : st = .wait o := by
  cases st <;> cases h
  rfl

theorem wait_next {d : Dones} {b : Bool} (h : o.finished d = true) : St.next (.wait o) b d ≠ .wait o := by
  rw [St.next, h, if_pos rfl]
  cases o.next <;> exact St.noConfusion

theorem next_free {d : Dones} {b : Bool} (h : (St.next (.wait o) b d).place = .free) :
    St.next (.wait o) b d = .done := by
  rw [St.next] at h ⊢
  cases hf : o.finished d <;> rw [hf] at h
  · cases h
  · cases hn : o.next with
    | none => rfl
    | some o' =>
      rw [hn] at h
      cases h

theorem goes {q : Engine × Log} (h : recorded.Reachable q) (ins : ℕ → EngineIn) :
    script.Goes (fun t => (recorded.stream q ins t).1.st.place)
      (fun t => ((recorded.stream q ins t).1.poly, (recorded.stream q ins t).2))
      (fun t => bridgeIn (recorded.stream q ins t).1.st) fun t => (ins t).port where
  linked := linked_reachable h
  follows _ := follows
  next t := by
    rw [uses_eq]
    rfl

/-- If the other units answer, a decryption that has begun comes to its end. -/
theorem decrypt_completes {q : Engine × Log} (h : recorded.Reachable q)
    (hst : q.1.st = .start o ∨ q.1.st = .wait o) {ins : ℕ → EngineIn}
    (hanswers : ∀ t o, (recorded.stream q ins t).1.st = .wait o → o.onBridge = false →
      ∃ k, o.finished ((recorded.stream q ins (t + k)).1.dones (ins (t + k))) = true) :
    ∃ t, (recorded.stream q ins t).1.st = .done := by
  have hothers : ∀ t o, (recorded.stream q ins t).1.st.place = .wait o → script.mine o = false →
      ∃ k, (recorded.stream q ins (t + k)).1.st.place = .wait o →
        (recorded.stream q ins (t + k + 1)).1.st.place ≠ .wait o := fun t o ha ho => by
    obtain ⟨k, hk⟩ := hanswers t o (place_wait ha) ho
    refine ⟨k, fun hw hp => ?_⟩
    have hnext : (recorded.stream q ins (t + k + 1)).1.st =
        St.next (.wait o) (ins (t + k)).start ((recorded.stream q ins (t + k)).1.dones (ins (t + k))) := by
      rw [← place_wait hw]
      rfl
    exact wait_next hk (hnext.symm.trans (place_wait hp))
  have hbegun : (recorded.stream q ins 0).1.st.place = .start o ∨ (recorded.stream q ins 0).1.st.place = .wait o :=
    hst.imp (congrArg St.place) (congrArg St.place)
  obtain ⟨s, -, o', hlast, hfree⟩ := (goes h ins).completes script_sound hothers (fun o => 9 - o.ctorIdx)
    (fun o o' hn => by cases o <;> cases hn <;> decide) hbegun
  have hnext : (recorded.stream q ins (s + 1)).1.st =
      St.next (.wait o') (ins s).start ((recorded.stream q ins s).1.dones (ins s)) := by
    rw [← place_wait hlast]
    rfl
  refine ⟨s + 1, hnext.trans (next_free ?_)⟩
  rw [← hnext]
  exact hfree

/-- Every other unit answers at once. -/
def answering : EngineIn := ⟨false, true, true, true, ⟨false, 0, 0⟩⟩

theorem decrypt_completes_unpacking : ∃ t, (recorded.stream unpacking (fun _ => answering) t).1.st = .done :=
  @decrypt_completes .N0 unpacking ⟨_, _, rfl⟩ (Or.inl rfl) (fun _ => answering) fun _ o _ ho =>
    ⟨0, by cases o <;> first | rfl | exact absurd ho (by decide)⟩

end Decrypt

end ZedSecure
