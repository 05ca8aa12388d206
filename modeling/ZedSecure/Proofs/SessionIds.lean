import ZedSecure.Proofs.LinkMirror

/-! No session id is given twice: it is the slot and its generation, which every session that is opened moves on. -/

namespace ZedSecure

open BoardLink DataLoop UartDemo

namespace LinkLoop

theorem makeSessionId_toNat {slot : ℕ} (hslot : slot < UART_DEMO_SESSIONS) {generation : BitVec 32}
    (hg : generation.toNat < 2 ^ 22) :
    (makeSessionId slot generation).toNat = 0x60000000 + 64 * generation.toNat + slot := by
  have h64 : UART_DEMO_SESSIONS = 64 := rfl
  have hmask : generation.toNat &&& 0x003fffff = generation.toNat := by
    rw [show 0x003fffff = 2 ^ 22 - 1 from rfl, Nat.and_two_pow_sub_one_eq_mod, Nat.mod_eq_of_lt hg]
  have hlow : (generation.toNat <<< 6 ||| slot) = 64 * generation.toNat + slot := by
    rw [← Nat.shiftLeft_add_eq_or_of_lt (by omega : slot < 2 ^ 6), Nat.shiftLeft_eq]
    omega
  have hhigh : (3 <<< 29 ||| (64 * generation.toNat + slot)) = 3 <<< 29 + (64 * generation.toNat + slot) :=
    (Nat.shiftLeft_add_eq_or_of_lt (by omega) 3).symm
  have hwidth : generation.toNat <<< 6 % 2 ^ 32 = generation.toNat <<< 6 := by
    rw [Nat.shiftLeft_eq]
    omega
  simp only [makeSessionId, BitVec.toNat_or, BitVec.toNat_shiftLeft, BitVec.toNat_and, BitVec.toNat_ofNat]
  have hbits : (0x003fffff : BitVec 32).toNat = 0x003fffff := rfl
  have hbase : ((0x60000000 : ℕ) : BitVec 32).toNat = 3 <<< 29 := rfl
  rw [hbits, hmask, hwidth, Nat.mod_eq_of_lt (by omega : slot < 2 ^ 32), Nat.or_assoc, hlow, hbase, hhigh]
  omega

variable {σ : Type} (aead : Aead) (v : Vectors) (name : String) (D : Channel σ)

/-- The sessions that `open_session` returns in a run. -/
def granted (p : Peers σ) : List Call → List BoardLink.Session
  | [] => []
  | c :: calls =>
    let rest := granted (call aead v name D p c).1 calls
    match c.op, (call aead v name D p c).2 with
    | .open _, .ok (.session session) => session :: rest
    | _, _ => rest

section Runs

variable {p : Peers σ} {c : Call} {calls : List Call}

/-- A generation moves when its slot is opened, and the PC may get the session of it. -/
theorem generation_call (p : Peers σ) (c : Call) :
    (∀ slot, (call aead v name D p c).1.board.generation slot = p.board.generation slot) ∧
      (∀ slot x, c.op = .open slot → (call aead v name D p c).2 ≠ .ok x) ∨
    ∃ slot < UART_DEMO_SESSIONS,
      (call aead v name D p c).1.board.generation = Function.update p.board.generation slot (p.board.generation slot + 1) ∧
      ∀ session, (call aead v name D p c).2 = .ok (.session session) →
        session.sid = (makeSessionId slot (p.board.generation slot)).toNat := by
  generalize hp : call aead v name D p c = q
  have heffect : Effect v p c q := hp ▸ call_effect aead v name D p c
  cases heffect with
  | quiet device r hno => exact Or.inl ⟨fun _ => rfl, hno⟩
  | @opened slot hop hslot device session hderive =>
    refine Or.inr ⟨slot, hslot, rfl, fun session' hs => ?_⟩
    obtain ⟨session'', hderive', hsid, -⟩ := derive_id v (makeSessionId slot (p.board.generation slot))
    obtain rfl : session = session' := by
      injection hs with hs
      injection hs
    rw [← hsid, Except.ok.inj (hderive.symm.trans hderive')]
  | @openLost slot hop hslot _ device err => exact Or.inr ⟨slot, hslot, rfl, fun _ hs => by cases hs⟩
  | left hop => exact Or.inl ⟨fun _ => rfl, fun slot x hop' => by rw [hop] at hop'; cases hop'⟩
  | leaveLost hop => exact Or.inl ⟨fun _ => rfl, fun slot x hop' => by rw [hop] at hop'; cases hop'⟩
  | packet r hno device hboard => exact Or.inl ⟨fun slot => by rw [hboard], fun slot _ hop' => absurd hop' (hno slot)⟩

/-- There are generations left for `k` more sessions in every slot. -/
def Room (k : ℕ) (p : Peers σ) : Prop := ∀ slot, (p.board.generation slot).toNat + k < 2 ^ 22

/-- An id of a generation that has not been used yet. -/
def Unused (p : Peers σ) (sid : ℕ) : Prop :=
  ∃ slot < UART_DEMO_SESSIONS, ∃ generation : BitVec 32, p.board.generation slot ≤ generation ∧
    generation.toNat < 2 ^ 22 ∧ sid = (makeSessionId slot generation).toNat

theorem Unused.of_le {p' : Peers σ} {sid : ℕ} (h : Unused p' sid)
    (hle : ∀ slot, p.board.generation slot ≤ p'.board.generation slot) : Unused p sid := by
  obtain ⟨slot, hslot, generation, hg, hlt, hsid⟩ := h
  exact ⟨slot, hslot, generation, BitVec.le_trans (hle slot) hg, hlt, hsid⟩

theorem generation_mono (hroom : Room 1 p) (c : Call) (slot : ℕ) :
    p.board.generation slot ≤ (call aead v name D p c).1.board.generation slot ∧
      ((call aead v name D p c).1.board.generation slot).toNat ≤ (p.board.generation slot).toNat + 1 := by
  rcases generation_call aead v name D p c with ⟨hsame, -⟩ | ⟨j, -, hmoved, -⟩
  · rw [hsame]
    exact ⟨BitVec.le_refl _, by omega⟩
  · rw [hmoved]
    by_cases hne : slot = j
    · subst hne
      have hlt := hroom slot
      rw [Function.update_self]
      constructor <;> bv_omega
    · rw [Function.update_of_ne hne]
      exact ⟨BitVec.le_refl _, by omega⟩

theorem Room.call (hroom : Room (calls.length + 1) p) (c : Call) :
    Room calls.length (call aead v name D p c).1 := by
  intro slot
  have hlt := hroom slot
  have hle := (generation_mono aead v name D (p := p)
    (fun j => by have := hroom j; omega) c slot).2
  omega

theorem granted_cons (p : Peers σ) (c : Call) (calls : List Call) :
    granted aead v name D p (c :: calls) = granted aead v name D (call aead v name D p c).1 calls ∨
    ∃ slot session, c.op = .open slot ∧ (call aead v name D p c).2 = .ok (.session session) ∧
      granted aead v name D p (c :: calls) = session :: granted aead v name D (call aead v name D p c).1 calls := by
  rw [granted]
  split
  · rename_i slot session hop hr
    exact Or.inr ⟨slot, session, hop, hr, rfl⟩
  · exact Or.inl rfl

/-- The id of a session that is opened now. -/
theorem granted_id {slot : ℕ} {session : BoardLink.Session} (hop : c.op = .open slot)
    (hr : (call aead v name D p c).2 = .ok (.session session)) :
    ∃ slot < UART_DEMO_SESSIONS, session.sid = (makeSessionId slot (p.board.generation slot)).toNat ∧
      (call aead v name D p c).1.board.generation slot = p.board.generation slot + 1 := by
  rcases generation_call aead v name D p c with ⟨-, hno⟩ | ⟨j, hj, hmoved, hsid⟩
  · exact absurd hr (hno slot _ hop)
  · exact ⟨j, hj, hsid session hr, by rw [hmoved, Function.update_self]⟩

/-- The sessions to come have ids that are not used yet. -/
theorem granted_unused aead v name D (hroom : Room calls.length p) {session : BoardLink.Session}
    (h : session ∈ granted aead v name D p calls) : Unused p session.sid := by
  induction calls generalizing p with
  | nil => cases h
  | cons c calls ih =>
    have hone : Room 1 p := fun j => by have := hroom j; simp only [List.length_cons] at this; omega
    have hrest : session ∈ granted aead v name D (LinkLoop.call aead v name D p c).1 calls → Unused p session.sid :=
      fun hs => (ih (hroom.call aead v name D c) hs).of_le fun slot => (generation_mono aead v name D hone c slot).1
    rcases granted_cons aead v name D p c calls with
      hgranted | ⟨slot, session', hop, hr, hgranted⟩
    · rw [hgranted] at h
      exact hrest h
    · rw [hgranted, List.mem_cons] at h
      rcases h with rfl | h
      · obtain ⟨j, hj, hsid, -⟩ := granted_id aead v name D hop hr
        exact ⟨j, hj, _, BitVec.le_refl _, by have := hone j; omega, hsid⟩
      · exact hrest h

theorem granted_distinct (hroom : Room calls.length p) :
    (granted aead v name D p calls).Pairwise fun a b => a.sid ≠ b.sid := by
  induction calls generalizing p with
  | nil => exact List.Pairwise.nil
  | cons c calls ih =>
    have hrest := ih (hroom.call aead v name D c)
    rcases granted_cons aead v name D p c calls with
      hgranted | ⟨slot, session, hop, hr, hgranted⟩
    · rw [hgranted]
      exact hrest
    · rw [hgranted, List.pairwise_cons]
      refine ⟨fun later hlater heq => ?_, hrest⟩
      obtain ⟨j, hj, hsid, hmoved⟩ := granted_id aead v name D hop hr
      obtain ⟨k, hk, generation, hg, hlt, hsid'⟩ := granted_unused aead v name D (hroom.call aead v name D c) hlater
      have hnow := hroom j
      simp only [List.length_cons] at hnow
      have h64 : UART_DEMO_SESSIONS = 64 := rfl
      rw [hsid, hsid', makeSessionId_toNat hj (by omega), makeSessionId_toNat hk hlt] at heq
      obtain rfl : j = k := by omega
      rw [hmoved] at hg
      have hlast : (p.board.generation j).toNat = generation.toNat := by omega
      bv_omega

end Runs

/-- From power-up on, in every run of fewer than `2^22` calls, whatever is lost and whatever fails, no two sessions that
the PC opens have the same id. -/
theorem fresh_sessions (device : σ) {calls : List Call}
    (hshort : calls.length < 2 ^ 22) :
    (granted aead v name D (start device) calls).Pairwise fun a b => a.sid ≠ b.sid :=
  granted_distinct aead v name D fun slot => by
    change (0#32).toNat + calls.length < 2 ^ 22
    simpa using hshort

/-- Three sessions, two of them in one slot. -/
theorem fresh_sessions_three : (granted Pc.chacha20Poly1305 ⟨[], []⟩ "A" demoBoard (start ())
    [⟨.open 5, ⟨9, 0, 0⟩, true⟩, ⟨.open 63, ⟨9, 0, 0⟩, true⟩, ⟨.open 5, ⟨9, 0, 0⟩, true⟩]).Pairwise
      fun a b => a.sid ≠ b.sid :=
  fresh_sessions _ _ _ _ () (by decide)

end LinkLoop

end ZedSecure
