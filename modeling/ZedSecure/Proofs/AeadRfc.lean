import ZedSecure.Proofs.ChachaRounds
import ZedSecure.Proofs.PolyLimbs

/-! The packet engine over its block and tag units is RFC 8439: what it answers to a start is the
sealed or opened packet, it answers within a bounded number of edges, and until it answers a
decrypt its data register is zero. -/

namespace ZedSecure

open Clocked LittleEndian Chacha20Block

section Function

theorem lanes_oneTimeKey (key : BitVec 256) (nonce : BitVec 96) :
    lanes (k := 32) (oneTimeKey chacha20 key nonce) =
      Rfc8439.polyKeyGen (lanes (k := 32) key) (lanes (k := 12) nonce) := by
  have hslice := lanes_slice (k := 64) (chacha20 ⟨key, nonce, 0#32⟩) (j := 0) (m := 32) (by decide)
  rw [List.drop_zero, lanes_chacha20] at hslice
  exact hslice

theorem lanes_polyMessage (aad : BitVec 128) (data : BitVec 512) :
    lanes (k := 96) (polyMessage aad data) =
      Rfc8439.macData (lanes (k := 16) aad) (lanes (k := 64) data) := by
  have hpad : ∀ bs : Bytes, bs.length % 16 = 0 → Rfc8439.pad16 bs = [] := by
    intro bs h
    simp [Rfc8439.pad16, h]
  have haad := bytes_append (j := 16) (k := 80) (64#64 ++ 16#64 ++ data) aad
  have hdata := bytes_append (j := 64) (k := 16) (64#64 ++ 16#64) data
  have hlen := bytes_append (j := 8) (k := 8) 64#64 16#64
  rw [Rfc8439.macData, length_lanes, length_lanes, hpad _ (by simp), hpad _ (by simp), List.append_nil,
    List.append_nil, List.append_assoc, List.append_assoc]
  exact haad.trans (congrArg _ (hdata.trans (congrArg _ hlen)))

/-- The tag of a packet. -/
theorem lanes_packetTag (key : BitVec 256) (nonce : BitVec 96) (aad : BitVec 128) (data : BitVec 512) :
    lanes (k := 16) (packetTag chacha20 poly1305 key nonce aad data) =
      Rfc8439.tag (lanes (k := 32) key) (lanes (k := 12) nonce) (lanes (k := 16) aad)
        (lanes (k := 64) data) := by
  rw [packetTag, poly1305, lanes_ofNat (k := 16) (Rfc8439.length_mac _ _), lanes_oneTimeKey,
    lanes_polyMessage, Rfc8439.tag]

/-- The packet data under the key stream of block 1. -/
theorem lanes_stream (key : BitVec 256) (nonce : BitVec 96) (data : BitVec 512) :
    lanes (k := 64) (data ^^^ chacha20 ⟨key, nonce, 1#32⟩) =
      Rfc8439.encrypt (lanes (k := 32) key) 1 (lanes (k := 12) nonce) (lanes (k := 64) data) := by
  rw [lanes_xor (k := 64), lanes_chacha20, Rfc8439.encrypt_block 1 (length_lanes (k := 64) data)]

theorem fixed64_seal {x : EngineIn} (h : x.decrypt = false) :
    (fixed64 chacha20 poly1305 x).authOk = true ∧
      (lanes (k := 64) (fixed64 chacha20 poly1305 x).data, lanes (k := 16) (fixed64 chacha20 poly1305 x).tag) =
        Rfc8439.aeadEncrypt (lanes (k := 16) x.aad) (lanes (k := 32) x.key) (lanes (k := 12) x.nonce)
          (lanes (k := 64) x.data) := by
  simp only [fixed64, h, Bool.false_eq_true, if_false, true_and]
  rw [lanes_packetTag, lanes_stream, Rfc8439.aeadEncrypt]

/-- The tag the packet of a decrypt must carry. -/
def rfcTag (x : EngineIn) : Bytes :=
  Rfc8439.tag (lanes (k := 32) x.key) (lanes (k := 12) x.nonce) (lanes (k := 16) x.aad) (lanes (k := 64) x.data)

theorem fixed64_open {x : EngineIn} (h : x.decrypt = true) :
    ((fixed64 chacha20 poly1305 x).authOk = true ↔ lanes (k := 16) x.receivedTag = rfcTag x) ∧
      ((fixed64 chacha20 poly1305 x).authOk = true → lanes (k := 64) (fixed64 chacha20 poly1305 x).data =
        Rfc8439.encrypt (lanes (k := 32) x.key) 1 (lanes (k := 12) x.nonce) (lanes (k := 64) x.data)) ∧
      ((fixed64 chacha20 poly1305 x).authOk = false → (fixed64 chacha20 poly1305 x).data = 0) := by
  have htag : lanes (k := 16) x.receivedTag = rfcTag x ↔
      packetTag chacha20 poly1305 x.key x.nonce x.aad x.data = x.receivedTag := by
    rw [rfcTag, ← lanes_packetTag]
    exact ⟨fun h => (lanes_inj (k := 16) h).symm, fun h => congrArg _ h.symm⟩
  rw [htag, ← lanes_stream]
  simp only [fixed64, h, if_true]
  split_ifs with hm <;> simp [hm]

end Function

namespace AeadEngine

section Timing

variable {chacha : ChachaIn → BitVec 512} {mac : PolyIn → BitVec 128} {κc κp : Type}
  {C : StartDone chacha κc} {P : StartDone mac κp} (TC : C.Timed) (TP : P.Timed)

/-- The edges until the answer, at most. -/
def left (s : State C P) : ℕ :=
  match s.state with
  | .idle => 0
  | .waitPolyKey => TC.bound + TP.bound + 6 + TC.togo s.chachaStart s.chacha
  | .waitEncryptStream => TP.bound + 3 + TC.togo s.chachaStart s.chacha
  | .waitEncryptTag => TP.togo s.polyStart s.poly
  | .waitDecryptTag => TC.bound + 3 + TP.togo s.polyStart s.poly
  | .waitDecryptStream => TC.togo s.chachaStart s.chacha

theorem left_next {s : State C P} {x : EngineIn} (start : Option EngineIn) (k : κc × κp)
    (h : Working x s) (h' : Working x (next s start k)) : left TC TP (next s start k) < left TC TP s := by
  obtain ⟨hregs, -, hstage⟩ := h
  have hdone := h'.2.1
  subst hregs
  cases hst : s.state with
  | idle => simp [Stage, hst] at hstage
  | waitPolyKey =>
    simp only [Stage, hst] at hstage
    obtain ⟨-, -, hctr, hiss⟩ := hstage
    by_cases hd : C.done s.chacha = true
    · obtain ⟨hcs, -, -⟩ := hiss.answer hd
      cases hdec : s.regs.decrypt <;> simp [left, next, fsm, hst, hd, hdec, StartDone.Timed.togo]
      all_goals omega
    · have hd' : C.done s.chacha = false := by simpa using hd
      have hlt := TC.togo_lt hiss hd' k.1
      simp [left, next, fsm, hst, hd, State.chachaPins, hctr, hlt]
  | waitEncryptStream =>
    simp only [Stage, hst] at hstage
    obtain ⟨-, -, -, -, -, hctr, hiss⟩ := hstage
    by_cases hd : C.done s.chacha = true
    · simp [left, next, fsm, hst, hd, StartDone.Timed.togo]
      omega
    · have hd' : C.done s.chacha = false := by simpa using hd
      have hlt := TC.togo_lt hiss hd' k.1
      simp [left, next, fsm, hst, hd, State.chachaPins, hctr, hlt]
  | waitEncryptTag =>
    simp only [Stage, hst] at hstage
    obtain ⟨-, -, -, -, -, hiss⟩ := hstage
    by_cases hd : P.done s.poly = true
    · simp [next, fsm, hst, hd] at hdone
    · have hd' : P.done s.poly = false := by simpa using hd
      have hlt := TP.togo_lt hiss hd' k.2
      simp [left, next, fsm, hst, hd, hlt]
  | waitDecryptTag =>
    simp only [Stage, hst] at hstage
    obtain ⟨-, -, -, -, hiss⟩ := hstage
    by_cases hd : P.done s.poly = true
    · cases hm : tagMatches s
      · simp [next, fsm, hst, hd, hm] at hdone
      · simp [left, next, fsm, hst, hd, hm, StartDone.Timed.togo]
        omega
    · have hd' : P.done s.poly = false := by simpa using hd
      have hlt := TP.togo_lt hiss hd' k.2
      simp [left, next, fsm, hst, hd, hlt]
  | waitDecryptStream =>
    simp only [Stage, hst] at hstage
    obtain ⟨-, -, -, -, -, hctr, hiss⟩ := hstage
    by_cases hd : C.done s.chacha = true
    · simp [next, fsm, hst, hd] at hdone
    · have hd' : C.done s.chacha = false := by simpa using hd
      have hlt := TC.togo_lt hiss hd' k.1
      simp [left, next, fsm, hst, hd, State.chachaPins, hctr, hlt]

/-- An engine over timed units is timed. -/
def timed : (unit C P).Timed where
  left := left TC TP
  bound := 2 * TC.bound + TP.bound + 8
  start_le s x k h := by
    obtain ⟨hst, -, -, -, -⟩ := h
    change left TC TP (next s (some x) k) ≤ _
    simp [left, next, fsm, hst, StartDone.Timed.togo]
    omega
  next_lt s x start k h h' := left_next TC TP start k h h'

/-- While a decrypt runs the data register stays zero. -/
theorem data_next {s : State C P} {x : EngineIn} {start : Option EngineIn} {k : κc × κp}
    (h : Working x s) (hdec : x.decrypt = true) (hdata : s.out.data = 0)
    (h' : Working x (next s start k)) : (next s start k).out.data = 0 := by
  obtain ⟨hregs, -, hstage⟩ := h
  have hdone := h'.2.1
  subst hregs
  cases hst : s.state <;> simp only [Stage, hst, hdec, Bool.true_eq_false, false_and] at hstage
  · simp only [next, fsm, hst, hdec]
    split_ifs <;> exact hdata
  · simp only [next, fsm, hst] at hdone ⊢
    split_ifs at hdone ⊢ <;> exact hdata
  · simp only [next, fsm, hst] at hdone ⊢
    split_ifs at hdone ⊢
    exact hdata

end Timing

section Packet

/-- The packet engine with its two units. -/
def packetEngine : StartDone (fixed64 chacha20 poly1305) ((Unit × Unit)) :=
  unit Chacha20Block.unit Poly1305Fixed96.unit

abbrev PacketState := State Chacha20Block.unit Poly1305Fixed96.unit

/-- The packet RFC 8439 makes of the operands of an encrypt. -/
def Sealed (x : EngineIn) (out : EngineOut) : Prop :=
  out.authOk = true ∧ (lanes (k := 64) out.data, lanes (k := 16) out.tag) =
    Rfc8439.aeadEncrypt (lanes (k := 16) x.aad) (lanes (k := 32) x.key) (lanes (k := 12) x.nonce)
      (lanes (k := 64) x.data)

/-- What RFC 8439 makes of the packet of a decrypt. A packet it sealed opens to its plaintext. -/
def Opened (x : EngineIn) (out : EngineOut) : Prop :=
  (out.authOk = true ↔ lanes (k := 16) x.receivedTag = rfcTag x) ∧
    (out.authOk = true → Rfc8439.aeadDecrypt (lanes (k := 16) x.aad) (lanes (k := 32) x.key)
      (lanes (k := 12) x.nonce) (lanes (k := 64) x.data) (lanes (k := 16) x.receivedTag) =
        some (lanes (k := 64) out.data)) ∧
    (out.authOk = false → out.data = 0) ∧
    ∀ plaintext : BitVec 512, Sealed { x with data := plaintext } ⟨true, x.data, x.receivedTag⟩ →
      out.authOk = true ∧ out.data = plaintext

/-- The run answers the operands in at most 585 edges, and shows no data of a decrypt before. -/
def Answered (x : EngineIn) (run : ℕ → PacketState) : Prop :=
  ∃ n ≤ 585, (∀ i < n, (run i).done = false ∧ (x.decrypt = true → (run i).out.data = 0)) ∧
    (run n).done = true ∧
    if x.decrypt then Opened x (run n).out else Sealed x (run n).out

theorem opened_fixed64 {x : EngineIn} (h : x.decrypt = true) :
    Opened x (fixed64 chacha20 poly1305 x) := by
  obtain ⟨hauth, hdata, hzero⟩ := fixed64_open h
  refine ⟨hauth, ?_, hzero, ?_⟩
  · intro hok
    have htag := (hauth.mp hok).symm
    rw [rfcTag] at htag
    rw [Rfc8439.aeadDecrypt, if_pos htag, hdata hok]
  · rintro plaintext ⟨-, hseal⟩
    rw [Rfc8439.aeadEncrypt, Prod.mk.injEq] at hseal
    obtain ⟨hd, ht⟩ := hseal
    have hok : (fixed64 chacha20 poly1305 x).authOk = true := by
      rw [hauth, rfcTag, hd]
      exact ht
    refine ⟨hok, lanes_inj (k := 64) ?_⟩
    rw [hdata hok, hd, Rfc8439.encrypt_encrypt 1 (length_lanes (k := 64) _)]

/-- After any run a start on the idle engine is answered as RFC 8439 says, whatever the start pin
does meanwhile; the forty half-round steps inside are the block function. -/
theorem packetEngine_rfc8439 {s : PacketState} (hs : packetEngine.design.Reachable s)
    (hidle : s.state = .idle) (x : EngineIn) (ins : ℕ → Option EngineIn × (Unit × Unit)) :
    Answered x (packetEngine.after (next s (some x) ((), ())) ins) ∧
      ∀ y : ChachaIn, lanes (k := 64) (output ((steps 40 (load y)).zipWith (· + ·) (load y))) =
        Rfc8439.block (lanes (k := 32) y.key) y.blockCounter (lanes (k := 12) y.nonce) := by
  refine ⟨?_, fun y => by rw [output_eq, lanes_chacha20]⟩
  have hI : Idle s := by
    rcases packetEngine.reachable_idle_or_working hs with h | ⟨a, hw⟩
    · exact h
    · have hstage : Stage Chacha20Block.unit Poly1305Fixed96.unit a s := hw.2.2
      simp [Stage, hidle] at hstage
  obtain ⟨hw, -⟩ := idle_start s x ((), ()) hI
  obtain ⟨n, hn, hrun, -, hdone, hout⟩ := (timed Chacha20Block.timed Poly1305Fixed96.timed).answers hw ins
  have hbound := (timed Chacha20Block.timed Poly1305Fixed96.timed).start_le s x ((), ()) hI
  refine ⟨n, hn.trans (Nat.succ_le_succ hbound), ?_, hdone, ?_⟩
  · intro i hi
    refine ⟨(hrun i hi).2.1, fun hdec => ?_⟩
    induction i with
    | zero => simp [StartDone.after, next, fsm, hidle, EngineOut.zero]
    | succ i ih => exact data_next (hrun i (by omega)) hdec (ih (by omega)) (hrun (i + 1) hi)
  · have hout' : (packetEngine.after (next s (some x) ((), ())) ins n).out = fixed64 chacha20 poly1305 x := hout
    rw [hout']
    split_ifs with hdec
    · exact opened_fixed64 hdec
    · exact fixed64_seal (by simpa using hdec)

theorem packetEngine_rfc8439_zero :
    Answered .zero (packetEngine.after (next (.init _ _) (some .zero) ((), ()))
      fun _ => (none, ((), ()))) :=
  (packetEngine_rfc8439 ⟨.init _ _, [], rfl⟩ rfl .zero fun _ => (none, ((), ()))).1

end Packet

end AeadEngine

end ZedSecure
