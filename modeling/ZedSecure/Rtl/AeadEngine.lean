import ZedSecure.Clocked.StartDone
import ZedSecure.Clocked.Words

/-! `aead_fixed64_engine`: the shared ChaCha20-Poly1305 engine for one 64-byte packet.
`chacha20_block` and `poly1305_fixed96` are taken as start/done units over two functions;
the engine is then itself a start/done unit over `fixed64`. -/

namespace ZedSecure

open Clocked

structure ChachaIn where
  key : BitVec 256
  nonce : BitVec 96
  blockCounter : BitVec 32
  deriving DecidableEq

structure PolyIn where
  oneTimeKey : BitVec 256
  message : BitVec 768
  deriving DecidableEq

/-- The operand pins of the engine. -/
structure EngineIn where
  decrypt : Bool
  key : BitVec 256
  nonce : BitVec 96
  aad : BitVec 128
  data : BitVec 512
  receivedTag : BitVec 128
  deriving DecidableEq, Inhabited

structure EngineOut where
  authOk : Bool
  data : BitVec 512
  tag : BitVec 128
  deriving DecidableEq, Inhabited

/-- The zero value every register of the kind is reset to. -/
def EngineIn.zero : EngineIn := ⟨false, 0#256, 0#96, 0#128, 0#512, 0#128⟩

def EngineOut.zero : EngineOut := ⟨false, 0#512, 0#128⟩

/-- AAD, data and the two 64-bit lengths, lowest byte first. -/
def polyMessage (aad : BitVec 128) (data : BitVec 512) : BitVec 768 :=
  (64#64 ++ 16#64) ++ data ++ aad

section Function

variable (chacha20 : ChachaIn → BitVec 512) (poly1305 : PolyIn → BitVec 128)

def oneTimeKey (key : BitVec 256) (nonce : BitVec 96) : BitVec 256 :=
  slice (chacha20 ⟨key, nonce, 0#32⟩) 0 256

def packetTag (key : BitVec 256) (nonce : BitVec 96) (aad : BitVec 128) (data : BitVec 512) :
    BitVec 128 :=
  poly1305 ⟨oneTimeKey chacha20 key nonce, polyMessage aad data⟩

/-- What the engine answers to a start. -/
def fixed64 (x : EngineIn) : EngineOut :=
  let stream := x.data ^^^ chacha20 ⟨x.key, x.nonce, 1#32⟩
  if x.decrypt then
    let tag := packetTag chacha20 poly1305 x.key x.nonce x.aad x.data
    if tag = x.receivedTag then ⟨true, stream, tag⟩ else ⟨false, 0#512, tag⟩
  else ⟨true, stream, packetTag chacha20 poly1305 x.key x.nonce x.aad stream⟩

theorem fixed64_encrypt {x : EngineIn} (h : x.decrypt = false) :
    (fixed64 chacha20 poly1305 x).authOk = true := by simp [fixed64, h]

end Function

namespace AeadEngine

inductive St where
  | idle | waitPolyKey | waitEncryptStream | waitEncryptTag | waitDecryptTag | waitDecryptStream
  deriving DecidableEq

variable {chacha20 : ChachaIn → BitVec 512} {poly1305 : PolyIn → BitVec 128} {κc κp : Type}
  (C : StartDone chacha20 κc) (P : StartDone poly1305 κp)

/-- `regs` are the six operand registers, `out` the three output registers. -/
structure State where
  state : St
  regs : EngineIn
  polyKeyReg : BitVec 256
  polyMessageReg : BitVec 768
  chachaStart : Bool
  chachaCounter : BitVec 32
  polyStart : Bool
  busy : Bool
  done : Bool
  out : EngineOut
  chacha : C.σ
  poly : P.σ

def State.init : State C P :=
  ⟨.idle, .zero, 0#256, 0#768, false, 0#32, false, false, false, .zero, C.init, P.init⟩

variable {C P}

def State.chachaPins (s : State C P) : ChachaIn := ⟨s.regs.key, s.regs.nonce, s.chachaCounter⟩

def State.polyPins (s : State C P) : PolyIn := ⟨s.polyKeyReg, s.polyMessageReg⟩

def tagMatches (s : State C P) : Bool := P.result s.poly == s.regs.receivedTag

/-- The registers after the edge, the two sub-units apart. -/
def fsm (s0 : State C P) (start : Option EngineIn) : State C P :=
  let s := { s0 with chachaStart := false, polyStart := false, done := false }
  let block := C.result s.chacha
  match s.state with
  | .idle =>
    match start with
    | none => s
    | some x =>
      { s with regs := x, out := .zero, chachaCounter := 0#32, chachaStart := true, busy := true,
               state := .waitPolyKey }
  | .waitPolyKey =>
    if C.done s.chacha then
      let s := { s with polyKeyReg := slice block 0 256 }
      if s.regs.decrypt then
        { s with polyMessageReg := polyMessage s.regs.aad s.regs.data, polyStart := true,
                 state := .waitDecryptTag }
      else { s with chachaCounter := 1#32, chachaStart := true, state := .waitEncryptStream }
    else s
  | .waitEncryptStream =>
    if C.done s.chacha then
      { s with out := { s.out with data := s.regs.data ^^^ block },
               polyMessageReg := polyMessage s.regs.aad (s.regs.data ^^^ block),
               polyStart := true, state := .waitEncryptTag }
    else s
  | .waitEncryptTag =>
    if P.done s.poly then
      { s with out := { s.out with tag := P.result s.poly, authOk := true }, busy := false,
               done := true, state := .idle }
    else s
  | .waitDecryptTag =>
    if P.done s.poly then
      let s := { s with out := { s.out with tag := P.result s.poly } }
      if tagMatches s0 then
        { s with chachaCounter := 1#32, chachaStart := true, state := .waitDecryptStream }
      else
        { s with out := { s.out with data := 0#512, authOk := false }, busy := false, done := true,
                 state := .idle }
    else s
  | .waitDecryptStream =>
    if C.done s.chacha then
      { s with out := { s.out with data := s.regs.data ^^^ block, authOk := true }, busy := false,
               done := true, state := .idle }
    else s

def next (s : State C P) (start : Option EngineIn) (k : κc × κp) : State C P :=
  { fsm s start with
    chacha := C.next s.chacha (if s.chachaStart then some s.chachaPins else none) k.1
    poly := P.next s.poly (if s.polyStart then some s.polyPins else none) k.2 }

/-- Nothing is under way in the engine or its sub-units. -/
def Idle (s : State C P) : Prop :=
  s.state = .idle ∧ s.chachaStart = false ∧ s.polyStart = false ∧ C.idle s.chacha ∧ P.idle s.poly

variable (C P) in
/-- The stage of the operation on `x` that the FSM is in. -/
def Stage (x : EngineIn) (s : State C P) : Prop :=
  let data := x.data ^^^ chacha20 ⟨x.key, x.nonce, 1#32⟩
  let tagOf := packetTag chacha20 poly1305 x.key x.nonce x.aad
  match s.state with
  | .idle => False
  | .waitPolyKey => s.polyStart = false ∧ P.idle s.poly ∧ s.chachaCounter = 0#32 ∧
      C.Issued ⟨x.key, x.nonce, 0#32⟩ s.chachaStart s.chacha
  | .waitEncryptStream => x.decrypt = false ∧ s.polyStart = false ∧ P.idle s.poly ∧
      P.done s.poly = false ∧ s.polyKeyReg = oneTimeKey chacha20 x.key x.nonce ∧
      s.chachaCounter = 1#32 ∧ C.Issued ⟨x.key, x.nonce, 1#32⟩ s.chachaStart s.chacha
  | .waitEncryptTag => x.decrypt = false ∧ s.chachaStart = false ∧ C.idle s.chacha ∧
      s.out.data = data ∧ s.polyPins = ⟨oneTimeKey chacha20 x.key x.nonce, polyMessage x.aad data⟩ ∧
      P.Issued s.polyPins s.polyStart s.poly
  | .waitDecryptTag => x.decrypt = true ∧ s.chachaStart = false ∧ C.idle s.chacha ∧
      s.polyPins = ⟨oneTimeKey chacha20 x.key x.nonce, polyMessage x.aad x.data⟩ ∧
      P.Issued s.polyPins s.polyStart s.poly
  | .waitDecryptStream => x.decrypt = true ∧ s.polyStart = false ∧ P.idle s.poly ∧
      x.receivedTag = tagOf x.data ∧ s.out.tag = x.receivedTag ∧ s.chachaCounter = 1#32 ∧
      C.Issued ⟨x.key, x.nonce, 1#32⟩ s.chachaStart s.chacha

def Working (x : EngineIn) (s : State C P) : Prop :=
  s.regs = x ∧ s.done = false ∧ Stage C P x s

theorem idle_wait (s : State C P) (k : κc × κp) (h : Idle s) :
    Idle (next s none k) ∧ (next s none k).done = false := by
  obtain ⟨hst, hc, hp, hci, hpi⟩ := h
  simp [Idle, next, fsm, hst, hc, hp, (C.idle_wait s.chacha k.1 hci).1,
    (P.idle_wait s.poly k.2 hpi).1]

theorem idle_start (s : State C P) (x : EngineIn) (k : κc × κp) (h : Idle s) :
    Working x (next s (some x) k) ∧ (next s (some x) k).done = false := by
  obtain ⟨hst, hc, hp, hci, hpi⟩ := h
  obtain ⟨hci', hcd'⟩ := C.idle_wait s.chacha k.1 hci
  have hi := C.issued_of_idle (a := ⟨x.key, x.nonce, 0#32⟩) hci' hcd'
  simp [Working, Stage, next, fsm, hst, hc, hp, (P.idle_wait s.poly k.2 hpi).1, hi]

/-- One edge of an operation: a stage waits, hands over to the next one, or answers. -/
theorem working_next (s : State C P) (x : EngineIn) (start : Option EngineIn) (k : κc × κp)
    (h : Working x s) : Working x (next s start k) ∨
      (Idle (next s start k) ∧ (next s start k).done = true ∧
        (next s start k).out = fixed64 chacha20 poly1305 x) := by
  obtain ⟨hregs, hdone, hstage⟩ := h
  subst hregs
  cases hst : s.state with
  | idle => simp [Stage, hst] at hstage
  | waitPolyKey =>
    simp only [Stage, hst] at hstage
    obtain ⟨hps, hpi, hctr, hiss⟩ := hstage
    obtain ⟨hpi', hpd'⟩ := P.idle_wait s.poly k.2 hpi
    left
    by_cases hd : C.done s.chacha = true
    · obtain ⟨hcs, hci, hres⟩ := hiss.answer hd
      obtain ⟨hci', hcd'⟩ := C.idle_wait s.chacha k.1 hci
      cases hdec : s.regs.decrypt
      · simp [Working, Stage, next, fsm, hst, hd, hdec, hps, hcs, hpi', hpd', hres,
          oneTimeKey, C.issued_of_idle hci' hcd']
      · simp [Working, Stage, next, fsm, hst, hd, hdec, hps, hcs, hci', hres, oneTimeKey,
          State.polyPins, P.issued_of_idle hpi' hpd']
    · have hd' : C.done s.chacha = false := by simpa using hd
      have hnext := hiss.next hd' k.1
      simp [Working, Stage, next, fsm, hst, hd, hps, hpi', hctr, State.chachaPins, hnext]
  | waitEncryptStream =>
    simp only [Stage, hst] at hstage
    obtain ⟨hdec, hps, hpi, hpd, hkey, hctr, hiss⟩ := hstage
    obtain ⟨hpi', hpd'⟩ := P.idle_wait s.poly k.2 hpi
    left
    by_cases hd : C.done s.chacha = true
    · obtain ⟨hcs, hci, hres⟩ := hiss.answer hd
      have hci' := (C.idle_wait s.chacha k.1 hci).1
      simp [Working, Stage, next, fsm, hst, hd, hdec, hps, hcs, hci', hres, hkey,
        State.polyPins, P.issued_of_idle hpi' hpd']
    · have hd' : C.done s.chacha = false := by simpa using hd
      have hnext := hiss.next hd' k.1
      simp [Working, Stage, next, fsm, hst, hd, hdec, hps, hpi', hpd', hkey, hctr,
        State.chachaPins, hnext]
  | waitEncryptTag =>
    simp only [Stage, hst] at hstage
    obtain ⟨hdec, hcs, hci, hdata, hpins, hiss⟩ := hstage
    have hci' := (C.idle_wait s.chacha k.1 hci).1
    by_cases hd : P.done s.poly = true
    · obtain ⟨hps, hpi, hres⟩ := hiss.answer hd
      right
      simp [Idle, next, fsm, hst, hd, hps, hcs, hci', (P.idle_wait s.poly k.2 hpi).1, hres,
        hpins, fixed64, hdec, packetTag, hdata]
    · have hd' : P.done s.poly = false := by simpa using hd
      have hnext := hiss.next hd' k.2
      left
      simp only [State.polyPins] at hpins hnext
      rw [hpins] at hnext
      simp [Working, Stage, next, fsm, hst, hd, hdec, hcs, hci', hdata, State.polyPins, hpins,
        hnext]
  | waitDecryptTag =>
    simp only [Stage, hst] at hstage
    obtain ⟨hdec, hcs, hci, hpins, hiss⟩ := hstage
    obtain ⟨hci', hcd'⟩ := C.idle_wait s.chacha k.1 hci
    by_cases hd : P.done s.poly = true
    · obtain ⟨hps, hpi, hres⟩ := hiss.answer hd
      have hpi' := (P.idle_wait s.poly k.2 hpi).1
      rw [hpins] at hres
      by_cases htag : P.result s.poly = s.regs.receivedTag
      · left
        have hm : tagMatches s = true := by simp [tagMatches, htag]
        simp [Working, Stage, next, fsm, hst, hd, hdec, hps, hcs, hpi', hm, ← htag, hres,
          packetTag, C.issued_of_idle hci' hcd']
      · right
        have hm : tagMatches s = false := by simp [tagMatches, htag]
        rw [hres] at htag
        simp [Idle, next, fsm, hst, hd, hps, hcs, hci', hpi', hm, hres, fixed64, hdec,
          packetTag, htag]
    · have hd' : P.done s.poly = false := by simpa using hd
      have hnext := hiss.next hd' k.2
      left
      simp only [State.polyPins] at hpins hnext
      rw [hpins] at hnext
      simp [Working, Stage, next, fsm, hst, hd, hdec, hcs, hci', State.polyPins, hpins, hnext]
  | waitDecryptStream =>
    simp only [Stage, hst] at hstage
    obtain ⟨hdec, hps, hpi, htag, hout, hctr, hiss⟩ := hstage
    have hpi' := (P.idle_wait s.poly k.2 hpi).1
    by_cases hd : C.done s.chacha = true
    · obtain ⟨hcs, hci, hres⟩ := hiss.answer hd
      right
      simp [Idle, next, fsm, hst, hd, hps, hcs, (C.idle_wait s.chacha k.1 hci).1, hpi', hres,
        fixed64, hdec, hout, ← htag]
    · have hd' : C.done s.chacha = false := by simpa using hd
      have hnext := hiss.next hd' k.1
      left
      simp [Working, Stage, next, fsm, hst, hd, hdec, hps, hpi', ← htag, hout, hctr,
        State.chachaPins, hnext]

variable (C P)

/-- The engine, whatever its two sub-units are, answers each start with `fixed64`. -/
def unit : StartDone (fixed64 chacha20 poly1305) (κc × κp) where
  σ := State C P
  init := .init C P
  next := next
  done s := s.done
  result s := s.out
  idle := Idle
  working := Working
  init_idle := ⟨rfl, rfl, rfl, C.init_idle, P.init_idle⟩
  init_done := rfl
  idle_wait := idle_wait
  idle_start := idle_start
  working_done _ _ h := h.2.1
  working_next s a x k h := working_next s a x k h

end AeadEngine

end ZedSecure
