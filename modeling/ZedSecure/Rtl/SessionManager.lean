import ZedSecure.Clocked.Design
import ZedSecure.Rtl.AeadEngine
import Mathlib.Data.Nat.Log

/-! `aead_session_manager_bram`: the indexed session table. A session is 24 words of
one block memory, written over 24 cycles, read over 48, and updated by two counter
writes; the valid bits are registers. The engine is any start/done unit. -/

namespace ZedSecure

open Clocked

def WORDS_PER_SESSION : ℕ := 24

/-- `SLOT_WIDTH = $clog2(NUM_SESSIONS)` -/
abbrev slotWidth (n : ℕ) : ℕ := Nat.clog 2 n

/-- `MEM_ADDR_WIDTH = $clog2(NUM_SESSIONS * WORDS_PER_SESSION)` -/
abbrev memAddrWidth (n : ℕ) : ℕ := Nat.clog 2 (n * WORDS_PER_SESSION)

/-- The configuration pins, in the order of the `cfg_*_i` ports. -/
structure Config (n : ℕ) where
  slot : BitVec (slotWidth n)
  valid : Bool
  sessionId : BitVec 32
  txKey : BitVec 256
  rxKey : BitVec 256
  txPrefix : BitVec 32
  rxPrefix : BitVec 32
  deriving DecidableEq, Inhabited

structure Request (n : ℕ) where
  slot : BitVec (slotWidth n)
  decrypt : Bool
  dataLen : BitVec 8
  counter : BitVec 64
  data : BitVec 512
  tag : BitVec 128
  deriving DecidableEq, Inhabited

structure Response (n : ℕ) where
  authOk : Bool
  error : Bool
  slot : BitVec (slotWidth n)
  counter : BitVec 64
  data : BitVec 512
  tag : BitVec 128
  deriving DecidableEq, Inhabited

/-- The `active_*` context registers, which are also what one slot of the table holds. -/
structure Session where
  sessionId : BitVec 32
  txKey : BitVec 256
  rxKey : BitVec 256
  txPrefix : BitVec 32
  rxPrefix : BitVec 32
  txCounter : BitVec 64
  rxCounter : BitVec 64
  deriving DecidableEq, Inhabited

def Session.zero : Session := ⟨0#32, 0#256, 0#256, 0#32, 0#32, 0#64, 0#64⟩

/-- The seven parts a session is made of. -/
inductive Field where
  | sessionId | txKey | rxKey | txPrefix | rxPrefix | txCounter | rxCounter
  deriving DecidableEq

def Field.words : Field → ℕ
  | .sessionId | .txPrefix | .rxPrefix => 1
  | .txKey | .rxKey => 8
  | .txCounter | .rxCounter => 2

def Session.get (e : Session) : (f : Field) → BitVec (32 * f.words)
  | .sessionId => e.sessionId
  | .txKey => e.txKey
  | .rxKey => e.rxKey
  | .txPrefix => e.txPrefix
  | .rxPrefix => e.rxPrefix
  | .txCounter => e.txCounter
  | .rxCounter => e.rxCounter

def Session.set (e : Session) : (f : Field) → BitVec (32 * f.words) → Session
  | .sessionId, x => { e with sessionId := x }
  | .txKey, x => { e with txKey := x }
  | .rxKey, x => { e with rxKey := x }
  | .txPrefix, x => { e with txPrefix := x }
  | .rxPrefix, x => { e with rxPrefix := x }
  | .txCounter, x => { e with txCounter := x }
  | .rxCounter, x => { e with rxCounter := x }

/-- The field and the 32-bit part of it that word `w` of a slot holds, `WORD_SESSION_ID` to
`WORD_RX_COUNT_HI`; `WORD_RESERVED` holds nothing. -/
def wordPlace (w : ℕ) : Option (Field × ℕ) :=
  if w = 0 then some (.sessionId, 0)
  else if 1 ≤ w ∧ w < 9 then some (.txKey, w - 1)
  else if 9 ≤ w ∧ w < 17 then some (.rxKey, w - 9)
  else if w = 17 then some (.txPrefix, 0)
  else if w = 18 then some (.rxPrefix, 0)
  else if w = 19 then some (.txCounter, 0)
  else if w = 20 then some (.txCounter, 1)
  else if w = 21 then some (.rxCounter, 0)
  else if w = 22 then some (.rxCounter, 1)
  else none

def Session.word (e : Session) (w : ℕ) : BitVec 32 :=
  match wordPlace w with
  | some (f, k) => slice (e.get f) (32 * k) 32
  | none => 0#32

/-- The `S_READ_CAPTURE` assignments: the place of word `w` becomes `d`. -/
def Session.capture (e : Session) (w : ℕ) (d : BitVec 32) : Session :=
  match wordPlace w with
  | some (f, k) => e.set f (patch (e.get f) (32 * k) d)
  | none => e

namespace SessionManager

inductive St where
  | idle | cfgWrite | readIssue | readCapture | check | engineWait | countWriteLo | countWriteHi
  | response
  deriving DecidableEq

/-- The input pins of one cycle, and the engine's own timing. -/
structure In (n : ℕ) (κ : Type) where
  cfgWrite : Bool
  cfg : Config n
  reqValid : Bool
  req : Request n
  rspReady : Bool
  engine : κ

variable {n : ℕ} {aead : EngineIn → EngineOut} {κ : Type} (E : StartDone aead κ)

structure State (n : ℕ) {aead : EngineIn → EngineOut} {κ : Type} (E : StartDone aead κ) where
  state : St
  sessionMem : BitVec (memAddrWidth n) → BitVec 32
  sessionValid : BitVec (slotWidth n) → Bool
  memRdata : BitVec 32
  cfgDone : Bool
  cfgBaseQ : BitVec (memAddrWidth n)
  cfgWordQ : BitVec 5
  cfgQ : Config n
  activeBaseQ : BitVec (memAddrWidth n)
  readWordQ : BitVec 5
  requestQ : Request n
  active : Session
  operationCounterQ : BitVec 64
  updatedCounterQ : BitVec 64
  counterWordLoQ : BitVec 5
  counterWordHiQ : BitVec 5
  engineStart : Bool
  engineIn : EngineIn
  rspValid : Bool
  rsp : Response n
  engine : E.σ

def slotInRange (slot : BitVec (slotWidth n)) : Bool := slot.toNat < n

def slotBase (slot : BitVec (slotWidth n)) : BitVec (memAddrWidth n) :=
  BitVec.ofNat _ (slot.toNat * WORDS_PER_SESSION)

/-- Every register; the memory and its read register have no reset. -/
def rst (s : State n E) : State n E :=
  { s with
    state := .idle, sessionValid := fun _ => false, cfgDone := false, cfgBaseQ := 0, cfgWordQ := 0#5
    cfgQ := ⟨0, false, 0#32, 0#256, 0#256, 0#32, 0#32⟩, activeBaseQ := 0, readWordQ := 0#5
    requestQ := ⟨0, false, 0#8, 0#64, 0#512, 0#128⟩, active := .zero, operationCounterQ := 0#64
    updatedCounterQ := 0#64, counterWordLoQ := 0#5, counterWordHiQ := 0#5, engineStart := false
    engineIn := .zero, rspValid := false, rsp := ⟨false, false, 0, 0#64, 0#512, 0#128⟩
    engine := E.init }

variable {E}

/-- `config_word`: the word of a fresh session, both counters zero. -/
def configWord (c : Config n) (w : ℕ) : BitVec 32 :=
  if w = 0 then c.sessionId
  else if 1 ≤ w ∧ w < 9 then slice c.txKey (32 * (w - 1)) 32
  else if 9 ≤ w ∧ w < 17 then slice c.rxKey (32 * (w - 9)) 32
  else if w = 17 then c.txPrefix
  else if w = 18 then c.rxPrefix
  else 0#32

def cfgReady (s : State n E) : Bool := s.state = .idle

def reqReady (s : State n E) (i : In n κ) : Bool := s.state = .idle && !i.cfgWrite

/-- `mem_write_enable`, with the address and the data. -/
def memWrite (s : State n E) : Option (BitVec (memAddrWidth n) × BitVec 32) :=
  match s.state with
  | .cfgWrite => some (s.cfgBaseQ + s.cfgWordQ.setWidth _, configWord s.cfgQ s.cfgWordQ.toNat)
  | .countWriteLo =>
    some (s.activeBaseQ + s.counterWordLoQ.setWidth _, slice s.updatedCounterQ 0 32)
  | .countWriteHi =>
    some (s.activeBaseQ + s.counterWordHiQ.setWidth _, slice s.updatedCounterQ 32 32)
  | _ => none

/-- `mem_read_enable`, with the address. -/
def memRead (s : State n E) : Option (BitVec (memAddrWidth n)) :=
  match s.state with
  | .readIssue => some (s.activeBaseQ + s.readWordQ.setWidth _)
  | _ => none

/-- The nonce of `S_CHECK`: the direction prefix and the big-endian counter. -/
def nonceOf (pre : BitVec 32) (counter : BitVec 64) : BitVec 96 := packBe 8 counter ++ pre

/-- The AAD of `S_CHECK`: big-endian session id and counter, the length, three zero bytes. -/
def aadOf (sessionId : BitVec 32) (counter : BitVec 64) (len : BitVec 8) : BitVec 128 :=
  patch (patch (patch 0#128 0 (packBe 4 sessionId)) 32 (packBe 8 counter)) 96 len

/-- The engine operands of `S_CHECK`. -/
def engineOperands (e : Session) (q : Request n) : EngineIn :=
  let counter := if q.decrypt then q.counter else e.txCounter
  { decrypt := q.decrypt
    key := if q.decrypt then e.rxKey else e.txKey
    nonce := nonceOf (if q.decrypt then e.rxPrefix else e.txPrefix) counter
    aad := aadOf e.sessionId counter q.dataLen
    data := q.data
    receivedTag := q.tag }

def memNext (s : State n E) : BitVec (memAddrWidth n) → BitVec 32 :=
  match memWrite s with
  | some (a, d) => Function.update s.sessionMem a d
  | none => s.sessionMem

/-- The edge without the state machine: the memory process, the engine, and the two pulses
that fall unless the state machine raises them. -/
def frame (s : State n E) (i : In n κ) : State n E :=
  { s with
    cfgDone := false
    engineStart := false
    sessionMem := memNext s
    memRdata := match memRead s with | some a => s.sessionMem a | none => s.memRdata
    engine := E.next s.engine (if s.engineStart then some s.engineIn else none) i.engine }

/-- One clock edge: the right-hand sides read `s`, the registers before it. -/
def next (s : State n E) (i : In n κ) : State n E :=
  let f := frame s i
  match s.state with
  | .idle =>
    if i.cfgWrite then
      if !slotInRange i.cfg.slot then { f with cfgDone := true }
      else if !i.cfg.valid then
        { f with sessionValid := Function.update s.sessionValid i.cfg.slot false, cfgDone := true }
      else
        { f with cfgQ := i.cfg, cfgBaseQ := slotBase i.cfg.slot, cfgWordQ := 0#5,
                 state := .cfgWrite }
    else if i.reqValid then
      if !slotInRange i.req.slot || !s.sessionValid i.req.slot then
        { f with requestQ := i.req,
                 rsp := ⟨false, true, i.req.slot, if i.req.decrypt then i.req.counter else 0#64,
                         0#512, 0#128⟩,
                 rspValid := true, state := .response }
      else
        { f with requestQ := i.req,
                 rsp := ⟨false, false, i.req.slot, s.rsp.counter, 0#512, 0#128⟩,
                 activeBaseQ := slotBase i.req.slot, readWordQ := 0#5, active := .zero,
                 state := .readIssue }
    else f
  | .cfgWrite =>
    if s.cfgWordQ = 23#5 then
      { f with sessionValid := Function.update s.sessionValid s.cfgQ.slot true, cfgDone := true,
               state := .idle }
    else { f with cfgWordQ := s.cfgWordQ + 1#5 }
  | .readIssue => { f with state := .readCapture }
  | .readCapture =>
    let f := { f with active := s.active.capture s.readWordQ.toNat s.memRdata }
    if s.readWordQ = 23#5 then { f with state := .check }
    else { f with readWordQ := s.readWordQ + 1#5, state := .readIssue }
  | .check =>
    let q := s.requestQ
    let f := { f with operationCounterQ := if q.decrypt then q.counter else s.active.txCounter }
    if 64#8 < q.dataLen ∨ (q.decrypt = true ∧ q.counter ≠ s.active.rxCounter) then
      { f with rsp := ⟨false, true, s.rsp.slot, if q.decrypt then q.counter else 0#64, 0#512, 0#128⟩,
               rspValid := true, state := .response }
    else
      { f with engineIn := engineOperands s.active q, engineStart := true, state := .engineWait }
  | .engineWait =>
    if E.done s.engine then
      let out := E.result s.engine
      let f := { f with rsp := ⟨out.authOk, !out.authOk, s.rsp.slot, s.operationCounterQ,
                                if out.authOk then out.data else 0#512, out.tag⟩ }
      if out.authOk then
        if s.requestQ.decrypt then
          { f with updatedCounterQ := s.active.rxCounter + 1#64, counterWordLoQ := 21#5,
                   counterWordHiQ := 22#5, state := .countWriteLo }
        else
          { f with updatedCounterQ := s.active.txCounter + 1#64, counterWordLoQ := 19#5,
                   counterWordHiQ := 20#5, state := .countWriteLo }
      else { f with rspValid := true, state := .response }
    else f
  | .countWriteLo => { f with state := .countWriteHi }
  | .countWriteHi => { f with rspValid := true, state := .response }
  | .response => if i.rspReady then { f with rspValid := false, state := .idle } else f

variable (n E)

def design : Design (State n E) (In n κ) := ⟨rst E, next⟩

end SessionManager

end ZedSecure
