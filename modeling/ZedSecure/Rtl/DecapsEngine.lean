import ZedSecure.Clocked.Words

/-! The control of `mlkem512_decaps_shared_engine` and of
`mlkem512_kpke_reencrypt_shared_engine`. The polynomial and codec controllers they start
are one component, `Datapath`, with the starts and operands as inputs and the done pulses,
values and memory ports as outputs. -/

namespace ZedSecure

open Clocked

/-- A hash job as it stands on the pins of the shared hash engine. -/
structure HashJob where
  command : BitVec 3
  data0 : BitVec 256
  data1 : BitVec 256
  x : BitVec 8
  y : BitVec 8
  nonce : BitVec 8
  eta3 : Bool
  dstSlot : BitVec 4
  deriving DecidableEq, Inhabited

def HashJob.zero : HashJob := ⟨0, 0, 0, 0, 0, 0, false, 0⟩

/-- Address, data and enable of a polynomial memory port. -/
structure PolyPort where
  we : Bool
  addr : BitVec 12
  wdata : BitVec 16

namespace Reencrypt

/-- The operations in the order they run. Each has a start state `<op>_S` and a wait state
`<op>_W`. -/
inductive Op where
  | FM | NS0 | NS1 | NE0 | NE1 | NEP | NT0 | NT1 | M00 | B00 | M01 | B01 | AB0 | IB0 | EB0 | CB0
  | M10 | B10 | M11 | B11 | AB1 | IB1 | EB1 | CB1 | VP0 | VP1 | VA | VI | VE | VM | CV
  deriving DecidableEq

/-- The operation after this one; `CV_W` goes to `DONE`. -/
def Op.next : Op → Option Op
  | .FM => some .NS0 | .NS0 => some .NS1 | .NS1 => some .NE0 | .NE0 => some .NE1
  | .NE1 => some .NEP | .NEP => some .NT0 | .NT0 => some .NT1 | .NT1 => some .M00
  | .M00 => some .B00 | .B00 => some .M01 | .M01 => some .B01 | .B01 => some .AB0
  | .AB0 => some .IB0 | .IB0 => some .EB0 | .EB0 => some .CB0 | .CB0 => some .M10
  | .M10 => some .B10 | .B10 => some .M11 | .M11 => some .B11 | .B11 => some .AB1
  | .AB1 => some .IB1 | .IB1 => some .EB1 | .EB1 => some .CB1 | .CB1 => some .VP0
  | .VP0 => some .VP1 | .VP1 => some .VA | .VA => some .VI | .VI => some .VE | .VE => some .VM
  | .VM => some .CV | .CV => none

/-- The unit an operation runs on, which is also whose done pulse ends its wait state. -/
inductive Resource where
  | frommsg | hash | bridge | addsub | compare
  deriving DecidableEq

def Op.resource : Op → Resource
  | .FM => .frommsg
  | .NS0 | .NS1 | .NE0 | .NE1 | .NEP | .M00 | .M01 | .M10 | .M11 => .hash
  | .NT0 | .NT1 | .B00 | .B01 | .IB0 | .B10 | .B11 | .IB1 | .VP0 | .VP1 | .VI => .bridge
  | .AB0 | .EB0 | .AB1 | .EB1 | .VA | .VE | .VM => .addsub
  | .CB0 | .CB1 | .CV => .compare

/-- `NT0_W` and `VP0_W` wait for the bridge to be ready again, not for its result. -/
def Op.overlapped (o : Op) : Bool := o = .NT0 || o = .VP0

/-- `state >= M00_S` for an operation's own states. -/
def Op.matrixPhase : Op → Bool
  | .FM | .NS0 | .NS1 | .NE0 | .NE1 | .NEP | .NT0 | .NT1 => false
  | _ => true

inductive St where
  | idle | start (o : Op) | wait (o : Op) | done
  deriving DecidableEq

def St.op : St → Option Op
  | .start o | .wait o => some o
  | _ => none

/-- Command and slots of a bridge operation: `bcmd`, `bsa`, `bsb`, `bsd`. -/
structure BridgeJob where
  cmd : BitVec 2
  a : BitVec 4
  b : BitVec 4
  d : BitVec 4
  deriving DecidableEq

def bridgeJob : Option Op → BridgeJob
  | some .NT0 => ⟨0, 2, 0, 2⟩
  | some .NT1 => ⟨0, 3, 0, 3⟩
  | some .B00 | some .B10 => ⟨2, 8, 2, 9⟩
  | some .B01 | some .B11 => ⟨2, 8, 3, 10⟩
  | some .IB0 | some .IB1 | some .VI => ⟨1, 11, 0, 9⟩
  | some .VP0 => ⟨2, 0, 2, 9⟩
  | some .VP1 => ⟨2, 1, 3, 10⟩
  | _ => ⟨0, 0, 0, 0⟩

/-- `asa`, `asb`, `asd`; `sub` is always 0. -/
def addsubSlots : Option Op → BitVec 4 × BitVec 4 × BitVec 4
  | some .EB0 => (9, 4, 10)
  | some .EB1 => (9, 5, 10)
  | some .VE => (9, 6, 10)
  | some .VM => (10, 7, 11)
  | _ => (9, 10, 11)

/-- `cclear`, `cmode`, `cslot`, `cbase`. -/
def compareJob : Option Op → Bool × Bool × BitVec 4 × BitVec 10
  | some .CB0 => (true, false, 10, 0)
  | some .CB1 => (false, false, 10, 320)
  | some .CV => (false, true, 11, 640)
  | _ => (false, false, 10, 0)

/-- The hash job of a state, with `rho` and the coins on its data pins. -/
def hashJob (st : St) (rho coins : BitVec 256) : HashJob :=
  let matrix := match st with
    | .start o | .wait o => o.matrixPhase
    | .idle => false
    | .done => true
  let job : HashJob := ⟨if matrix then 3 else 4, if matrix then rho else coins, 0, 0, 0, 0, false, 2⟩
  match st.op with
  | some .NS0 => { job with eta3 := true }
  | some .NS1 => { job with nonce := 1, eta3 := true, dstSlot := 3 }
  | some .NE0 => { job with nonce := 2, dstSlot := 4 }
  | some .NE1 => { job with nonce := 3, dstSlot := 5 }
  | some .NEP => { job with nonce := 4, dstSlot := 6 }
  | some .M00 => { job with dstSlot := 8 }
  | some .M01 => { job with y := 1, dstSlot := 8 }
  | some .M10 => { job with x := 1, dstSlot := 8 }
  | some .M11 => { job with x := 1, y := 1, dstSlot := 8 }
  | _ => job

def hashStart : St → Bool
  | .start o => o.resource = .hash
  | _ => false

/-- The done pulses a wait state can wait for. -/
structure Dones where
  frommsg : Bool
  hash : Bool
  bridgeReady : Bool
  bridge : Bool
  addsub : Bool
  compare : Bool

def Op.finished (o : Op) (d : Dones) : Bool :=
  match o.resource with
  | .frommsg => d.frommsg
  | .hash => d.hash
  | .bridge => if o.overlapped then d.bridgeReady else d.bridge
  | .addsub => d.addsub
  | .compare => d.compare

def St.next (st : St) (start : Bool) (d : Dones) : St :=
  match st with
  | .idle => if start then .start .FM else .idle
  | .start o => .wait o
  | .wait o => if o.finished d then (match o.next with | some o' => .start o' | none => .done)
    else .wait o
  | .done => .idle

end Reencrypt

/-- What the two controllers drive into the datapath: the starts with their operands, and the
read data of the memories. -/
structure DatapathIn where
  decryptStart : Bool
  unpackStart : Bool
  frommsgStart : Bool
  bridgeStart : Bool
  bridge : Reencrypt.BridgeJob
  addsubStart : Bool
  addsub : BitVec 4 × BitVec 4 × BitVec 4
  compareStart : Bool
  compare : Bool × Bool × BitVec 4 × BitVec 10
  skRdata : BitVec 32
  ctRdata : BitVec 32
  polyRdata : BitVec 16

structure DatapathOut where
  decryptDone : Bool
  message : BitVec 256
  operationFault : Bool
  decryptSkAddr : BitVec 9
  decryptCtAddr : BitVec 8
  decryptPoly : PolyPort
  unpackDone : Bool
  rho : BitVec 256
  hpk : BitVec 256
  z : BitVec 256
  unpackSkAddr : BitVec 9
  unpackPoly : PolyPort
  frommsgDone : Bool
  frommsgPoly : PolyPort
  bridgeReady : Bool
  bridgeDone : Bool
  bridgePoly : PolyPort
  addsubDone : Bool
  addsubPoly : PolyPort
  compareDone : Bool
  mismatch : Bool
  comparePolyAddr : BitVec 12
  compareCtAddr : BitVec 8

/-- The decryption engine, the unpacker and the four controllers of the re-encryption. -/
structure Datapath where
  σ : Type
  rst : σ → σ
  next : σ → DatapathIn → σ
  out : σ → DatapathIn → DatapathOut

namespace DecapsEngine

inductive St where
  | idle | D_S | D_W | U_S | U_W | H_S | H_W | G_S | G_W | E_S | E_W | J_S | J_W | select | done
  deriving DecidableEq

structure State (dp : Datapath) where
  state : St
  enc : Reencrypt.St
  hashFailQ : Bool
  failQ : Bool
  sharedSecret : BitVec 256
  gdigest : BitVec 512
  jdigest : BitVec 256
  datapath : dp.σ

/-- The answer of the hash engine as the engine sees it, and the read data of the memories. -/
structure In where
  start : Bool
  hashDone : Bool
  hashError : Bool
  hashDigest : BitVec 576
  skRdata : BitVec 32
  ctRdata : BitVec 32
  polyRdata : BitVec 16

variable {dp : Datapath}

def rst (s : State dp) : State dp :=
  { s with state := .idle, enc := .idle, hashFailQ := false, failQ := false, sharedSecret := 0
           gdigest := 0, jdigest := 0, datapath := dp.rst s.datapath }

def datapathIn (s : State dp) (skRdata ctRdata : BitVec 32) (polyRdata : BitVec 16) : DatapathIn :=
  let op := s.enc.op
  let starts r := match s.enc with | .start o => o.resource = r | _ => false
  { decryptStart := s.state = .D_S
    unpackStart := s.state = .U_S
    frommsgStart := starts .frommsg
    bridgeStart := starts .bridge
    bridge := Reencrypt.bridgeJob op
    addsubStart := starts .addsub
    addsub := Reencrypt.addsubSlots op
    compareStart := starts .compare
    compare := Reencrypt.compareJob op
    skRdata := skRdata
    ctRdata := ctRdata
    polyRdata := polyRdata }

def datapathOut (s : State dp) (i : In) : DatapathOut :=
  dp.out s.datapath (datapathIn s i.skRdata i.ctRdata i.polyRdata)

/-- `hash_start_o` and the job beside it. -/
def hashStart (s : State dp) : Bool :=
  match s.state with
  | .H_S | .G_S | .J_S => true
  | .E_S | .E_W => Reencrypt.hashStart s.enc
  | _ => false

def hashJob (s : State dp) (o : DatapathOut) : HashJob :=
  match s.state with
  | .H_S => { HashJob.zero with command := 0 }
  | .G_S => { HashJob.zero with command := 1, data0 := o.message, data1 := o.hpk }
  | .J_S => { HashJob.zero with command := 2, data0 := o.z }
  | .E_S | .E_W => Reencrypt.hashJob s.enc o.rho (slice s.gdigest 256 256)
  | _ => .zero

def skAddr (s : State dp) (o : DatapathOut) : BitVec 9 :=
  match s.state with
  | .D_S | .D_W => o.decryptSkAddr
  | .U_S | .U_W => o.unpackSkAddr
  | _ => 0

def ctAddr (s : State dp) (o : DatapathOut) : BitVec 8 :=
  match s.state with
  | .D_S | .D_W => o.decryptCtAddr
  | .E_S | .E_W => o.compareCtAddr
  | _ => 0

/-- The polynomial port of the re-encryption. -/
def encPoly (s : State dp) (o : DatapathOut) : PolyPort :=
  match s.enc with
  | .start op | .wait op =>
    match op.resource with
    | .frommsg => o.frommsgPoly
    | .bridge => o.bridgePoly
    | .addsub => o.addsubPoly
    | .hash | .compare => ⟨false, o.comparePolyAddr, 0⟩
  | _ => ⟨false, o.comparePolyAddr, 0⟩

def polyPort (s : State dp) (o : DatapathOut) : PolyPort :=
  match s.state with
  | .D_S | .D_W => o.decryptPoly
  | .U_S | .U_W => o.unpackPoly
  | .E_S | .E_W => encPoly s o
  | _ => ⟨false, 0, 0⟩

def done (s : State dp) : Bool := s.state = .done

def fail (s : State dp) : Bool := s.failQ

/-- `mismatch_o` of the re-encryption. -/
def encMismatch (s : State dp) (o : DatapathOut) : Bool := o.mismatch || s.hashFailQ

def dones (o : DatapathOut) (hashDone : Bool) : Reencrypt.Dones :=
  ⟨o.frommsgDone, hashDone, o.bridgeReady, o.bridgeDone, o.addsubDone, o.compareDone⟩

/-- The controller's own registers. -/
def control (s : State dp) (i : In) (o : DatapathOut) : State dp :=
  match s.state with
  | .idle => if i.start then { s with failQ := false, sharedSecret := 0, state := .D_S } else s
  | .D_S => { s with state := .D_W }
  | .D_W => if o.decryptDone then { s with failQ := o.operationFault, state := .U_S } else s
  | .U_S => { s with state := .U_W }
  | .U_W => if o.unpackDone then { s with state := .H_S } else s
  | .H_S => { s with state := .H_W }
  | .H_W =>
    if i.hashDone then
      { s with failQ := s.failQ || i.hashError || slice i.hashDigest 0 256 != o.hpk, state := .G_S }
    else s
  | .G_S => { s with state := .G_W }
  | .G_W => if i.hashDone then { s with gdigest := slice i.hashDigest 0 512, state := .E_S } else s
  | .E_S => { s with state := .E_W }
  | .E_W =>
    if s.enc = .done then { s with failQ := s.failQ || encMismatch s o, state := .J_S } else s
  | .J_S => { s with state := .J_W }
  | .J_W => if i.hashDone then { s with jdigest := slice i.hashDigest 0 256, state := .select } else s
  | .select =>
    { s with sharedSecret := if s.failQ then s.jdigest else slice s.gdigest 0 256, state := .done }
  | .done => { s with state := .idle }

def next (s : State dp) (i : In) : State dp :=
  let o := datapathOut s i
  let encStart := s.state = .E_S
  { control s i o with
    enc := s.enc.next encStart (dones o i.hashDone)
    hashFailQ := if s.enc = .idle ∧ encStart then false
      else s.hashFailQ || (i.hashDone && i.hashError)
    datapath := dp.next s.datapath (datapathIn s i.skRdata i.ctRdata i.polyRdata) }

end DecapsEngine

end ZedSecure
