import Mathlib.Data.Fintype.Basic
import Mathlib.Data.List.FinRange
import Mathlib.Logic.Function.Basic
import Mathlib.Tactic.Common

/-! `simulator.DemoController` with its two `board_link.BoardWorker` threads: vehicles, the sessions they ask for, and
the commands and results on their way. Motion comes from outside: it decides only when a vehicle crosses, leaves
the road or is due. -/

namespace ZedSecure

namespace DemoController

def MAX_SESSIONS : ℕ := 64

inductive Board where
  | A | B
  deriving DecidableEq

/-- `Vehicle.state` -/
inductive VState where
  | connecting | handover | exiting | connected | disconnected
  deriving DecidableEq

/-- `Vehicle`, less where it is and what is drawn; `retryAt` says that a time is set. -/
structure Vehicle where
  vehicleId : ℕ
  forward : Bool
  board : Option Board
  slot : Option ℕ
  state : VState
  oldBoard : Option Board
  oldSlot : Option ℕ
  retryAt : Bool
  retryTarget : Option Board

/-- The vehicle of a command: its id, and which of the vehicle objects it is. The source has the id only. -/
structure Owner (n : ℕ) where
  vehicleId : ℕ
  who : Fin n
  deriving DecidableEq

/-- The kind of a `BoardCommand` with its arguments. -/
inductive Op (n : ℕ) where
  | open (o : Owner n) (slot : ℕ)
  | leave (o : Owner n) (slot : ℕ)
  | data (o : Owner n) (slot : ℕ) (tamper : Bool)
  | swkem
  deriving DecidableEq

structure BoardCommand (n : ℕ) where
  commandId : ℕ
  op : Op n

structure BoardResult (n : ℕ) where
  commandId : ℕ
  op : Op n
  ok : Bool
  blocked : Bool

/-- A `BoardWorker`: its two queues and `stats.slots`. -/
structure Worker (n : ℕ) where
  commands : List (BoardCommand n)
  results : List (BoardResult n)
  slots : ℕ → Option (Owner n)

inductive Reason where
  | entry | handover | retry
  deriving DecidableEq

/-- The context in `_pending`; `exit` tells a leave at the end of the road from one after a handover. -/
inductive Context where
  | open (vehicleId : ℕ) (reason : Reason) (target : Board)
  | leave (vehicleId : ℕ) (exit : Bool)
  | data (vehicleId : ℕ) (attack : Bool)
  | swkem (board : Board)
  deriving DecidableEq

/-- `entered` counts the vehicles for which the constructor has asked; `hung` says that the search for a free id
has not ended. -/
structure State (n : ℕ) where
  workers : Board → Worker n
  vehicles : Fin n → Vehicle
  pending : ℕ → Option Context
  reserved : Board → ℕ → Bool
  commandIds : ℕ
  nextVehicleId : ℕ
  selectedVehicle : Option ℕ
  entered : ℕ
  hung : Bool

variable {n : ℕ}

/-- `_make_initial_vehicles`: the vehicles with even ids go forward. -/
def initialVehicle (k : ℕ) : Vehicle :=
  let forwards := (n + 1) / 2
  { vehicleId := if k < forwards then 2 * k else 2 * (k - forwards) + 1
    forward := k < forwards, board := none, slot := none, state := .connecting, oldBoard := none, oldSlot := none
    retryAt := false, retryTarget := none }

/-- The constructor before its first request. -/
def init (n : ℕ) : State n :=
  { workers := fun _ => ⟨[], [], fun _ => none⟩
    vehicles := fun i => @initialVehicle n i
    pending := fun _ => none
    reserved := fun _ _ => false
    commandIds := 1
    nextVehicleId := n
    selectedVehicle := none
    entered := 0
    hung := false }

def setVehicle (s : State n) (i : Fin n) (v : Vehicle) : State n :=
  { s with vehicles := Function.update s.vehicles i v }

/-- `vehicle_by_id` -/
def vehicleById (s : State n) (id : ℕ) : Option (Fin n) :=
  (List.finRange n).find? fun i => (s.vehicles i).vehicleId = id

/-- `_submit` -/
def submit (s : State n) (b : Board) (op : Op n) (context : Context) : State n :=
  { s with
    commandIds := s.commandIds + 1
    pending := Function.update s.pending s.commandIds (some context)
    workers := Function.update s.workers b
      { s.workers b with commands := (s.workers b).commands ++ [⟨s.commandIds, op⟩] } }

/-- `_free_slot` -/
def freeSlot (s : State n) (b : Board) : Option ℕ :=
  (List.range MAX_SESSIONS).find? fun slot => ((s.workers b).slots slot).isNone && !s.reserved b slot

def owner (s : State n) (i : Fin n) : Owner n := ⟨(s.vehicles i).vehicleId, i⟩

/-- `_request_open` -/
def requestOpen (s : State n) (i : Fin n) (target : Board) (reason : Reason) : State n :=
  let v := s.vehicles i
  match freeSlot s target with
  | none => setVehicle s i { v with state := .disconnected, retryAt := true }
  | some slot =>
    let s' := { s with reserved := Function.update s.reserved target (Function.update (s.reserved target) slot true) }
    let state := if reason = .handover then VState.handover else .connecting
    submit (setVehicle s' i { v with oldBoard := v.board, oldSlot := v.slot, state := state }) target
      (.open (owner s i) slot) (.open v.vehicleId reason target)

/-- The `while` loop of `_respawn`, `fuel` rounds of it. -/
def searchId (used : ℕ → Bool) : ℕ → ℕ → Option ℕ
  | 0, _ => none
  | fuel + 1, next => if used next then searchId used fuel ((next + 1) % MAX_SESSIONS) else some next

/-- `used_ids` -/
def usedIds (s : State n) (i : Fin n) (id : ℕ) : Bool :=
  (List.finRange n).any fun j => j ≠ i && (s.vehicles j).vehicleId = id

/-- `_respawn` -/
def respawn (s : State n) (i : Fin n) : State n :=
  match searchId (usedIds s i) (MAX_SESSIONS + 1) s.nextVehicleId with
  | none => { s with hung := true }
  | some id =>
    let v := s.vehicles i
    let s := setVehicle { s with nextVehicleId := (id + 1) % MAX_SESSIONS } i
      { v with
        vehicleId := id, board := none, slot := none, oldBoard := none, oldSlot := none, state := .connecting
        retryAt := false, retryTarget := none }
    let selected := s.selectedVehicle.filter fun id => (vehicleById s id).isSome
    requestOpen { s with selectedVehicle := selected } i (if v.forward then .A else .B) .entry

/-- `_request_exit` -/
def requestExit (s : State n) (i : Fin n) : State n :=
  let v := s.vehicles i
  match v.board, v.slot with
  | some b, some slot =>
    submit (setVehicle s i { v with state := .exiting }) b (.leave (owner s i) slot) (.leave v.vehicleId true)
  | _, _ => respawn s i

/-- What time and motion make of a vehicle at one update. -/
structure Motion where
  retryDue : Bool
  crossed : Bool
  offRoad : Bool
  dataDue : Bool
  side : Board

/-- A data command of the vehicle is pending. -/
def dataPending (s : State n) (vehicleId : ℕ) : Bool :=
  (List.range s.commandIds).any fun id => match s.pending id with
    | some (.data vid _) => vid = vehicleId
    | _ => false

/-- `_step_vehicle` once the vehicle has moved. -/
def moved (s : State n) (i : Fin n) (m : Motion) : State n :=
  let v := s.vehicles i
  if m.offRoad && !(m.crossed && v.board.isSome) then requestExit s i
  else
    match v.board, v.slot with
    | some b, some slot =>
      if m.dataDue && !dataPending s v.vehicleId then
        submit s b (.data (owner s i) slot false) (.data v.vehicleId false)
      else s
    | _, _ => s

/-- `_step_vehicle` -/
def stepVehicle (s : State n) (i : Fin n) (m : Motion) : State n :=
  let v := s.vehicles i
  let target := if v.forward then Board.B else .A
  if v.state = .connecting || v.state = .handover || v.state = .exiting then s
  else if v.retryAt && m.retryDue then
    requestOpen (setVehicle s i { v with retryAt := false, retryTarget := none }) i (v.retryTarget.getD m.side) .retry
  else if m.crossed && v.board.isSome && v.board ≠ some target then requestOpen s i target .handover
  else moved s i m

/-- `attack_selected` -/
def attackSelected (s : State n) : State n :=
  match s.selectedVehicle.bind (vehicleById s) with
  | none => s
  | some i =>
    let v := s.vehicles i
    match v.board, v.slot with
    | some b, some slot =>
      if (v.state = .connected || v.state = .handover) && !dataPending s v.vehicleId then
        submit s b (.data (owner s i) slot true) (.data v.vehicleId true)
      else s
    | _, _ => s

/-- `_handle_open` -/
def handleOpen (s : State n) (i : Fin n) (b : Board) (slot : ℕ) (reason : Reason) : State n :=
  let v := s.vehicles i
  let s' := setVehicle s i
    { v with board := some b, slot := some slot, state := .connected, oldBoard := none, oldSlot := none }
  match reason, v.oldBoard, v.oldSlot with
  | .handover, some ob, some os => submit s' ob (.leave (owner s i) os) (.leave v.vehicleId false)
  | _, _, _ => s'

/-- `_handle_error` of an open. -/
def handleOpenError (s : State n) (i : Fin n) (target : Board) : State n :=
  let v := s.vehicles i
  let v := if v.oldBoard.isSome then { v with state := .connected, board := v.oldBoard, slot := v.oldSlot }
    else { v with state := .disconnected }
  setVehicle s i { v with retryAt := true, retryTarget := some target, oldBoard := none, oldSlot := none }

/-- What a result does to the vehicle with the pending id, if there is one. -/
def handle (s : State n) (b : Board) (r : BoardResult n) (context : Context) : State n :=
  match context, r.op with
  | .open vehicleId reason target, .open _ slot =>
    let s := { s with reserved := Function.update s.reserved b (Function.update (s.reserved b) slot false) }
    match vehicleById s vehicleId with
    | none => s
    | some i => if r.ok || r.blocked then handleOpen s i b slot reason else handleOpenError s i target
  | .leave vehicleId true, _ =>
    match vehicleById s vehicleId with
    | none => s
    | some i => respawn s i
  | _, _ => s

/-- One result of `_collect_results`. -/
def collect (s : State n) (b : Board) : State n :=
  match (s.workers b).results with
  | [] => s
  | r :: rs =>
    let s := { s with workers := Function.update s.workers b { s.workers b with results := rs } }
    match s.pending r.commandId with
    | none => s
    | some context => handle { s with pending := Function.update s.pending r.commandId none } b r context

/-- How the board answers a command. -/
structure Outcome where
  ok : Bool
  blocked : Bool

/-- One round of `BoardWorker._run`. -/
def workerRun (w : Worker n) (o : Outcome) : Worker n :=
  match w.commands with
  | [] => w
  | c :: cs =>
    let w := { w with commands := cs }
    match c.op with
    | .open owner slot =>
      { w with
        slots := if o.ok then Function.update w.slots slot (some owner) else w.slots
        results := w.results ++ [⟨c.commandId, c.op, o.ok, false⟩] }
    | .leave _ slot =>
      { w with
        slots := if o.ok then Function.update w.slots slot none else w.slots
        results := w.results ++ [⟨c.commandId, c.op, o.ok, false⟩] }
    | _ => { w with results := w.results ++ [⟨c.commandId, c.op, o.ok, o.blocked⟩] }

/-- What happens next: the constructor asks for one more vehicle, the main thread collects a result, moves a
vehicle, asks for a timing, attacks or selects, or a worker takes its next command. -/
inductive Act (n : ℕ) where
  | entry (side : Board)
  | collect (b : Board)
  | vehicle (i : Fin n) (m : Motion)
  | swkem (b : Board)
  | attack
  | select (id : Option ℕ)
  | worker (b : Board) (o : Outcome)

/-- The main thread is past the constructor and not in an endless search. -/
def live (s : State n) : Bool := s.entered = n && !s.hung

def step (s : State n) : Act n → State n
  | .entry side =>
    if h : s.entered < n then requestOpen { s with entered := s.entered + 1 } ⟨s.entered, h⟩ side .entry else s
  | .collect b => if live s then collect s b else s
  | .vehicle i m => if live s then stepVehicle s i m else s
  | .swkem b => if live s then submit s b .swkem (.swkem b) else s
  | .attack => if live s then attackSelected s else s
  | .select id => if live s then { s with selectedVehicle := id } else s
  | .worker b o => { s with workers := Function.update s.workers b (workerRun (s.workers b) o) }

def run (s : State n) (acts : List (Act n)) : State n := acts.foldl step s

def Reachable (s : State n) : Prop := ∃ acts, s = run (init n) acts

end DemoController

end ZedSecure
