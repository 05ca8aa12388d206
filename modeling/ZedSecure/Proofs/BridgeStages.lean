import ZedSecure.Proofs.BridgeData

/-! The stages of the bridge. Up to three commands are under way: one whose result is being stored, one in the unit, one
that waits in the queue or with its operands loaded. The memory is what the commands before them have made of it. -/

namespace ZedSecure

open Clocked

namespace PolyBridge

open PolyAccelerator (AtRest Computing hostRdata)
open PolyLoops

/-- The commands under way, the oldest first. -/
structure Flight where
  store : Option Job
  unit : Option Job
  load : Option Job
  queue : Option Job

namespace Flight

def toList (F : Flight) : List Job := F.store.toList ++ F.unit.toList ++ F.load.toList ++ F.queue.toList

def push (F : Flight) (a : Option Job) : Flight := { F with queue := F.queue.or a }

end Flight

/-- The memory once a job, if any, has been stored. -/
def after (B : BitVec 12 → BitVec 16) : Option Job → BitVec 12 → BitVec 16
  | none => B
  | some t => t.exec B

def LdAt : Option Job → State → Prop
  | none, s => s.ld = false
  | some l, s => s.ld = true ∧ s.ldCmd = l.cmd ∧ s.ldSd = l.sd

def StAt : Option Job → State → Prop
  | none, s => s.stq = false
  | some t, s => s.stq = true ∧ s.stCmd = t.cmd ∧ s.stSd = t.sd

variable {B : BitVec 12 → BitVec 16} {F : Flight} {host host' : Banks} {p : System} {i : In} {j t : Job} {s s' : State}
  {d : Bool} {o : Option Job}

theorem of_none {P : Job → Prop} : ∀ l ∈ (none : Option Job), P l := fun l h => absurd h (Option.not_mem_none l)

theorem LdAt.congr (h : LdAt o s) (h1 : s'.ld = s.ld) (h2 : s'.ldCmd = s.ldCmd) (h3 : s'.ldSd = s.ldSd) :
    LdAt o s' := by
  cases o with
  | none => exact h1.trans h
  | some l => exact ⟨h1.trans h.1, h2.trans h.2.1, h3.trans h.2.2⟩

theorem StAt.congr (h : StAt o s) (h1 : s'.stq = s.stq) (h2 : s'.stCmd = s.stCmd) (h3 : s'.stSd = s.stSd) :
    StAt o s' := by
  cases o with
  | none => exact h1.trans h
  | some t => exact ⟨h1.trans h.1, h2.trans h.2.1, h3.trans h.2.2⟩

/-- What the registers say of the commands under way, whatever the state is. -/
structure Held (B : BitVec 12 → BitVec 16) (F : Flight) (host : Banks) (s : State) : Prop where
  queue : PendAt F.queue s
  load : LdAt F.load s
  store : StAt F.store s
  loaded : ∀ l ∈ F.load, Operands l (after (after B F.store) F.unit) host
  shown : ∀ t ∈ F.store, ∀ x, host.hostRead (resultBank t.cmd) x = t.result B x
  apart : ∀ q ∈ F.queue, ∀ r ∈ F.unit, ¬q.Reads r.sd
  fits : ∀ j ∈ F.toList, j.sd.toNat < 12

/-- The operands of the queued job are on their way. -/
structure Loading (B : BitVec 12 → BitVec 16) (F : Flight) (host : Banks) (p : System) (j : Job) : Prop where
  store : F.store = none
  load : F.load = none
  queue : F.queue = some j
  mem : p.ram.mem = B
  core : CoreAt B F.unit host p.ctrl p.core

/-- A result is on its way. -/
structure Storing (B : BitVec 12 → BitVec 16) (F : Flight) (host : Banks) (p : System) (t : Job) : Prop where
  store : F.store = some t
  load : F.load = none
  core : CoreAt (t.exec B) F.unit host p.ctrl p.core
  queue : F.unit = none → F.queue = none

/-- The job `j` is about to start in the unit. -/
structure Starting (B : BitVec 12 → BitVec 16) (F : Flight) (host : Banks) (p : System) (j : Job) : Prop where
  unit : F.unit = some j
  load : F.load = none
  mem : p.ram.mem = B
  run : p.ctrl.run = true
  cmd : p.ctrl.cmd = j.cmd
  sd : p.ctrl.sd = j.sd
  coreFin : p.ctrl.coreFin = false
  index : p.ctrl.index = 0
  valid : p.ctrl.pipeValid = false
  core : ∃ comp, AtRest p.ctrl.set comp host p.core ∧ Operands j (after B F.store) comp

/-- The first `k` words of a result are in the memory. -/
def Stored (B : BitVec 12 → BitVec 16) (t : Job) (k : ℕ) (p : System) : Prop :=
  p.ram.mem = PolyRam.fillSlot B t.sd k fun n => t.result B (BitVec.ofNat 8 n)

/-- The word of a result that the unit shows. -/
def shown (p : System) : BitVec 16 := hostRdata p.core (coreBank p.ctrl)

/-- What holds in each state, beside `Held`. -/
def Stage (B : BitVec 12 → BitVec 16) (F : Flight) (host : Banks) (p : System) : Prop :=
  match p.ctrl.state with
  | .idle => F.store = none ∧ F.unit = none ∧ F.load = none ∧ p.ram.mem = B ∧ CoreAt B none host p.ctrl p.core
  | .ldA => ∃ j, Loading B F host p j ∧ Filling p.ctrl p.ram.rdata host.a (Job.slotPoly B j.sa)
  | .ldADrain => ∃ j, Loading B F host p j ∧ LastWord p.ctrl p.ram.rdata host.a (Job.slotPoly B j.sa)
  | .ldB => ∃ j, Loading B F host p j ∧ host.a = Job.slotPoly B j.sa ∧
      Filling p.ctrl p.ram.rdata host.b (Job.slotPoly B j.sb)
  | .ldBDrain => ∃ j, Loading B F host p j ∧ host.a = Job.slotPoly B j.sa ∧
      LastWord p.ctrl p.ram.rdata host.b (Job.slotPoly B j.sb)
  | .ldDone => ∃ j, Loading B F host p j ∧ Operands j B host
  | .go => F.store = none ∧ F.queue = none ∧ (∃ l, F.load = some l) ∧ p.ram.mem = B ∧
      CoreAt B F.unit host p.ctrl p.core ∧ (F.unit ≠ none → p.ctrl.coreFin = true)
  | .coreGo => ∃ j, Starting B F host p j
  | .ovWait => F.store = none ∧ F.unit ≠ none ∧ (F.load = none ∨ F.queue = none) ∧ p.ram.mem = B ∧
      CoreAt B F.unit host p.ctrl p.core
  | .st => ∃ t, Storing B F host p t ∧ Filling p.ctrl (shown p) (t.result B) (t.result B) ∧
      Stored B t (p.ctrl.index - 1) p
  | .stDrain => ∃ t, Storing B F host p t ∧ LastWord p.ctrl (shown p) (t.result B) (t.result B) ∧ Stored B t 255 p
  | .flip => F.store = none ∧ F.unit ≠ none ∧ F.load = none ∧ F.queue = none ∧ p.ctrl.coreFin = true ∧
      p.ram.mem = B ∧ CoreAt B F.unit host p.ctrl p.core
  | .done => F.toList = [] ∧ F.unit = none ∧ p.ram.mem = B ∧ CoreAt B none host p.ctrl p.core

section Latch

@[simp] theorem latch_set : (latch s i d).set = s.set := by rw [latch_eq]

@[simp] theorem latch_run : (latch s i d).run = s.run := by rw [latch_eq]

@[simp] theorem latch_cmd : (latch s i d).cmd = s.cmd := by rw [latch_eq]

@[simp] theorem latch_sd : (latch s i d).sd = s.sd := by rw [latch_eq]

@[simp] theorem latch_coreFin : (latch s i d).coreFin = (s.coreFin || d) := by rw [latch_eq]

@[simp] theorem latch_ld : (latch s i d).ld = s.ld := by rw [latch_eq]

@[simp] theorem latch_ldCmd : (latch s i d).ldCmd = s.ldCmd := by rw [latch_eq]

@[simp] theorem latch_ldSd : (latch s i d).ldSd = s.ldSd := by rw [latch_eq]

@[simp] theorem latch_stq : (latch s i d).stq = s.stq := by rw [latch_eq]

@[simp] theorem latch_stCmd : (latch s i d).stCmd = s.stCmd := by rw [latch_eq]

@[simp] theorem latch_stSd : (latch s i d).stSd = s.stSd := by rw [latch_eq]

@[simp] theorem latch_index : (latch s i d).index = s.index := by rw [latch_eq]

@[simp] theorem latch_pipeValid : (latch s i d).pipeValid = s.pipeValid := by rw [latch_eq]

@[simp] theorem latch_state : (latch s i d).state = s.state := by rw [latch_eq]

/-- An edge that moves only the state and the pipe. -/
def Walks (s : State) (i : In) (d : Bool) (s' : State) : Prop :=
  ∃ y ix px pv, s' = { latch s i d with state := y, index := ix, pipeIndex := px, pipeValid := pv }

theorem Walks.same (h : Walks s i d s') : Same s s' d := by
  obtain ⟨y, ix, px, pv, rfl⟩ := h
  exact ⟨latch_set, latch_run, latch_cmd, latch_sd, latch_coreFin⟩

end Latch

section Accept

/-- What a command accepted now must respect. -/
def Fresh (F : Flight) (p : System) (i : In) : Prop :=
  ∀ a ∈ Log.accepted p i, a.sd.toNat < 12 ∧ ∀ r ∈ F.unit, ¬a.Reads r.sd

theorem accepted_ready {a : Job} (h : a ∈ Log.accepted p i) : ready p.ctrl p.core.ctrl.done = true := by
  rw [Log.accepted] at h
  split_ifs at h with hc
  · exact (Bool.and_eq_true_iff.mp hc).2
  · exact absurd h (Option.not_mem_none a)

theorem Held.queue_none (h : Held B F host s) (hp : s.pend = false) : F.queue = none := by
  have hq := h.queue
  cases hF : F.queue with
  | none => rfl
  | some q =>
    rw [hF] at hq
    exact absurd (hp.symm.trans hq.1) Bool.false_ne_true

theorem Held.load_none (h : Held B F host s) (hl : s.ld = false) : F.load = none := by
  have hq := h.load
  cases hF : F.load with
  | none => rfl
  | some l =>
    rw [hF] at hq
    exact absurd (hl.symm.trans hq.1) Bool.false_ne_true

theorem ready_cases (h : ready s d = true) :
    s.pend = false ∧ s.ld = false ∧ (s.state = .idle ∨ s.run = true ∧ s.coreFin = false ∧ d = false) := by
  simp only [ready, Bool.and_eq_true, Bool.or_eq_true, Bool.not_eq_true', decide_eq_true_eq] at h
  exact ⟨h.1.1, h.1.2, h.2.imp_right fun h => ⟨h.1.1.1, h.1.1.2, h.1.2⟩⟩

theorem Held.fresh (h : Held B F host p.ctrl) {l : Log} {past : List Job} (hjobs : l.jobs = past ++ F.toList)
    (hfits : Log.Fits (p, l) i) (hidle : p.ctrl.state = .idle → F.unit = none) : Fresh F p i := by
  intro a ha
  obtain ⟨hsd, hreads⟩ := hfits a ha
  obtain ⟨hp, hl, -⟩ := ready_cases (accepted_ready ha)
  refine ⟨hsd, fun r hr => hreads (fun hc => ?_) r ?_⟩
  · rw [hidle hc] at hr
    exact Option.not_mem_none r hr
  · rw [hjobs, Flight.toList, h.queue_none hp, h.load_none hl, Option.mem_def.mp hr]
    simp

theorem toList_push (h : PendAt F.queue p.ctrl) :
    (F.push (Log.accepted p i)).toList = F.toList ++ (Log.accepted p i).toList := by
  simp only [Flight.toList, Flight.push, (pendAt_latch (i := i) h).2, List.append_assoc]

theorem Held.walk (h : Held B F host p.ctrl) (ha : Fresh F p i) (hw : Walks p.ctrl i p.core.ctrl.done s')
    (hhost : host' = host ∨ F.load = none ∧ F.store = none) : Held B (F.push (Log.accepted p i)) host' s' := by
  obtain ⟨y, ix, px, pv, rfl⟩ := hw
  refine ⟨(pendAt_latch h.queue).1.congr rfl rfl rfl rfl rfl, h.load.congr latch_ld latch_ldCmd latch_ldSd,
    h.store.congr latch_stq latch_stCmd latch_stSd, fun l hl => ?_, fun t ht => ?_, fun q hq r hr => ?_, fun j hj => ?_⟩
  · rcases hhost with rfl | ⟨hnone, -⟩
    · exact h.loaded l hl
    · exact absurd (hnone ▸ hl : l ∈ none) (Option.not_mem_none l)
  · rcases hhost with rfl | ⟨-, hnone⟩
    · exact h.shown t ht
    · exact absurd (hnone ▸ ht : t ∈ none) (Option.not_mem_none t)
  · cases hF : F.queue with
    | none =>
      rw [Flight.push, hF, Option.none_or] at hq
      exact (ha q hq).2 r hr
    | some q' =>
      rw [Flight.push, hF, Option.some_or] at hq
      exact h.apart q (hF ▸ hq) r hr
  · rw [toList_push h.queue, List.mem_append] at hj
    rcases hj with hj | hj
    · exact h.fits j hj
    · exact (ha j (Option.mem_toList.mp hj)).1

end Accept

section Edges

/-- The edge of a word: the next one is asked for, after the last one the pipe drains. -/
def turned (f : State) (n : ℕ) (y : St) : State :=
  if n = 255 then { f with pipeValid := true, pipeIndex := n, state := y }
  else { f with pipeValid := true, pipeIndex := n, index := n + 1 }

theorem idle_ctrl (hs : p.ctrl.state = .idle) :
    (p.next i).ctrl = if p.ctrl.pend then
      { latch p.ctrl i p.core.ctrl.done with index := 0, pipeIndex := 0, pipeValid := false, state := .ldA }
      else latch p.ctrl i p.core.ctrl.done := by
  obtain ⟨⟨⟩, c, m⟩ := p
  cases hs
  rfl

theorem ldA_ctrl (hs : p.ctrl.state = .ldA) :
    (p.next i).ctrl = turned (latch p.ctrl i p.core.ctrl.done) p.ctrl.index .ldADrain := by
  obtain ⟨⟨⟩, c, m⟩ := p
  cases hs
  rfl

theorem ldADrain_ctrl (hs : p.ctrl.state = .ldADrain) :
    (p.next i).ctrl = { latch p.ctrl i p.core.ctrl.done with
      pipeValid := false, index := 0, state := if p.ctrl.pendCmd = 2 then .ldB else .ldDone } := by
  obtain ⟨⟨⟩, c, m⟩ := p
  cases hs
  rfl

theorem ldB_ctrl (hs : p.ctrl.state = .ldB) :
    (p.next i).ctrl = turned (latch p.ctrl i p.core.ctrl.done) p.ctrl.index .ldBDrain := by
  obtain ⟨⟨⟩, c, m⟩ := p
  cases hs
  rfl

theorem ldBDrain_ctrl (hs : p.ctrl.state = .ldBDrain) :
    (p.next i).ctrl = { latch p.ctrl i p.core.ctrl.done with
      pipeValid := false, index := 0, state := .ldDone } := by
  obtain ⟨⟨⟩, c, m⟩ := p
  cases hs
  rfl

theorem ldDone_ctrl (hs : p.ctrl.state = .ldDone) :
    (p.next i).ctrl = { latch p.ctrl i p.core.ctrl.done with
      ld := true, ldCmd := p.ctrl.pendCmd, ldSd := p.ctrl.pendSd, pend := false
      state := if p.ctrl.run then .ovWait else .go } := by
  obtain ⟨⟨⟩, c, m⟩ := p
  cases hs
  rfl

theorem go_ctrl (hs : p.ctrl.state = .go) :
    (p.next i).ctrl = { latch p.ctrl i p.core.ctrl.done with
      set := !p.ctrl.set, cmd := p.ctrl.ldCmd, sd := p.ctrl.ldSd, run := true, ld := false, coreFin := false
      stq := p.ctrl.run, stCmd := p.ctrl.cmd, stSd := p.ctrl.sd, index := 0, pipeIndex := 0, pipeValid := false
      state := .coreGo } := by
  obtain ⟨⟨⟩, c, m⟩ := p
  cases hs
  rfl

theorem coreGo_ctrl (hs : p.ctrl.state = .coreGo) :
    (p.next i).ctrl = { latch p.ctrl i p.core.ctrl.done with
      state := if p.ctrl.stq then .st else .ovWait } := by
  obtain ⟨⟨⟩, c, m⟩ := p
  cases hs
  rfl

theorem ovWait_ctrl (hs : p.ctrl.state = .ovWait) :
    (p.next i).ctrl = if p.ctrl.pend && !p.ctrl.ld then
      { latch p.ctrl i p.core.ctrl.done with index := 0, pipeIndex := 0, pipeValid := false, state := .ldA }
      else if p.ctrl.coreFin then { latch p.ctrl i p.core.ctrl.done with state := if p.ctrl.ld then .go else .flip }
      else latch p.ctrl i p.core.ctrl.done := by
  obtain ⟨⟨⟩, c, m⟩ := p
  cases hs
  rfl

theorem st_ctrl (hs : p.ctrl.state = .st) :
    (p.next i).ctrl = turned (latch p.ctrl i p.core.ctrl.done) p.ctrl.index .stDrain := by
  obtain ⟨⟨⟩, c, m⟩ := p
  cases hs
  rfl

theorem stDrain_ctrl (hs : p.ctrl.state = .stDrain) :
    (p.next i).ctrl = { latch p.ctrl i p.core.ctrl.done with
      pipeValid := false, index := 0, stq := false, state := if p.ctrl.run then .ovWait else .done } := by
  obtain ⟨⟨⟩, c, m⟩ := p
  cases hs
  rfl

theorem flip_ctrl (hs : p.ctrl.state = .flip) :
    (p.next i).ctrl = { latch p.ctrl i p.core.ctrl.done with
      set := !p.ctrl.set, stq := true, stCmd := p.ctrl.cmd, stSd := p.ctrl.sd, run := false, index := 0
      pipeIndex := 0, pipeValid := false, state := .st } := by
  obtain ⟨⟨⟩, c, m⟩ := p
  cases hs
  rfl

theorem done_ctrl (hs : p.ctrl.state = .done) :
    (p.next i).ctrl = { latch p.ctrl i p.core.ctrl.done with state := .idle } := by
  obtain ⟨⟨⟩, c, m⟩ := p
  cases hs
  rfl

end Edges

section Loads

/-- What one edge does: the flight is as before with the accepted command behind, or the oldest job has left it. -/
def Goes (B : BitVec 12 → BitVec 16) (F : Flight) (a : Option Job) (p : System) : Prop :=
  ∃ B' F' host', Held B' F' host' p.ctrl ∧ Stage B' F' host' p ∧
    (B' = B ∧ F'.toList = F.toList ++ a.toList ∨ ∃ t, B' = t.exec B ∧ F.toList ++ a.toList = t :: F'.toList)

theorem Held.goes (h : Held B F host p.ctrl) (ha : Fresh F p i)
    (hw : Walks p.ctrl i p.core.ctrl.done (p.next i).ctrl) (hhost : host' = host ∨ F.load = none ∧ F.store = none)
    (hstage : Stage B (F.push (Log.accepted p i)) host' (p.next i)) : Goes B F (Log.accepted p i) (p.next i) :=
  ⟨B, F.push (Log.accepted p i), host', h.walk ha hw hhost, hstage, Or.inl ⟨rfl, toList_push h.queue⟩⟩

theorem Loading.next (h : Loading B F host p j) (hgo : p.ctrl.state ≠ .coreGo) (hst : storing p.ctrl = false)
    (hw : Walks p.ctrl i p.core.ctrl.done (p.next i).ctrl) :
    Loading B (F.push o) (host.hostWrite (coreIn p.ctrl p.ram.rdata)) (p.next i) j where
  store := h.store
  load := h.load
  queue := by rw [Flight.push, h.queue, Option.some_or]
  mem := by
    refine (PolyRam.next_mem_of_not_we ?_).trans h.mem
    rw [polyPort, hst, Bool.and_false]
  core := h.core.next hgo hw.same

theorem hostWrite_a (h : s.state = .ldA ∨ s.state = .ldADrain) (rdata : BitVec 16) :
    host.hostWrite (coreIn s rdata) = { host with a := arrive s rdata host.a } := by
  rcases h with h | h <;> cases hv : s.pipeValid <;>
    simp [Banks.hostWrite, coreIn, coreBank, loading, storing, arrive, h, hv]

theorem hostWrite_b (h : s.state = .ldB ∨ s.state = .ldBDrain) (rdata : BitVec 16) :
    host.hostWrite (coreIn s rdata) = { host with b := arrive s rdata host.b } := by
  rcases h with h | h <;> cases hv : s.pipeValid <;>
    simp [Banks.hostWrite, coreIn, coreBank, loading, storing, arrive, h, hv]

theorem hostWrite_same (h : loading s = false) (rdata : BitVec 16) : host.hostWrite (coreIn s rdata) = host :=
  hostWrite_none (by rw [h, Bool.and_false])

/-- The word read for the next edge. -/
theorem rdata_slot (hmem : p.ram.mem = B) {slot : BitVec 4} {n : ℕ} (hn : n < 256)
    (haddr : (polyPort p.ctrl (shown p)).addr = PolyRam.slotAddr slot n) :
    (p.next i).ram.rdata = Job.slotPoly B slot (BitVec.ofNat 8 n) := by
  have hread : (p.next i).ram.rdata = p.ram.mem (polyPort p.ctrl (shown p)).addr := rfl
  rw [hread, hmem, haddr, Job.slotPoly, toNat_ofNat8 hn]

theorem idle_next (h : Held B F host p.ctrl) (hs : p.ctrl.state = .idle) (hstage : Stage B F host p)
    (ha : Fresh F p i) : Goes B F (Log.accepted p i) (p.next i) := by
  rw [Stage, hs] at hstage
  obtain ⟨hstore, hunit, hload, hmem, hcore⟩ := hstage
  have hload' : loading p.ctrl = false := by rw [loading, hs]; rfl
  have hmem' : (p.next i).ram.mem = B := by
    refine (PolyRam.next_mem_of_not_we ?_).trans hmem
    rw [polyPort, storing, hs]
    exact Bool.and_false _
  have hctrl := idle_ctrl (i := i) hs
  have hw : Walks p.ctrl i p.core.ctrl.done (p.next i).ctrl := by
    rw [hctrl]
    split_ifs
    · exact ⟨_, _, _, _, rfl⟩
    · exact ⟨_, _, _, _, rfl⟩
  have hcore' := hcore.next (w := p.ram.rdata) (by rw [hs]; decide) hw.same
  rw [hostWrite_same hload'] at hcore'
  refine h.goes ha hw (Or.inl rfl) ?_
  cases hp : p.ctrl.pend
  · rw [hp, if_neg Bool.false_ne_true] at hctrl
    rw [Stage, show (p.next i).ctrl.state = .idle by rw [hctrl, latch_state, hs]]
    exact ⟨hstore, hunit, hload, hmem', hcore'⟩
  · rw [hp, if_pos rfl] at hctrl
    obtain ⟨q, hq⟩ : ∃ q, F.queue = some q := by
      cases hF : F.queue with
      | none =>
        have hnone := h.queue
        rw [hF] at hnone
        exact absurd (hnone.symm.trans hp) Bool.false_ne_true
      | some q => exact ⟨q, rfl⟩
    rw [Stage, show (p.next i).ctrl.state = .ldA by rw [hctrl]]
    refine ⟨q, ⟨hstore, hload, by rw [Flight.push, hq, Option.some_or], hmem', ?_⟩, Filling.start (by rw [hctrl])
      (by rw [hctrl])⟩
    have hnone : (F.push (Log.accepted p i)).unit = none := hunit
    rw [hnone]
    exact hcore'

theorem turned_walks {n : ℕ} {y : St} (h : s' = turned (latch s i d) n y) : Walks s i d s' := by
  rw [h, turned]
  split_ifs
  · exact ⟨_, _, _, _, rfl⟩
  · exact ⟨_, _, _, _, rfl⟩

theorem Filling.turn {rdata : BitVec 16} {w src : Coeffs} {y : St} (h : Filling s rdata w src)
    (hs : s' = turned (latch s i d) s.index y) :
    s'.state = y ∧ LastWord s' (src (BitVec.ofNat 8 s.index)) (PolyBridge.arrive s rdata w) src ∨
      s'.state = s.state ∧ s'.index = s.index + 1 ∧
        Filling s' (src (BitVec.ofNat 8 s.index)) (PolyBridge.arrive s rdata w) src := by
  rw [turned] at hs
  split_ifs at hs with h255
  · exact Or.inl ⟨by rw [hs], h.last h255 (by rw [hs]) (by rw [hs])⟩
  · exact Or.inr ⟨by rw [hs]; exact latch_state, by rw [hs], h.next h255 (by rw [hs]) (by rw [hs]) (by rw [hs])⟩

theorem Loading.goes (hl : Loading B F host p j) (h : Held B F host p.ctrl) (ha : Fresh F p i)
    (hw : Walks p.ctrl i p.core.ctrl.done (p.next i).ctrl) (host' : Banks)
    (hstage : Stage B (F.push (Log.accepted p i)) host' (p.next i)) : Goes B F (Log.accepted p i) (p.next i) :=
  h.goes ha hw (Or.inr ⟨hl.load, hl.store⟩) hstage

theorem Loading.pend (hl : Loading B F host p j) (h : Held B F host p.ctrl) :
    p.ctrl.pend = true ∧ p.ctrl.pendCmd = j.cmd ∧ p.ctrl.pendSa = j.sa ∧ p.ctrl.pendSb = j.sb ∧
      p.ctrl.pendSd = j.sd := by
  have hq := h.queue
  rwa [hl.queue] at hq

theorem ldA_next (h : Held B F host p.ctrl) (hs : p.ctrl.state = .ldA) (hstage : Stage B F host p)
    (ha : Fresh F p i) : Goes B F (Log.accepted p i) (p.next i) := by
  rw [Stage, hs] at hstage
  obtain ⟨j, hl, hf⟩ := hstage
  have hctrl := ldA_ctrl (i := i) hs
  have hrdata : (p.next i).ram.rdata = Job.slotPoly B j.sa (BitVec.ofNat 8 p.ctrl.index) := by
    refine rdata_slot hl.mem (by have := hf.index; omega) ?_
    rw [polyPort, if_pos hs, (hl.pend h).2.2.1]
  have hl' := hl.next (o := Log.accepted p i) (by rw [hs]; decide) (by rw [storing, hs]; rfl) (turned_walks hctrl)
  rw [hostWrite_a (Or.inl hs)] at hl'
  refine hl.goes h ha (turned_walks hctrl) { host with a := arrive p.ctrl p.ram.rdata host.a } ?_
  rcases hf.turn hctrl with ⟨hstate, hlast⟩ | ⟨hstate, -, hfill⟩
  · rw [Stage, hstate]
    exact ⟨j, hl', by rw [hrdata]; exact hlast⟩
  · rw [Stage, hstate, hs]
    exact ⟨j, hl', by rw [hrdata]; exact hfill⟩

theorem ldADrain_next (h : Held B F host p.ctrl) (hs : p.ctrl.state = .ldADrain) (hstage : Stage B F host p)
    (ha : Fresh F p i) : Goes B F (Log.accepted p i) (p.next i) := by
  rw [Stage, hs] at hstage
  obtain ⟨j, hl, hlast⟩ := hstage
  have hctrl := ldADrain_ctrl (i := i) hs
  have hw : Walks p.ctrl i p.core.ctrl.done (p.next i).ctrl := ⟨_, _, _, _, hctrl⟩
  have hl' := hl.next (o := Log.accepted p i) (by rw [hs]; decide) (by rw [storing, hs]; rfl) hw
  rw [hostWrite_a (Or.inr hs), hlast.arrive] at hl'
  refine hl.goes h ha hw { host with a := Job.slotPoly B j.sa } ?_
  by_cases h2 : p.ctrl.pendCmd = 2
  · rw [Stage, show (p.next i).ctrl.state = .ldB by rw [hctrl, if_pos h2]]
    exact ⟨j, hl', rfl, Filling.start (by rw [hctrl]) (by rw [hctrl])⟩
  · rw [Stage, show (p.next i).ctrl.state = .ldDone by rw [hctrl, if_neg h2]]
    exact ⟨j, hl', rfl, fun hc => absurd ((hl.pend h).2.1.trans hc) h2⟩

theorem ldB_next (h : Held B F host p.ctrl) (hs : p.ctrl.state = .ldB) (hstage : Stage B F host p)
    (ha : Fresh F p i) : Goes B F (Log.accepted p i) (p.next i) := by
  rw [Stage, hs] at hstage
  obtain ⟨j, hl, hsa, hf⟩ := hstage
  have hctrl := ldB_ctrl (i := i) hs
  have hrdata : (p.next i).ram.rdata = Job.slotPoly B j.sb (BitVec.ofNat 8 p.ctrl.index) := by
    refine rdata_slot hl.mem (by have := hf.index; omega) ?_
    rw [polyPort, if_neg (by rw [hs]; decide), if_pos hs, (hl.pend h).2.2.2.1]
  have hl' := hl.next (o := Log.accepted p i) (by rw [hs]; decide) (by rw [storing, hs]; rfl) (turned_walks hctrl)
  rw [hostWrite_b (Or.inl hs)] at hl'
  refine hl.goes h ha (turned_walks hctrl) { host with b := arrive p.ctrl p.ram.rdata host.b } ?_
  rcases hf.turn hctrl with ⟨hstate, hlast⟩ | ⟨hstate, -, hfill⟩
  · rw [Stage, hstate]
    exact ⟨j, hl', hsa, by rw [hrdata]; exact hlast⟩
  · rw [Stage, hstate, hs]
    exact ⟨j, hl', hsa, by rw [hrdata]; exact hfill⟩

theorem ldBDrain_next (h : Held B F host p.ctrl) (hs : p.ctrl.state = .ldBDrain) (hstage : Stage B F host p)
    (ha : Fresh F p i) : Goes B F (Log.accepted p i) (p.next i) := by
  rw [Stage, hs] at hstage
  obtain ⟨j, hl, hsa, hlast⟩ := hstage
  have hctrl := ldBDrain_ctrl (i := i) hs
  have hw : Walks p.ctrl i p.core.ctrl.done (p.next i).ctrl := ⟨_, _, _, _, hctrl⟩
  have hl' := hl.next (o := Log.accepted p i) (by rw [hs]; decide) (by rw [storing, hs]; rfl) hw
  rw [hostWrite_b (Or.inr hs), hlast.arrive] at hl'
  refine hl.goes h ha hw { host with b := Job.slotPoly B j.sb } ?_
  rw [Stage, show (p.next i).ctrl.state = .ldDone by rw [hctrl]]
  exact ⟨j, hl', hsa, fun _ => rfl⟩

/-- The operands stay right while the job before them is stored. -/
theorem Loading.operands (hl : Loading B F host p j) (h : Held B F host p.ctrl) (hj : Operands j B host) :
    Operands j (after B F.unit) host := by
  cases hF : F.unit with
  | none => exact hj
  | some r => exact operands_exec hj (h.apart j hl.queue r hF)

theorem ldDone_next (h : Held B F host p.ctrl) (hs : p.ctrl.state = .ldDone) (hstage : Stage B F host p) :
    Goes B F (Log.accepted p i) (p.next i) := by
  rw [Stage, hs] at hstage
  obtain ⟨j, hl, hj⟩ := hstage
  have hctrl := ldDone_ctrl (i := i) hs
  have hpend := hl.pend h
  have hready : ready p.ctrl p.core.ctrl.done = false := by rw [ready, hpend.1]; rfl
  have hsame : Same p.ctrl (p.next i).ctrl p.core.ctrl.done := by
    rw [hctrl]
    exact ⟨latch_set, latch_run, latch_cmd, latch_sd, latch_coreFin⟩
  have hcore := hl.core.next (w := p.ram.rdata) (by rw [hs]; decide) hsame
  rw [hostWrite_same (by rw [loading, hs]; rfl)] at hcore
  have hmem : (p.next i).ram.mem = B := by
    refine (PolyRam.next_mem_of_not_we ?_).trans hl.mem
    rw [polyPort, storing, hs]
    exact Bool.and_false _
  have hlist : F.toList = F.unit.toList ++ [j] := by
    rw [Flight.toList, hl.store, hl.load, hl.queue]
    simp
  refine ⟨B, ⟨none, F.unit, some j, none⟩, host, ⟨?_, ?_, ?_, ?_, of_none, of_none, ?_⟩, ?_, Or.inl ⟨rfl, ?_⟩⟩
  · rw [hctrl]
    rfl
  · rw [hctrl]
    exact ⟨rfl, hpend.2.1, hpend.2.2.2.2⟩
  · have hst := h.store
    rw [hl.store] at hst
    rw [hctrl]
    exact latch_stq.trans hst
  · rintro l ⟨⟩
    exact hl.operands h hj
  · intro l hlmem
    refine h.fits l ?_
    rw [hlist]
    simpa [Flight.toList] using hlmem
  · cases hrun : p.ctrl.run
    · rw [Stage, show (p.next i).ctrl.state = .go by rw [hctrl, hrun]; rfl]
      refine ⟨rfl, rfl, ⟨j, rfl⟩, hmem, hcore, fun hu => ?_⟩
      cases hF : F.unit with
      | none => exact absurd hF hu
      | some r =>
        have hc := hl.core
        rw [hF] at hc
        exact absurd (hrun.symm.trans hc.1) Bool.false_ne_true
    · rw [Stage, show (p.next i).ctrl.state = .ovWait by rw [hctrl, hrun]; rfl]
      refine ⟨rfl, fun hu => ?_, Or.inr rfl, hmem, hcore⟩
      have hc := hl.core
      rw [show F.unit = none from hu] at hc
      exact absurd (hc.1.symm.trans hrun) Bool.false_ne_true
  · rw [accepted_none hready, hlist]
    simp [Flight.toList]

end Loads

end PolyBridge

end ZedSecure
