import ZedSecure.Proofs.BridgeStages

/-! Runs of the bridge: the unit starts and flips, results are stored, and overlapped commands end as serial ones. -/

namespace ZedSecure

open Clocked

namespace PolyBridge

open PolyAccelerator (AtRest hostRdata)
open PolyLoops

variable {B : BitVec 12 → BitVec 16} {F : Flight} {host : Banks} {p : System} {i : In} {t : Job} {s s' : State}
  {o : Option Job}

section Computes

theorem Held.accepted_load (h : Held B F host p.ctrl) (hl : F.load ≠ none) : Log.accepted p i = none := by
  refine accepted_none ?_
  have hq := h.load
  cases hF : F.load with
  | none => exact absurd hF hl
  | some l =>
    rw [hF] at hq
    rw [ready, hq.1, Bool.not_true, Bool.and_false, Bool.false_and]

/-- A unit that has nothing to do, with the result of its job if there was one. -/
theorem CoreAt.rest {c : PolyAccelerator.State} (h : CoreAt B o host s c) (hfin : o ≠ none → s.coreFin = true) :
    ∃ comp, AtRest s.set comp host c ∧ StAt o { s with stq := s.run, stCmd := s.cmd, stSd := s.sd } ∧
      ∀ t ∈ o, ∀ x, comp.hostRead (resultBank t.cmd) x = t.result B x := by
  cases o with
  | none =>
    obtain ⟨hrun, comp, hrest⟩ := h
    exact ⟨comp, hrest, hrun, of_none⟩
  | some r =>
    obtain ⟨hrun, hcmd, hsd, m, hm, ⟨hno, -⟩ | ⟨-, hrest⟩⟩ := h
    · exact absurd (hno.symm.trans (hfin (Option.some_ne_none r))) Bool.false_ne_true
    · refine ⟨m.command r.cmd, hrest, ⟨hrun, hcmd, hsd⟩, ?_⟩
      rintro t ⟨⟩
      exact command_result hm

theorem mem_kept (h : storing p.ctrl = false) : (p.next i).ram.mem = p.ram.mem := by
  refine PolyRam.next_mem_of_not_we ?_
  rw [polyPort, h, Bool.and_false]

/-- The halves change places. -/
theorem rest_flip {comp : Banks} {set : Bool} (hgo : p.ctrl.state ≠ .coreGo) (hload : loading p.ctrl = false)
    (h : AtRest p.ctrl.set comp host p.core) (hset : set = !p.ctrl.set) :
    AtRest set host comp (p.next i).core := by
  have hnext := h.next (i := coreIn p.ctrl p.ram.rdata) rfl (decide_eq_false hgo)
  rw [hostWrite_same hload] at hnext
  rw [hset]
  exact hnext.flip

theorem go_next (h : Held B F host p.ctrl) (hs : p.ctrl.state = .go) (hstage : Stage B F host p) :
    Goes B F (Log.accepted p i) (p.next i) := by
  rw [Stage, hs] at hstage
  obtain ⟨hstore, hqueue, ⟨l, hl⟩, hmem, hcore, hfin⟩ := hstage
  have hacc : Log.accepted p i = none := h.accepted_load (by rw [hl]; exact Option.some_ne_none l)
  have hctrl := go_ctrl (i := i) hs
  obtain ⟨comp, hrest, hst, hshown⟩ := hcore.rest hfin
  have hld := h.load
  rw [hl] at hld
  have hflip : AtRest (p.next i).ctrl.set host comp (p.next i).core :=
    rest_flip (by rw [hs]; decide) (by rw [loading, hs]; rfl) hrest (by rw [hctrl])
  have hlist : F.toList = F.unit.toList ++ [l] := by
    rw [Flight.toList, hstore, hl, hqueue]
    simp
  have hloaded := h.loaded l hl
  rw [hstore] at hloaded
  refine ⟨B, ⟨F.unit, some l, none, none⟩, comp, ⟨?_, ?_, ?_, of_none, hshown, of_none, ?_⟩, ?_, Or.inl ⟨rfl, ?_⟩⟩
  · have hpend := (pendAt_latch (i := i) h.queue).1
    rw [hqueue, hacc] at hpend
    rw [hctrl]
    exact hpend
  · rw [hctrl]
    rfl
  · rw [hctrl]
    exact hst.congr rfl rfl rfl
  · intro j hj
    refine h.fits j ?_
    rw [hlist]
    simpa [Flight.toList] using hj
  · rw [Stage, show (p.next i).ctrl.state = .coreGo by rw [hctrl]]
    exact ⟨l, rfl, rfl, (mem_kept (by rw [storing, hs]; rfl)).trans hmem, by rw [hctrl], by rw [hctrl]; exact hld.2.1,
      by rw [hctrl]; exact hld.2.2, by rw [hctrl], by rw [hctrl], by rw [hctrl], host, hflip, hloaded⟩
  · rw [hacc, hlist]
    simp [Flight.toList]

theorem flip_next (h : Held B F host p.ctrl) (hs : p.ctrl.state = .flip) (hstage : Stage B F host p) :
    Goes B F (Log.accepted p i) (p.next i) := by
  rw [Stage, hs] at hstage
  obtain ⟨hstore, hunit, hload, hqueue, hfin, hmem, hcore⟩ := hstage
  obtain ⟨r, hr⟩ := Option.ne_none_iff_exists'.mp hunit
  have hacc : Log.accepted p i = none := by
    refine accepted_none ?_
    rw [ready, hfin, hs]
    simp
  have hctrl := flip_ctrl (i := i) hs
  obtain ⟨comp, hrest, hst, hshown⟩ := hcore.rest fun _ => hfin
  have hflip : AtRest (p.next i).ctrl.set host comp (p.next i).core :=
    rest_flip (by rw [hs]; decide) (by rw [loading, hs]; rfl) hrest (by rw [hctrl])
  have hlist : F.toList = [r] := by
    rw [Flight.toList, hstore, hr, hload, hqueue]
    rfl
  rw [hr] at hst hshown
  refine ⟨B, ⟨some r, none, none, none⟩, comp, ⟨?_, ?_, ?_, of_none, hshown, of_none, ?_⟩, ?_, Or.inl ⟨rfl, ?_⟩⟩
  · have hpend := (pendAt_latch (i := i) h.queue).1
    rw [hqueue, hacc] at hpend
    rw [hctrl]
    exact hpend
  · have hld := h.load
    rw [hload] at hld
    rw [hctrl]
    exact latch_ld.trans hld
  · rw [hctrl]
    exact ⟨rfl, hst.2.1, hst.2.2⟩
  · intro j hj
    refine h.fits j ?_
    rw [hlist]
    exact hj
  · rw [Stage, show (p.next i).ctrl.state = .st by rw [hctrl]]
    refine ⟨r, ⟨rfl, rfl, ⟨by rw [hctrl], host, hflip⟩, fun _ => rfl⟩,
      Filling.start (by rw [hctrl]) (by rw [hctrl]), ?_⟩
    rw [Stored, mem_kept (by rw [storing, hs]; rfl), hmem, show (p.next i).ctrl.index = 0 by rw [hctrl]]
    exact (PolyRam.fillWords_zero _ _).symm
  · rw [hacc, hlist]
    rfl

theorem coreGo_next (h : Held B F host p.ctrl) (hs : p.ctrl.state = .coreGo) (hstage : Stage B F host p)
    (ha : Fresh F p i) : Goes B F (Log.accepted p i) (p.next i) := by
  rw [Stage, hs] at hstage
  obtain ⟨j, hj⟩ := hstage
  obtain ⟨comp, hrest, hop⟩ := hj.core
  have hctrl := coreGo_ctrl (i := i) hs
  have hw : Walks p.ctrl i p.core.ctrl.done (p.next i).ctrl := ⟨_, _, _, _, hctrl⟩
  have hcomp := hrest.start (i := coreIn p.ctrl p.ram.rdata) rfl (decide_eq_true hs)
  rw [hostWrite_same (by rw [loading, hs]; rfl)] at hcomp
  have hcmd : (coreIn p.ctrl p.ram.rdata).command = j.cmd := hj.cmd
  rw [hcmd] at hcomp
  have hcore : CoreAt (after B F.store) (some j) host (p.next i).ctrl (p.next i).core := by
    refine ⟨hw.same.run.trans hj.run, hw.same.cmd.trans hj.cmd, hw.same.sd.trans hj.sd, comp, hop, Or.inl ⟨?_, ?_⟩⟩
    · rw [hw.same.coreFin, hj.coreFin, hrest.done]
      rfl
    · rw [hw.same.set]
      exact hcomp
  have hmem : (p.next i).ram.mem = B := (mem_kept (by rw [storing, hs]; rfl)).trans hj.mem
  have hst := h.store
  refine h.goes ha hw (Or.inl rfl) ?_
  cases hF : F.store with
  | none =>
    rw [hF] at hst hcore
    rw [Stage, show (p.next i).ctrl.state = .ovWait by rw [hctrl, hst]; rfl]
    refine ⟨hF, ?_, Or.inl hj.load, hmem, ?_⟩
    · rw [Flight.push, hj.unit]
      exact Option.some_ne_none j
    · rw [Flight.push, hj.unit]
      exact hcore
  | some t =>
    rw [hF] at hst hcore
    have hindex : (p.next i).ctrl.index = 0 := by rw [hctrl]; exact latch_index.trans hj.index
    rw [Stage, show (p.next i).ctrl.state = .st by rw [hctrl, hst.1]; rfl]
    refine ⟨t, ⟨hF, hj.load, ?_, ?_⟩, Filling.start hindex (by rw [hctrl]; exact latch_pipeValid.trans hj.valid), ?_⟩
    · rw [Flight.push, hj.unit]
      exact hcore
    · rw [Flight.push, hj.unit]
      exact fun hc => absurd hc (Option.some_ne_none j)
    · rw [Stored, hmem, hindex]
      exact (PolyRam.fillWords_zero _ _).symm

theorem ovWait_next (h : Held B F host p.ctrl) (hs : p.ctrl.state = .ovWait) (hstage : Stage B F host p)
    (ha : Fresh F p i) : Goes B F (Log.accepted p i) (p.next i) := by
  rw [Stage, hs] at hstage
  obtain ⟨hstore, hunit, hroom, hmem, hcore⟩ := hstage
  have hctrl := ovWait_ctrl (i := i) hs
  have hw : Walks p.ctrl i p.core.ctrl.done (p.next i).ctrl := by
    rw [hctrl]
    split_ifs
    all_goals exact ⟨_, _, _, _, rfl⟩
  have hcore' := hcore.next (w := p.ram.rdata) (by rw [hs]; decide) hw.same
  rw [hostWrite_same (by rw [loading, hs]; rfl)] at hcore'
  have hmem' : (p.next i).ram.mem = B := (mem_kept (by rw [storing, hs]; rfl)).trans hmem
  refine h.goes ha hw (Or.inl rfl) ?_
  cases hq : F.queue with
  | some q =>
    -- the queued command is loaded next
    have hload : F.load = none := hroom.resolve_right (by rw [hq]; exact Option.some_ne_none q)
    have hpend := h.queue
    have hld := h.load
    rw [hq] at hpend
    rw [hload] at hld
    rw [Stage, show (p.next i).ctrl.state = .ldA by rw [hctrl, hpend.1, show p.ctrl.ld = false from hld]; rfl]
    rw [hpend.1, show p.ctrl.ld = false from hld] at hctrl
    exact ⟨q, ⟨hstore, hload, by rw [Flight.push, hq, Option.some_or], hmem', hcore'⟩,
      Filling.start (by rw [hctrl]; rfl) (by rw [hctrl]; rfl)⟩
  | none =>
    have hpend : p.ctrl.pend = false := by
      have hpend := h.queue
      rwa [hq] at hpend
    rw [hpend, Bool.false_and, if_neg Bool.false_ne_true] at hctrl
    cases hfin : p.ctrl.coreFin
    · rw [hfin, if_neg Bool.false_ne_true] at hctrl
      rw [Stage, show (p.next i).ctrl.state = .ovWait by rw [hctrl, latch_state, hs]]
      refine ⟨hstore, hunit, ?_, hmem', hcore'⟩
      cases hl : F.load with
      | none => exact Or.inl hl
      | some l =>
        have hacc := h.accepted_load (i := i) (by rw [hl]; exact Option.some_ne_none l)
        exact Or.inr (by rw [Flight.push, hq, hacc]; rfl)
    · rw [hfin, if_pos rfl] at hctrl
      have hacc : Log.accepted p i = none := by
        refine accepted_none ?_
        rw [ready, hfin, hs]
        simp
      have hqueue : (F.push (Log.accepted p i)).queue = none := by rw [Flight.push, hq, hacc]; rfl
      have hfin' : (p.next i).ctrl.coreFin = true := by rw [hw.same.coreFin, hfin]; rfl
      have hld := h.load
      cases hl : F.load with
      | none =>
        rw [hl] at hld
        rw [Stage, show (p.next i).ctrl.state = .flip by rw [hctrl, show p.ctrl.ld = false from hld]; rfl]
        exact ⟨hstore, hunit, hl, hqueue, hfin', hmem', hcore'⟩
      | some l =>
        rw [hl] at hld
        rw [Stage, show (p.next i).ctrl.state = .go by rw [hctrl, hld.1]; rfl]
        exact ⟨hstore, hqueue, ⟨l, hl⟩, hmem', hcore', fun _ => hfin'⟩

end Computes

section Stores

theorem Filling.self {rdata : BitVec 16} {w src : Coeffs} (h : Filling s rdata w src) : Filling s rdata src src :=
  ⟨h.index, h.valid, h.pipe, fun _ _ => rfl⟩

theorem LastWord.self {rdata : BitVec 16} {w src : Coeffs} (h : LastWord s rdata w src) : LastWord s rdata src src :=
  ⟨h.valid, h.pipe, h.rdata, fun _ _ => rfl⟩

theorem polyPort_storing (h : storing s = true) (w : BitVec 16) :
    polyPort s w = ⟨s.pipeValid, PolyRam.slotAddr s.stSd s.pipeIndex, w⟩ := by
  have hst : s.state ≠ .ldA ∧ s.state ≠ .ldB := by
    constructor <;> intro hc <;> rw [storing, hc] at h <;> exact absurd h (by decide)
  rw [polyPort, h, Bool.and_true, if_neg hst.1, if_neg hst.2, if_pos rfl]

/-- The word in the pipe is written. -/
theorem Stored.next {k : ℕ} (h : Stored B t k p) (hst : storing p.ctrl = true) (hsd : p.ctrl.stSd = t.sd)
    (hlt : t.sd.toNat < 12) (hk : k < 256) (hv : p.ctrl.pipeValid = true) (hpipe : p.ctrl.pipeIndex = k)
    (hr : shown p = t.result B (BitVec.ofNat 8 k)) : Stored B t (k + 1) (p.next i) := by
  have hport : polyPort p.ctrl (shown p) = ⟨true, PolyRam.slotAddr t.sd k, t.result B (BitVec.ofNat 8 k)⟩ := by
    rw [polyPort_storing hst, hsd, hpipe, hv, hr]
  have hnext : (p.next i).ram = p.ram.next (polyPort p.ctrl (shown p)) := rfl
  rw [Stored, hnext, hport]
  exact PolyRam.next_fillWords _ (fun n => t.result B (BitVec.ofNat 8 n)) h (by omega) rfl rfl rfl

theorem Stored.wait {k : ℕ} (h : Stored B t k p) (hv : p.ctrl.pipeValid = false) : Stored B t k (p.next i) := by
  refine (PolyRam.next_mem_of_not_we ?_).trans h
  rw [polyPort, hv, Bool.false_and]

theorem Storing.next (h : Storing B F host p t) (hst : storing p.ctrl = true)
    (hsame : Same p.ctrl (p.next i).ctrl p.core.ctrl.done) :
    CoreAt (t.exec B) F.unit host (p.next i).ctrl (p.next i).core := by
  have hgo : p.ctrl.state ≠ .coreGo := by
    intro hc
    rw [storing, hc] at hst
    exact absurd hst (by decide)
  have hload : loading p.ctrl = false := by
    cases hs : p.ctrl.state <;> rw [storing, hs] at hst <;> rw [loading, hs]
    all_goals first | rfl | exact absurd hst (by decide)
  have hcore := h.core.next (w := p.ram.rdata) hgo hsame
  rwa [hostWrite_same hload] at hcore

/-- The word the unit shows next. -/
theorem Storing.shown (h : Storing B F host p t) (hheld : Held B F host p.ctrl) (hst : storing p.ctrl = true)
    (hst' : storing (p.next i).ctrl = true) (hcmd : (p.next i).ctrl.stCmd = p.ctrl.stCmd) :
    PolyBridge.shown (p.next i) = t.result B (BitVec.ofNat 8 p.ctrl.index) := by
  have hstore := hheld.store
  rw [h.store] at hstore
  have hbank : coreBank (p.next i).ctrl = resultBank t.cmd := by
    have hne : ¬((p.next i).ctrl.state = .ldB || (p.next i).ctrl.state = .ldBDrain) = true := by
      intro hc
      rw [Bool.or_eq_true, decide_eq_true_eq, decide_eq_true_eq] at hc
      rcases hc with hc | hc <;> rw [storing, hc] at hst' <;> exact absurd hst' (by decide)
    rw [coreBank, if_neg hne, if_pos hst', hcmd, hstore.2.1, resultBank]
  have haddr : (coreIn p.ctrl p.ram.rdata).hostAddr = BitVec.ofNat 8 p.ctrl.index := by rw [coreIn, if_pos hst]
  have hread := rdata_coreIn (w := p.ram.rdata) h.core.host_banks (resultBank t.cmd)
  rw [PolyBridge.shown, hbank]
  refine hread.trans ?_
  rw [haddr]
  exact hheld.shown t h.store _

theorem st_next (h : Held B F host p.ctrl) (hs : p.ctrl.state = .st) (hstage : Stage B F host p)
    (ha : Fresh F p i) : Goes B F (Log.accepted p i) (p.next i) := by
  rw [Stage, hs] at hstage
  obtain ⟨t, ht, hf, hm⟩ := hstage
  have hctrl := st_ctrl (i := i) hs
  have hw := turned_walks hctrl
  have hst : storing p.ctrl = true := by rw [storing, hs]; rfl
  have hstore := h.store
  rw [ht.store] at hstore
  have hlt : t.sd.toNat < 12 := h.fits t (by rw [Flight.toList, ht.store]; simp)
  have hm' : Stored B t p.ctrl.index (p.next i) := by
    rcases Nat.eq_zero_or_pos p.ctrl.index with hzero | hpos
    · have hv := hf.valid
      rw [hzero] at hm hv ⊢
      exact hm.wait hv
    · obtain ⟨hp, hr⟩ := hf.pipe hpos
      have hle := hf.index
      have hnext := hm.next (i := i) hst hstore.2.2 hlt (by omega) (by rw [hf.valid]; exact decide_eq_true hpos)
        (by omega) (by rw [hr, show p.ctrl.pipeIndex = p.ctrl.index - 1 by omega])
      rwa [Nat.sub_add_cancel hpos] at hnext
  have hcmd : (p.next i).ctrl.stCmd = p.ctrl.stCmd := by
    obtain ⟨y, ix, px, pv, hy⟩ := hw
    rw [hy]
    exact latch_stCmd
  have hcore := ht.next hst hw.same
  have hkeep : Storing B (F.push (Log.accepted p i)) host (p.next i) t := by
    refine ⟨ht.store, ht.load, hcore, fun hu => ?_⟩
    have hu' : F.unit = none := hu
    have hrun : p.ctrl.run = false := by
      have hc := ht.core
      rw [hu'] at hc
      exact hc.1
    rw [Flight.push, ht.queue hu', accepted_none (by rw [ready, hs, hrun]; simp)]
    rfl
  refine h.goes ha hw (Or.inl rfl) ?_
  rcases hf.turn hctrl with ⟨hstate, hlast⟩ | ⟨hstate, hindex, hfill⟩
  · have hshown := ht.shown (i := i) h hst (by rw [storing, hstate]; rfl) hcmd
    rw [Stage, hstate]
    refine ⟨t, hkeep, by rw [hshown]; exact hlast.self, ?_⟩
    have h255 : p.ctrl.index = 255 := by
      by_contra hne
      rw [turned, if_neg hne] at hctrl
      rw [hctrl] at hstate
      exact absurd ((latch_state.trans hs).symm.trans hstate) (by decide)
    rwa [h255] at hm'
  · have hshown := ht.shown (i := i) h hst (by rw [storing, hstate, hs]; rfl) hcmd
    rw [Stage, hstate, hs]
    exact ⟨t, hkeep, by rw [hshown]; exact hfill.self, by rw [hindex]; exact hm'⟩

theorem stDrain_next (h : Held B F host p.ctrl) (hs : p.ctrl.state = .stDrain) (hstage : Stage B F host p)
    (ha : Fresh F p i) : Goes B F (Log.accepted p i) (p.next i) := by
  rw [Stage, hs] at hstage
  obtain ⟨t, ht, hl, hm⟩ := hstage
  have hctrl := stDrain_ctrl (i := i) hs
  have hst : storing p.ctrl = true := by rw [storing, hs]; rfl
  have hstore := h.store
  rw [ht.store] at hstore
  have hlt : t.sd.toNat < 12 := h.fits t (by rw [Flight.toList, ht.store]; simp)
  have hmem : (p.next i).ram.mem = t.exec B :=
    hm.next hst hstore.2.2 hlt (by decide) hl.valid hl.pipe hl.rdata
  have hsame : Same p.ctrl (p.next i).ctrl p.core.ctrl.done := by
    rw [hctrl]
    exact ⟨latch_set, latch_run, latch_cmd, latch_sd, latch_coreFin⟩
  have hcore := ht.next hst hsame
  have hlist : F.toList ++ (Log.accepted p i).toList =
      t :: (Flight.mk none F.unit none (F.queue.or (Log.accepted p i))).toList := by
    simp only [Flight.toList, ht.store, ht.load, (pendAt_latch (i := i) h.queue).2, Option.toList_some,
      Option.toList_none, List.append_nil, List.nil_append, List.cons_append, List.append_assoc]
  have hpushed : Held B (F.push (Log.accepted p i)) host (latch p.ctrl i p.core.ctrl.done) :=
    h.walk ha ⟨_, _, _, _, rfl⟩ (Or.inl rfl)
  refine ⟨t.exec B, ⟨none, F.unit, none, F.queue.or (Log.accepted p i)⟩, host, ⟨?_, ?_, ?_, of_none, of_none,
    hpushed.apart, ?_⟩, ?_, Or.inr ⟨t, rfl, hlist⟩⟩
  · rw [hctrl]
    exact hpushed.queue.congr rfl rfl rfl rfl rfl
  · have hld := h.load
    rw [ht.load] at hld
    rw [hctrl]
    exact latch_ld.trans hld
  · rw [hctrl]
    rfl
  · intro j hj
    refine hpushed.fits j ?_
    rw [toList_push h.queue, hlist]
    exact List.mem_cons_of_mem t hj
  · cases hu : F.unit with
    | some r =>
      have hc := ht.core
      rw [hu] at hc hcore
      rw [Stage, show (p.next i).ctrl.state = .ovWait by rw [hctrl, hc.1]; rfl]
      exact ⟨rfl, Option.some_ne_none r, Or.inl rfl, hmem, hcore⟩
    | none =>
      have hc := ht.core
      rw [hu] at hc hcore
      rw [Stage, show (p.next i).ctrl.state = .done by rw [hctrl, hc.1]; rfl]
      refine ⟨?_, rfl, hmem, hcore⟩
      rw [ht.queue hu, accepted_none (by rw [ready, hs, hc.1]; simp)]
      rfl

theorem done_next (h : Held B F host p.ctrl) (hs : p.ctrl.state = .done) (hstage : Stage B F host p)
    (ha : Fresh F p i) : Goes B F (Log.accepted p i) (p.next i) := by
  rw [Stage, hs] at hstage
  obtain ⟨hnone, hunit, hmem, hcore⟩ := hstage
  have hctrl := done_ctrl (i := i) hs
  have hw : Walks p.ctrl i p.core.ctrl.done (p.next i).ctrl := ⟨_, _, _, _, hctrl⟩
  have hcore' := hcore.next (w := p.ram.rdata) (by rw [hs]; decide) hw.same
  rw [hostWrite_same (by rw [loading, hs]; rfl)] at hcore'
  have hparts : F.store = none ∧ F.load = none := by
    rw [Flight.toList, List.append_eq_nil_iff, List.append_eq_nil_iff, List.append_eq_nil_iff] at hnone
    exact ⟨Option.toList_eq_nil_iff.mp hnone.1.1.1, Option.toList_eq_nil_iff.mp hnone.1.2⟩
  refine h.goes ha hw (Or.inl rfl) ?_
  rw [Stage, show (p.next i).ctrl.state = .idle by rw [hctrl]]
  exact ⟨hparts.1, hunit, hparts.2, (mem_kept (by rw [storing, hs]; rfl)).trans hmem, hcore'⟩

end Stores

section Runs

/-- The commands of the log, split into those that are stored and those under way. -/
def Tracked (q : System × Log) : Prop :=
  ∃ past F host, q.2.jobs = past ++ F.toList ∧ Held (past.foldl Job.exec q.2.mem) F host q.1.ctrl ∧
    Stage (past.foldl Job.exec q.2.mem) F host q.1

theorem tracked_rst (q : System × Log) : Tracked (logged.rst q) :=
  ⟨[], ⟨none, none, none, none⟩, ((PolyAccelerator.rst q.1.core).half (!false)).banks, rfl,
    ⟨rfl, rfl, rfl, of_none, of_none, of_none, fun _ h => absurd h List.not_mem_nil⟩, rfl, rfl, rfl, rfl, rfl,
    ((PolyAccelerator.rst q.1.core).half false).banks, rfl, rfl, fun _ _ _ => rfl, rfl, rfl⟩

theorem stage_next (h : Held B F host p.ctrl) (hstage : Stage B F host p) (ha : Fresh F p i) :
    Goes B F (Log.accepted p i) (p.next i) := by
  cases hs : p.ctrl.state with
  | idle => exact idle_next h hs hstage ha
  | ldA => exact ldA_next h hs hstage ha
  | ldADrain => exact ldADrain_next h hs hstage ha
  | ldB => exact ldB_next h hs hstage ha
  | ldBDrain => exact ldBDrain_next h hs hstage ha
  | ldDone => exact ldDone_next h hs hstage
  | go => exact go_next h hs hstage
  | coreGo => exact coreGo_next h hs hstage ha
  | ovWait => exact ovWait_next h hs hstage ha
  | st => exact st_next h hs hstage ha
  | stDrain => exact stDrain_next h hs hstage ha
  | flip => exact flip_next h hs hstage
  | done => exact done_next h hs hstage ha

theorem tracked_next {q : System × Log} (h : Tracked q) (hfits : Log.Fits q i) : Tracked (logged.next q i) := by
  obtain ⟨past, F, host, hjobs, hheld, hstage⟩ := h
  have hfresh : Fresh F q.1 i := by
    refine hheld.fresh hjobs hfits fun hs => ?_
    rw [Stage, hs] at hstage
    exact hstage.2.1
  have hlog : (logged.next q i).2.jobs = past ++ (F.toList ++ (Log.accepted q.1 i).toList) := by
    rw [← List.append_assoc, ← hjobs]
    rfl
  obtain ⟨B, F', host', hheld', hstage', ⟨rfl, hlist⟩ | ⟨t, rfl, hlist⟩⟩ := stage_next hheld hstage hfresh
  · exact ⟨past, F', host', by rw [hlog, hlist], hheld', hstage'⟩
  · have hpast : (past ++ [t]).foldl Job.exec q.2.mem = t.exec (past.foldl Job.exec q.2.mem) := List.foldl_append
    refine ⟨past ++ [t], F', host', ?_, ?_⟩
    · rw [hlog, hlist, List.append_assoc]
      rfl
    · rw [show (logged.next q i).2.mem = q.2.mem from rfl, hpast]
      exact ⟨hheld', hstage'⟩

theorem Stage.length (h : Stage B F host p) : F.toList.length ≤ 3 := by
  have hroom : F.store = none ∨ F.load = none := by
    cases hs : p.ctrl.state <;> rw [Stage, hs] at h
    case idle => exact Or.inl h.1
    case ldA | ldADrain | ldB | ldBDrain | ldDone => exact Or.inl h.choose_spec.1.store
    case go => exact Or.inl h.1
    case coreGo => exact Or.inr h.choose_spec.load
    case ovWait => exact Or.inl h.1
    case st | stDrain => exact Or.inr h.choose_spec.1.load
    case flip => exact Or.inl h.1
    case done =>
      rw [Flight.toList, List.append_eq_nil_iff, List.append_eq_nil_iff, List.append_eq_nil_iff] at h
      exact Or.inl (Option.toList_eq_nil_iff.mp h.1.1.1.1)
  obtain ⟨t, r, l, q⟩ := F
  rcases hroom with h | h <;> cases h
  · cases r <;> cases l <;> cases q <;> simp [Flight.toList]
  · cases t <;> cases r <;> cases q <;> simp [Flight.toList]

/-- The memory between two commands, with the first `k` words of the next result if its store is under way. -/
theorem Stage.mem (h : Stage B F host p) :
    p.ram.mem = B ∨ ∃ t k, F.toList.head? = some t ∧ Stored B t k p := by
  cases hs : p.ctrl.state <;> rw [Stage, hs] at h
  case idle => exact Or.inl h.2.2.2.1
  case ldA | ldADrain | ldB | ldBDrain | ldDone => exact Or.inl h.choose_spec.1.mem
  case go => exact Or.inl h.2.2.2.1
  case coreGo => exact Or.inl h.choose_spec.mem
  case ovWait => exact Or.inl h.2.2.2.1
  case st =>
    obtain ⟨t, ht, -, hm⟩ := h
    exact Or.inr ⟨t, _, by rw [Flight.toList, ht.store]; rfl, hm⟩
  case stDrain =>
    obtain ⟨t, ht, -, hm⟩ := h
    exact Or.inr ⟨t, _, by rw [Flight.toList, ht.store]; rfl, hm⟩
  case flip => exact Or.inl h.2.2.2.2.2.1
  case done => exact Or.inl h.2.2.1

theorem Stage.over (h : Stage B F host p) (hheld : Held B F host p.ctrl)
    (hover : done p.ctrl = true ∨ busy p.ctrl = false) : F.toList = [] ∧ p.ram.mem = B := by
  rcases hover with hdone | hidle
  · rw [Stage, of_decide_eq_true hdone] at h
    exact ⟨h.1, h.2.2.1⟩
  · rw [busy, Bool.or_eq_false_iff] at hidle
    have hs : p.ctrl.state = .idle := not_not.mp (of_decide_eq_false hidle.1)
    rw [Stage, hs] at h
    refine ⟨?_, h.2.2.2.1⟩
    rw [Flight.toList, h.1, h.2.1, h.2.2.1, hheld.queue_none hidle.2]
    rfl

/-- At most three commands are under way, and the memory is what the commands before them have made of it, up to the
words of the first one's result that have been stored. -/
def Log.Behind (l : Log) (mem : BitVec 12 → BitVec 16) : Prop :=
  ∃ past rest, l.jobs = past ++ rest ∧ rest.length ≤ 3 ∧
    (mem = past.foldl Job.exec l.mem ∨ ∃ t k, rest.head? = some t ∧
      mem = PolyRam.fillSlot (past.foldl Job.exec l.mem) t.sd k fun n =>
        t.result (past.foldl Job.exec l.mem) (BitVec.ofNat 8 n))

/-- Overlapping loads, computations and stores does not show: whatever commands come, and whenever, the memory follows
the accepted ones in their order, and has caught up with all of them when the bridge is done. -/
theorem overlapped_is_serial (p : System × Log) {acts : List (Act In)}
    (hfits : logged.AllSteps Log.Fits (logged.rst p) acts) :
    (logged.run (logged.rst p) acts).2.Behind (logged.run (logged.rst p) acts).1.ram.mem ∧
      (done (logged.run (logged.rst p) acts).1.ctrl = true ∨ busy (logged.run (logged.rst p) acts).1.ctrl = false →
        (logged.run (logged.rst p) acts).1.ram.mem = (logged.run (logged.rst p) acts).2.serial) := by
  obtain ⟨past, F, host, hjobs, hheld, hstage⟩ := Design.run_induct_of logged (P := Tracked)
    (fun q _ => tracked_rst q) (fun _ _ => tracked_next) (tracked_rst p) hfits
  refine ⟨⟨past, F.toList, hjobs, hstage.length, hstage.mem⟩, fun hover => ?_⟩
  obtain ⟨hnone, hmem⟩ := hstage.over hheld hover
  rw [hmem, Log.serial, hjobs, hnone, List.append_nil]

/-- A bridge with an empty memory. -/
def blank : System × Log := (⟨reset, PolyAccelerator.fresh, fun _ => 0, 0⟩, ⟨fun _ => 0, []⟩)

/-- A base multiplication of slots 1 and 2 into slot 3. -/
def multiplySlots : In := ⟨true, 2, 1, 2, 3⟩

theorem overlapped_is_serial_multiply :
    Log.Behind ⟨fun _ => 0, [Job.ofIn multiplySlots]⟩
      (logged.run (logged.rst blank) [.tick multiplySlots]).1.ram.mem :=
  (@overlapped_is_serial blank [.tick multiplySlots] ⟨fun j hj => by
    cases hj
    exact ⟨by decide, fun h => absurd rfl h⟩, trivial⟩).1

end Runs

end PolyBridge

end ZedSecure
