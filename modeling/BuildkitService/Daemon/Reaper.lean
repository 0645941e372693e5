import BuildkitService.Daemon.Admission

/-!
# The reaper

`cleanupExpiredTasks` removes the tasks whose `FinishedAt` is `KeepTTL` ago, and then their work
directories.
-/

namespace BuildkitService.Daemon

open Threads List Runs

variable {cfg : Config} {sh : Shared} {c c' : Cell} {op : Op} {i : Nat} {s s' : State}

def State.active (s : State) (i : Nat) (c : Cell) : Bool :=
  c.pc = .created || (c.pc = .queued && i ∈ s.queue) || c.pc.running

def ReapsIdle (cfg : Config) (s : State) : Action → Prop
  | .reap now => ∀ i < s.cells.length, ∀ c ∈ s.cells[i]?, s.active i c = true →
      c.record.expired cfg now = false
  | _ => True

instance (cfg : Config) (s : State) (a : Action) : Decidable (ReapsIdle cfg s a) := by
  unfold ReapsIdle
  split <;> infer_instance

/-! ### The invariant -/

structure Cell.Held (c : Cell) : Prop where
  stored : c.stored = true
  removing : c.removing = false
  dir : c.dir = true
  done : c.record.done = true

structure Kept (s : State) : Prop where
  held : ∀ (i : Nat) (c : Cell), s.cells[i]? = some c → s.active i c = true → c.Held
  closed : ∀ (i : Nat) (c : Cell), s.cells[i]? = some c → c.pc = .returned → c.doneClosed = true

theorem onCell_held (hdelete : op ≠ .deleteRecord) (hremove : op ≠ .removeDir) (hclose : op ≠ .closeDone)
    (hheld : c.Held) : (op.onCell sh c).Held := by
  have hnext := onCell_next sh c op
  generalize op.onCell sh c = c' at hnext ⊢
  cases hnext with
  | same _ => exact hheld
  | @rewritten _ r _ hrecord =>
    have hdone : r.done = c.record.done := by cases hrecord <;> rfl
    exact ⟨hheld.stored, hheld.removing, hheld.dir, hdone.trans hheld.done⟩
  | deleted => exact absurd rfl hdelete
  | removed => exact absurd rfl hremove
  | doneClosed _ => exact absurd rfl hclose
  | _ => exact ⟨hheld.stored, hheld.removing, hheld.dir, hheld.done⟩

theorem onCell_doneClosed (hclosed : c.doneClosed = true) : (op.onCell sh c).doneClosed = true := by
  have hnext := onCell_next sh c op
  generalize op.onCell sh c = c' at hnext ⊢
  cases hnext with
  | doneClosed | channelClosed => rfl
  | _ => exact hclosed

theorem FinishNext.op_eq {f : FinishPc} {next : Option FinishPc} (hfinish : FinishNext sh c f op next) :
    op ≠ .deleteRecord ∧ op ≠ .removeDir ∧ op ≠ .closeDone := by
  cases hfinish <;> simp

theorem Next.held {pc pc' : TaskPc} (hnext : Next cfg sh c pc op pc') (hheld : c.Held) :
    (pc' ≠ .returned → (op.onCell sh c).Held) ∧
      (pc' = .returned → (op.onCell sh c).doneClosed = true) := by
  have hquiet : op ≠ .deleteRecord → op ≠ .removeDir → op ≠ .closeDone → pc' ≠ .returned →
      (pc' ≠ .returned → (op.onCell sh c).Held) ∧
        (pc' = .returned → (op.onCell sh c).doneClosed = true) := by
    intro hdelete hremove hclose hpc
    exact ⟨fun _ => onCell_held hdelete hremove hclose hheld, fun h => absurd h hpc⟩
  cases hnext with
  | closed =>
    refine ⟨fun h => absurd rfl h, fun _ => ?_⟩
    simp only [Op.onCell]
    rw [if_pos ⟨hheld.stored, hheld.done⟩]
  | finishes hfinish | finished hfinish =>
    exact hquiet hfinish.op_eq.1 hfinish.op_eq.2.1 hfinish.op_eq.2.2 (by simp)
  | prepared step rest exporter written =>
    refine hquiet (by simp) (by simp) (by simp) ?_
    rw [Cell.afterPrepare]
    split <;> simp
  | attempted a exporter err =>
    refine hquiet (by simp) (by simp) (by simp) ?_
    rw [Cell.afterAttempt.eq_def]
    split
    · simp
    · split
      · simp
      · split_ifs <;> simp
  | _ => exact hquiet (by simp) (by simp) (by simp) (by simp)

theorem HandlerNext.held {h : Handler} {pc next : HandlerPc} (hnext : HandlerNext sh c h pc op next)
    (hrejects : pc.rejects = false) (hheld : c.Held) : (op.onCell sh c).Held := by
  cases hnext with
  | cancelFinishes hfinish | cancelFinished hfinish =>
    exact onCell_held hfinish.op_eq.1 hfinish.op_eq.2.1 hfinish.op_eq.2.2 hheld
  | @cancelsCtx cancels status hfinish => cases cancels <;> exact onCell_held (by simp) (by simp) (by simp) hheld
  | @cancelReturns cancels status hshutdown hstatus =>
    cases cancels <;> exact onCell_held (by simp) (by simp) (by simp) hheld
  | rejectFinishes | rejectFinished | rejectCancels | rejectCloses | rejectDeletes => cases hrejects
  | _ => exact onCell_held (by simp) (by simp) (by simp) hheld

/-! ### Steps -/

theorem active_of_running (hrunning : c.pc.running = true) : s.active i c = true := by
  simp [State.active, hrunning]

theorem active_congr (hpc : c'.pc = c.pc) (hqueue : i ∈ s'.queue → i ∈ s.queue)
    (hactive : s'.active i c' = true) : s.active i c = true := by
  simp only [State.active, hpc, Bool.or_eq_true, Bool.and_eq_true, decide_eq_true_eq] at hactive ⊢
  rcases hactive with (hcreated | ⟨hpc, hmem⟩) | hrunning
  · exact .inl (.inl hcreated)
  · exact .inl (.inr ⟨hpc, hqueue hmem⟩)
  · exact .inr hrunning

theorem Kept.set (hkept : Kept s) (hcell : s.cells[i]? = some c) (hcells : s'.cells = s.cells.set i c')
    (hqueue : ∀ j, j ≠ i → j ∈ s'.queue → j ∈ s.queue) (hheld : s'.active i c' = true → c'.Held)
    (hclosed : c'.pc = .returned → c'.doneClosed = true) : Kept s' := by
  refine ⟨?_, ?_⟩
  · intro j d hd hactive
    rw [hcells] at hd
    rcases getElem?_set_cases hd with ⟨rfl, rfl⟩ | ⟨hne, hold⟩
    · exact hheld hactive
    · exact hkept.held j d hold (active_congr rfl (hqueue j hne) hactive)
  · intro j d hd hpc
    rw [hcells] at hd
    rcases getElem?_set_cases hd with ⟨rfl, rfl⟩ | ⟨hne, hold⟩
    · exact hclosed hpc
    · exact hkept.closed j d hold hpc

theorem Kept.of_cells (hkept : Kept s) (hcells : s'.cells = s.cells) (hqueue : ∀ j ∈ s'.queue, j ∈ s.queue) :
    Kept s' := by
  refine ⟨?_, by rw [hcells]; exact hkept.closed⟩
  intro i c hcell hactive
  rw [hcells] at hcell
  exact hkept.held i c hcell (active_congr rfl (hqueue i) hactive)

theorem kept_reap {now : Nat} (hkept : Kept s) (hidle : ReapsIdle cfg s (.reap now)) :
    Kept { s with cells := s.cells.map (Cell.reap cfg now) } := by
  have hpc : ∀ c : Cell, (c.reap cfg now).pc = c.pc ∧ (c.reap cfg now).doneClosed = c.doneClosed := by
    intro c
    rw [Cell.reap]
    split <;> exact ⟨rfl, rfl⟩
  refine ⟨?_, ?_⟩
  · intro i d hd hactive
    rw [getElem?_map] at hd
    obtain ⟨c, hcell, rfl⟩ := Option.map_eq_some_iff.1 hd
    have hold : s.active i c = true := active_congr (hpc c).1 id hactive
    have hfresh := hidle i (List.getElem?_eq_some_iff.1 hcell).1 c hcell hold
    rw [Cell.reap, if_neg (by simp [hfresh])]
    exact hkept.held i c hcell hold
  · intro i d hd hreturned
    rw [getElem?_map] at hd
    obtain ⟨c, hcell, rfl⟩ := Option.map_eq_some_iff.1 hd
    rw [(hpc c).1] at hreturned
    rw [(hpc c).2]
    exact hkept.closed i c hcell hreturned

theorem kept_step {a : Action} (hadmitted : Admitted s) (hkept : Kept s) (hidle : ReapsIdle cfg s a)
    (heffect : Effect cfg s a s') : Kept s' := by
  cases heffect with
  | tick | request | refreshPool => exact hkept.of_cells rfl fun _ hj => hj
  | create spec =>
    refine ⟨?_, ?_⟩
    · intro i d hd hactive
      rcases getElem?_snoc hd with hold | ⟨rfl, rfl⟩
      · exact hkept.held i d hold (active_congr rfl id hactive)
      · exact ⟨rfl, rfl, rfl, rfl⟩
    · intro i d hd hpc
      rcases getElem?_snoc hd with hold | ⟨rfl, rfl⟩
      · exact hkept.closed i d hold hpc
      · cases hpc
  | @handler k leaves h c op next sh hhandler hcell hnext hshared =>
    refine hkept.set hcell rfl (fun _ _ hj => hj) ?_ ?_
    · intro hactive
      have hold : s.active h.id c = true := active_congr rfl id hactive
      have hrejects : h.pc.rejects = false := by
        by_contra hrejects
        have hpc := (hadmitted.rejects k h hhandler (eq_true_of_ne_false hrejects)).eq hcell
        simp [State.active, hpc, TaskPc.running] at hold
      obtain ⟨hstored, hremoving, hdir, hdone⟩ := hnext.held hrejects (hkept.held h.id c hcell hold)
      exact ⟨hstored, hremoving, hdir, hdone⟩
    · intro hpc
      exact onCell_doneClosed (hkept.closed h.id c hcell hpc)
  | @enqueue k leaves h c outcome hhandler hpc hcell =>
    have hcreated : c.pc = .created := (hadmitted.enqueues k h hhandler hpc).eq hcell
    have hheld : c.Held := hkept.held h.id c hcell (by simp [State.active, hcreated])
    refine hkept.set hcell rfl ?_ (fun _ => ⟨hheld.stored, hheld.removing, hheld.dir, hheld.done⟩) ?_
    · intro j hne hj
      simp only at hj
      split_ifs at hj
      · rcases mem_append.1 hj with hold | hnew
        · exact hold
        · exact absurd (mem_singleton.1 hnew) hne
      · exact hj
    · intro hreturned
      cases outcome <;> cases hreturned
  | @pop mode i c hqueue hcell =>
    have hwaits : c.pc = .queued := (hadmitted.queued i hqueue).eq hcell
    have hheld : c.Held := hkept.held i c hcell (by simp [State.active, hwaits, hqueue])
    refine hkept.set hcell rfl (fun j _ hj => mem_of_mem_erase hj) ?_ (by simp)
    exact fun _ => ⟨hheld.stored, hheld.removing, hheld.dir, hheld.done⟩
  | closeQueue mode => exact hkept.of_cells rfl fun j hj => (mem_filter.1 hj).1
  | @task i choice c op pc sh hcell hcontrol hshared =>
    have hnext := control_next hcontrol
    have hheld : c.Held := hkept.held i c hcell (active_of_running hnext.running)
    refine hkept.set hcell rfl (fun _ _ hj => hj) ?_ (hnext.held hheld).2
    intro hactive
    have hpc : pc ≠ .returned := by
      rintro rfl
      simp [State.active, TaskPc.running] at hactive
    obtain ⟨hstored, hremoving, hdir, hdone⟩ := (hnext.held hheld).1 hpc
    exact ⟨hstored, hremoving, hdir, hdone⟩
  | @ctxDone i err c hcell hctx =>
    refine hkept.set hcell rfl (fun _ _ hj => hj) ?_ (hkept.closed i c hcell)
    intro hactive
    have hheld : c.Held := hkept.held i c hcell (active_congr rfl id hactive)
    exact ⟨hheld.stored, hheld.removing, hheld.dir, hheld.done⟩
  | reap hnow => exact kept_reap hkept hidle
  | @removeDir i c hcell hremoving =>
    refine hkept.set hcell rfl (fun _ _ hj => hj) ?_ (hkept.closed i c hcell)
    intro hactive
    have hheld : c.Held := hkept.held i c hcell (active_congr rfl id hactive)
    rw [hheld.removing] at hremoving
    cases hremoving

/-! ### Tasks that are over -/

def StaysIdle (s t : State) : Prop :=
  ∀ (i : Nat) (c : Cell), s.cells[i]? = some c → s.active i c = false →
    ∃ d, t.cells[i]? = some d ∧ t.active i d = false

theorem idle_congr (hpc : c'.pc = c.pc) (hqueue : i ∈ s'.queue → i ∈ s.queue) (hidle : s.active i c = false) :
    s'.active i c' = false := by
  by_contra hactive
  rw [active_congr hpc hqueue (eq_true_of_ne_false hactive)] at hidle
  cases hidle

theorem StaysIdle.of_set (hcell : s.cells[i]? = some c) (hcells : s'.cells = s.cells.set i c')
    (hqueue : ∀ j, j ≠ i → j ∈ s'.queue → j ∈ s.queue) (hself : s.active i c = false → s'.active i c' = false) :
    StaysIdle s s' := by
  intro j d hd hidle
  rw [hcells]
  by_cases hij : i = j
  · subst hij
    rw [hcell] at hd
    cases hd
    exact ⟨c', getElem?_set_self (List.getElem?_eq_some_iff.1 hcell).1, hself hidle⟩
  · exact ⟨d, by rw [getElem?_set_ne hij, hd],
      idle_congr rfl (hqueue j fun h => hij h.symm) hidle⟩

theorem staysIdle_step {a : Action} (hadmitted : Admitted s) (heffect : Effect cfg s a s') :
    StaysIdle s s' := by
  have hsame : ∀ s'' : State, s''.cells = s.cells → (∀ j ∈ s''.queue, j ∈ s.queue) → StaysIdle s s'' := by
    intro s'' hcells hqueue i c hcell hidle
    exact ⟨c, by rw [hcells, hcell], idle_congr rfl (hqueue i) hidle⟩
  cases heffect with
  | tick | request | refreshPool => exact hsame _ rfl fun _ hj => hj
  | closeQueue mode => exact hsame _ rfl fun j hj => (mem_filter.1 hj).1
  | create spec =>
    intro i c hcell hidle
    refine ⟨c, ?_, idle_congr rfl id hidle⟩
    rw [getElem?_append_left (List.getElem?_eq_some_iff.1 hcell).1, hcell]
  | handler hhandler hcell | ctxDone hcell | removeDir hcell =>
    exact .of_set hcell rfl (fun _ _ hj => hj) (idle_congr rfl id)
  | @reap now hnow =>
    intro i c hcell hidle
    refine ⟨c.reap cfg now, by rw [getElem?_map, hcell]; rfl, idle_congr ?_ id hidle⟩
    rw [Cell.reap]
    split <;> rfl
  | @enqueue k leaves h c outcome hhandler hpc hcell =>
    have hcreated : c.pc = .created := (hadmitted.enqueues k h hhandler hpc).eq hcell
    refine .of_set hcell rfl ?_ (by simp [State.active, hcreated])
    intro j hne hj
    simp only at hj
    split_ifs at hj
    · exact (mem_append.1 hj).resolve_right fun hnew => hne (mem_singleton.1 hnew)
    · exact hj
  | @pop mode i c hqueue hcell =>
    have hwaits : c.pc = .queued := (hadmitted.queued i hqueue).eq hcell
    exact .of_set hcell rfl (fun j _ hj => mem_of_mem_erase hj) (by simp [State.active, hwaits, hqueue])
  | @task i choice c op pc sh hcell hcontrol hshared =>
    refine .of_set hcell rfl (fun _ _ hj => hj) ?_
    rw [active_of_running (control_next hcontrol).running]
    simp

theorem staysIdle_run {t : State} {as : List Action} (hadmitted : Admitted s)
    (hrun : exec (step cfg) s as = some t) : StaysIdle s t := by
  have hkeep : ∀ s a s', Admitted s → step cfg s a = some s' → Admitted s' :=
    fun s a s' hadmitted hstep => admitted_step hadmitted (step_effect hstep)
  refine exec_relates (step cfg) ?_ ?_ hkeep ?_ hadmitted hrun
  · exact fun s i c hcell hidle => ⟨c, hcell, hidle⟩
  · intro s t u hfirst hsecond i c hcell hidle
    obtain ⟨d, hd, hidle'⟩ := hfirst i c hcell hidle
    exact hsecond i d hd hidle'
  · exact fun s a s' hadmitted hstep => staysIdle_step hadmitted (step_effect hstep)

/-! ### Runs -/

theorem kept_start (addrs : List Pool.BuildkitAddr) (addrConcurrency : Nat) :
    Kept (start addrs addrConcurrency) := by
  constructor <;> simp [start]

theorem kept_run {addrs : List Pool.BuildkitAddr} {addrConcurrency : Nat} {as : List Action}
    (hidle : Along (step cfg) (ReapsIdle cfg) (start addrs addrConcurrency) as)
    (hrun : exec (step cfg) (start addrs addrConcurrency) as = some s) : Admitted s ∧ Kept s := by
  have hkeep : ∀ s a s', Admitted s ∧ Kept s → ReapsIdle cfg s a → step cfg s a = some s' →
      Admitted s' ∧ Kept s' := by
    rintro s a s' ⟨hadmitted, hkept⟩ hok hstep
    have heffect := step_effect hstep
    exact ⟨admitted_step hadmitted heffect, kept_step hadmitted hkept hok heffect⟩
  exact exec_invariant_along (step cfg) hkeep
    ⟨admitted_start addrs addrConcurrency, kept_start addrs addrConcurrency⟩ hidle hrun

theorem step_wait {k : Nat} {h : Handler} (hhandler : s.handlers[k]? = some h)
    (hcell : s.cells[h.id]? = some c) (hpc : h.pc = .wait) (hclosed : c.doneClosed = true) :
    ∃ s', step cfg s (.handler k false) = some s' ∧ s'.handlers[k]? = some { h with pc := .returned } := by
  have hlt : k < s.handlers.length := (List.getElem?_eq_some_iff.1 hhandler).1
  refine ⟨{ s with cells := s.cells.set h.id c }.setHandler k { h with pc := .returned }, ?_, ?_⟩
  · have hcontrol : h.control s.shared c false = some (.skip, .returned) := by
      simp [Handler.control, hpc, hclosed]
    simp only [step, hhandler, hcell, stepHandler, hpc, hcontrol]
    rfl
  · exact getElem?_set_self hlt

/-- If the reaper is in time, only a task that has returned loses its record. -/
theorem reaper_spares_active {addrs : List Pool.BuildkitAddr} {addrConcurrency : Nat} {as : List Action}
    {s : State} (hidle : Runs.Along (step cfg) (ReapsIdle cfg) (start addrs addrConcurrency) as)
    (hrun : Runs.exec (step cfg) (start addrs addrConcurrency) as = some s) (i : Nat) (c : Cell)
    (hcell : s.cells[i]? = some c) :
    (c.stored = false ∨ c.removing = true ∨ c.dir = false →
      ∀ bs t, Runs.exec (step cfg) s bs = some t → ∃ d, t.cells[i]? = some d ∧ t.active i d = false) ∧
    (c.pc = .returned → c.doneClosed = true ∧
      ∀ k h, s.handlers[k]? = some h → h.id = i → h.pc = .wait →
        ∃ s', step cfg s (.handler k false) = some s' ∧
          s'.handlers[k]? = some { h with pc := .returned }) ∧
    ∀ a slot, c.pc = .building a slot → c.stored = true ∧ c.dir = true := by
  obtain ⟨hadmitted, hkept⟩ := kept_run hidle hrun
  refine ⟨?_, ?_, ?_⟩
  · intro hgone bs t hlater
    refine staysIdle_run hadmitted hlater i c hcell (eq_false_of_ne_true ?_)
    intro hactive
    obtain ⟨hstored, hremoving, hdir, _⟩ := hkept.held i c hcell hactive
    simp [hstored, hremoving, hdir] at hgone
  · intro hpc
    have hclosed : c.doneClosed = true := hkept.closed i c hcell hpc
    refine ⟨hclosed, ?_⟩
    rintro k h hhandler rfl hwait
    exact step_wait hhandler hcell hwait hclosed
  · intro a slot hpc
    have hheld : c.Held := hkept.held i c hcell (active_of_running (by rw [hpc]; rfl))
    exact ⟨hheld.stored, hheld.dir⟩

def sampleReaped : List Action :=
  sampleBuild ++ [.task 0 (.result [] none)] ++ List.replicate 9 (.task 0 .go) ++ [.reap 0, .removeDir 0]

theorem reaper_spares_active_build : ∃ s c, Runs.exec (step sampleConfig) sampleStart sampleReaped = some s ∧
    s.cells[0]? = some c ∧ c.dir = false ∧ c.pc = .returned ∧ c.doneClosed = true := by
  have hruns : (Runs.exec (step sampleConfig) sampleStart sampleReaped).map (fun s =>
      s.cells.map fun c => (c.dir, c.pc)) = some [(false, .returned)] := by decide +kernel
  have hidle : Runs.Along (step sampleConfig) (ReapsIdle sampleConfig) sampleStart sampleReaped := by
    decide +kernel
  obtain ⟨s, hrun, hcells⟩ := Option.map_eq_some_iff.1 hruns
  obtain ⟨c, hcell, hc⟩ := List.map_eq_singleton_iff.1 hcells
  obtain ⟨hdir, hpc⟩ := Prod.ext_iff.1 hc
  have hcell : s.cells[0]? = some c := by rw [hcell]; rfl
  exact ⟨s, c, hrun, hcell, hdir, hpc, ((reaper_spares_active hidle hrun 0 c hcell).2.1 hpc).1⟩

def sampleReapedEarly : List Action :=
  sampleBuild ++ [.requestCancel 0] ++ List.replicate 5 (.handler 1 false) ++ [.reap 0, .removeDir 0]

def sampleReturn : List Action :=
  [.task 0 (.result [] (some contextCanceled))] ++ List.replicate 7 (.task 0 .go)

theorem reaper_removes_running_task :
    (Runs.exec (step sampleConfig) sampleStart sampleReapedEarly).map (fun s => s.cells.map fun c =>
        (c.stored, c.dir, s.active 0 c, c.pc.running && c.builds.any fun call => call.result.isNone)) =
      some [(false, false, true, true)] ∧
    (Runs.exec (step sampleConfig) sampleStart (sampleReapedEarly ++ sampleReturn)).map (fun s =>
        (s.cells.map fun c => (c.pc, c.doneClosed), s.handlers[0]?,
          (step sampleConfig s (.handler 0 false)).isNone)) =
      some ([(.returned, false)], some ⟨0, false, .wait⟩, true) := by
  decide +kernel

end BuildkitService.Daemon
