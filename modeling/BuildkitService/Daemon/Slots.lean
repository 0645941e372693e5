import BuildkitService.Daemon.Admission
import BuildkitService.Pool.Holders

/-!
# Slots of the build daemon

The daemon seen by the address pool: a task is a client that is idle, has taken a snapshot, or holds
a slot.
-/

namespace BuildkitService.Daemon

open Pool Runs List

variable {cfg : Config} {sh : Shared} {c : Cell} {op : Op} {pc pc' : TaskPc} {i : Nat} {s s' : State}
  {a : Action}

/-! ### The global semaphore -/

def TaskPc.holdsGlobal : TaskPc → Nat
  | .snapshot _ | .picking .. | .selecting .. | .releaseGlobalOnly .. | .assign .. | .dropSlot ..
  | .call .. | .building .. | .releaseSlot .. | .releaseGlobal .. => 1
  | _ => 0

def Op.MovesGlobal : Op → TaskPc → TaskPc → Prop
  | .acquireGlobalSlot, pc, pc' => pc.holdsGlobal = 0 ∧ pc'.holdsGlobal = 1
  | .releaseGlobal, pc, pc' => pc.holdsGlobal = 1 ∧ pc'.holdsGlobal = 0
  | _, pc, pc' => pc'.holdsGlobal = pc.holdsGlobal

theorem afterAttempt_holdsGlobal (c : Cell) (a : Attempt) (exporter : Exporter) (err : Option Bytes) :
    (c.afterAttempt a exporter err).holdsGlobal = 0 := by
  rw [Cell.afterAttempt.eq_def]
  split
  · rfl
  · split
    · rfl
    · split_ifs <;> rfl

theorem afterPrepare_holdsGlobal (c : Cell) (step : BuildStep) (rest : List BuildStep)
    (exporter : Exporter) (written : Except Bytes Unit) :
    (c.afterPrepare cfg step rest exporter written).holdsGlobal = 0 := by
  rw [Cell.afterPrepare]
  split <;> rfl

theorem FinishNext.movesGlobal {f : FinishPc} {next : Option FinishPc} (hfinish : FinishNext sh c f op next)
    (hpc : pc'.holdsGlobal = pc.holdsGlobal) : op.MovesGlobal pc pc' := by
  cases hfinish <;> exact hpc

theorem Next.movesGlobal (hnext : Next cfg sh c pc op pc') : op.MovesGlobal pc pc' := by
  cases hnext with
  | prepared step rest exporter written => exact afterPrepare_holdsGlobal c step rest exporter written
  | attempted a exporter err => exact afterAttempt_holdsGlobal c a exporter err
  | finishes hfinish | finished hfinish => exact hfinish.movesGlobal rfl
  | globalAcquired | globalReleasedOnly | globalReleased => exact ⟨rfl, rfl⟩
  | _ => exact rfl

theorem HandlerNext.movesGlobal {h : Handler} {pc next : HandlerPc} (hnext : HandlerNext sh c h pc op next)
    (at_ : TaskPc) : op.MovesGlobal at_ at_ := by
  cases hnext with
  | rejectFinishes hfinish | rejectFinished hfinish | cancelFinishes hfinish | cancelFinished hfinish =>
    exact hfinish.movesGlobal rfl
  | @cancelsCtx cancels | @cancelReturns cancels => cases cancels <;> exact rfl
  | _ => exact rfl

theorem onShared_globalSem {sh' : Shared} (hlimit : 0 < cfg.maxConcurrency)
    (hshared : op.onShared cfg sh = some sh') (hmoves : op.MovesGlobal pc pc') :
    sh'.globalSem + pc.holdsGlobal = sh.globalSem + pc'.holdsGlobal ∧
      (sh.globalSem ≤ cfg.maxConcurrency → sh'.globalSem ≤ cfg.maxConcurrency) := by
  have hne : cfg.maxConcurrency ≠ 0 := by omega
  have hsame : sh'.globalSem = sh.globalSem → pc'.holdsGlobal = pc.holdsGlobal →
      sh'.globalSem + pc.holdsGlobal = sh.globalSem + pc'.holdsGlobal ∧
        (sh.globalSem ≤ cfg.maxConcurrency → sh'.globalSem ≤ cfg.maxConcurrency) := by
    intro hsem hpc
    rw [hsem, hpc]
    exact ⟨rfl, id⟩
  cases op with
  | acquireGlobalSlot =>
    simp only [Op.onShared, if_neg hne] at hshared
    split at hshared
    · rename_i hroom
      cases hshared
      obtain ⟨hbefore, hafter⟩ := hmoves
      exact ⟨by simp only [hbefore, hafter], fun _ => hroom⟩
    · cases hshared
  | releaseGlobal =>
    simp only [Op.onShared, if_neg hne] at hshared
    split at hshared
    · rename_i htoken
      cases hshared
      obtain ⟨hbefore, hafter⟩ := hmoves
      exact ⟨by simp only [hbefore, hafter]; omega, fun hle => le_trans (Nat.sub_le _ _) hle⟩
    · cases hshared
  | acquireSlot | releaseSlot =>
    obtain ⟨pool, _, rfl⟩ := Option.map_eq_some_iff.1 hshared
    exact hsame rfl hmoves
  | count status =>
    cases hshared
    cases status <;> exact hsame rfl hmoves
  | _ =>
    cases hshared
    exact hsame rfl hmoves

structure GlobalCounted (cfg : Config) (s : State) : Prop where
  tokens : s.shared.globalSem = Ledger.total (fun c => c.pc.holdsGlobal) s.cells
  room : s.shared.globalSem ≤ cfg.maxConcurrency

theorem GlobalCounted.set {c' : Cell} (hcounted : GlobalCounted cfg s) (hcell : s.cells[i]? = some c)
    (hcells : s'.cells = s.cells.set i c')
    (hmoves : s'.shared.globalSem + c.pc.holdsGlobal = s.shared.globalSem + c'.pc.holdsGlobal)
    (hroom : s.shared.globalSem ≤ cfg.maxConcurrency → s'.shared.globalSem ≤ cfg.maxConcurrency) :
    GlobalCounted cfg s' := by
  refine ⟨?_, hroom hcounted.room⟩
  rw [hcells]
  exact Ledger.balance_set _ hcell hcounted.tokens hmoves

theorem globalCounted_step (hlimit : 0 < cfg.maxConcurrency) (hadmitted : Admitted s)
    (hcounted : GlobalCounted cfg s) (heffect : Effect cfg s a s') : GlobalCounted cfg s' := by
  cases heffect with
  | tick | request | closeQueue | refreshPool => exact ⟨hcounted.tokens, hcounted.room⟩
  | create spec =>
    refine ⟨?_, hcounted.room⟩
    rw [Ledger.total_append, ← hcounted.tokens]
    rfl
  | handler hhandler hcell hnext hshared =>
    obtain ⟨hmoves, hroom⟩ := onShared_globalSem hlimit hshared (hnext.movesGlobal _)
    exact hcounted.set hcell rfl hmoves hroom
  | @enqueue k leaves h c outcome hhandler hpc hcell =>
    have hcreated : c.pc = .created := (hadmitted.enqueues k h hhandler hpc).eq hcell
    refine hcounted.set hcell rfl ?_ id
    rw [hcreated]
    cases outcome <;> rfl
  | @pop mode i c hqueue hcell =>
    have hqueued : c.pc = .queued := (hadmitted.queued i hqueue).eq hcell
    refine hcounted.set hcell rfl ?_ id
    rw [hqueued]
    rfl
  | task hcell hcontrol hshared =>
    obtain ⟨hmoves, hroom⟩ := onShared_globalSem hlimit hshared (control_next hcontrol).movesGlobal
    exact hcounted.set hcell rfl hmoves hroom
  | ctxDone hcell | removeDir hcell => exact hcounted.set hcell rfl rfl id
  | reap hnow =>
    refine ⟨?_, hcounted.room⟩
    rw [Ledger.total_map, hcounted.tokens]
    congr 1
    funext c
    rw [Cell.reap]
    split <;> rfl

/-! ### The address slots -/

def TaskPc.client : TaskPc → Client
  | .picking _ _ slots | .selecting _ slots => .acquiring slots
  | .assign _ slot | .dropSlot _ slot | .call _ slot | .building _ slot | .releaseSlot _ slot _ _ =>
      .holding slot
  | _ => .idle

def TaskPc.Tries : TaskPc → Prop
  | .picking _ untried slots => ∀ slot ∈ untried, slot ∈ slots
  | _ => True

def Op.MovesClient (p : AddrPool) (key : Bytes) : Op → Client → Client → Prop
  | .snapshot excluded, before, after => before = .idle ∧ ∃ order,
      orderedAddrSlots p.slots key = some order ∧
        after = .acquiring (p.filterExcludedAddrSlots order excluded)
  | .acquireSlot slot, before, after =>
      (∃ slots, before = .acquiring slots ∧ slot ∈ slots) ∧ after = .holding slot
  | .abandonSlots, before, after => (∃ slots, before = .acquiring slots) ∧ after = .idle
  | .releaseSlot slot, before, after => before = .holding slot ∧ after = .idle
  | _, before, after => after = before

theorem afterAttempt_client (c : Cell) (a : Attempt) (exporter : Exporter) (err : Option Bytes) :
    (c.afterAttempt a exporter err).client = .idle ∧ (c.afterAttempt a exporter err).Tries := by
  rw [Cell.afterAttempt.eq_def]
  split
  · exact ⟨rfl, trivial⟩
  · split
    · exact ⟨rfl, trivial⟩
    · split_ifs <;> exact ⟨rfl, trivial⟩

theorem afterPrepare_client (c : Cell) (step : BuildStep) (rest : List BuildStep)
    (exporter : Exporter) (written : Except Bytes Unit) :
    (c.afterPrepare cfg step rest exporter written).client = .idle ∧
      (c.afterPrepare cfg step rest exporter written).Tries := by
  rw [Cell.afterPrepare]
  split <;> exact ⟨rfl, trivial⟩

theorem FinishNext.movesClient {f : FinishPc} {next : Option FinishPc} (hfinish : FinishNext sh c f op next)
    (key : Bytes) (client : Client) : op.MovesClient sh.pool key client client := by
  cases hfinish <;> exact rfl

theorem Next.movesClient (hnext : Next cfg sh c pc op pc') (htries : pc.Tries) :
    op.MovesClient sh.pool c.spec.scheduleKey pc.client pc'.client := by
  cases hnext with
  | prepared step rest exporter written => exact (afterPrepare_client c step rest exporter written).1
  | attempted a exporter err => exact (afterAttempt_client c a exporter err).1
  | finishes hfinish | finished hfinish => exact hfinish.movesClient _ _
  | snapshotTaken horder => exact ⟨rfl, _, horder, rfl⟩
  | picked a slot untried slots => exact ⟨⟨slots, rfl, htries slot mem_cons_self⟩, rfl⟩
  | selected hslot => exact ⟨⟨_, rfl, hslot⟩, rfl⟩
  | noAddress | selectCanceled => exact ⟨⟨_, rfl⟩, rfl⟩
  | dropped | slotReleased => exact ⟨rfl, rfl⟩
  | _ => exact rfl

theorem Next.tries (hnext : Next cfg sh c pc op pc') (htries : pc.Tries) : pc'.Tries := by
  cases hnext with
  | prepared step rest exporter written => exact (afterPrepare_client c step rest exporter written).2
  | attempted a exporter err => exact (afterAttempt_client c a exporter err).2
  | snapshotTaken horder => exact fun slot hslot => hslot
  | pickedNot hfull => exact fun slot hslot => htries slot (mem_cons_of_mem _ hslot)
  | _ => exact trivial

theorem HandlerNext.movesClient {h : Handler} {pc next : HandlerPc} (hnext : HandlerNext sh c h pc op next)
    (key : Bytes) (client : Client) : op.MovesClient sh.pool key client client := by
  cases hnext with
  | rejectFinishes hfinish | rejectFinished hfinish | cancelFinishes hfinish | cancelFinished hfinish =>
    exact hfinish.movesClient _ _
  | @cancelsCtx cancels | @cancelReturns cancels => cases cancels <;> exact rfl
  | _ => exact rfl

def State.system (s : State) : System := ⟨s.shared.pool, s.cells.map fun c => c.pc.client⟩

theorem set_same {α : Type} {l : List α} {x : α} (h : l[i]? = some x) : l.set i x = l := by
  obtain ⟨hlt, rfl⟩ := List.getElem?_eq_some_iff.1 h
  exact set_getElem_self hlt

theorem perform_system {c' : Cell} {sh' : Shared} (hcell : s.cells[i]? = some c)
    (hshared : op.onShared cfg s.shared = some sh')
    (hmoves : op.MovesClient s.shared.pool c.spec.scheduleKey c.pc.client c'.pc.client)
    (hpool : s'.shared.pool = sh'.pool) (hcells : s'.cells = s.cells.set i c') :
    ∃ bs, exec Pool.step s.system bs = some s'.system := by
  have hclients : (s.cells.set i c').map (fun c => c.pc.client) =
      (s.cells.map fun c => c.pc.client).set i c'.pc.client := map_set
  have hclient : (s.cells.map fun c => c.pc.client)[i]? = some c.pc.client := by
    rw [getElem?_map, hcell]
    rfl
  have hsystem : s'.system = ⟨sh'.pool, (s.cells.map fun c => c.pc.client).set i c'.pc.client⟩ := by
    rw [State.system, hpool, hcells, hclients]
  have hquiet : sh'.pool = s.shared.pool → c'.pc.client = c.pc.client →
      ∃ bs, exec Pool.step s.system bs = some s'.system := by
    intro hsame heq
    refine ⟨[], ?_⟩
    rw [hsystem, hsame, heq, set_same hclient]
    rfl
  have hone : ∀ b, Pool.step s.system b = some s'.system →
      ∃ bs, exec Pool.step s.system bs = some s'.system := by
    intro b hb
    exact ⟨[b], by rw [exec, hb]; rfl⟩
  rw [hsystem] at hone
  cases op with
  | snapshot excluded =>
    obtain ⟨hidle, order, horder, hafter⟩ := hmoves
    cases hshared
    rw [hsystem]
    apply hone (.snapshot i c.spec.scheduleKey excluded)
    rw [hidle] at hclient
    rw [hafter]
    simp only [Pool.step, State.system, hclient, horder]
    rfl
  | acquireSlot slot =>
    obtain ⟨⟨slots, hbefore, hslot⟩, hafter⟩ := hmoves
    obtain ⟨pool, hacquire, rfl⟩ := Option.map_eq_some_iff.1 hshared
    rw [hsystem]
    apply hone (.acquire i slot)
    rw [hbefore] at hclient
    rw [hafter]
    simp only [Pool.step, State.system, hclient, hacquire, if_pos hslot]
    rfl
  | abandonSlots =>
    obtain ⟨⟨slots, hbefore⟩, hafter⟩ := hmoves
    cases hshared
    rw [hsystem]
    apply hone (.abandon i)
    rw [hbefore] at hclient
    rw [hafter]
    simp only [Pool.step, State.system, hclient]
    rfl
  | releaseSlot slot =>
    obtain ⟨hbefore, hafter⟩ := hmoves
    obtain ⟨pool, hrelease, rfl⟩ := Option.map_eq_some_iff.1 hshared
    rw [hsystem]
    apply hone (.release i)
    rw [hbefore] at hclient
    rw [hafter]
    simp only [Pool.step, State.system, hclient, hrelease]
    rfl
  | replacePool addrs =>
    cases hshared
    rw [hsystem]
    apply hone (.replace addrs)
    rw [show c'.pc.client = c.pc.client from hmoves, set_same hclient]
    rfl
  | acquireGlobalSlot | releaseGlobal =>
    refine hquiet ?_ hmoves
    simp only [Op.onShared] at hshared
    split_ifs at hshared <;> cases hshared <;> rfl
  | count status =>
    refine hquiet ?_ hmoves
    cases hshared
    cases status <;> rfl
  | _ =>
    cases hshared
    exact hquiet rfl hmoves

theorem reap_pc (now : Nat) (c : Cell) : (c.reap cfg now).pc = c.pc := by
  rw [Cell.reap]
  split <;> rfl

theorem system_step (hadmitted : Admitted s) (htries : ∀ c ∈ s.cells, c.pc.Tries)
    (heffect : Effect cfg s a s') : ∃ bs, exec Pool.step s.system bs = some s'.system := by
  have hskip : ∀ {i : Nat} {c c' : Cell} {s' : State}, s.cells[i]? = some c →
      c'.pc.client = c.pc.client → s'.shared = s.shared → s'.cells = s.cells.set i c' →
      ∃ bs, exec Pool.step s.system bs = some s'.system := by
    intro i c c' s' hcell hclient hshared hcells
    have hop : Op.skip.onShared cfg s.shared = some s.shared := rfl
    exact perform_system hcell hop hclient (by rw [hshared]) hcells
  cases heffect with
  | tick | request | closeQueue => exact ⟨[], rfl⟩
  | create spec => exact ⟨[.join], by simp [exec, Pool.step, State.system, Cell.create, TaskPc.client]⟩
  | handler hhandler hcell hnext hshared =>
    refine perform_system hcell hshared ?_ rfl rfl
    exact hnext.movesClient _ _
  | @enqueue k leaves h c outcome hhandler hpc hcell =>
    have hcreated : c.pc = .created := (hadmitted.enqueues k h hhandler hpc).eq hcell
    refine hskip hcell ?_ rfl rfl
    rw [hcreated]
    cases outcome <;> rfl
  | @pop mode i c hqueue hcell =>
    have hqueued : c.pc = .queued := (hadmitted.queued i hqueue).eq hcell
    refine hskip hcell ?_ rfl rfl
    rw [hqueued]
    rfl
  | task hcell hcontrol hshared =>
    have hmoves := (control_next hcontrol).movesClient (htries _ (mem_of_getElem? hcell))
    exact perform_system hcell hshared hmoves rfl rfl
  | ctxDone hcell | removeDir hcell =>
    refine hskip hcell ?_ rfl rfl
    rfl
  | reap hnow =>
    refine ⟨[], ?_⟩
    simp [exec, State.system, Function.comp_def, reap_pc]
  | refreshPool addrs => exact ⟨[.replace addrs], rfl⟩

theorem tries_step (htries : ∀ c ∈ s.cells, c.pc.Tries) (heffect : Effect cfg s a s') :
    ∀ c ∈ s'.cells, c.pc.Tries := by
  have hset : ∀ {i : Nat} {c' : Cell}, c'.pc.Tries → ∀ d ∈ s.cells.set i c', d.pc.Tries := by
    intro i c' hc' d hd
    rcases mem_or_eq_of_mem_set hd with hold | rfl
    · exact htries d hold
    · exact hc'
  cases heffect with
  | tick | request | closeQueue | refreshPool => exact htries
  | create spec =>
    intro d hd
    rcases mem_append.1 hd with hold | hnew
    · exact htries d hold
    · rw [mem_singleton.1 hnew]
      exact trivial
  | handler hhandler hcell | ctxDone hcell | removeDir hcell =>
    have hold := htries _ (mem_of_getElem? hcell)
    refine hset ?_
    exact hold
  | @enqueue k leaves h c outcome hhandler hpc hcell => exact hset (by cases outcome <;> exact trivial)
  | pop hqueue hcell => exact hset trivial
  | task hcell hcontrol hshared =>
    exact hset ((control_next hcontrol).tries (htries _ (mem_of_getElem? hcell)))
  | reap hnow =>
    intro d hd
    obtain ⟨c, hc, rfl⟩ := List.mem_map.1 hd
    rw [reap_pc]
    exact htries c hc

/-! ### Conservation -/

def TaskPc.builds : TaskPc → Nat
  | .building .. => 1
  | _ => 0

def TaskPc.buildsOn (slot : Nat) : TaskPc → Nat
  | .building _ used => if used = slot then 1 else 0
  | _ => 0

theorem builds_le_holdsGlobal (pc : TaskPc) : pc.builds ≤ pc.holdsGlobal := by
  cases pc <;> simp [TaskPc.builds, TaskPc.holdsGlobal]

theorem buildsOn_le_holds (pc : TaskPc) (slot : Nat) : pc.buildsOn slot ≤ pc.client.holds slot := by
  cases pc <;> simp [TaskPc.buildsOn, TaskPc.client, Client.holds]

structure Conserved (cfg : Config) (addrConcurrency : Nat) (s : State) : Prop where
  global : 0 < cfg.maxConcurrency → GlobalCounted cfg s
  slots : Counted s.system
  capacity : s.shared.pool.concurrency = addrConcurrency

theorem conserved_run {addrs : List BuildkitAddr} {addrConcurrency : Nat} {as : List Action}
    (hrun : exec (step cfg) (start addrs addrConcurrency) as = some s) : Conserved cfg addrConcurrency s := by
  have hkeep : ∀ s a s', (Admitted s ∧ (∀ c ∈ s.cells, c.pc.Tries) ∧
      (0 < cfg.maxConcurrency → GlobalCounted cfg s)) → step cfg s a = some s' →
      Admitted s' ∧ (∀ c ∈ s'.cells, c.pc.Tries) ∧ (0 < cfg.maxConcurrency → GlobalCounted cfg s') := by
    rintro s a s' ⟨hadmitted, htries, hglobal⟩ hstep
    have heffect := step_effect hstep
    exact ⟨admitted_step hadmitted heffect, tries_step htries heffect,
      fun hlimit => globalCounted_step hlimit hadmitted (hglobal hlimit) heffect⟩
  have hstart : Admitted (start addrs addrConcurrency) ∧
      (∀ c ∈ (start addrs addrConcurrency).cells, c.pc.Tries) ∧
      (0 < cfg.maxConcurrency → GlobalCounted cfg (start addrs addrConcurrency)) :=
    ⟨admitted_start addrs addrConcurrency, by simp [start], fun _ => ⟨rfl, Nat.zero_le _⟩⟩
  have hglobal := (exec_invariant (step cfg) hkeep hstart hrun).2.2
  have hsim : ∀ s a s', (Admitted s ∧ (∀ c ∈ s.cells, c.pc.Tries) ∧
      (0 < cfg.maxConcurrency → GlobalCounted cfg s)) → step cfg s a = some s' →
      ∃ bs, exec Pool.step s.system bs = some s'.system :=
    fun s a s' hinv hstep => system_step hinv.1 hinv.2.1 (step_effect hstep)
  obtain ⟨bs, hpool⟩ := exec_simulates (step cfg) hkeep hsim hstart hrun
  -- The pool of the daemon starts with the refresh of `newAddrPool`.
  have hfirst : exec Pool.step (Pool.initial addrConcurrency) [.replace addrs] =
      some (start addrs addrConcurrency).system := rfl
  have hwhole := exec_append Pool.step hfirst hpool
  exact ⟨hglobal, counted_run (counted_initial addrConcurrency) hwhole, concurrency_run hwhole⟩

/-- The tokens of every slot are its holders. -/
theorem slots_conserved {addrs : List BuildkitAddr} {addrConcurrency : Nat} {as : List Action} {s : State}
    (hrun : Runs.exec (step cfg) (start addrs addrConcurrency) as = some s) :
    (0 < cfg.maxConcurrency →
      s.shared.globalSem = Ledger.total (fun c => c.pc.holdsGlobal) s.cells ∧
      Ledger.total (fun c => c.pc.builds) s.cells ≤ cfg.maxConcurrency) ∧
    (∀ slot o, s.shared.pool.objects[slot]? = some o →
      o.sem = Ledger.total (fun c => c.pc.client.holds slot) s.cells ∧
      Ledger.total (fun c => c.pc.buildsOn slot) s.cells ≤ addrConcurrency) ∧
    ∀ c ∈ s.cells, ∀ a, (c.pc = .refresh a ∨ ∃ exporter err, c.pc = .attemptDone a exporter err) →
      c.pc.holdsGlobal = 0 ∧ ∀ slot, c.pc.client.holds slot = 0 := by
  have hconserved := conserved_run hrun
  refine ⟨?_, ?_, ?_⟩
  · intro hlimit
    have hglobal := hconserved.global hlimit
    refine ⟨hglobal.tokens, ?_⟩
    calc Ledger.total (fun c => c.pc.builds) s.cells
        ≤ Ledger.total (fun c => c.pc.holdsGlobal) s.cells :=
          Ledger.total_le_total _ fun c _ => builds_le_holdsGlobal c.pc
      _ = s.shared.globalSem := hglobal.tokens.symm
      _ ≤ cfg.maxConcurrency := hglobal.room
  · intro slot o ho
    have htokens : o.sem = Ledger.total (fun c => c.pc.client.holds slot) s.cells := by
      rw [hconserved.slots.tokens slot o ho, State.system, Ledger.total_map]
    refine ⟨htokens, ?_⟩
    calc Ledger.total (fun c => c.pc.buildsOn slot) s.cells
        ≤ Ledger.total (fun c => c.pc.client.holds slot) s.cells :=
          Ledger.total_le_total _ fun c _ => buildsOn_le_holds c.pc slot
      _ = o.sem := htokens.symm
      _ ≤ s.shared.pool.concurrency := hconserved.slots.room slot o ho
      _ = addrConcurrency := hconserved.capacity
  · rintro c _ a (hpc | ⟨exporter, err, hpc⟩) <;> rw [hpc] <;> exact ⟨rfl, fun _ => rfl⟩

theorem slots_conserved_building : ∃ s, Runs.exec (step sampleConfig) sampleStart sampleBuild = some s ∧
    s.shared.globalSem = 1 ∧ Ledger.total (fun c => c.pc.holdsGlobal) s.cells = 1 ∧
    Ledger.total (fun c => c.pc.builds) s.cells = 1 := by
  have hruns : (Runs.exec (step sampleConfig) sampleStart sampleBuild).map (fun s =>
      (s.shared.globalSem, Ledger.total (fun c => c.pc.builds) s.cells)) = some (1, 1) := by decide +kernel
  obtain ⟨s, hrun, hcounts⟩ := Option.map_eq_some_iff.1 hruns
  obtain ⟨hglobal, hbuilds⟩ := Prod.ext_iff.1 hcounts
  have hconserved := (slots_conserved hrun).1 (by decide)
  exact ⟨s, hrun, hglobal, hconserved.1.symm.trans hglobal, hbuilds⟩

end BuildkitService.Daemon
