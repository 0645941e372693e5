import BuildkitService.Daemon.Slots
import BuildkitService.Daemon.Status

/-!
# Deterministic failures

`isDeterministicBuildError` is asked in `runBuildTask`, after `runBuildStepAttempt` has returned.
-/

namespace BuildkitService.Daemon

open Strings Pool Threads List Option Runs

variable {cfg : Config} {sh : Shared} {c c' : Cell} {op : Op} {h : Handler} {a : Action}
  {i addrConcurrency j : Nat} {s s' : State} {pc pc' : TaskPc} {addrs : List BuildkitAddr} {err : Bytes}
  {call : BuildCall}

structure Cell.Alive (c : Cell) : Prop where
  stored : c.stored = true
  running : c.record.status = .running

def HandlerPc.interrupts : HandlerPc → Bool
  | .cancelCtx .. | .cancelFinish _ => true
  | _ => false

def TaskPc.assigned : TaskPc → Bool
  | .call .. | .building .. => true
  | _ => false

def Cell.over (c : Cell) : Prop := c.record.status.terminal = true ∨ c.stored = false

structure Steady (s : State) : Prop where
  interrupts : ∀ h ∈ s.handlers, h.pc.interrupts = true → ∀ c, s.cells[h.id]? = some c → c.over
  finishedAt : ∀ (i : Nat) (c : Cell), s.cells[i]? = some c → c.record.finishedAt ≠ none →
    c.record.status.terminal = true
  assigned : ∀ (i : Nat) (c : Cell), s.cells[i]? = some c → c.pc.assigned = true →
    c.record.status = .canceled ∨ c.Alive

structure Ages (c c' : Cell) : Prop where
  status : c.record.status.terminal = true → c'.record.status = c.record.status
  stored : c.stored = false → c'.stored = false
  finishedAt : (c.record.finishedAt ≠ none → c.record.status.terminal = true) →
    c'.record.finishedAt ≠ none → c'.record.status.terminal = true

theorem Ages.over (hages : Ages c c') (hover : c.over) : c'.over := by
  rcases hover with hterminal | hstored
  · exact .inl (by rw [hages.status hterminal]; exact hterminal)
  · exact .inr (hages.stored hstored)

theorem Ages.of_record (hrecord : c'.record = c.record) (hstored : c.stored = false → c'.stored = false) :
    Ages c c' :=
  ⟨fun _ => by rw [hrecord], hstored, by rw [hrecord]; exact id⟩

theorem onCell_stored (hstored : c.stored = false) : (op.onCell sh c).stored = false := by
  have hnext := onCell_next sh c op
  generalize op.onCell sh c = c' at hnext ⊢
  cases hnext with
  | deleted => rfl
  | _ => exact hstored

theorem onCell_finishedAt (hsettled : Settled c.record) (hop : op.FinishesTerminal)
    (hfinished : c.record.finishedAt ≠ none → c.record.status.terminal = true) :
    (op.onCell sh c).record.finishedAt ≠ none → (op.onCell sh c).record.status.terminal = true := by
  have hnext := onCell_next sh c op
  generalize op.onCell sh c = c' at hnext ⊢
  cases hnext with
  | rewritten _ hrecord =>
    cases hrecord with
    | queued hopen queuedAt =>
      -- a record that is opened again had no `finishedAt`, for it was open before
      intro hnone
      have hterminal := hfinished hnone
      rw [terminal_iff.2 hopen] at hterminal
      cases hterminal
    | assigned hfree hslot =>
      intro hnone
      exact absurd (hsettled.canceled_or_observed (hfinished hnone)) hfree
    | finished _ _ => exact fun _ => hop
    | canceled _ => exact fun _ => rfl
  | _ => exact hfinished

theorem onCell_ages (hsettled : Settled c.record) (hop : op.FinishesTerminal) : Ages c (op.onCell sh c) :=
  ⟨(onCell_settled hsettled hop).2, onCell_stored, onCell_finishedAt hsettled hop⟩

theorem HandlerNext.spares {pc next : HandlerPc} (hnext : HandlerNext sh c h pc op next) (halive : c.Alive)
    (hrejects : pc.rejects = false) (hinterrupts : pc.interrupts = true → c.over) :
    op = .skip ∨ (pc = .cancel ∧ op = .cancelRecord) := by
  have hnot : ¬c.over := by
    rintro (hterminal | hstored)
    · rw [halive.running] at hterminal
      cases hterminal
    · rw [halive.stored] at hstored
      cases hstored
  cases hnext with
  | rejectFinishes | rejectFinished | rejectCancels | rejectCloses | rejectDeletes => cases hrejects
  | cancelsCtx | cancelReturns | cancelFinishes | cancelFinished => exact absurd (hinterrupts rfl) hnot
  | cancels hstored => exact .inr ⟨rfl, rfl⟩
  | waited | cancelGone | shutdownGone => exact .inl rfl

theorem ages_step (haccounted : Accounted s) (heffect : Effect cfg s a s') (hcell' : s'.cells[i]? = some c') :
    (∃ c, s.cells[i]? = some c ∧ Ages c c') ∨
      (i = s.cells.length ∧ c' = .create c'.spec s.shared.clock) := by
  have hsame : s'.cells = s.cells → ∃ c, s.cells[i]? = some c ∧ Ages c c' := by
    intro hcells
    exact ⟨c', by rw [← hcells, hcell'], .of_record rfl id⟩
  have hset : ∀ {j : Nat} {d d' : Cell}, s.cells[j]? = some d → s'.cells = s.cells.set j d' → Ages d d' →
      ∃ c, s.cells[i]? = some c ∧ Ages c c' := by
    intro j d d' hd hcells hages
    rw [hcells] at hcell'
    rcases getElem?_set_cases hcell' with ⟨rfl, rfl⟩ | ⟨_, hold⟩
    · exact ⟨d, hd, hages⟩
    · exact ⟨c', hold, .of_record rfl id⟩
  cases heffect with
  | tick | request | closeQueue | refreshPool => exact .inl (hsame rfl)
  | create spec =>
    rcases getElem?_snoc hcell' with hold | ⟨hi, rfl⟩
    · exact .inl ⟨c', hold, .of_record rfl id⟩
    · exact .inr ⟨hi, rfl⟩
  | @handler k leaves h c op next sh hhandler hcell hnext hshared =>
    obtain ⟨hsettled, hop⟩ := haccounted.handlerOp hhandler hcell hnext
    have hages : Ages c (op.onCell s.shared c) := onCell_ages hsettled hop
    exact .inl (hset hcell rfl ⟨hages.status, hages.stored, hages.finishedAt⟩)
  | @task j choice c op pc sh hcell hcontrol hshared =>
    obtain ⟨hsettled, hop⟩ := haccounted.taskOp hcell (control_next hcontrol)
    have hages : Ages c (op.onCell s.shared c) := onCell_ages hsettled hop
    exact .inl (hset hcell rfl ⟨hages.status, hages.stored, hages.finishedAt⟩)
  | enqueue hhandler hpc hcell | pop hqueue hcell | ctxDone hcell | removeDir hcell =>
    exact .inl (hset hcell rfl (.of_record rfl id))
  | @reap now hnow =>
    rw [getElem?_map] at hcell'
    obtain ⟨c, hcell, rfl⟩ := map_eq_some_iff.1 hcell'
    refine .inl ⟨c, hcell, ?_⟩
    rw [Cell.reap]
    split
    · exact .of_record rfl fun _ => rfl
    · exact .of_record rfl id

theorem Record.cancel_terminal (r : Record) (now : Nat) : (r.cancel now).status.terminal = true := by
  rw [Record.cancel]
  split
  · rfl
  · rename_i hopen
    exact eq_true_of_ne_false fun hterminal => hopen (terminal_iff.1 hterminal)

theorem HandlerNext.over {pc next : HandlerPc} (hnext : HandlerNext sh c h pc op next)
    (hages : Ages c (op.onCell sh c)) (hbefore : pc.interrupts = true → c.over)
    (hafter : next.interrupts = true) : (op.onCell sh c).over := by
  cases hnext with
  | cancels hstored =>
    left
    simp only [Op.onCell, Cell.update, if_pos hstored]
    exact Record.cancel_terminal c.record sh.clock
  | shutdownGone hstored hshutdown => exact .inr (hages.stored hstored)
  | cancelsCtx | cancelFinishes => exact hages.over (hbefore rfl)
  | rejectFinishes | rejectFinished | rejectCancels | rejectCloses | rejectDeletes | waited | cancelGone
  | cancelReturns | cancelFinished => cases hafter

theorem Next.alive (hnext : Next cfg sh c pc op pc') (hassigned : pc'.assigned = true)
    (hslot : ∀ a slot, pc = .assign a slot → ∃ o, sh.pool.objects[slot]? = some o) :
    (op.onCell sh c).Alive ∨ (pc.assigned = true ∧ (op.onCell sh c).record = c.record ∧
      (op.onCell sh c).stored = c.stored) := by
  cases hnext with
  | @assigned a slot hstored hstatus hobserved =>
    obtain ⟨o, ho⟩ := hslot a slot rfl
    left
    simp only [Op.onCell, ho, Cell.update, if_pos hstored, Record.assign]
    rw [if_neg (by simp [hstatus, hobserved])]
    exact ⟨hstored, rfl⟩
  | called a slot => exact .inr ⟨rfl, rfl, rfl⟩
  | prepared step rest exporter written =>
    rw [Cell.afterPrepare] at hassigned
    split at hassigned <;> cases hassigned
  | attempted a exporter err =>
    rw [Cell.afterAttempt.eq_def] at hassigned
    split at hassigned
    · cases hassigned
    · split at hassigned
      · cases hassigned
      · split_ifs at hassigned <;> cases hassigned
  | _ => cases hassigned

structure Sound (cfg : Config) (addrConcurrency : Nat) (s : State) : Prop where
  admitted : Admitted s
  accounted : Accounted s
  conserved : Conserved cfg addrConcurrency s

theorem sound_run {as : List Action} (hrun : exec (step cfg) (start addrs addrConcurrency) as = some s) :
    Sound cfg addrConcurrency s :=
  ⟨(accounted_run hrun).1, (accounted_run hrun).2, conserved_run hrun⟩

theorem reached_step {b : Action} (hrun : ∃ as, exec (step cfg) (start addrs addrConcurrency) as = some s)
    (hstep : step cfg s b = some s') : ∃ as, exec (step cfg) (start addrs addrConcurrency) as = some s' := by
  obtain ⟨as, hrun⟩ := hrun
  refine ⟨as ++ [b], exec_append (step cfg) hrun ?_⟩
  rw [exec_cons_eq_some]
  exact ⟨s', hstep, rfl⟩

theorem Sound.slot (hsound : Sound cfg addrConcurrency s) {slot : Nat} (hcell : s.cells[i]? = some c)
    (hclient : c.pc.client = .holding slot) : ∃ o, s.shared.pool.objects[slot]? = some o := by
  have hmem : Client.holding slot ∈ s.system.clients :=
    List.mem_map.2 ⟨c, mem_of_getElem? hcell, hclient⟩
  have hlt := hsound.conserved.slots.refs_lt _ hmem slot (by simp [Client.refs])
  exact ⟨_, getElem?_eq_getElem hlt⟩

theorem reap_alive {now : Nat} (halive : c.Alive)
    (hfinished : c.record.finishedAt ≠ none → c.record.status.terminal = true) : c.reap cfg now = c := by
  have hnone : c.record.finishedAt = none := by
    by_contra hsome
    have hterminal := hfinished hsome
    rw [halive.running] at hterminal
    cases hterminal
  rw [Cell.reap, Record.expired, hnone]
  simp

theorem assigned_handler {k : Nat} {next : HandlerPc} (hadmitted : Admitted s) (hsteady : Steady s)
    (hhandler : s.handlers[k]? = some h) (hcell : s.cells[h.id]? = some c)
    (hnext : HandlerNext s.shared c h h.pc op next) (hpc : c.pc ≠ .rejected) (halive : c.Alive) :
    op = .skip ∨ (h.pc = .cancel ∧ op = .cancelRecord) := by
  refine hnext.spares halive ?_ fun hinterrupts =>
    hsteady.interrupts h (mem_of_getElem? hhandler) hinterrupts c hcell
  by_contra hrejects
  exact hpc ((hadmitted.rejects k h hhandler (eq_true_of_ne_false hrejects)).eq hcell)

theorem steady_interrupts (hsound : Sound cfg addrConcurrency s) (hsteady : Steady s)
    (heffect : Effect cfg s a s') :
    ∀ h ∈ s'.handlers, h.pc.interrupts = true → ∀ c, s'.cells[h.id]? = some c → c.over := by
  -- A handler that was there before the step, where its task has aged.
  have hold : ∀ h ∈ s.handlers, h.pc.interrupts = true → ∀ c, s'.cells[h.id]? = some c → c.over := by
    intro h hmem hinterrupts c' hcell'
    rcases ages_step hsound.accounted heffect hcell' with ⟨c, hcell, hages⟩ | ⟨hid, _⟩
    · exact hages.over (hsteady.interrupts h hmem hinterrupts c hcell)
    · exact absurd (hsound.accounted.ids h hmem) (by omega)
  have hadded : ∀ g : Handler, g.pc.interrupts = false → s'.handlers = s.handlers ++ [g] →
      ∀ h ∈ s'.handlers, h.pc.interrupts = true → ∀ c, s'.cells[h.id]? = some c → c.over := by
    intro g hg hhandlers h hmem hinterrupts
    rw [hhandlers] at hmem
    rcases mem_append.1 hmem with hmem | hnew
    · exact hold h hmem hinterrupts
    · rw [mem_singleton.1 hnew, hg] at hinterrupts
      cases hinterrupts
  cases heffect with
  | create spec => exact hadded ⟨s.cells.length, false, .enqueue⟩ rfl rfl
  | request shutdown hid => exact hadded ⟨_, shutdown, .cancel⟩ rfl rfl
  | tick | pop | closeQueue | task | ctxDone | reap | removeDir | refreshPool => exact hold
  | @enqueue k leaves h c outcome hhandler hpc hcell =>
    intro g hg hinterrupts
    rcases mem_or_eq_of_mem_set hg with hmem | rfl
    · exact hold g hmem hinterrupts
    · exfalso
      revert hinterrupts
      cases outcome <;> cases c.spec.sync <;> simp [Enqueued.handlerPc, HandlerPc.interrupts]
  | @handler k leaves h c op next sh hhandler hcell hnext hshared =>
    intro g hg hinterrupts
    rcases mem_or_eq_of_mem_set hg with hmem | rfl
    · exact hold g hmem hinterrupts
    · intro c' hcell'
      obtain ⟨hsettled, hop⟩ := hsound.accounted.handlerOp hhandler hcell hnext
      have hover : (op.onCell s.shared c).over := hnext.over (onCell_ages hsettled hop)
        (fun hbefore => hsteady.interrupts h (mem_of_getElem? hhandler) hbefore c hcell) hinterrupts
      rw [getElem?_set_self (List.getElem?_eq_some_iff.1 hcell).1, Option.some.injEq] at hcell'
      rw [← hcell']
      exact hover

theorem cancelRecord_alive (halive : c.Alive) : (Op.cancelRecord.onCell sh c).record.status = .canceled := by
  simp only [Op.onCell, Cell.update, if_pos halive.stored, Record.cancel]
  rw [if_pos (.inr halive.running)]

theorem steady_assigned (hsound : Sound cfg addrConcurrency s) (hsteady : Steady s)
    (heffect : Effect cfg s a s') (i : Nat) (c' : Cell) (hcell' : s'.cells[i]? = some c')
    (hassigned : c'.pc.assigned = true) : c'.record.status = .canceled ∨ c'.Alive := by
  have hset : ∀ {j : Nat} {d : Cell}, s'.cells = s.cells.set j d →
      (d.pc.assigned = true → d.record.status = .canceled ∨ d.Alive) →
      c'.record.status = .canceled ∨ c'.Alive := by
    intro j d hcells hd
    rw [hcells] at hcell'
    rcases getElem?_set_cases hcell' with ⟨rfl, rfl⟩ | ⟨_, hold⟩
    · exact hd hassigned
    · exact hsteady.assigned i c' hold hassigned
  cases heffect with
  | tick | request | closeQueue | refreshPool => exact hsteady.assigned i c' hcell' hassigned
  | create spec =>
    rcases getElem?_snoc hcell' with hold | ⟨_, rfl⟩
    · exact hsteady.assigned i c' hold hassigned
    · cases hassigned
  | @handler k leaves h c op next sh hhandler hcell hnext hshared =>
    refine hset rfl fun hpc => ?_
    obtain ⟨hsettled, hop⟩ := hsound.accounted.handlerOp hhandler hcell hnext
    rcases hsteady.assigned h.id c hcell hpc with hcanceled | halive
    · left
      exact ((onCell_settled hsettled hop).2 (by rw [hcanceled]; rfl)).trans hcanceled
    · have hrejected : c.pc ≠ .rejected := by
        intro hrejected
        simp only [hrejected] at hpc
        cases hpc
      rcases assigned_handler hsound.admitted hsteady hhandler hcell hnext hrejected halive with rfl | ⟨_, rfl⟩
      · exact .inr ⟨halive.stored, halive.running⟩
      · exact .inl (cancelRecord_alive halive)
  | @enqueue k leaves h c outcome hhandler hpc hcell =>
    refine hset rfl fun hassigned => ?_
    cases outcome <;> cases hassigned
  | pop hqueue hcell => exact hset rfl fun hassigned => by cases hassigned
  | @task j choice c op pc sh hcell hcontrol hshared =>
    refine hset rfl fun hpc => ?_
    have hslot : ∀ a slot, c.pc = .assign a slot → ∃ o, s.shared.pool.objects[slot]? = some o := by
      intro a slot hpc
      exact hsound.slot hcell (by rw [hpc]; rfl)
    rcases (control_next hcontrol).alive hpc hslot with halive | ⟨hbefore, hrecord, hstored⟩
    · exact .inr ⟨halive.stored, halive.running⟩
    · rcases hsteady.assigned j c hcell hbefore with hcanceled | halive
      · left
        simp only [hrecord, hcanceled]
      · exact .inr ⟨hstored.trans halive.stored, by simp only [hrecord, halive.running]⟩
  | @ctxDone j err c hcell | @removeDir j c hcell =>
    refine hset rfl fun hpc => ?_
    rcases hsteady.assigned j c hcell hpc with hcanceled | halive
    · exact .inl hcanceled
    · exact .inr ⟨halive.stored, halive.running⟩
  | @reap now hnow =>
    rw [getElem?_map] at hcell'
    obtain ⟨c, hcell, rfl⟩ := map_eq_some_iff.1 hcell'
    rw [reap_pc] at hassigned
    rcases hsteady.assigned i c hcell hassigned with hcanceled | halive
    · left
      rw [Cell.reap]
      split <;> exact hcanceled
    · rw [reap_alive halive (hsteady.finishedAt i c hcell)]
      exact .inr halive

theorem steady_step (hsound : Sound cfg addrConcurrency s) (hsteady : Steady s) (heffect : Effect cfg s a s') :
    Steady s' := by
  refine ⟨steady_interrupts hsound hsteady heffect, ?_, steady_assigned hsound hsteady heffect⟩
  intro i c' hcell'
  rcases ages_step hsound.accounted heffect hcell' with ⟨c, hcell, hages⟩ | ⟨_, hcreated⟩
  · exact hages.finishedAt (hsteady.finishedAt i c hcell)
  · rw [hcreated]
    simp [Cell.create, Record.created]

theorem steady_start (addrs : List BuildkitAddr) (addrConcurrency : Nat) :
    Steady (start addrs addrConcurrency) := by
  constructor <;> simp [start]

def BuildCall.fatal (call : BuildCall) : Option Bytes :=
  match call.result with
  | some ⟨_, some err, false⟩ => if isDeterministicBuildError err then some err else none
  | _ => none

def Cell.failedFatally (c : Cell) : Bool := c.builds.any fun call => call.fatal.isSome

inductive Failing (sh : Shared) (c : Cell) (err : Bytes) : TaskPc → Prop
  | releaseSlot {a : Attempt} {slot : Nat} {exporter : Exporter} (halive : c.Alive) (hctx : c.ctx = none)
      (hworker : ∃ addr, sh.pool.address slot = some addr ∧ isRetryableBuildkitAddrError err addr = false) :
      Failing sh c err (.releaseSlot a slot exporter (some err))
  | releaseGlobal {a : Attempt} {addr : Bytes} {exporter : Exporter} (halive : c.Alive) (hctx : c.ctx = none)
      (hworker : isRetryableBuildkitAddrError err addr = false) :
      Failing sh c err (.releaseGlobal a addr exporter (some err))
  | classify {a : Attempt} {addr : Bytes} {exporter : Exporter} (halive : c.Alive) (hctx : c.ctx = none)
      (hworker : isRetryableBuildkitAddrError err addr = false) :
      Failing sh c err (.classify a addr exporter (some err))
  | attemptDone {a : Attempt} {exporter : Exporter} (halive : c.Alive) (hctx : c.ctx = none) :
      Failing sh c err (.attemptDone a exporter (some err))
  | now {exporter : Exporter} (halive : c.Alive) :
      Failing sh c err (.finishing (.now .failed exporter (some err)))
  | update {exporter : Exporter} {finished : Nat} (halive : c.Alive) :
      Failing sh c err (.finishing (.update .failed exporter (some err) finished))
  | observe (hstatus : c.record.status = .failed) : Failing sh c err (.finishing (.observe .failed))
  | closeDone (hstatus : c.record.status = .failed) : Failing sh c err .closeDone
  | returned (hstatus : c.record.status = .failed) : Failing sh c err .returned

def Conclusive (s : State) : Prop :=
  ∀ (i : Nat) (c : Cell), s.cells[i]? = some c → ∀ (j : Nat) (call : BuildCall) (err : Bytes),
    c.builds[j]? = some call → call.fatal = some err →
      j + 1 = c.builds.length ∧ isDeterministicBuildError err = true ∧ Failing s.shared c err c.pc

theorem address_setSem {p : AddrPool} {slot other : Nat} {o : AddrSlot} {sem : Nat}
    (ho : p.objects[slot]? = some o) :
    ({ p with objects := p.objects.set slot { o with sem := sem } } : AddrPool).address other =
      p.address other :=
  setSem_address p ho sem other

theorem address_replace {p : AddrPool} {slot : Nat} {addr : Bytes} (addrs : List BuildkitAddr)
    (haddr : p.address slot = some addr) : (p.replace addrs).address slot = some addr := by
  obtain ⟨o, ho, _⟩ := map_eq_some_iff.1 haddr
  rw [p.replace_address addrs (List.getElem?_eq_some_iff.1 ho).1, haddr]

theorem onShared_address {sh' : Shared} {slot : Nat} {addr : Bytes} (hshared : op.onShared cfg sh = some sh')
    (haddr : sh.pool.address slot = some addr) : sh'.pool.address slot = some addr := by
  unfold Op.onShared at hshared
  split at hshared
  case h_3 other =>
    obtain ⟨pool, hpool, rfl⟩ := map_eq_some_iff.1 hshared
    obtain ⟨o, ho, _, rfl⟩ := tryAcquireAddrSlot_eq_some hpool
    exact (address_setSem ho).trans haddr
  case h_4 other =>
    obtain ⟨pool, hpool, rfl⟩ := map_eq_some_iff.1 hshared
    obtain ⟨o, ho, _, rfl⟩ := releaseAddrSlot_eq_some hpool
    exact (address_setSem ho).trans haddr
  case h_5 addrs =>
    cases hshared
    exact address_replace addrs haddr
  case h_6 status => cases hshared; cases status <;> exact haddr
  case h_7 => cases hshared; exact haddr
  all_goals split_ifs at hshared <;> cases hshared <;> exact haddr

section

variable (hfailing : Failing sh c err pc)

include hfailing

theorem Failing.mono {sh' : Shared}
    (haddress : ∀ slot addr, sh.pool.address slot = some addr → sh'.pool.address slot = some addr) :
    Failing sh' c err pc := by
  cases hfailing with
  | releaseSlot halive hctx hworker =>
    obtain ⟨addr, haddr, hretryable⟩ := hworker
    exact .releaseSlot halive hctx ⟨addr, haddress _ addr haddr, hretryable⟩
  | releaseGlobal halive hctx hworker => exact .releaseGlobal halive hctx hworker
  | classify halive hctx hworker => exact .classify halive hctx hworker
  | attemptDone halive hctx => exact .attemptDone halive hctx
  | now halive => exact .now halive
  | update halive => exact .update halive
  | observe hstatus => exact .observe hstatus
  | closeDone hstatus => exact .closeDone hstatus
  | returned hstatus => exact .returned hstatus

theorem Failing.of_cell (halive' : c.Alive → c'.Alive) (hctx' : c.Alive → c.ctx = none → c'.ctx = none)
    (hstatus' : c.record.status = .failed → c'.record.status = .failed) : Failing sh c' err pc := by
  cases hfailing with
  | releaseSlot halive hctx hworker => exact .releaseSlot (halive' halive) (hctx' halive hctx) hworker
  | releaseGlobal halive hctx hworker => exact .releaseGlobal (halive' halive) (hctx' halive hctx) hworker
  | classify halive hctx hworker => exact .classify (halive' halive) (hctx' halive hctx) hworker
  | attemptDone halive hctx => exact .attemptDone (halive' halive) (hctx' halive hctx)
  | now halive => exact .now (halive' halive)
  | update halive => exact .update (halive' halive)
  | observe hstatus => exact .observe (hstatus' hstatus)
  | closeDone hstatus => exact .closeDone (hstatus' hstatus)
  | returned hstatus => exact .returned (hstatus' hstatus)

theorem Failing.next (hfatal : isDeterministicBuildError err = true)
    (hsettled : Settled c.record) (hnext : Next cfg sh c pc op pc') :
    Failing sh { op.onCell sh c with pc := pc' } err pc' ∧ (op.onCell sh c).builds = c.builds := by
  cases hfailing with
  | releaseSlot halive hctx hworker =>
    obtain ⟨addr, haddr, hretryable⟩ := hworker
    cases hnext
    rw [haddr]
    exact ⟨.releaseGlobal ⟨halive.stored, halive.running⟩ hctx hretryable, rfl⟩
  | releaseGlobal halive hctx hworker =>
    cases hnext
    exact ⟨.classify ⟨halive.stored, halive.running⟩ hctx hworker, rfl⟩
  | classify halive hctx hworker =>
    cases hnext with
    | attemptReturns hreturns => exact ⟨.attemptDone ⟨halive.stored, halive.running⟩ hctx, rfl⟩
    | failsOver hlive hretryable =>
      rw [hworker] at hretryable
      cases hretryable
  | attemptDone halive hctx =>
    cases hnext
    rw [Cell.afterAttempt, hctx]
    simp only [hfatal, if_true]
    exact ⟨.now ⟨halive.stored, halive.running⟩, rfl⟩
  | now halive =>
    cases hnext with
    | finishes hfinish =>
      cases hfinish
      exact ⟨.update ⟨halive.stored, halive.running⟩, rfl⟩
    | finished hfinish => cases hfinish
  | @update exporter finished halive =>
    have hobserved : c.record.observed = false := by
      by_contra hobserved
      have hterminal := hsettled.terminal (eq_true_of_ne_false hobserved)
      rw [halive.running] at hterminal
      cases hterminal
    have hrecord : c.record.finish .failed exporter (some err) finished = some { c.record with
        status := .failed, finishedAt := some finished, exporterResponse := exporter, error := err,
        observed := true } := by
      rw [Record.finish, if_neg (by simp [hobserved]), if_neg (by simp [halive.running])]
      rfl
    have hcell : (Op.finish .failed exporter (some err) finished).onCell sh c = { c with
        record := { c.record with
          status := .failed, finishedAt := some finished, exporterResponse := exporter, error := err,
          observed := true } } := by
      simp only [Op.onCell, Cell.update, if_pos halive.stored, hrecord, getD_some]
    cases hnext with
    | finishes hfinish =>
      cases hfinish
      rw [hcell]
      exact ⟨.observe rfl, rfl⟩
    | finished hfinish =>
      cases hfinish with
      | refused hrefused =>
        rw [halive.stored, hrecord] at hrefused
        simp at hrefused
  | observe hstatus =>
    cases hnext with
    | finishes hfinish => cases hfinish
    | finished hfinish =>
      cases hfinish
      exact ⟨.closeDone hstatus, rfl⟩
  | closeDone hstatus =>
    cases hnext
    simp only [Op.onCell]
    split <;> exact ⟨.returned hstatus, rfl⟩
  | returned hstatus => cases hnext

end

def TaskPc.buildSlot : TaskPc → Option Nat
  | .building _ slot => some slot
  | _ => none

def Clean (s : State) : Action → Prop
  | .task i (.result _ (some err)) => ∀ c ∈ s.cells[i]?, ∀ slot ∈ c.pc.buildSlot, c.ctx = none →
      isDeterministicBuildError err = true → c.record.status ≠ .canceled ∧
        isRetryableBuildkitAddrError err ((s.shared.pool.address slot).getD []) = false
  | .ctxDone i _ => ∀ c ∈ s.cells[i]?, c.failedFatally = true → c.record.status.terminal = true
  | .handler k _ => ∀ h ∈ s.handlers[k]?, h.pc = .cancel → ∀ c ∈ s.cells[h.id]?,
      c.failedFatally = true → c.record.status.terminal = true
  | _ => True

instance (s : State) (a : Action) : Decidable (Clean s a) := by
  unfold Clean
  split <;> infer_instance

theorem failedFatally_of_fatal (hcall : c.builds[j]? = some call) (hfatal : call.fatal = some err) :
    c.failedFatally = true :=
  List.any_eq_true.2 ⟨call, mem_of_getElem? hcall, by rw [hfatal]; rfl⟩

theorem getElem?_finishCall {result : BuildResult} :
    ∀ {calls : List BuildCall} {j : Nat}, (finishCall result calls)[j]? = some call →
      calls[j]? = some call ∨ (j + 1 = calls.length ∧ call.result = some result)
  | [], j, h => by simp [finishCall] at h
  | [old], j, h => by
      obtain ⟨hj, hcall⟩ := List.getElem?_eq_some_iff.1 h
      have hzero : j = 0 := by simpa [finishCall] using hj
      subst hzero
      exact .inr ⟨rfl, by rw [← hcall]; rfl⟩
  | old :: next :: calls, 0, h => .inl (by simpa [finishCall] using h)
  | old :: next :: calls, j + 1, h => by
      have hrest : (finishCall result (next :: calls))[j]? = some call := by simpa [finishCall] using h
      rcases getElem?_finishCall hrest with hold | ⟨hj, hresult⟩
      · exact .inl (by simpa using hold)
      · exact .inr ⟨by simp only [length_cons] at hj ⊢; omega, hresult⟩

theorem length_finishCall (result : BuildResult) : ∀ calls : List BuildCall,
    (finishCall result calls).length = calls.length
  | [] => rfl
  | [_] => rfl
  | _ :: next :: calls => by
      have hrest := length_finishCall result (next :: calls)
      simpa [finishCall] using hrest

theorem fatal_eq_some {result : BuildResult} (hresult : call.result = some result)
    (hfatal : call.fatal = some err) :
    result.err = some err ∧ result.ctxDone = false ∧ isDeterministicBuildError err = true := by
  rw [BuildCall.fatal, hresult] at hfatal
  split at hfatal
  · rename_i exporter text heq
    split_ifs at hfatal with hdeterministic
    cases hfatal
    cases heq
    exact ⟨rfl, rfl, hdeterministic⟩
  · cases hfatal

theorem onCell_builds (hstart : ∀ request, op ≠ .startBuild request)
    (hend : ∀ exporter err, op ≠ .endBuild exporter err) : (op.onCell sh c).builds = c.builds := by
  have hnext := onCell_next sh c op
  generalize op.onCell sh c = c' at hnext ⊢
  cases hnext with
  | started request => exact absurd rfl (hstart request)
  | ended exporter err => exact absurd rfl (hend exporter err)
  | _ => rfl

theorem Conclusive.set (hconclusive : Conclusive s) (hcell : s.cells[i]? = some c)
    (hcells : s'.cells = s.cells.set i c')
    (haddress : ∀ slot addr, s.shared.pool.address slot = some addr → s'.shared.pool.address slot = some addr)
    (hbuilds : c'.builds = c.builds)
    (hfailing : ∀ err, c.failedFatally = true → isDeterministicBuildError err = true → Failing s.shared c err c.pc → Failing s'.shared c' err c'.pc) :
    Conclusive s' := by
  intro j d hd k call err hcall hfatal
  rw [hcells] at hd
  rcases getElem?_set_cases hd with ⟨rfl, rfl⟩ | ⟨_, hold⟩
  · rw [hbuilds] at hcall ⊢
    obtain ⟨hlast, hdeterministic, hold⟩ := hconclusive j c hcell k call err hcall hfatal
    exact ⟨hlast, hdeterministic, hfailing err (failedFatally_of_fatal hcall hfatal) hdeterministic hold⟩
  · obtain ⟨hlast, hdeterministic, hold⟩ := hconclusive j d hold k call err hcall hfatal
    exact ⟨hlast, hdeterministic, hold.mono haddress⟩

theorem Next.builds (hnext : Next cfg sh c pc op pc') (hcall : pc.assigned = false) :
    (op.onCell sh c).builds = c.builds := by
  cases hnext with
  | called | built => cases hcall
  | finishes hfinish | finished hfinish => cases hfinish <;> exact onCell_builds (by simp) (by simp)
  | _ => exact onCell_builds (by simp) (by simp)

theorem HandlerNext.builds {pc next : HandlerPc} (hnext : HandlerNext sh c h pc op next) :
    (op.onCell sh c).builds = c.builds := by
  cases hnext with
  | rejectFinishes hfinish | rejectFinished hfinish | cancelFinishes hfinish | cancelFinished hfinish =>
    cases hfinish <;> exact onCell_builds (by simp) (by simp)
  | @cancelsCtx cancels | @cancelReturns cancels => cases cancels <;> rfl
  | _ => exact onCell_builds (by simp) (by simp)

theorem Failing.not_assigned (hfailing : Failing sh c err pc) : pc.assigned = false ∧ pc ≠ .rejected := by
  cases hfailing <;> simp [TaskPc.assigned]

theorem control_building {choice : Choice} {a : Attempt} {slot : Nat} {exporter : Exporter}
    {err : Option Bytes} (hpc : c.pc = .building a slot)
    (hcontrol : control cfg sh c choice = some (.endBuild exporter err, pc)) :
    choice = .result exporter err := by
  unfold control at hcontrol
  simp only [hpc] at hcontrol
  cases choice with
  | result given text =>
    cases hcontrol
    rfl
  | go | fail | canceled | take | refreshed => cases hcontrol

section

variable (hsound : Sound cfg addrConcurrency s)

include hsound

theorem conclusive_task {choice : Choice} (hsteady : Steady s)
    (hconclusive : Conclusive s) (hclean : Clean s (.task i choice)) (hcell : s.cells[i]? = some c)
    (hcontrol : control cfg s.shared c choice = some (op, pc)) (hshared : op.onShared cfg s.shared = some sh) :
    Conclusive { s with shared := sh, cells := s.cells.set i { op.onCell s.shared c with pc := pc } } := by
  have hnext := control_next hcontrol
  have hsettled := (hsound.accounted.cells i c hcell).settled
  have haddress : ∀ slot addr, s.shared.pool.address slot = some addr → sh.pool.address slot = some addr :=
    fun slot addr => onShared_address hshared
  by_cases hcall : c.pc.assigned = true
  · -- Before and during a build no fatal error has occurred.
    have hnone : ∀ (k : Nat) (call : BuildCall) (err : Bytes), c.builds[k]? = some call →
        call.fatal ≠ some err := by
      intro k call err hk hfatal
      have hassigned := (hconclusive i c hcell k call err hk hfatal).2.2.not_assigned.1
      rw [hcall] at hassigned
      cases hassigned
    intro j d hd k call err hk hfatal
    rcases getElem?_set_cases hd with ⟨rfl, rfl⟩ | ⟨_, hold⟩
    · generalize hpc : c.pc = before at hnext
      cases hnext with
      | called a slot =>
        rcases getElem?_snoc hk with hold | ⟨_, rfl⟩
        · exact absurd hfatal (hnone k call err hold)
        · cases hfatal
      | built a slot exporter result =>
        rcases getElem?_finishCall hk with hold | ⟨hlast, hresult⟩
        · exact absurd hfatal (hnone k call err hold)
        · obtain ⟨herr, hctx, hdeterministic⟩ := fatal_eq_some hresult hfatal
          simp only at herr
          subst herr
          have hlive : c.ctx = none := by simpa using hctx
          obtain rfl : choice = .result exporter (some err) := control_building hpc hcontrol
          obtain ⟨hstatus, hretryable⟩ := hclean c hcell slot (by rw [hpc]; rfl) hlive hdeterministic
          obtain ⟨o, ho⟩ := hsound.slot hcell (by rw [hpc]; rfl)
          have haddr : s.shared.pool.address slot = some o.addr.addr := by
            rw [AddrPool.address, ho]
            rfl
          rw [haddr, getD_some] at hretryable
          have halive : c.Alive := (hsteady.assigned _ c hcell hcall).resolve_left hstatus
          refine ⟨by rw [hlast]; exact (length_finishCall _ _).symm, hdeterministic, ?_⟩
          exact .releaseSlot ⟨halive.stored, halive.running⟩ hlive ⟨_, haddress _ _ haddr, hretryable⟩
      | _ => simp [hpc, TaskPc.assigned] at hcall
    · obtain ⟨hlast, hdeterministic, hold⟩ := hconclusive j d hold k call err hk hfatal
      exact ⟨hlast, hdeterministic, hold.mono haddress⟩
  · refine hconclusive.set hcell rfl haddress (hnext.builds (eq_false_of_ne_true hcall)) ?_
    intro err _ hdeterministic hfailing
    exact (hfailing.next hdeterministic hsettled hnext).1.mono haddress

theorem conclusive_handler {k : Nat} {leaves : Bool} {next : HandlerPc}
    (hsteady : Steady s) (hconclusive : Conclusive s) (hclean : Clean s (.handler k leaves))
    (hhandler : s.handlers[k]? = some h) (hcell : s.cells[h.id]? = some c)
    (hnext : HandlerNext s.shared c h h.pc op next) (hshared : op.onShared cfg s.shared = some sh) :
    Conclusive { s with
      shared := sh
      cells := s.cells.set h.id { op.onCell s.shared c with pc := c.pc }
      handlers := s.handlers.set k { h with pc := next } } := by
  obtain ⟨hsettled, hop⟩ := hsound.accounted.handlerOp hhandler hcell hnext
  have haddress : ∀ slot addr, s.shared.pool.address slot = some addr → sh.pool.address slot = some addr :=
    fun slot addr => onShared_address hshared
  refine hconclusive.set hcell rfl haddress hnext.builds ?_
  intro err hfatal _ hfailing
  have hskip : c.Alive → op = .skip := by
    intro halive
    rcases assigned_handler hsound.admitted hsteady hhandler hcell hnext hfailing.not_assigned.2 halive with
      hskip | ⟨hcancel, _⟩
    · exact hskip
    · have hterminal := hclean h hhandler hcancel c hcell hfatal
      rw [halive.running] at hterminal
      cases hterminal
  refine Failing.mono (Failing.of_cell hfailing ?_ ?_ ?_) haddress
  · intro halive
    rw [hskip halive]
    exact ⟨halive.stored, halive.running⟩
  · intro halive hctx
    rw [hskip halive]
    exact hctx
  · intro hstatus
    exact ((onCell_settled hsettled hop).2 (by rw [hstatus]; rfl)).trans hstatus

theorem conclusive_step (hsteady : Steady s)
    (hconclusive : Conclusive s) (hclean : Clean s a) (heffect : Effect cfg s a s') : Conclusive s' := by
  have hsame : ∀ s'' : State, s''.cells = s.cells →
      (∀ slot addr, s.shared.pool.address slot = some addr → s''.shared.pool.address slot = some addr) →
      Conclusive s'' := by
    intro s'' hcells haddress i c hcell j call err hcall hfatal
    rw [hcells] at hcell
    obtain ⟨hlast, hdeterministic, hfailing⟩ := hconclusive i c hcell j call err hcall hfatal
    exact ⟨hlast, hdeterministic, hfailing.mono haddress⟩
  cases heffect with
  | tick | request | closeQueue => exact hsame _ rfl fun _ _ haddr => haddr
  | refreshPool addrs => exact hsame _ rfl fun slot addr => address_replace addrs
  | create spec =>
    intro i d hd j call err hcall hfatal
    rcases getElem?_snoc hd with hold | ⟨_, rfl⟩
    · exact hconclusive i d hold j call err hcall hfatal
    · simp [Cell.create] at hcall
  | handler hhandler hcell hnext hshared =>
    exact conclusive_handler hsound hsteady hconclusive hclean hhandler hcell hnext hshared
  | @enqueue k leaves h c outcome hhandler hpc hcell =>
    refine hconclusive.set hcell rfl (fun _ _ haddr => haddr) rfl ?_
    intro err _ _ hfailing
    rw [(hsound.admitted.enqueues k h hhandler hpc).eq hcell] at hfailing
    cases hfailing
  | @pop mode i c hqueue hcell =>
    refine hconclusive.set hcell rfl (fun _ _ haddr => haddr) rfl ?_
    intro err _ _ hfailing
    rw [(hsound.admitted.queued i hqueue).eq hcell] at hfailing
    cases hfailing
  | task hcell hcontrol hshared =>
    exact conclusive_task hsound hsteady hconclusive hclean hcell hcontrol hshared
  | @ctxDone i text c hcell hctx =>
    refine hconclusive.set hcell rfl (fun _ _ haddr => haddr) rfl ?_
    intro err hfatal _ hfailing
    refine Failing.of_cell hfailing ?_ ?_ id
    · exact fun halive => ⟨halive.stored, halive.running⟩
    · intro halive _
      have hterminal := hclean c hcell hfatal
      rw [halive.running] at hterminal
      cases hterminal
  | @removeDir i c hcell hremoving =>
    refine hconclusive.set hcell rfl (fun _ _ haddr => haddr) rfl ?_
    intro err _ _ hfailing
    exact Failing.of_cell hfailing (fun halive => ⟨halive.stored, halive.running⟩) (fun _ hctx => hctx) id
  | @reap now hnow =>
    intro i d hd j call err hcall hfatal
    rw [getElem?_map] at hd
    obtain ⟨c, hcell, rfl⟩ := map_eq_some_iff.1 hd
    have hreap : (c.reap cfg now).builds = c.builds ∧ (c.reap cfg now).ctx = c.ctx ∧
        (c.reap cfg now).record = c.record := by
      rw [Cell.reap]
      split <;> exact ⟨rfl, rfl, rfl⟩
    rw [hreap.1] at hcall ⊢
    obtain ⟨hlast, hdeterministic, hfailing⟩ := hconclusive i c hcell j call err hcall hfatal
    refine ⟨hlast, hdeterministic, ?_⟩
    rw [reap_pc]
    refine Failing.of_cell hfailing ?_ (fun _ hctx => hreap.2.1.trans hctx) (by rw [hreap.2.2]; exact id)
    intro halive
    rw [reap_alive halive (hsteady.finishedAt i c hcell)]
    exact halive

end

def TaskPc.left : TaskPc → Nat
  | .releaseSlot .. => 8
  | .releaseGlobal .. => 7
  | .classify .. => 6
  | .attemptDone .. => 5
  | .finishing (.now ..) => 4
  | .finishing (.update ..) => 3
  | .finishing (.observe _) => 2
  | .closeDone => 1
  | _ => 0

theorem left_le (pc : TaskPc) : pc.left ≤ 8 := by
  unfold TaskPc.left
  split <;> omega

section

variable (hsound : Sound cfg addrConcurrency s)

include hsound

theorem Sound.releaseSlot {slot : Nat} (hcell : s.cells[i]? = some c)
    (hclient : c.pc.client = .holding slot) :
    ∃ sh, (Op.releaseSlot slot).onShared cfg s.shared = some sh := by
  obtain ⟨o, ho⟩ := hsound.slot hcell hclient
  have hmem : Client.holding slot ∈ s.system.clients :=
    List.mem_map.2 ⟨c, mem_of_getElem? hcell, hclient⟩
  have htoken := Ledger.le_total (Client.holds slot) hmem
  rw [← hsound.conserved.slots.tokens slot o ho] at htoken
  have hpos : 0 < o.sem := by simpa [Client.holds, Nat.succ_le_iff] using htoken
  simp [Op.onShared, AddrPool.releaseAddrSlot, ho, hpos]

theorem Sound.releaseGlobal (hcell : s.cells[i]? = some c)
    (hholds : c.pc.holdsGlobal = 1) : ∃ sh, Op.releaseGlobal.onShared cfg s.shared = some sh := by
  simp only [Op.onShared]
  split_ifs with hlimit hpos
  · exact ⟨_, rfl⟩
  · exact ⟨_, rfl⟩
  · have htoken := Ledger.le_total (fun c : Cell => c.pc.holdsGlobal) (mem_of_getElem? hcell)
    rw [← (hsound.conserved.global (by omega)).tokens, hholds] at htoken
    omega

theorem Failing.advances (hcell : s.cells[i]? = some c)
    (hfailing : Failing s.shared c err c.pc) (hfatal : isDeterministicBuildError err = true)
    (hpc : c.pc ≠ .returned) :
    ∃ op pc sh, control cfg s.shared c .go = some (op, pc) ∧ op.onShared cfg s.shared = some sh ∧
      pc.left < c.pc.left := by
  generalize hbefore : c.pc = before at hfailing hpc
  cases hfailing with
  | @releaseSlot a slot exporter halive hctx hworker =>
    obtain ⟨sh, hshared⟩ := hsound.releaseSlot hcell (by rw [hbefore]; rfl)
    refine ⟨.releaseSlot slot, .releaseGlobal a ((s.shared.pool.address slot).getD []) exporter (some err), sh,
      ?_, hshared, by simp [TaskPc.left]⟩
    simp only [control, hbefore]
  | @releaseGlobal a addr exporter halive hctx hworker =>
    obtain ⟨sh, hshared⟩ := hsound.releaseGlobal hcell (by rw [hbefore]; rfl)
    refine ⟨.releaseGlobal, .classify a addr exporter (some err), sh, ?_, hshared, by simp [TaskPc.left]⟩
    simp only [control, hbefore]
  | @classify a addr exporter halive hctx hworker =>
    refine ⟨.skip, .attemptDone a exporter (some err), s.shared, ?_, rfl, by simp [TaskPc.left]⟩
    simp [control, hbefore, hworker]
  | @attemptDone a exporter halive hctx =>
    refine ⟨.skip, .finishing (.now .failed exporter (some err)), s.shared, ?_, rfl, by simp [TaskPc.left]⟩
    simp [control, hbefore, Cell.afterAttempt, hctx, hfatal]
  | @now exporter halive =>
    refine ⟨.skip, .finishing (.update .failed exporter (some err) s.shared.clock), s.shared, ?_, rfl,
      by simp [TaskPc.left]⟩
    simp only [control, hbefore, FinishPc.control]
  | @update exporter finished halive =>
    refine ⟨.finish .failed exporter (some err) finished,
      if c.stored ∧ (c.record.finish .failed exporter (some err) finished).isSome
        then .finishing (.observe .failed) else .closeDone, s.shared, ?_, rfl, ?_⟩
    · simp only [control, hbefore, FinishPc.control]
      split_ifs <;> rfl
    · split_ifs <;> simp [TaskPc.left]
  | observe hstatus =>
    refine ⟨.count .failed, .closeDone, s.shared.count .failed, ?_, rfl, by simp [TaskPc.left]⟩
    simp only [control, hbefore, FinishPc.control]
  | closeDone hstatus =>
    refine ⟨.closeDone, .returned, s.shared, ?_, rfl, by simp [TaskPc.left]⟩
    simp only [control, hbefore]
  | returned hstatus => exact absurd rfl hpc

end

structure Reached (cfg : Config) (addrs : List BuildkitAddr) (addrConcurrency : Nat) (s : State) : Prop where
  run : ∃ as, Runs.exec (step cfg) (start addrs addrConcurrency) as = some s
  steady : Steady s
  conclusive : Conclusive s

theorem Reached.step (hreached : Reached cfg addrs addrConcurrency s) (hclean : Clean s a)
    (hstep : step cfg s a = some s') : Reached cfg addrs addrConcurrency s' := by
  obtain ⟨as, hrun⟩ := hreached.run
  have hsound := sound_run hrun
  have heffect := step_effect hstep
  refine ⟨⟨as ++ [a], ?_⟩, steady_step hsound hreached.steady heffect,
    conclusive_step hsound hreached.steady hreached.conclusive hclean heffect⟩
  refine exec_append (Daemon.step cfg) hrun ?_
  rw [exec_cons_eq_some]
  exact ⟨s', hstep, rfl⟩

theorem reached_run {as : List Action} (hclean : Along (step cfg) Clean (start addrs addrConcurrency) as)
    (hrun : exec (step cfg) (start addrs addrConcurrency) as = some s) :
    Reached cfg addrs addrConcurrency s := by
  refine exec_invariant_along (step cfg) (fun s a s' => Reached.step) ?_ hclean hrun
  exact ⟨⟨[], rfl⟩, steady_start addrs addrConcurrency, by simp [Conclusive, start]⟩

theorem failing_moves (hreached : Reached cfg addrs addrConcurrency s) (hcell : s.cells[i]? = some c)
    (hcall : c.builds[j]? = some call) (hfatal : call.fatal = some err) :
    (c.pc = .returned ∧ c.record.status = .failed) ∨
      ∃ s' c', step cfg s (.task i .go) = some s' ∧ Reached cfg addrs addrConcurrency s' ∧
        s'.cells[i]? = some c' ∧ c'.builds = c.builds ∧ c'.pc.left < c.pc.left := by
  obtain ⟨_, hdeterministic, hfailing⟩ := hreached.conclusive i c hcell j call err hcall hfatal
  by_cases hpc : c.pc = .returned
  · rw [hpc] at hfailing
    cases hfailing with
    | returned hstatus => exact .inl ⟨hpc, hstatus⟩
  · obtain ⟨as, hrun⟩ := hreached.run
    have hsound := sound_run hrun
    obtain ⟨op, pc, sh, hcontrol, hshared, hleft⟩ := hfailing.advances hsound hcell hdeterministic hpc
    have hsettled := (hsound.accounted.cells i c hcell).settled
    have hstep : step cfg s (.task i .go) = some { s with
        shared := sh, cells := s.cells.set i { op.onCell s.shared c with pc := pc } } := by
      simp only [step, hcell, hcontrol, State.perform, hshared, map_some]
    have hclean : Clean s (.task i .go) := trivial
    refine .inr ⟨_, _, hstep, hreached.step hclean hstep,
      getElem?_set_self (List.getElem?_eq_some_iff.1 hcell).1, ?_, hleft⟩
    exact (hfailing.next hdeterministic hsettled (control_next hcontrol)).2

theorem failing_ends (hfatal : call.fatal = some err) (n : Nat) :
    ∀ {s : State} {c : Cell}, Reached cfg addrs addrConcurrency s → s.cells[i]? = some c →
      c.builds[j]? = some call → c.pc.left ≤ n →
      ∃ m ≤ n, ∃ t d, exec (step cfg) s (replicate m (.task i .go)) = some t ∧
        t.cells[i]? = some d ∧ d.pc = .returned ∧ d.record.status = .failed ∧ d.builds = c.builds := by
  induction n with
  | zero =>
    intro s c hreached hcell hcall hleft
    rcases failing_moves hreached hcell hcall hfatal with ⟨hpc, hstatus⟩ | ⟨_, _, _, _, _, _, hlt⟩
    · exact ⟨0, le_rfl, s, c, rfl, hcell, hpc, hstatus, rfl⟩
    · omega
  | succ n ih =>
    intro s c hreached hcell hcall hleft
    rcases failing_moves hreached hcell hcall hfatal with
      ⟨hpc, hstatus⟩ | ⟨s', c', hstep, hreached', hcell', hbuilds, hlt⟩
    · exact ⟨0, by omega, s, c, rfl, hcell, hpc, hstatus, rfl⟩
    · obtain ⟨m, hm, t, d, hrest, hd, hpc, hstatus, hsame⟩ :=
        ih hreached' hcell' (hbuilds ▸ hcall) (by omega)
      refine ⟨m + 1, by omega, t, d, ?_, hd, hpc, hstatus, hsame.trans hbuilds⟩
      rw [replicate_succ, exec_cons_eq_some]
      exact ⟨s', hstep, hrest⟩

/-- With clean steps, a deterministic failure is the last build of a task. -/
theorem deterministic_failure_is_final {addrs : List BuildkitAddr} {addrConcurrency : Nat} {as : List Action}
    {s : State} (hclean : Runs.Along (step cfg) Clean (start addrs addrConcurrency) as)
    (hrun : Runs.exec (step cfg) (start addrs addrConcurrency) as = some s) {i j : Nat} {call : BuildCall}
    {err : Bytes} (hcell : s.cells[i]? = some c) (hcall : c.builds[j]? = some call)
    (hfatal : call.fatal = some err) :
    j + 1 = c.builds.length ∧ (c.pc = .returned → c.record.status = .failed) ∧
    ∃ m ≤ 8, ∃ t d, Runs.exec (step cfg) s (List.replicate m (.task i .go)) = some t ∧
      t.cells[i]? = some d ∧ d.pc = .returned ∧ d.record.status = .failed ∧ d.builds = c.builds := by
  have hreached := reached_run hclean hrun
  obtain ⟨hlast, _, hfailing⟩ := hreached.conclusive i c hcell j call err hcall hfatal
  refine ⟨hlast, ?_, failing_ends hfatal 8 hreached hcell hcall (left_le c.pc)⟩
  intro hpc
  rw [hpc] at hfailing
  cases hfailing with
  | returned hstatus => exact hstatus

def exitCodeError : Bytes :=
  ascii "process \"/bin/sh -c false\" did not complete successfully: exit code: 1"

def sampleFailure : List Action := sampleBuild ++ [.task 0 (.result [] (some exitCodeError))]

theorem exit_code_is_final : ∃ s c call, Runs.exec (step sampleConfig) sampleStart sampleFailure = some s ∧
    s.cells[0]? = some c ∧ c.builds[0]? = some call ∧ call.fatal = some exitCodeError ∧
    ∃ m ≤ 8, ∃ t d, Runs.exec (step sampleConfig) s (List.replicate m (.task 0 .go)) = some t ∧
      t.cells[0]? = some d ∧ d.pc = .returned ∧ d.record.status = .failed ∧ d.builds = c.builds := by
  have hruns : (Runs.exec (step sampleConfig) sampleStart sampleFailure).bind (fun s =>
      (s.cells[0]?).bind fun c => (c.builds[0]?).bind BuildCall.fatal) = some exitCodeError := by
    decide +kernel
  have hclean : Runs.Along (step sampleConfig) Clean sampleStart sampleFailure := by decide +kernel
  obtain ⟨s, hrun, hs⟩ := Option.bind_eq_some_iff.1 hruns
  obtain ⟨c, hcell, hc⟩ := Option.bind_eq_some_iff.1 hs
  obtain ⟨call, hcall, hfatal⟩ := Option.bind_eq_some_iff.1 hc
  exact ⟨s, c, call, hrun, hcell, hcall, hfatal,
    (deterministic_failure_is_final hclean hrun hcell hcall hfatal).2.2⟩

def unavailableError : Bytes := ascii
  "process \"/bin/sh -c curl -f http://repo\" did not complete successfully: exit code: 22: 503 Service Unavailable"

def sampleRetry : List Action :=
  sampleBuild ++ [.task 0 (.result [] (some unavailableError))] ++ List.replicate 3 (.task 0 .go) ++
    [.task 0 (.refreshed (.error (ascii "lookup failed")))] ++ List.replicate 14 (.task 0 .go)

theorem deterministic_failure_is_retried :
    isDeterministicBuildError unavailableError = true ∧
    (Runs.exec (step sampleConfig) sampleStart sampleRetry).map (fun s => s.cells.map fun c =>
        (c.ctx, c.pc.buildSlot, c.builds.map BuildCall.fatal)) =
      some [(none, some 0, [some unavailableError, none])] :=
  ⟨by decide +kernel, by decide +kernel⟩

end BuildkitService.Daemon
