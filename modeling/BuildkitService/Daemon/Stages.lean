import BuildkitService.Daemon.Deterministic

/-!
# The stages of a task

`runBuildTask` nests three loops: over the build steps, over the retries of a step, and over the
workers of a retry.
-/

namespace BuildkitService.Daemon

open Threads List

variable {cfg : Config} {sh : Shared} {c c' : Cell} {op : Op} {pc pc' : TaskPc} {a : Action} {i : Nat}
  {s s' : State} {h : Handler} {next : HandlerPc} {status : BuildStatus}

inductive Stage where
  | waiting
  | between (steps : List BuildStep) (exporter : Exporter)
  | preparing (step : BuildStep) (rest : List BuildStep) (exporter : Exporter)
  | trying (a : Attempt)
  | building (a : Attempt)
  | built (a : Attempt) (exporter : Exporter) (err : Option Bytes)
  | tried (a : Attempt) (exporter : Exporter) (err : Option Bytes)
  | finishing (status : BuildStatus)
  | ended

def TaskPc.stage : TaskPc → Stage
  | .created | .rejected | .queued | .get | .openLog => .waiting
  | .nextStep steps exporter => .between steps exporter
  | .prepare step rest exporter => .preparing step rest exporter
  | .retryQueued a | .retryTimer a | .retryWait a _ | .markQueued a | .acquireGlobal a | .snapshot a
  | .picking a _ _ | .selecting a _ | .releaseGlobalOnly a _ | .assign a _ | .dropSlot a _ | .call a _
  | .refresh a => .trying a
  | .building a _ => .building a
  | .releaseSlot a _ exporter err | .releaseGlobal a _ exporter err | .classify a _ exporter err =>
      .built a exporter err
  | .attemptDone a exporter err => .tried a exporter err
  | .finishing (.now status ..) | .finishing (.update status ..) => .finishing status
  | .finishing (.observe _) | .closeDone | .returned => .ended

inductive Advance (cfg : Config) (c : Cell) : Stage → Stage → List BuildCall → Prop
  | stays (stage : Stage) : Advance cfg c stage stage c.builds
  | leaves : Advance cfg c .waiting .ended c.builds
  | starts : Advance cfg c .waiting (.between c.steps []) c.builds
  | logFails : Advance cfg c .waiting (.finishing .failed) c.builds
  | allDone (exporter : Exporter) : Advance cfg c (.between [] exporter) (.finishing .succeeded) c.builds
  | fromContext {step : BuildStep} {rest : List BuildStep} {exporter : Exporter}
      (hbase : step.baseImage.isEmpty = true) :
      Advance cfg c (.between (step :: rest) exporter) (.trying (.first step rest exporter)) c.builds
  | fromImage {step : BuildStep} {rest : List BuildStep} {exporter : Exporter}
      (hbase : step.baseImage.isEmpty = false) :
      Advance cfg c (.between (step :: rest) exporter) (.preparing step rest exporter) c.builds
  | prepared {step : BuildStep} {rest : List BuildStep} {exporter : Exporter} {contextDir text : Bytes}
      (hcontext : createNydusFromOCIContext cfg.registry c.spec.workDir step.baseImage exporter (.ok ()) =
        .ok (contextDir, text)) :
      Advance cfg c (.preparing step rest exporter)
        (.trying (.first { step with contextDir := contextDir } rest exporter)) c.builds
  | prepareFails (step : BuildStep) (rest : List BuildStep) (exporter : Exporter) :
      Advance cfg c (.preparing step rest exporter) (.finishing .failed) c.builds
  | interrupted (a : Attempt) : Advance cfg c (.trying a) (.finishing .canceled) c.builds
  | abandoned (a : Attempt) (err : Bytes) : Advance cfg c (.trying a) (.tried a [] (some err)) c.builds
  | calls (a : Attempt) (addr : Bytes) :
      Advance cfg c (.trying a) (.building a) (c.builds ++ [⟨c.request a addr, none⟩])
  | returns (a : Attempt) (exporter : Exporter) (err : Option Bytes) :
      Advance cfg c (.building a) (.built a exporter err) (finishCall ⟨exporter, err, c.ctx.isSome⟩ c.builds)
  | reports (a : Attempt) (exporter : Exporter) (err : Option Bytes) :
      Advance cfg c (.built a exporter err) (.tried a exporter err) c.builds
  | failsOver (a : Attempt) (exporter : Exporter) (addr text : Bytes) :
      Advance cfg c (.built a exporter (some text)) (.trying { a with excluded := a.excluded ++ [addr] })
        c.builds
  | succeeds (a : Attempt) (exporter : Exporter) :
      Advance cfg c (.tried a exporter none) (.between a.rest exporter) c.builds
  | retries (a : Attempt) (exporter : Exporter) (text : Bytes) : Advance cfg c (.tried a exporter (some text))
      (.trying ⟨a.rest, a.step, exporter, a.attempt + 1, []⟩) c.builds
  | fails (a : Attempt) (exporter : Exporter) (text : Bytes) {status : BuildStatus}
      (hstatus : status ≠ .succeeded) :
      Advance cfg c (.tried a exporter (some text)) (.finishing status) c.builds
  | finishes (status : BuildStatus) : Advance cfg c (.finishing status) .ended c.builds

theorem afterPrepare_advances (step : BuildStep) (rest : List BuildStep) (exporter : Exporter)
    (written : Except Bytes Unit) : Advance cfg c (.preparing step rest exporter)
      (c.afterPrepare cfg step rest exporter written).stage c.builds := by
  rw [Cell.afterPrepare]
  split
  · exact .prepareFails step rest exporter
  · rename_i contextDir text hcontext
    rw [(createNydusFromOCIContext_eq_ok hcontext).1] at hcontext
    exact .prepared hcontext

theorem afterAttempt_advances (a : Attempt) (exporter : Exporter) (err : Option Bytes) :
    Advance cfg c (.tried a exporter err) (c.afterAttempt a exporter err).stage c.builds := by
  cases err with
  | none => exact .succeeds a exporter
  | some text =>
    rw [Cell.afterAttempt]
    split
    · exact .fails a exporter text (by simp)
    · split_ifs
      · exact .fails a exporter text (by simp)
      · exact .retries a exporter text
      · exact .fails a exporter text (by simp)

theorem Next.advances (hnext : Next cfg sh c pc op pc') :
    Advance cfg c pc.stage pc'.stage (op.onCell sh c).builds := by
  by_cases hcall : pc.assigned = true
  · cases hnext with
    | called a slot => exact .calls a _
    | built a slot exporter err => exact .returns a exporter err
    | finishes | finished => cases hcall
    | _ => cases hcall
  · rw [hnext.builds (eq_false_of_ne_true hcall)]
    cases hnext with
    | gone => exact .leaves
    | logOpened => exact .starts
    | logFailed err => exact .logFails
    | stepsDone exporter => exact .allDone exporter
    | stepFromContext hbase => exact .fromContext hbase
    | stepFromImage hbase => exact .fromImage hbase
    | prepared step rest exporter written => exact afterPrepare_advances step rest exporter written
    | retryCanceled hctx => exact .interrupted _
    | globalCanceled hctx => exact .abandoned _ _
    | globalReleasedOnly a err => exact .abandoned a err
    | called | built => exact absurd rfl hcall
    | attemptReturns hreturns => exact .reports _ _ _
    | failsOver hctx hretryable => exact .failsOver _ _ _ _
    | attempted a exporter err => exact afterAttempt_advances a exporter err
    | finishes hfinish =>
      cases hfinish with
      | now => exact .stays _
      | applied hstored hrecord => exact .finishes _
    | finished hfinish =>
      cases hfinish with
      | refused hrefused => exact .finishes _
      | observed => exact .stays _
    | _ => exact .stays _

theorem Advance.of_ended {stage : Stage} {builds : List BuildCall}
    (hadvance : Advance cfg c .ended stage builds) : stage = .ended ∧ builds = c.builds := by
  cases hadvance
  exact ⟨rfl, rfl⟩

/-! ### One task in a step -/

inductive CellStep (cfg : Config) (s : State) (a : Action) (i : Nat) : Cell → Cell → Prop
  | framed {c c' : Cell} (hspec : c'.spec = c.spec) (hrecord : c'.record = c.record)
      (hstored : c'.stored = c.stored) (hpc : c'.pc = c.pc) (hbuilds : c'.builds = c.builds)
      (hctx : c.ctx.isSome = true → c'.ctx.isSome = true) : CellStep cfg s a i c c'
  | queued {c : Cell} {pc : TaskPc} (hbefore : c.pc = .created ∨ c.pc = .queued)
      (hafter : pc = .rejected ∨ pc = .queued ∨ pc = .get) : CellStep cfg s a i c { c with pc := pc }
  | handled {c : Cell} {k : Nat} {h : Handler} {op : Op} {next : HandlerPc}
      (hhandler : s.handlers[k]? = some h) (hid : h.id = i)
      (hnext : HandlerNext s.shared c h h.pc op next) :
      CellStep cfg s a i c { op.onCell s.shared c with pc := c.pc }
  | moved {c : Cell} {choice : Choice} {op : Op} {pc : TaskPc} (haction : a = .task i choice)
      (hcontrol : control cfg s.shared c choice = some (op, pc)) :
      CellStep cfg s a i c { op.onCell s.shared c with pc := pc }
  | reaped {c : Cell} (hfinished : c.record.finishedAt ≠ none) :
      CellStep cfg s a i c { c with stored := false, removing := true }

theorem cellStep_of_effect (hadmitted : Admitted s) (heffect : Effect cfg s a s')
    (hcell' : s'.cells[i]? = some c') : (∃ c, s.cells[i]? = some c ∧ CellStep cfg s a i c c') ∨
      (i = s.cells.length ∧ c' = .create c'.spec s.shared.clock) := by
  have hsame : ∀ {d : Cell}, s.cells[i]? = some d → c' = d →
      ∃ c, s.cells[i]? = some c ∧ CellStep cfg s a i c c' := by
    intro d hd heq
    subst heq
    exact ⟨c', hd, .framed rfl rfl rfl rfl rfl id⟩
  have hset : ∀ {j : Nat} {d d' : Cell}, s.cells[j]? = some d → s'.cells = s.cells.set j d' →
      CellStep cfg s a j d d' → ∃ c, s.cells[i]? = some c ∧ CellStep cfg s a i c c' := by
    intro j d d' hd hcells hstep
    rw [hcells] at hcell'
    rcases getElem?_set_cases hcell' with ⟨rfl, rfl⟩ | ⟨_, hold⟩
    · exact ⟨d, hd, hstep⟩
    · exact hsame hold rfl
  cases heffect with
  | tick | request | closeQueue | refreshPool => exact .inl (hsame hcell' rfl)
  | create spec =>
    rcases getElem?_snoc hcell' with hold | ⟨hi, rfl⟩
    · exact .inl (hsame hold rfl)
    · exact .inr ⟨hi, rfl⟩
  | handler hhandler hcell hnext hshared => exact .inl (hset hcell rfl (.handled hhandler rfl hnext))
  | @enqueue k leaves h c outcome hhandler hpc hcell =>
    have hcreated : c.pc = .created := (hadmitted.enqueues k h hhandler hpc).eq hcell
    refine .inl (hset hcell rfl (.queued (.inl hcreated) ?_))
    cases outcome <;> simp [Enqueued.pc]
  | @pop mode j c hqueue hcell =>
    have hqueued : c.pc = .queued := (hadmitted.queued j hqueue).eq hcell
    exact .inl (hset hcell rfl (.queued (.inr hqueued) (.inr (.inr rfl))))
  | task hcell hcontrol hshared => exact .inl (hset hcell rfl (.moved rfl hcontrol))
  | ctxDone hcell hctx => exact .inl (hset hcell rfl (.framed rfl rfl rfl rfl rfl fun _ => rfl))
  | removeDir hcell hremoving => exact .inl (hset hcell rfl (.framed rfl rfl rfl rfl rfl id))
  | @reap now hnow =>
    rw [getElem?_map] at hcell'
    obtain ⟨c, hcell, rfl⟩ := Option.map_eq_some_iff.1 hcell'
    rw [Cell.reap]
    split
    · rename_i hexpired
      refine .inl ⟨c, hcell, .reaped ?_⟩
      intro hnone
      simp [Record.expired, hnone] at hexpired
    · exact .inl ⟨c, hcell, .framed rfl rfl rfl rfl rfl id⟩

theorem length_le_of_effect (heffect : Effect cfg s a s') : s.cells.length ≤ s'.cells.length := by
  cases heffect <;> simp

theorem cellStep_forward (hadmitted : Admitted s) (heffect : Effect cfg s a s') (hcell : s.cells[i]? = some c) :
    ∃ c', s'.cells[i]? = some c' ∧ CellStep cfg s a i c c' := by
  have hlt := (List.getElem?_eq_some_iff.1 hcell).1
  have hcell' := getElem?_eq_getElem (Nat.lt_of_lt_of_le hlt (length_le_of_effect heffect))
  rcases cellStep_of_effect hadmitted heffect hcell' with ⟨d, hd, hstep⟩ | ⟨hi, _⟩
  · rw [hcell] at hd
    cases hd
    exact ⟨_, hcell', hstep⟩
  · exact absurd hlt (by omega)

def OnlyCancel (s : State) : Prop :=
  ∀ h ∈ s.handlers, ∀ f, h.pc.finish? = some f → f.status = .canceled

theorem FinishNext.status_eq {f f' : FinishPc} (hfinish : FinishNext sh c f op (some f')) :
    f'.status = f.status := by
  cases hfinish <;> rfl

theorem HandlerNext.only_cancel {pc : HandlerPc} {f' : FinishPc} (hnext : HandlerNext sh c h pc op next)
    (hcancel : ∀ f, pc.finish? = some f → f.status = .canceled) (hfinish : next.finish? = some f') :
    f'.status = .canceled := by
  cases hnext with
  | rejectFinishes hnext | cancelFinishes hnext =>
    cases hfinish
    rw [hnext.status_eq]
    exact hcancel _ rfl
  | rejectCancels | shutdownGone | cancelsCtx =>
    cases hfinish
    rfl
  | _ => cases hfinish

theorem onlyCancel_step (hcancel : OnlyCancel s) (heffect : Effect cfg s a s') : OnlyCancel s' := by
  have hadd : ∀ (h : Handler), h.pc.finish? = none → ∀ g ∈ s.handlers ++ [h], ∀ f,
      g.pc.finish? = some f → f.status = .canceled := by
    intro h hquiet g hg f hf
    rcases mem_append.1 hg with hold | hnew
    · exact hcancel g hold f hf
    · rw [mem_singleton.1 hnew, hquiet] at hf
      cases hf
  have hset : ∀ (k : Nat) (h : Handler), (∀ f, h.pc.finish? = some f → f.status = .canceled) →
      ∀ g ∈ s.handlers.set k h, ∀ f, g.pc.finish? = some f → f.status = .canceled := by
    intro k h hh g hg f hf
    rcases mem_or_eq_of_mem_set hg with hold | rfl
    · exact hcancel g hold f hf
    · exact hh f hf
  cases heffect with
  | create | request => exact hadd _ rfl
  | @handler k leaves h c op next sh hhandler hcell hnext hshared =>
    exact hset k _ fun f hf => hnext.only_cancel (hcancel h (mem_of_getElem? hhandler)) hf
  | @enqueue k leaves h c outcome hhandler hpc hcell =>
    refine hset k _ fun f hf => ?_
    cases outcome <;> cases hsync : c.spec.sync <;> simp [Enqueued.handlerPc, HandlerPc.finish?, hsync] at hf
  | _ => exact hcancel

/-! ### What a task reports -/

structure Reports (verdict : List BuildCall → Prop) (c : Cell) : Prop where
  deleted : c.stored = false → c.record.status.terminal = true ∨ c.pc = .rejected
  unfinished : c.pc.stage ≠ .ended → c.record.status ≠ .succeeded ∧ c.record.status ≠ .failed
  ended : c.pc.stage = .ended → c.record.status = .canceled ∨
    (c.record.status.terminal = true ∧ (c.record.status = .succeeded ↔ verdict c.builds))

variable {verdict : List BuildCall → Prop}

theorem FinishNext.finish_status {f : FinishPc} {next : Option FinishPc} (hfinish : FinishNext sh c f op next)
    {exporter : Exporter} {err : Option Bytes} {finished : Nat}
    (hop : op = .finish status exporter err finished) : f = .update status exporter err finished := by
  cases hfinish <;> cases hop <;> rfl

theorem HandlerNext.finish_canceled {pc : HandlerPc} (hnext : HandlerNext sh c h pc op next)
    (hcancel : ∀ f, pc.finish? = some f → f.status = .canceled) (status : BuildStatus) (exporter : Exporter)
    (err : Option Bytes) (finished : Nat) (hop : op = .finish status exporter err finished) :
    status = .canceled := by
  cases hnext with
  | rejectFinishes hfinish | rejectFinished hfinish | cancelFinishes hfinish | cancelFinished hfinish =>
    have hf := hfinish.finish_status hop
    subst hf
    exact hcancel _ rfl
  | @cancelsCtx cancels | @cancelReturns cancels => cases cancels <;> cases hop
  | _ => cases hop

theorem Next.finish_stage (hnext : Next cfg sh c pc op pc') {exporter : Exporter} {err : Option Bytes}
    {finished : Nat} (hop : op = .finish status exporter err finished) :
    pc.stage = .finishing status ∧ pc'.stage = .ended := by
  cases hnext with
  | finishes hfinish | finished hfinish =>
    cases hfinish <;> cases hop
    exact ⟨rfl, rfl⟩
  | _ => cases hop

theorem onCell_unfinished
    (hfinish : ∀ status exporter err finished, op = .finish status exporter err finished → status = .canceled)
    (hopen : c.record.status ≠ .succeeded ∧ c.record.status ≠ .failed) :
    (op.onCell sh c).record.status ≠ .succeeded ∧ (op.onCell sh c).record.status ≠ .failed := by
  have hnext := onCell_next sh c op
  generalize op.onCell sh c = c' at hnext ⊢
  cases hnext with
  | rewritten _ hrecord =>
    cases hrecord with
    | @finished status exporter err finished _ _ =>
      rw [hfinish status exporter err finished rfl]
      exact ⟨nofun, nofun⟩
    | _ => exact ⟨nofun, nofun⟩
  | _ => exact hopen

theorem onCell_deleted (hstored : (op.onCell sh c).stored = false) :
    op = .deleteRecord ∨ (c.stored = false ∧ (op.onCell sh c).record = c.record) := by
  have hnext := onCell_next sh c op
  generalize op.onCell sh c = c' at hnext hstored ⊢
  cases hnext with
  | deleted => exact .inl rfl
  | rewritten hthere | doneClosed hthere =>
    have hgone : c.stored = false := hstored
    rw [hthere] at hgone
    cases hgone
  | _ => exact .inr ⟨hstored, rfl⟩

theorem HandlerNext.deletes {pc : HandlerPc} (hnext : HandlerNext sh c h pc .deleteRecord next) :
    pc.rejects = true := by
  generalize hop : Op.deleteRecord = op at hnext
  cases hnext with
  | rejectDeletes => rfl
  | rejectFinishes hfinish | rejectFinished hfinish | cancelFinishes hfinish | cancelFinished hfinish =>
    cases hop
    cases hfinish
  | @cancelsCtx cancels | @cancelReturns cancels => cases cancels <;> cases hop
  | _ => cases hop

theorem Next.not_deletes (hnext : Next cfg sh c pc op pc') : op ≠ .deleteRecord := by
  cases hnext with
  | finishes hfinish | finished hfinish => cases hfinish <;> simp
  | _ => simp

theorem control_gone {choice : Choice} (hpc : c.pc = .get)
    (hcontrol : control cfg sh c choice = some (op, .closeDone)) :
    c.stored = false ∨ c.record.status = .canceled := by
  unfold control at hcontrol
  simp only [hpc] at hcontrol
  cases choice with
  | go =>
    by_cases hthere : c.stored = true ∧ c.record.status ≠ .canceled
    · simp [if_pos hthere] at hcontrol
    · by_cases hstored : c.stored = true
      · exact .inr (not_not.1 fun hstatus => hthere ⟨hstored, hstatus⟩)
      · exact .inl (eq_false_of_ne_true hstored)
  | fail | canceled | take | result | refreshed => cases hcontrol

theorem canceled_of_terminal (hterminal : status.terminal = true)
    (hopen : status ≠ .succeeded ∧ status ≠ .failed) : status = .canceled := by
  cases status <;> simp_all [BuildStatus.terminal]

theorem Reports.canceled_of_deleted (hreports : Reports verdict c) (hopen : c.pc.stage ≠ .ended)
    (hrunning : c.pc.running = true) (hstored : c.stored = false) : c.record.status = .canceled := by
  refine canceled_of_terminal ?_ (hreports.unfinished hopen)
  rcases hreports.deleted hstored with hterminal | hpc
  · exact hterminal
  · rw [hpc] at hrunning
    cases hrunning

theorem Reports.finished {choice : Choice} (hreports : Reports verdict c) (hsettled : Settled c.record)
    (hop : op.FinishesTerminal) (hcontrol : control cfg sh c choice = some (op, pc))
    (hverdict : ∀ status, c.pc.stage = .finishing status → (status = .succeeded ↔ verdict c.builds))
    (hopen : c.pc.stage ≠ .ended) (hended : pc.stage = .ended) :
    (op.onCell sh c).record.status = .canceled ∨ ((op.onCell sh c).record.status.terminal = true ∧
      ((op.onCell sh c).record.status = .succeeded ↔ verdict (op.onCell sh c).builds)) := by
  have hnext := control_next hcontrol
  have hrunning := hnext.running
  have hgone : c.stored = false → c.record.status = .canceled :=
    hreports.canceled_of_deleted hopen hrunning
  generalize hpc : c.pc = before at hnext
  cases hnext with
  | gone =>
    rcases control_gone hpc hcontrol with hstored | hstatus
    · exact .inl (hgone hstored)
    · exact .inl hstatus
  | finishes hfinish =>
    cases hfinish with
    | now => cases hended
    | @applied status exporter err finished r hstored hrecord =>
      right
      have hcell : (Op.finish status exporter err finished).onCell sh c = { c with record := r } := by
        simp only [Op.onCell, Cell.update, if_pos hstored, hrecord, Option.getD_some]
      have hstatus : r.status = status := by
        rw [Record.finish] at hrecord
        split_ifs at hrecord
        cases hrecord
        rfl
      rw [hcell]
      dsimp only
      rw [hstatus]
      exact ⟨hop, hverdict status (by rw [hpc]; rfl)⟩
  | finished hfinish =>
    cases hfinish with
    | @refused status exporter err finished hrefused =>
      left
      have hcanceled : c.record.status = .canceled := by
        rcases hrefused with hstored | hnone
        · exact hgone hstored
        · rw [Record.finish] at hnone
          split_ifs at hnone with hobserved hstatus
          · exact canceled_of_terminal (hsettled.terminal hobserved) (hreports.unfinished hopen)
          · exact hstatus.1
      exact ((onCell_settled hsettled hop).2 (by rw [hcanceled]; rfl)).trans hcanceled
    | observed => exact absurd (by rw [hpc]; rfl) hopen
  | closed => exact absurd (by rw [hpc]; rfl) hopen
  | prepared step rest exporter written =>
    rw [Cell.afterPrepare] at hended
    split at hended <;> cases hended
  | attempted a exporter err =>
    rw [Cell.afterAttempt.eq_def] at hended
    split at hended
    · cases hended
    · split at hended
      · cases hended
      · split_ifs at hended <;> cases hended
  | _ => cases hended

theorem Reports.lasts (hreports : Reports verdict c) (hsettled : Settled c.record) (hop : op.FinishesTerminal)
    (hbuilds : (op.onCell sh c).builds = c.builds) (hended : c.pc.stage = .ended) :
    (op.onCell sh c).record.status = .canceled ∨ ((op.onCell sh c).record.status.terminal = true ∧
      ((op.onCell sh c).record.status = .succeeded ↔ verdict (op.onCell sh c).builds)) := by
  rw [hbuilds]
  rcases hreports.ended hended with hcanceled | ⟨hterminal, hsucceeded⟩
  · exact .inl (((onCell_settled hsettled hop).2 (by rw [hcanceled]; rfl)).trans hcanceled)
  · rw [(onCell_settled hsettled hop).2 hterminal]
    exact .inr ⟨hterminal, hsucceeded⟩

theorem CellStep.unfinished (hstep : CellStep cfg s a i c c') (hcancel : OnlyCancel s)
    (hunfinished : c.pc.stage ≠ .ended → c.record.status ≠ .succeeded ∧ c.record.status ≠ .failed)
    (hopen : c'.pc.stage ≠ .ended) : c'.record.status ≠ .succeeded ∧ c'.record.status ≠ .failed := by
  cases hstep with
  | framed _ hrecord _ hpc =>
    rw [hpc] at hopen
    rw [hrecord]
    exact hunfinished hopen
  | queued hbefore =>
    refine hunfinished ?_
    rcases hbefore with hpc | hpc <;> rw [hpc] <;> nofun
  | handled hhandler _ hnext =>
    exact onCell_unfinished (hnext.finish_canceled (hcancel _ (mem_of_getElem? hhandler))) (hunfinished hopen)
  | moved _ hcontrol =>
    have hnext := control_next hcontrol
    have hbefore : c.pc.stage ≠ .ended := by
      intro hended
      have hadvance := hnext.advances
      rw [hended] at hadvance
      exact hopen hadvance.of_ended.1
    refine onCell_unfinished ?_ (hunfinished hbefore)
    intro status exporter err finished hfinish
    exact absurd (hnext.finish_stage hfinish).2 hopen
  | reaped => exact hunfinished hopen

theorem Reports.step (hreports : Reports verdict c) (hadmitted : Admitted s) (haccounted : Accounted s)
    (hsteady : Steady s) (hcancel : OnlyCancel s) (hcell : s.cells[i]? = some c)
    (hstep : CellStep cfg s a i c c')
    (hverdict : ∀ status, c.pc.stage = .finishing status → (status = .succeeded ↔ verdict c.builds)) :
    Reports verdict c' := by
  have hunfinished := hstep.unfinished hcancel hreports.unfinished
  cases hstep with
  | framed hspec hrecord hstored hpc hbuilds =>
    refine ⟨?_, hunfinished, ?_⟩
    · rw [hstored, hrecord, hpc]
      exact hreports.deleted
    · rw [hrecord, hpc, hbuilds]
      exact hreports.ended
  | @queued pc hbefore hafter =>
    have hwaiting : c.pc.stage = .waiting ∧ c.pc ≠ .rejected := by
      rcases hbefore with hpc | hpc <;> rw [hpc] <;> exact ⟨rfl, by simp⟩
    refine ⟨?_, hunfinished, ?_⟩
    · intro hstored
      exact .inl ((hreports.deleted hstored).resolve_right hwaiting.2)
    · intro hended
      rcases hafter with rfl | rfl | rfl <;> cases hended
  | @handled k h op next hhandler hid hnext =>
    subst hid
    obtain ⟨hsettled, hop⟩ := haccounted.handlerOp hhandler hcell hnext
    refine ⟨?_, hunfinished, ?_⟩
    · intro hstored
      rcases onCell_deleted hstored with rfl | ⟨hgone, hrecord⟩
      · have hrejected : c.pc = .rejected := (hadmitted.rejects k h hhandler hnext.deletes).eq hcell
        exact .inr hrejected
      · dsimp only
        rw [hrecord]
        exact hreports.deleted hgone
    · intro hended
      exact hreports.lasts hsettled hop hnext.builds hended
  | @moved choice op pc _ hcontrol =>
    have hnext := control_next hcontrol
    obtain ⟨hsettled, hop⟩ := haccounted.taskOp hcell hnext
    refine ⟨?_, hunfinished, ?_⟩
    · intro hstored
      rcases onCell_deleted hstored with hdelete | ⟨hgone, hrecord⟩
      · exact absurd hdelete hnext.not_deletes
      · dsimp only
        rw [hrecord]
        refine .inl ((hreports.deleted hgone).resolve_right ?_)
        intro hrejected
        have hrunning := hnext.running
        rw [hrejected] at hrunning
        cases hrunning
    · intro hended
      by_cases hbefore : c.pc.stage = .ended
      · have hadvance := hnext.advances
        rw [hbefore] at hadvance
        exact hreports.lasts hsettled hop hadvance.of_ended.2 hbefore
      · exact hreports.finished hsettled hop hcontrol hverdict hbefore hended
  | reaped hfinished =>
    exact ⟨fun _ => .inl (hsteady.finishedAt i c hcell hfinished), hunfinished, hreports.ended⟩

end BuildkitService.Daemon
