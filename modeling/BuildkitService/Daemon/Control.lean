import BuildkitService.Daemon.Machine

/-!
# The transitions of the daemon

`Next` lists what the goroutine of a task can do: a point, the operation there, and the point after
it, with the facts about the task that select the transition.
-/

namespace BuildkitService.Daemon

open Pool Option

variable (cfg : Config) (sh : Shared) (c : Cell) {op : Op}

inductive FinishNext : FinishPc → Op → Option FinishPc → Prop
  | now {status : BuildStatus} {exporter : Exporter} {err : Option Bytes} :
      FinishNext (.now status exporter err) .skip (some (.update status exporter err sh.clock))
  | applied {status : BuildStatus} {exporter : Exporter} {err : Option Bytes} {finished : Nat} {r : Record}
      (hstored : c.stored = true) (hrecord : c.record.finish status exporter err finished = some r) :
      FinishNext (.update status exporter err finished) (.finish status exporter err finished)
        (some (.observe status))
  | refused {status : BuildStatus} {exporter : Exporter} {err : Option Bytes} {finished : Nat}
      (hrefused : c.stored = false ∨ c.record.finish status exporter err finished = none) :
      FinishNext (.update status exporter err finished) (.finish status exporter err finished) none
  | observed {status : BuildStatus} : FinishNext (.observe status) (.count status) none

inductive Next : TaskPc → Op → TaskPc → Prop
  | gone : Next .get .skip .closeDone
  | found (hstored : c.stored = true) (hstatus : c.record.status ≠ .canceled) : Next .get .skip .openLog
  | logOpened : Next .openLog .skip (.nextStep c.steps [])
  | logFailed (err : Bytes) : Next .openLog .skip (.finishing (.now .failed [] (some err)))
  | stepsDone (exporter : Exporter) :
      Next (.nextStep [] exporter) .skip (.finishing (.now .succeeded exporter none))
  | stepFromContext {step : BuildStep} {rest : List BuildStep} {exporter : Exporter}
      (hbase : step.baseImage.isEmpty = true) :
      Next (.nextStep (step :: rest) exporter) .skip (.markQueued (.first step rest exporter))
  | stepFromImage {step : BuildStep} {rest : List BuildStep} {exporter : Exporter}
      (hbase : step.baseImage.isEmpty = false) :
      Next (.nextStep (step :: rest) exporter) .skip (.prepare step rest exporter)
  | prepared (step : BuildStep) (rest : List BuildStep) (exporter : Exporter) (written : Except Bytes Unit) :
      Next (.prepare step rest exporter) .skip (c.afterPrepare cfg step rest exporter written)
  | retryQueued (a : Attempt) : Next (.retryQueued a) .markTaskQueued (.retryTimer a)
  | retryNow (a : Attempt) : Next (.retryTimer a) .skip (.markQueued a)
  | retryLater (a : Attempt) : Next (.retryTimer a) .skip
      (.retryWait a (sh.clock + c.spec.retryInterval.toNatClampNeg))
  | retryFires {a : Attempt} {deadline : Nat} (hclock : deadline ≤ sh.clock) :
      Next (.retryWait a deadline) .skip (.markQueued a)
  | retryCanceled {a : Attempt} {deadline : Nat} {ctxErr : Bytes} (hctx : c.ctx = some ctxErr) :
      Next (.retryWait a deadline) .skip (.finishing (.now .canceled a.exporter (some ctxErr)))
  | markedQueued (a : Attempt) : Next (.markQueued a) .markTaskQueued (.acquireGlobal a)
  | globalAcquired (a : Attempt) : Next (.acquireGlobal a) .acquireGlobalSlot (.snapshot a)
  | globalCanceled {a : Attempt} {ctxErr : Bytes} (hctx : c.ctx = some ctxErr) :
      Next (.acquireGlobal a) .skip (.attemptDone a [] (some ctxErr))
  | snapshotTaken {a : Attempt} {order : List Nat}
      (horder : orderedAddrSlots sh.pool.slots c.spec.scheduleKey = some order) :
      Next (.snapshot a) (.snapshot a.excluded) (.picking a
        (sh.pool.filterExcludedAddrSlots order a.excluded) (sh.pool.filterExcludedAddrSlots order a.excluded))
  | picked (a : Attempt) (slot : Nat) (untried slots : List Nat) :
      Next (.picking a (slot :: untried) slots) (.acquireSlot slot) (.assign a slot)
  | pickedNot {a : Attempt} {slot : Nat} {untried slots : List Nat}
      (hfull : sh.pool.tryAcquireAddrSlot slot = none) :
      Next (.picking a (slot :: untried) slots) .skip (.picking a untried slots)
  | noAddress (a : Attempt) :
      Next (.picking a [] []) .abandonSlots (.releaseGlobalOnly a (ascii "no buildkitd addresses available"))
  | allFull (a : Attempt) (slots : List Nat) : Next (.picking a [] slots) .skip (.selecting a slots)
  | selected {a : Attempt} {slot : Nat} {slots : List Nat} (hslot : slot ∈ slots) :
      Next (.selecting a slots) (.acquireSlot slot) (.assign a slot)
  | selectCanceled {a : Attempt} {slots : List Nat} {ctxErr : Bytes} (hctx : c.ctx = some ctxErr) :
      Next (.selecting a slots) .abandonSlots (.releaseGlobalOnly a ctxErr)
  | globalReleasedOnly (a : Attempt) (err : Bytes) :
      Next (.releaseGlobalOnly a err) .releaseGlobal (.attemptDone a [] (some err))
  | assigned {a : Attempt} {slot : Nat} (hstored : c.stored = true) (hstatus : c.record.status ≠ .canceled)
      (hobserved : c.record.observed = false) : Next (.assign a slot) (.assign slot) (.call a slot)
  | unassigned {a : Attempt} {slot : Nat}
      (hgone : ¬(c.stored = true ∧ c.record.status ≠ .canceled ∧ c.record.observed = false)) :
      Next (.assign a slot) .skip (.dropSlot a slot)
  | dropped (a : Attempt) (slot : Nat) :
      Next (.dropSlot a slot) (.releaseSlot slot) (.releaseGlobalOnly a contextCanceled)
  | called (a : Attempt) (slot : Nat) : Next (.call a slot)
      (.startBuild (c.request a ((sh.pool.address slot).getD []))) (.building a slot)
  | built (a : Attempt) (slot : Nat) (exporter : Exporter) (err : Option Bytes) :
      Next (.building a slot) (.endBuild exporter err) (.releaseSlot a slot exporter err)
  | slotReleased (a : Attempt) (slot : Nat) (exporter : Exporter) (err : Option Bytes) :
      Next (.releaseSlot a slot exporter err) (.releaseSlot slot)
        (.releaseGlobal a ((sh.pool.address slot).getD []) exporter err)
  | globalReleased (a : Attempt) (addr : Bytes) (exporter : Exporter) (err : Option Bytes) :
      Next (.releaseGlobal a addr exporter err) .releaseGlobal (.classify a addr exporter err)
  | attemptReturns {a : Attempt} {addr : Bytes} {exporter : Exporter} {err : Option Bytes}
      (hreturns : ∀ text, err = some text →
        c.ctx.isSome = true ∨ isRetryableBuildkitAddrError text addr = false) :
      Next (.classify a addr exporter err) .skip (.attemptDone a exporter err)
  | failsOver {a : Attempt} {addr text : Bytes} {exporter : Exporter} (hctx : c.ctx = none)
      (hretryable : isRetryableBuildkitAddrError text addr = true) :
      Next (.classify a addr exporter (some text)) .skip
        (.refresh { a with excluded := a.excluded ++ [addr] })
  | refreshed (a : Attempt) (addrs : List BuildkitAddr) :
      Next (.refresh a) (.replacePool addrs) (.markQueued a)
  | refreshFailed (a : Attempt) : Next (.refresh a) .skip (.markQueued a)
  | attempted (a : Attempt) (exporter : Exporter) (err : Option Bytes) :
      Next (.attemptDone a exporter err) .skip (c.afterAttempt a exporter err)
  | finishes {f f' : FinishPc} {op : Op} (hfinish : FinishNext sh c f op (some f')) :
      Next (.finishing f) op (.finishing f')
  | finished {f : FinishPc} {op : Op} (hfinish : FinishNext sh c f op none) :
      Next (.finishing f) op .closeDone
  | closed : Next .closeDone .closeDone .returned

variable {cfg sh c}

theorem finishControl_next (f : FinishPc) : FinishNext sh c f (f.control sh c).1 (f.control sh c).2 := by
  cases f with
  | now status exporter err => exact .now
  | update status exporter err finished =>
    rw [FinishPc.control]
    by_cases happlies : c.stored = true ∧ (c.record.finish status exporter err finished).isSome = true
    · obtain ⟨r, hr⟩ := isSome_iff_exists.1 happlies.2
      rw [if_pos happlies]
      exact .applied happlies.1 hr
    · rw [if_neg happlies]
      apply FinishNext.refused
      rw [not_and_or, Bool.not_eq_true, Bool.not_eq_true, isSome_eq_false_iff,
        isNone_iff_eq_none] at happlies
      exact happlies
  | observe status => exact .observed

theorem control_next {choice : Choice} {pc : TaskPc} (h : control cfg sh c choice = some (op, pc)) :
    Next cfg sh c c.pc op pc := by
  unfold control at h
  split at h <;> rename_i hpc <;> try rw [hpc]
  case h_1 =>
    cases h
    split_ifs with hfound
    · exact .found hfound.1 hfound.2
    · exact .gone
  case h_2 => cases h; exact .logOpened
  case h_3 err => cases h; exact .logFailed err
  case h_4 exporter => cases h; exact .stepsDone exporter
  case h_5 step rest exporter =>
    cases h
    split_ifs with hbase
    · exact .stepFromContext hbase
    · exact .stepFromImage (eq_false_of_ne_true hbase)
  case h_6 step rest exporter => cases h; exact .prepared step rest exporter _
  case h_7 step rest exporter err => cases h; exact .prepared step rest exporter _
  case h_8 a => cases h; exact .retryQueued a
  case h_9 a =>
    cases h
    split_ifs
    · exact .retryNow a
    · exact .retryLater a
  case h_10 a deadline =>
    split at h
    · cases h
      exact .retryFires (by assumption)
    · cases h
  case h_11 a deadline =>
    obtain ⟨ctxErr, hctx, heq⟩ := map_eq_some_iff.1 h
    cases heq
    exact .retryCanceled hctx
  case h_12 a => cases h; exact .markedQueued a
  case h_13 a => cases h; exact .globalAcquired a
  case h_14 a =>
    split at h
    · cases h
    · obtain ⟨ctxErr, hctx, heq⟩ := map_eq_some_iff.1 h
      cases heq
      exact .globalCanceled hctx
  case h_15 a =>
    obtain ⟨order, horder, heq⟩ := map_eq_some_iff.1 h
    cases heq
    exact .snapshotTaken horder
  case h_16 a slot untried slots =>
    split at h
    · cases h
      exact .picked a slot untried slots
    · cases h
      exact .pickedNot (by assumption)
  case h_17 a => cases h; exact .noAddress a
  case h_18 a slot slots => cases h; exact .allFull a _
  case h_19 a slots slot =>
    split at h
    · cases h
      exact .selected (by assumption)
    · cases h
  case h_20 a slots =>
    obtain ⟨ctxErr, hctx, heq⟩ := map_eq_some_iff.1 h
    cases heq
    exact .selectCanceled hctx
  case h_21 a err => cases h; exact .globalReleasedOnly a err
  case h_22 a slot =>
    split at h
    · rename_i hassign
      cases h
      exact .assigned hassign.1 hassign.2.1 hassign.2.2
    · cases h
      exact .unassigned (by assumption)
  case h_23 a slot => cases h; exact .dropped a slot
  case h_24 a slot => cases h; exact .called a slot
  case h_25 a slot exporter err => cases h; exact .built a slot exporter err
  case h_26 a slot exporter err => cases h; exact .slotReleased a slot exporter err
  case h_27 a addr exporter err => cases h; exact .globalReleased a addr exporter err
  case h_28 a addr exporter err =>
    cases err with
    | none =>
      cases h
      exact .attemptReturns (by simp)
    | some text =>
      simp only at h
      split at h
      · rename_i hreturns
        cases h
        apply Next.attemptReturns
        intro other hother
        rw [← Option.some.inj hother]
        exact hreturns
      · rename_i hretry
        cases h
        simp only [not_or, Bool.not_eq_true, isSome_eq_false_iff, isNone_iff_eq_none,
          Bool.not_eq_false] at hretry
        exact .failsOver hretry.1 hretry.2
  case h_29 a addrs => cases h; exact .refreshed a addrs
  case h_30 a err => cases h; exact .refreshFailed a
  case h_31 a exporter err => cases h; exact .attempted a exporter err
  case h_32 f =>
    have hfinish : FinishNext sh c f (f.control sh c).1 (f.control sh c).2 := finishControl_next f
    revert h hfinish
    cases f.control sh c with
    | mk first next =>
      intro h hfinish
      cases next with
      | none =>
        cases h
        exact .finished hfinish
      | some f' =>
        cases h
        exact .finishes hfinish
  case h_33 => cases h; exact .closed
  case h_34 => cases h

/-! ### Handlers -/

inductive HandlerNext (sh : Shared) (c : Cell) (h : Handler) : HandlerPc → Op → HandlerPc → Prop
  | rejectCancels : HandlerNext sh c h .rejectCancel .cancelCtx (.rejectFinish finishCanceled)
  | rejectFinishes {f f' : FinishPc} {op : Op} (hfinish : FinishNext sh c f op (some f')) :
      HandlerNext sh c h (.rejectFinish f) op (.rejectFinish f')
  | rejectFinished {f : FinishPc} {op : Op} (hfinish : FinishNext sh c f op none) :
      HandlerNext sh c h (.rejectFinish f) op .rejectClose
  | rejectCloses : HandlerNext sh c h .rejectClose .closeChannel .rejectDelete
  | rejectDeletes : HandlerNext sh c h .rejectDelete .deleteRecord .returned
  | waited : HandlerNext sh c h .wait .skip .returned
  | cancels (hstored : c.stored = true) : HandlerNext sh c h .cancel .cancelRecord
      (.cancelCtx (!c.record.status.terminal) (c.record.cancel sh.clock).status)
  | cancelGone (hstored : c.stored = false) (hshutdown : h.shutdown = false) :
      HandlerNext sh c h .cancel .skip .returned
  | shutdownGone (hstored : c.stored = false) (hshutdown : h.shutdown = true) :
      HandlerNext sh c h .cancel .skip (.cancelFinish finishCanceled)
  | cancelsCtx {cancels : Bool} {status : BuildStatus} (hfinish : h.shutdown = true ∨ status = .canceled) :
      HandlerNext sh c h (.cancelCtx cancels status) (if cancels then .cancelCtx else .skip)
        (.cancelFinish finishCanceled)
  | cancelReturns {cancels : Bool} {status : BuildStatus} (hshutdown : h.shutdown = false)
      (hstatus : status ≠ .canceled) :
      HandlerNext sh c h (.cancelCtx cancels status) (if cancels then .cancelCtx else .skip) .returned
  | cancelFinishes {f f' : FinishPc} {op : Op} (hfinish : FinishNext sh c f op (some f')) :
      HandlerNext sh c h (.cancelFinish f) op (.cancelFinish f')
  | cancelFinished {f : FinishPc} {op : Op} (hfinish : FinishNext sh c f op none) :
      HandlerNext sh c h (.cancelFinish f) op .returned

theorem handlerControl_next {h : Handler} {leaves : Bool} {next : HandlerPc}
    (hcontrol : h.control sh c leaves = some (op, next)) : HandlerNext sh c h h.pc op next := by
  unfold Handler.control at hcontrol
  split at hcontrol <;> rename_i hpc <;> rw [hpc]
  case h_1 => cases hcontrol
  case h_2 => cases hcontrol; exact .rejectCancels
  case h_3 f =>
    have hfinish : FinishNext sh c f (f.control sh c).1 (f.control sh c).2 := finishControl_next f
    revert hcontrol hfinish
    cases f.control sh c with
    | mk first after =>
      intro hcontrol hfinish
      cases after with
      | none => cases hcontrol; exact .rejectFinished hfinish
      | some f' => cases hcontrol; exact .rejectFinishes hfinish
  case h_4 => cases hcontrol; exact .rejectCloses
  case h_5 => cases hcontrol; exact .rejectDeletes
  case h_6 =>
    split at hcontrol
    · cases hcontrol
      exact .waited
    · cases hcontrol
  case h_7 =>
    split at hcontrol
    · rename_i hstored
      cases hcontrol
      exact .cancels hstored
    · rename_i hstored
      cases hcontrol
      split_ifs with hshutdown
      · exact .shutdownGone (eq_false_of_ne_true hstored) hshutdown
      · exact .cancelGone (eq_false_of_ne_true hstored) (eq_false_of_ne_true hshutdown)
  case h_8 cancels status =>
    cases hcontrol
    by_cases hfinish : h.shutdown = true ∨ status = .canceled
    · rw [if_pos hfinish]
      exact .cancelsCtx hfinish
    · rw [if_neg hfinish]
      rw [not_or, Bool.not_eq_true] at hfinish
      exact .cancelReturns hfinish.1 hfinish.2
  case h_9 f =>
    have hfinish : FinishNext sh c f (f.control sh c).1 (f.control sh c).2 := finishControl_next f
    revert hcontrol hfinish
    cases f.control sh c with
    | mk first after =>
      intro hcontrol hfinish
      cases after with
      | none => cases hcontrol; exact .cancelFinished hfinish
      | some f' => cases hcontrol; exact .cancelFinishes hfinish
  case h_10 => cases hcontrol

/-! ### Steps -/

inductive Effect (cfg : Config) (s : State) : Action → State → Prop
  | tick : Effect cfg s .tick { s with shared := { s.shared with clock := s.shared.clock + 1 } }
  | create (spec : TaskSpec) : Effect cfg s (.create spec) { s with
      cells := s.cells ++ [.create spec s.shared.clock]
      handlers := s.handlers ++ [⟨s.cells.length, false, .enqueue⟩] }
  | request {a : Action} {id : Nat} (shutdown : Bool) (hid : id < s.cells.length) :
      Effect cfg s a { s with handlers := s.handlers ++ [⟨id, shutdown, .cancel⟩] }
  | handler {k : Nat} {leaves : Bool} {h : Handler} {c : Cell} {op : Op} {next : HandlerPc} {sh : Shared}
      (hhandler : s.handlers[k]? = some h) (hcell : s.cells[h.id]? = some c)
      (hnext : HandlerNext s.shared c h h.pc op next) (hshared : op.onShared cfg s.shared = some sh) :
      Effect cfg s (.handler k leaves) { s with
        shared := sh
        cells := s.cells.set h.id { op.onCell s.shared c with pc := c.pc }
        handlers := s.handlers.set k { h with pc := next } }
  | enqueue {k : Nat} {leaves : Bool} {h : Handler} {c : Cell} {outcome : Enqueued}
      (hhandler : s.handlers[k]? = some h) (hpc : h.pc = .enqueue) (hcell : s.cells[h.id]? = some c)
      (houtcome : outcome = enqueue cfg s.closed c.spec.mode) :
      Effect cfg s (.handler k leaves) { s with
        cells := s.cells.set h.id { c with pc := outcome.pc }
        handlers := s.handlers.set k { h with pc := outcome.handlerPc c.spec.sync }
        queue := if outcome = .pushed then s.queue ++ [h.id] else s.queue }
  | pop {mode : Bytes} {i : Nat} {c : Cell} (hqueue : i ∈ s.queue) (hcell : s.cells[i]? = some c)
      (hmode : c.spec.mode = mode) {concurrency : Nat}
      (hconcurrency : cfg.modes.bind (List.lookup mode) = some concurrency) (hfree : s.busy mode < concurrency) :
      Effect cfg s (.pop mode) { s with
        cells := s.cells.set i { c with pc := .get }
        queue := s.queue.erase i }
  | closeQueue (mode : Bytes) : Effect cfg s (.closeQueue mode) { s with
      closed := mode :: s.closed
      queue := s.queue.filter fun i => !s.inMode mode i }
  | task {i : Nat} {choice : Choice} {c : Cell} {op : Op} {pc : TaskPc} {sh : Shared}
      (hcell : s.cells[i]? = some c) (hcontrol : control cfg s.shared c choice = some (op, pc))
      (hshared : op.onShared cfg s.shared = some sh) :
      Effect cfg s (.task i choice) { s with
        shared := sh
        cells := s.cells.set i { op.onCell s.shared c with pc := pc } }
  | ctxDone {i : Nat} {err : Bytes} {c : Cell} (hcell : s.cells[i]? = some c) (hctx : c.ctx = none) :
      Effect cfg s (.ctxDone i err) { s with cells := s.cells.set i { c with ctx := some err } }
  | reap {now : Nat} (hnow : now ≤ s.shared.clock) :
      Effect cfg s (.reap now) { s with cells := s.cells.map (Cell.reap cfg now) }
  | removeDir {i : Nat} {c : Cell} (hcell : s.cells[i]? = some c) (hremoving : c.removing = true) :
      Effect cfg s (.removeDir i) { s with
        cells := s.cells.set i { c with dir := false, removing := false } }
  | refreshPool (addrs : List BuildkitAddr) : Effect cfg s (.refreshPool addrs)
      { s with shared := { s.shared with pool := s.shared.pool.replace addrs } }

theorem step_effect {s s' : State} {a : Action} (hstep : step cfg s a = some s') : Effect cfg s a s' := by
  cases a with
  | tick => cases hstep; exact .tick
  | create spec => cases hstep; exact .create spec
  | requestCancel id =>
    simp only [step] at hstep
    split at hstep
    · rename_i hcell
      cases hstep
      exact .request false (List.getElem?_eq_some_iff.1 hcell).1
    · cases hstep
  | requestShutdown id =>
    simp only [step] at hstep
    split at hstep
    · rename_i hcell
      split at hstep
      · cases hstep
        exact .request true (List.getElem?_eq_some_iff.1 hcell).1
      · cases hstep
    · cases hstep
  | handler k leaves =>
    simp only [step] at hstep
    split at hstep
    · rename_i h hhandler
      split at hstep
      · rename_i c hcell
        unfold stepHandler at hstep
        split at hstep
        · rename_i hpc
          simp only [State.perform, Op.onShared, Op.onCell, map_some, Option.some.injEq] at hstep
          subst hstep
          exact .enqueue hhandler hpc hcell rfl
        · split at hstep
          · rename_i op next hcontrol
            obtain ⟨s1, hs1, rfl⟩ := map_eq_some_iff.1 hstep
            obtain ⟨sh, hshared, rfl⟩ := map_eq_some_iff.1 hs1
            exact .handler hhandler hcell (handlerControl_next hcontrol) hshared
          · cases hstep
      · cases hstep
    · cases hstep
  | pop mode =>
    simp only [step] at hstep
    split at hstep
    · rename_i i hconcurrency hfind
      split at hstep
      · rename_i c hcell
        have hmode : c.spec.mode = mode := by
          have hfound := List.find?_some hfind
          rw [State.inMode, hcell] at hfound
          exact eq_of_beq hfound
        split at hstep
        · rename_i hfree
          simp only [State.perform, Op.onShared, Op.onCell, map_some, Option.some.injEq] at hstep
          subst hstep
          exact .pop (List.mem_of_find?_eq_some hfind) hcell hmode hconcurrency hfree.1
        · cases hstep
      · cases hstep
    · cases hstep
  | closeQueue mode => cases hstep; exact .closeQueue mode
  | task i choice =>
    simp only [step] at hstep
    split at hstep
    · rename_i c hcell
      split at hstep
      · rename_i op pc hcontrol
        obtain ⟨sh, hshared, rfl⟩ := map_eq_some_iff.1 hstep
        exact .task hcell hcontrol hshared
      · cases hstep
    · cases hstep
  | ctxDone i err =>
    simp only [step] at hstep
    split at hstep
    · rename_i c hcell
      split at hstep
      · rename_i hctx
        cases hstep
        exact .ctxDone hcell hctx
      · cases hstep
    · cases hstep
  | reap now =>
    simp only [step] at hstep
    split at hstep
    · rename_i hnow
      cases hstep
      exact .reap hnow
    · cases hstep
  | removeDir i =>
    simp only [step] at hstep
    split at hstep
    · rename_i c hcell
      split at hstep
      · rename_i hremoving
        simp only [State.perform, Op.onShared, Op.onCell, map_some, Option.some.injEq] at hstep
        subst hstep
        exact .removeDir hcell hremoving
      · cases hstep
    · cases hstep
  | refreshPool addrs => cases hstep; exact .refreshPool addrs

/-! ### What an operation does to a task -/

inductive RecordNext (sh : Shared) (r : Record) : Op → Record → Prop
  | queued (hopen : r.status = .queued ∨ r.status = .running) (queuedAt : Option Nat) :
      RecordNext sh r .markTaskQueued { r with status := .queued, queuedAt := queuedAt, buildkitAddr := [], nodeIP := [] }
  | assigned {slot : Nat} {o : AddrSlot} (hfree : ¬(r.status = .canceled ∨ r.observed = true))
      (hslot : sh.pool.objects[slot]? = some o) : RecordNext sh r (.assign slot)
        { r with
          status := .running
          startedAt := r.startedAt.orElse fun _ => some sh.clock
          buildkitAddr := o.addr.addr
          nodeIP := o.addr.nodeIP }
  | finished {status : BuildStatus} {exporter : Exporter} {err : Option Bytes} {finished : Nat}
      (hobserved : ¬r.observed = true) (hstatus : ¬(r.status = .canceled ∧ status ≠ .canceled)) :
      RecordNext sh r (.finish status exporter err finished)
        { r with
          status := status
          finishedAt := some finished
          exporterResponse := exporter
          error := err.getD r.error
          observed := true }
  | canceled (hopen : r.status = .queued ∨ r.status = .running) :
      RecordNext sh r .cancelRecord { r with status := .canceled, finishedAt := some sh.clock }

inductive CellNext (sh : Shared) (c : Cell) : Op → Cell → Prop
  | same {op : Op} (hdelete : op ≠ .deleteRecord) : CellNext sh c op c
  | rewritten {op : Op} {r : Record} (hstored : c.stored = true) (hrecord : RecordNext sh c.record op r) :
      CellNext sh c op { c with record := r }
  | started (request : BuildRunRequest) :
      CellNext sh c (.startBuild request) { c with builds := c.builds ++ [⟨request, none⟩] }
  | ended (exporter : Exporter) (err : Option Bytes) :
      CellNext sh c (.endBuild exporter err) { c with builds := finishCall ⟨exporter, err, c.ctx.isSome⟩ c.builds }
  | counted (status : BuildStatus) : CellNext sh c (.count status) { c with counts := c.counts ++ [status] }
  | doneClosed (hstored : c.stored = true) :
      CellNext sh c .closeDone { c with record := { c.record with done := false }, doneClosed := true }
  | ctxCanceled : CellNext sh c .cancelCtx { c with ctx := c.ctx.orElse fun _ => some contextCanceled }
  | channelClosed : CellNext sh c .closeChannel { c with doneClosed := true }
  | deleted : CellNext sh c .deleteRecord { c with stored := false, removing := c.removing || c.stored }
  | removed : CellNext sh c .removeDir { c with dir := false, removing := false }

theorem update_next {f : Record → Record} (hdelete : op ≠ .deleteRecord)
    (hrecord : f c.record = c.record ∨ RecordNext sh c.record op (f c.record)) :
    CellNext sh c op (c.update f) := by
  rw [Cell.update]
  split_ifs with hstored
  · rcases hrecord with hsame | hnext
    · rw [hsame]
      exact .same hdelete
    · exact .rewritten hstored hnext
  · exact .same hdelete

theorem onCell_next (sh : Shared) (c : Cell) (op : Op) : CellNext sh c op (op.onCell sh c) := by
  cases op with
  | markTaskQueued =>
    refine update_next nofun ?_
    by_cases hopen : c.record.status = .queued ∨ c.record.status = .running
    · right
      rw [Record.markTaskQueued, if_pos hopen]
      exact .queued hopen _
    · left
      exact if_neg hopen
  | cancelRecord =>
    refine update_next nofun ?_
    rw [Record.cancel]
    split_ifs with hopen
    · exact .inr (.canceled hopen)
    · exact .inl rfl
  | assign slot =>
    simp only [Op.onCell]
    split
    · rename_i o hslot
      refine update_next nofun ?_
      rw [Record.assign]
      split_ifs with hfree
      · exact .inl rfl
      · exact .inr (.assigned hfree hslot)
    · exact .same nofun
  | finish status exporter err finished =>
    refine update_next nofun ?_
    rw [Record.finish]
    split_ifs with hobserved hstatus
    · exact .inl rfl
    · exact .inl rfl
    · exact .inr (.finished hobserved hstatus)
  | closeDone =>
    simp only [Op.onCell]
    split_ifs with hdone
    · exact .doneClosed hdone.1
    · exact .same nofun
  | startBuild request => exact .started request
  | endBuild exporter err => exact .ended exporter err
  | count status => exact .counted status
  | cancelCtx => exact .ctxCanceled
  | closeChannel => exact .channelClosed
  | deleteRecord => exact .deleted
  | removeDir => exact .removed
  | _ => exact .same nofun

theorem onCell_spec (sh : Shared) (c : Cell) (op : Op) : (op.onCell sh c).spec = c.spec := by
  have hnext := onCell_next sh c op
  generalize op.onCell sh c = c' at hnext ⊢
  cases hnext with
  | _ => rfl

end BuildkitService.Daemon
