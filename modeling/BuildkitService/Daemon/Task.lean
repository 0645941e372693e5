import BuildkitService.Pool.AddrPool
import BuildkitService.Daemon.Build

/-!
# One task of the build daemon

`internal/builddaemon/tasks.go`.
-/

namespace BuildkitService.Daemon

open Strings Pool

/-! ### Records -/

inductive BuildStatus where
  | queued
  | running
  | succeeded
  | failed
  | canceled
  deriving DecidableEq, Repr

def BuildStatus.terminal : BuildStatus → Bool
  | .queued | .running => false
  | .succeeded | .failed | .canceled => true

structure TaskSpec where
  image : Bytes
  mode : Bytes
  routedTarget : Bytes
  imageType : ImageType
  target : Bytes
  workDir : Bytes
  contextDir : Bytes
  scheduleKey : Bytes
  noCache : Bool
  retry : Nat
  retryInterval : Int64
  buildArgs : List (Bytes × Bytes)
  sync : Bool
  deriving DecidableEq, Repr

structure Record where
  status : BuildStatus
  observed : Bool
  queuedAt : Option Nat
  buildkitAddr : Bytes
  nodeIP : Bytes
  startedAt : Option Nat
  finishedAt : Option Nat
  error : Bytes
  exporterResponse : Exporter
  done : Bool
  deriving DecidableEq, Repr

def Record.created (now : Nat) : Record :=
  ⟨.queued, false, some now, [], [], none, none, [], [], true⟩

def Record.cancel (now : Nat) (r : Record) : Record :=
  if r.status = .queued ∨ r.status = .running then
    { r with status := .canceled, finishedAt := some now }
  else r

def Record.markTaskQueued (now : Nat) (r : Record) : Record :=
  if r.status = .queued ∨ r.status = .running then
    { r with
      status := .queued
      queuedAt := if r.status ≠ .queued ∨ r.queuedAt = none then some now else r.queuedAt
      buildkitAddr := []
      nodeIP := [] }
  else r

def Record.assign (started : Nat) (addr : BuildkitAddr) (r : Record) : Option Record :=
  if r.status = .canceled ∨ r.observed = true then none
  else some { r with
    status := .running
    startedAt := r.startedAt.orElse fun _ => some started
    buildkitAddr := addr.addr
    nodeIP := addr.nodeIP }

def Record.finish (status : BuildStatus) (exporter : Exporter) (err : Option Bytes) (finished : Nat)
    (r : Record) : Option Record :=
  if r.observed = true then none
  else if r.status = .canceled ∧ status ≠ .canceled then none
  else some { r with
    status := status
    finishedAt := some finished
    exporterResponse := exporter
    error := err.getD r.error
    observed := true }

/-! ### Tasks -/

def contextCanceled : Bytes := ascii "context canceled"

structure BuildResult where
  exporter : Exporter
  err : Option Bytes
  ctxDone : Bool
  deriving DecidableEq, Repr

structure BuildCall where
  request : BuildRunRequest
  result : Option BuildResult
  deriving DecidableEq, Repr

structure Attempt where
  rest : List BuildStep
  step : BuildStep
  exporter : Exporter
  attempt : Nat
  excluded : List Bytes
  deriving DecidableEq, Repr

inductive FinishPc where
  | now (status : BuildStatus) (exporter : Exporter) (err : Option Bytes)
  | update (status : BuildStatus) (exporter : Exporter) (err : Option Bytes) (finished : Nat)
  | observe (status : BuildStatus)
  deriving DecidableEq, Repr

inductive TaskPc where
  | created
  | rejected
  | queued
  | get
  | openLog
  | nextStep (steps : List BuildStep) (exporter : Exporter)
  | prepare (step : BuildStep) (rest : List BuildStep) (exporter : Exporter)
  | retryQueued (a : Attempt)
  | retryTimer (a : Attempt)
  | retryWait (a : Attempt) (deadline : Nat)
  | markQueued (a : Attempt)
  | acquireGlobal (a : Attempt)
  | snapshot (a : Attempt)
  | picking (a : Attempt) (untried slots : List Nat)
  | selecting (a : Attempt) (slots : List Nat)
  | releaseGlobalOnly (a : Attempt) (err : Bytes)
  | assign (a : Attempt) (slot : Nat)
  | dropSlot (a : Attempt) (slot : Nat)
  | call (a : Attempt) (slot : Nat)
  | building (a : Attempt) (slot : Nat)
  | releaseSlot (a : Attempt) (slot : Nat) (exporter : Exporter) (err : Option Bytes)
  | releaseGlobal (a : Attempt) (addr : Bytes) (exporter : Exporter) (err : Option Bytes)
  | classify (a : Attempt) (addr : Bytes) (exporter : Exporter) (err : Option Bytes)
  | refresh (a : Attempt)
  | attemptDone (a : Attempt) (exporter : Exporter) (err : Option Bytes)
  | finishing (f : FinishPc)
  | closeDone
  | returned
  deriving DecidableEq, Repr

structure Cell where
  spec : TaskSpec
  record : Record
  stored : Bool
  ctx : Option Bytes
  pc : TaskPc
  doneClosed : Bool
  dir : Bool
  removing : Bool
  builds : List BuildCall
  counts : List BuildStatus
  deriving DecidableEq, Repr

def Cell.create (spec : TaskSpec) (now : Nat) : Cell :=
  ⟨spec, .created now, true, none, .created, false, true, false, [], []⟩

structure Shared where
  clock : Nat
  pool : AddrPool
  globalSem : Nat
  succeeded : Nat
  failed : Nat
  canceled : Nat
  deriving DecidableEq, Repr

structure Config where
  maxConcurrency : Nat
  keepTTL : Nat
  /-- The modes of `--modes-json` with their concurrency, or nothing if there is no scheduler. -/
  modes : Option (List (Bytes × Nat))
  registry : Registry

/-! ### Operations -/

inductive Op where
  | skip
  | markTaskQueued
  | acquireGlobalSlot
  | releaseGlobal
  | snapshot (excluded : List Bytes)
  | acquireSlot (slot : Nat)
  | abandonSlots
  | releaseSlot (slot : Nat)
  | assign (slot : Nat)
  | startBuild (request : BuildRunRequest)
  | endBuild (exporter : Exporter) (err : Option Bytes)
  | replacePool (addrs : List BuildkitAddr)
  | finish (status : BuildStatus) (exporter : Exporter) (err : Option Bytes) (finished : Nat)
  | count (status : BuildStatus)
  | closeDone
  | cancelRecord
  | cancelCtx
  | closeChannel
  | deleteRecord
  | removeDir
  deriving DecidableEq, Repr

def Cell.update (c : Cell) (f : Record → Record) : Cell :=
  if c.stored then { c with record := f c.record } else c

def Shared.count (sh : Shared) : BuildStatus → Shared
  | .succeeded => { sh with succeeded := sh.succeeded + 1 }
  | .failed => { sh with failed := sh.failed + 1 }
  | .canceled => { sh with canceled := sh.canceled + 1 }
  | .queued | .running => sh

def finishCall (result : BuildResult) : List BuildCall → List BuildCall
  | [] => []
  | [call] => [{ call with result := some result }]
  | call :: calls => call :: finishCall result calls

def Op.onShared (cfg : Config) (sh : Shared) : Op → Option Shared
  | .acquireGlobalSlot =>
      if cfg.maxConcurrency = 0 then some sh
      else if sh.globalSem < cfg.maxConcurrency then some { sh with globalSem := sh.globalSem + 1 }
      else none
  | .releaseGlobal =>
      if cfg.maxConcurrency = 0 then some sh
      else if 0 < sh.globalSem then some { sh with globalSem := sh.globalSem - 1 }
      else none
  | .acquireSlot slot => (sh.pool.tryAcquireAddrSlot slot).map fun pool => { sh with pool := pool }
  | .releaseSlot slot => (sh.pool.releaseAddrSlot slot).map fun pool => { sh with pool := pool }
  | .replacePool addrs => some { sh with pool := sh.pool.replace addrs }
  | .count status => some (sh.count status)
  | _ => some sh

def Op.onCell (sh : Shared) (c : Cell) : Op → Cell
  | .markTaskQueued => c.update (Record.markTaskQueued sh.clock)
  | .assign slot =>
      match sh.pool.objects[slot]? with
      | some o => c.update fun r => (r.assign sh.clock o.addr).getD r
      | none => c
  | .startBuild request => { c with builds := c.builds ++ [⟨request, none⟩] }
  | .endBuild exporter err => { c with builds := finishCall ⟨exporter, err, c.ctx.isSome⟩ c.builds }
  | .finish status exporter err finished =>
      c.update fun r => (r.finish status exporter err finished).getD r
  | .count status => { c with counts := c.counts ++ [status] }
  | .closeDone =>
      if c.stored = true ∧ c.record.done = true then
        { c with record := { c.record with done := false }, doneClosed := true }
      else c
  | .cancelRecord => c.update (Record.cancel sh.clock)
  | .cancelCtx => { c with ctx := c.ctx.orElse fun _ => some contextCanceled }
  | .closeChannel => { c with doneClosed := true }
  | .deleteRecord => { c with stored := false, removing := c.removing || c.stored }
  | .removeDir => { c with dir := false, removing := false }
  | _ => c

/-! ### Control flow -/

inductive Choice where
  | go
  | fail (err : Bytes)
  | canceled
  | take (slot : Nat)
  | result (exporter : Exporter) (err : Option Bytes)
  | refreshed (addrs : Except Bytes (List BuildkitAddr))
  deriving Repr

def FinishPc.control (sh : Shared) (c : Cell) : FinishPc → Op × Option FinishPc
  | .now status exporter err => (.skip, some (.update status exporter err sh.clock))
  | .update status exporter err finished =>
      (.finish status exporter err finished,
        if c.stored ∧ (c.record.finish status exporter err finished).isSome
        then some (.observe status) else none)
  | .observe status => (.count status, none)

def Cell.steps (c : Cell) : List BuildStep :=
  buildStepsForImageType (if c.spec.routedTarget.isEmpty then c.spec.image else c.spec.routedTarget)
    c.spec.imageType

def Attempt.first (step : BuildStep) (rest : List BuildStep) (exporter : Exporter) : Attempt :=
  ⟨rest, step, exporter, 0, []⟩

def Cell.request (c : Cell) (a : Attempt) (addr : Bytes) : BuildRunRequest :=
  if a.step.contextDir.isEmpty then
    ⟨c.spec.contextDir, addr, a.step.image, a.step.format, c.spec.target, c.spec.noCache, c.spec.buildArgs⟩
  else ⟨a.step.contextDir, addr, a.step.image, a.step.format, [], c.spec.noCache, []⟩

def Cell.afterPrepare (c : Cell) (cfg : Config) (step : BuildStep) (rest : List BuildStep)
    (exporter : Exporter) (written : Except Bytes Unit) : TaskPc :=
  match createNydusFromOCIContext cfg.registry c.spec.workDir step.baseImage exporter written with
  | .error err => .finishing (.now .failed exporter (some err))
  | .ok (contextDir, _) => .markQueued (.first { step with contextDir := contextDir } rest exporter)

def Cell.afterAttempt (c : Cell) (a : Attempt) (exporter : Exporter) : Option Bytes → TaskPc
  | none => .nextStep a.rest exporter
  | some err =>
      match c.ctx with
      | some ctxErr => .finishing (.now .canceled exporter (some ctxErr))
      | none =>
          if isDeterministicBuildError err then .finishing (.now .failed exporter (some err))
          else if a.attempt < c.spec.retry then
            .retryQueued ⟨a.rest, a.step, exporter, a.attempt + 1, []⟩
          else .finishing (.now .failed exporter (some err))

def control (cfg : Config) (sh : Shared) (c : Cell) (choice : Choice) : Option (Op × TaskPc) :=
  match c.pc, choice with
  | .get, .go =>
      some (.skip, if c.stored = true ∧ c.record.status ≠ .canceled then .openLog else .closeDone)
  | .openLog, .go => some (.skip, .nextStep c.steps [])
  | .openLog, .fail err => some (.skip, .finishing (.now .failed [] (some err)))
  | .nextStep [] exporter, .go => some (.skip, .finishing (.now .succeeded exporter none))
  | .nextStep (step :: rest) exporter, .go =>
      some (.skip, if step.baseImage.isEmpty then .markQueued (.first step rest exporter)
        else .prepare step rest exporter)
  | .prepare step rest exporter, .go => some (.skip, c.afterPrepare cfg step rest exporter (.ok ()))
  | .prepare step rest exporter, .fail err =>
      some (.skip, c.afterPrepare cfg step rest exporter (.error err))
  | .retryQueued a, .go => some (.markTaskQueued, .retryTimer a)
  | .retryTimer a, .go =>
      some (.skip, if c.spec.retryInterval ≤ 0 then .markQueued a
        else .retryWait a (sh.clock + c.spec.retryInterval.toNatClampNeg))
  | .retryWait a deadline, .go => if deadline ≤ sh.clock then some (.skip, .markQueued a) else none
  | .retryWait a _, .canceled =>
      c.ctx.map fun ctxErr => (.skip, .finishing (.now .canceled a.exporter (some ctxErr)))
  | .markQueued a, .go => some (.markTaskQueued, .acquireGlobal a)
  | .acquireGlobal a, .go => some (.acquireGlobalSlot, .snapshot a)
  | .acquireGlobal a, .canceled =>
      if cfg.maxConcurrency = 0 then none
      else c.ctx.map fun ctxErr => (.skip, .attemptDone a [] (some ctxErr))
  | .snapshot a, .go =>
      (orderedAddrSlots sh.pool.slots c.spec.scheduleKey).map fun order =>
        let slots := sh.pool.filterExcludedAddrSlots order a.excluded
        (.snapshot a.excluded, .picking a slots slots)
  | .picking a (slot :: untried) slots, .go =>
      match sh.pool.tryAcquireAddrSlot slot with
      | some _ => some (.acquireSlot slot, .assign a slot)
      | none => some (.skip, .picking a untried slots)
  | .picking a [] [], .go =>
      some (.abandonSlots, .releaseGlobalOnly a (ascii "no buildkitd addresses available"))
  | .picking a [] (slot :: slots), .go => some (.skip, .selecting a (slot :: slots))
  | .selecting a slots, .take slot => if slot ∈ slots then some (.acquireSlot slot, .assign a slot) else none
  | .selecting a _, .canceled => c.ctx.map fun ctxErr => (.abandonSlots, .releaseGlobalOnly a ctxErr)
  | .releaseGlobalOnly a err, .go => some (.releaseGlobal, .attemptDone a [] (some err))
  | .assign a slot, .go =>
      if c.stored = true ∧ c.record.status ≠ .canceled ∧ c.record.observed = false
      then some (.assign slot, .call a slot) else some (.skip, .dropSlot a slot)
  | .dropSlot a slot, .go => some (.releaseSlot slot, .releaseGlobalOnly a contextCanceled)
  | .call a slot, .go =>
      some (.startBuild (c.request a ((sh.pool.address slot).getD [])), .building a slot)
  | .building a slot, .result exporter err => some (.endBuild exporter err, .releaseSlot a slot exporter err)
  | .releaseSlot a slot exporter err, .go =>
      some (.releaseSlot slot, .releaseGlobal a ((sh.pool.address slot).getD []) exporter err)
  | .releaseGlobal a addr exporter err, .go => some (.releaseGlobal, .classify a addr exporter err)
  | .classify a addr exporter err, .go =>
      match err with
      | some text =>
          if c.ctx.isSome = true ∨ isRetryableBuildkitAddrError text addr = false
          then some (.skip, .attemptDone a exporter err)
          else some (.skip, .refresh { a with excluded := a.excluded ++ [addr] })
      | none => some (.skip, .attemptDone a exporter none)
  | .refresh a, .refreshed (.ok addrs) => some (.replacePool addrs, .markQueued a)
  | .refresh a, .refreshed (.error _) => some (.skip, .markQueued a)
  | .attemptDone a exporter err, .go => some (.skip, c.afterAttempt a exporter err)
  | .finishing f, .go =>
      let (op, next) := f.control sh c
      some (op, match next with
        | some f' => .finishing f'
        | none => .closeDone)
  | .closeDone, .go => some (.closeDone, .returned)
  | _, _ => none

end BuildkitService.Daemon
