import BuildkitService.Lib.Runs
import BuildkitService.Pool.AddrPool
import BuildkitService.Batch.Specs

/-!
# A batch run

`runBuildCommandBatch` and `runBuildCommandStreamingImageDirs`.
-/

namespace BuildkitService.Batch

open Strings Pool

/-! ### Threads -/

structure BuildTask where
  job : BuildJob
  attempt : Nat
  deriving DecidableEq, Repr

inductive SchedPc where
  | failfast
  | ctx
  | wait
  | snapshot
  | pick (requireReady : Bool) (untried order : List Nat)
  | sleep
  | global (slot : Nat)
  | releaseWorker (slot : Nat)
  deriving DecidableEq, Repr

inductive Site where
  | first (jobs : List BuildJob)
  | stream
  | retry (tasks : List BuildTask)
  deriving DecidableEq, Repr

inductive MainPc where
  | first (jobs : List BuildJob)
  | receive (scheduling : Bool)
  | schedule (pc : SchedPc) (task : BuildTask) (site : Site)
  | prepareErr
  | prepareFatal (err : Bytes)
  | prepareFailed
  | prepareCancel
  | wait
  | select
  | drain (tasks : List BuildTask)
  | retry (tasks : List BuildTask)
  | done
  | returned (err : Option Bytes)
  deriving DecidableEq, Repr

inductive WorkerPc where
  | next (specs : List BuildSpec)
  | building (spec : BuildSpec) (rest : List BuildSpec)
  | retrying (specs : List BuildSpec)
  | storing (spec : BuildSpec) (rest : List BuildSpec) (success : Bool)
  | persistFatal (err : Bytes)
  | persistFailed
  | finish (success : Bool)
  | setFailed
  | cancel
  | releaseSlot
  | releaseGlobal
  | done
  | exited
  deriving DecidableEq, Repr

structure Worker where
  task : BuildTask
  slot : Nat
  pc : WorkerPc
  deriving DecidableEq, Repr

structure ImageDir where
  name : Bytes
  isDir : Bool
  scheduleKey : Bytes
  target : Bytes
  deriving DecidableEq, Repr

inductive ProducerPc where
  | entries (rest : List ImageDir)
  | preparing (entry : ImageDir) (rest : List ImageDir)
  | sending (jobs : List BuildJob) (rest : List ImageDir)
  | report (err : Option Bytes)
  | close
  | exited
  deriving DecidableEq, Repr

structure Config where
  concurrency : Nat
  retry : Nat
  failfast : Bool
  skipFail : Bool
  buildModes : List Bool
  target : Bytes
  imageDirs : Bytes
  preparedRoot : Bytes
  oomCooldown : Nat
  entries : List ImageDir
  deriving DecidableEq, Repr

structure State where
  main : MainPc
  producer : ProducerPc
  workers : List Worker
  ctxErr : Option Bytes
  failed : Bool
  fatalErr : Option Bytes
  retryQueue : List BuildTask
  retryCap : Nat
  jobCh : List BuildJob
  jobsClosed : Bool
  prepareErr : Option (Option Bytes)
  pool : AddrPool
  globalSem : Nat
  clock : Nat
  cooldownUntil : List (Nat × Nat)
  results : List (Bytes × Bool)
  upserts : List (BuildSpec × Bool)
  issued : List BuildSpec
  skipped : List BuildSpec
  deriving DecidableEq, Repr

/-! ### Shared operations -/

def State.cancelCtx (s : State) : State :=
  { s with ctxErr := s.ctxErr.orElse fun _ => some (ascii "context canceled") }

def State.recordFatalErr (s : State) (err : Bytes) : State :=
  { s with fatalErr := s.fatalErr.orElse fun _ => some err }

def State.isInCooldown (s : State) (slot : Nat) : Bool :=
  s.clock < (s.cooldownUntil.lookup slot).getD 0

def State.setCooldown (s : State) (cfg : Config) (slot : Nat) : State :=
  { s with cooldownUntil := (slot, s.clock + cfg.oomCooldown) :: s.cooldownUntil }

def Config.jobCap (cfg : Config) : Nat := max 1 cfg.concurrency

/-! ### The function itself -/

inductive Choice where
  | go
  | canceled
  deriving DecidableEq, Repr

def Site.scheduled : Site → MainPc
  | .first jobs => .first jobs
  | .stream => .receive true
  | .retry tasks => .retry tasks

def Site.refused : Site → MainPc
  | .first _ => .wait
  | .stream => .receive false
  | .retry _ => .wait

def buildsFailed : Bytes := ascii "one or more builds failed"

def schedule (cfg : Config) (s : State) (task : BuildTask) (site : Site) :
    SchedPc → Choice → Option State
  | .failfast, .go =>
      some { s with main := if s.failed ∧ cfg.failfast then site.refused else .schedule .ctx task site }
  | .ctx, .go =>
      some { s with main := if s.ctxErr.isSome then site.refused else .schedule .wait task site }
  | .wait, .go =>
      some { s with main := if s.ctxErr.isSome then site.refused else .schedule .snapshot task site }
  | .snapshot, .go =>
      (orderedAddrSlots s.pool.slots task.job.scheduleKey).map fun order =>
        { s with main := .schedule (.pick true order order) task site }
  | .pick requireReady (slot :: untried) order, .go =>
      if requireReady ∧ s.isInCooldown slot then
        some { s with main := .schedule (.pick requireReady untried order) task site }
      else
        match s.pool.tryAcquireAddrSlot slot with
        | some pool => some { s with pool := pool, main := .schedule (.global slot) task site }
        | none => some { s with main := .schedule (.pick requireReady untried order) task site }
  | .pick true [] order, .go => some { s with main := .schedule (.pick false order order) task site }
  | .pick false [] _, .go => some { s with main := .schedule .sleep task site }
  | .sleep, .go => some { s with main := .schedule .wait task site }
  | .sleep, .canceled => if s.ctxErr.isSome then some { s with main := site.refused } else none
  | .global slot, .go =>
      if s.globalSem < cfg.concurrency then
        some { s with
          globalSem := s.globalSem + 1
          workers := s.workers ++ [⟨task, slot, .next task.job.specs⟩]
          main := site.scheduled }
      else none
  | .global slot, .canceled =>
      if s.ctxErr.isSome then some { s with main := .schedule (.releaseWorker slot) task site } else none
  | .releaseWorker slot, .go =>
      (s.pool.releaseAddrSlot slot).map fun pool => { s with pool := pool, main := site.refused }
  | _, _ => none

def mainStep (cfg : Config) (s : State) (choice : Choice) : Option State :=
  match s.main, choice with
  | .first [], .go => some { s with main := .wait }
  | .first (job :: jobs), .go => some { s with main := .schedule .failfast ⟨job, 0⟩ (.first jobs) }
  | .receive scheduling, .go =>
      match s.jobCh with
      | job :: jobs => some { s with
          jobCh := jobs
          main := if scheduling then .schedule .failfast ⟨job, 0⟩ .stream else .receive false }
      | [] => if s.jobsClosed then some { s with main := .prepareErr } else none
  | .schedule pc task site, choice => schedule cfg s task site pc choice
  | .prepareErr, .go =>
      match s.prepareErr with
      | some none => some { s with prepareErr := none, main := .wait }
      | some (some err) => some { s with prepareErr := none, main := .prepareFatal err }
      | none => none
  | .prepareFatal err, .go => some { s.recordFatalErr err with main := .prepareFailed }
  | .prepareFailed, .go => some { s with failed := true, main := .prepareCancel }
  | .prepareCancel, .go => some { s.cancelCtx with main := .wait }
  | .wait, .go =>
      if s.workers.all fun w => w.pc = .exited then some { s with main := .select } else none
  | .select, .go =>
      match s.retryQueue with
      | task :: queue => some { s with retryQueue := queue, main := .drain [task] }
      | [] => some { s with main := .done }
  | .drain tasks, .go =>
      match s.retryQueue with
      | task :: queue => some { s with retryQueue := queue, main := .drain (tasks ++ [task]) }
      | [] => some { s with main := .retry tasks }
  | .retry [], .go => some { s with main := .wait }
  | .retry (task :: tasks), .go => some { s with main := .schedule .failfast task (.retry tasks) }
  | .done, .go =>
      some { s with main := .returned (s.fatalErr.orElse fun _ => if s.failed then some buildsFailed else none) }
  | _, _ => none

/-! ### Workers -/

inductive WorkerChoice where
  | go
  | built (success connectionRefused : Bool)
  | stored (result : Except Bytes Unit)

def setWorker (s : State) (k : Nat) (w : Worker) (pc : WorkerPc) : State :=
  { s with workers := s.workers.set k { w with pc := pc } }

def workerStep (cfg : Config) (s : State) (k : Nat) (w : Worker) (choice : WorkerChoice) : Option State :=
  match w.pc, choice with
  | .next [], .go => some (setWorker s k w (.finish true))
  | .next (spec :: rest), .go => some (setWorker s k w (.building spec rest))
  | .building spec rest, .built success connectionRefused =>
      let s := if !success && connectionRefused then s.setCooldown cfg w.slot else s
      if success = false ∧ w.task.attempt < cfg.retry then some (setWorker s k w (.retrying (spec :: rest)))
      else some (setWorker s k w (.storing spec rest success))
  | .retrying specs, .go =>
      if s.retryQueue.length < s.retryCap then
        some (setWorker { s with
          retryQueue := s.retryQueue ++ [⟨{ w.task.job with specs := specs }, w.task.attempt + 1⟩] } k w
          .releaseSlot)
      else none
  | .storing spec rest success, .stored (.ok ()) =>
      some (setWorker { s with upserts := s.upserts ++ [(spec, success)] } k w
        (if success then .next rest else .finish false))
  | .storing spec _ _, .stored (.error err) =>
      some (setWorker s k w (.persistFatal (ascii "store result for " ++ spec.target ++ ascii ": " ++ err)))
  | .persistFatal err, .go => some (setWorker (s.recordFatalErr err) k w .persistFailed)
  | .persistFailed, .go => some (setWorker { s with failed := true } k w .cancel)
  | .finish success, .go =>
      some (setWorker { s with results := s.results ++ [(w.task.job.key, success)] } k w
        (if success then .releaseSlot else .setFailed))
  | .setFailed, .go =>
      some (setWorker { s with failed := true } k w (if cfg.failfast then .cancel else .releaseSlot))
  | .cancel, .go => some (setWorker s.cancelCtx k w .releaseSlot)
  | .releaseSlot, .go =>
      (s.pool.releaseAddrSlot w.slot).map fun pool => setWorker { s with pool := pool } k w .releaseGlobal
  | .releaseGlobal, .go =>
      if 0 < s.globalSem then some (setWorker { s with globalSem := s.globalSem - 1 } k w .done) else none
  | .done, .go => some (setWorker s k w .exited)
  | _, _ => none

/-! ### The producer -/

inductive ProducerChoice where
  | go
  | canceled
  | fail (err : Bytes)
  | prepared (results : ResultReader)

def Config.targetFilters (cfg : Config) : List Bytes := Batch.targetFilters cfg.target cfg.buildModes

def Config.dstDir (cfg : Config) (entry : ImageDir) : Bytes :=
  cfg.preparedRoot ++ ascii "/" ++ entry.name

def Config.specs (cfg : Config) (entry : ImageDir) : List BuildSpec :=
  dirSpecs cfg.targetFilters cfg.buildModes (cfg.dstDir entry) (trimSpace entry.target) entry.scheduleKey

def prepared (cfg : Config) (s : State) (entry : ImageDir) (rest : List ImageDir) (results : ResultReader) :
    State :=
  if (trimSpace entry.target).isEmpty then
    { s with producer :=
      .report (some (cfg.dstDir entry ++ ascii "/metadata.json" ++ ascii " has empty target")) }
  else if (cfg.specs entry).isEmpty then { s with producer := .entries rest }
  else
    let jobs := groupBuildSpecs (cfg.specs entry)
    match filterBuildJobs results cfg.skipFail jobs with
    | .error err => { s with producer := .report (some err) }
    | .ok filtered => { s with
        producer := .sending filtered.jobs rest
        issued := s.issued ++ jobs.flatMap BuildJob.specs
        skipped := s.skipped ++ settledSpecs results cfg.skipFail jobs }

def producerStep (cfg : Config) (s : State) (choice : ProducerChoice) : Option State :=
  match s.producer, choice with
  | .entries [], .go => some { s with producer := .report none }
  | .entries (entry :: rest), .go =>
      match s.ctxErr with
      | some err => some { s with producer := .report (some err) }
      | none =>
          if entry.isDir then some { s with producer := .preparing entry rest }
          else some { s with producer := .report (some (ascii "image-dirs " ++ cfg.imageDirs ++
            ascii " must contain only directories, found " ++ entry.name)) }
  | .preparing _ _, .fail err => some { s with producer := .report (some err) }
  | .preparing entry rest, .prepared results => some (prepared cfg s entry rest results)
  | .sending [] rest, .go => some { s with producer := .entries rest }
  | .sending (job :: jobs) rest, .go =>
      if s.jobCh.length < cfg.jobCap then
        some { s with jobCh := s.jobCh ++ [job], producer := .sending jobs rest }
      else none
  | .sending (_ :: _) _, .canceled => s.ctxErr.map fun err => { s with producer := .report (some err) }
  | .report err, .go => some { s with prepareErr := some err, producer := .close }
  | .close, .go => some { s with jobsClosed := true, producer := .exited }
  | _, _ => none

/-! ### The machine -/

inductive Action where
  | main (choice : Choice)
  | worker (k : Nat) (choice : WorkerChoice)
  | producer (choice : ProducerChoice)
  | cancel (err : Bytes)
  | refreshPool (addrs : List BuildkitAddr)
  | tick

def step (cfg : Config) (s : State) : Action → Option State
  | .main choice => mainStep cfg s choice
  | .worker k choice =>
      match s.workers[k]? with
      | some w => workerStep cfg s k w choice
      | none => none
  | .producer choice => producerStep cfg s choice
  | .cancel err => some { s with ctxErr := s.ctxErr.orElse fun _ => some err }
  | .refreshPool addrs => some { s with pool := s.pool.replace addrs }
  | .tick => some { s with clock := s.clock + 1 }

def initial (cfg : Config) (addrs : List BuildkitAddr) (main : MainPc) (producer : ProducerPc) (retryCap : Nat) :
    State where
  main := main
  producer := producer
  workers := []
  ctxErr := none
  failed := false
  fatalErr := none
  retryQueue := []
  retryCap := retryCap
  jobCh := []
  jobsClosed := false
  prepareErr := none
  pool := newAddrPool addrs cfg.concurrency
  globalSem := 0
  clock := 0
  cooldownUntil := []
  results := []
  upserts := []
  issued := []
  skipped := []

def startBatch (cfg : Config) (addrs : List BuildkitAddr) (results : ResultReader) (jobs : List BuildJob) :
    Except Bytes State :=
  match filterBuildJobs results cfg.skipFail jobs with
  | .error err => .error err
  | .ok filtered => .ok { initial cfg addrs
      (if filtered.jobs.isEmpty then .returned none else .first filtered.jobs) .exited filtered.jobs.length with
      issued := jobs.flatMap BuildJob.specs
      skipped := settledSpecs results cfg.skipFail jobs }

def startStreaming (cfg : Config) (addrs : List BuildkitAddr) : Except Bytes State :=
  if cfg.entries.isEmpty then
    .error (ascii "image-dirs " ++ cfg.imageDirs ++ ascii " does not contain any image directories")
  else .ok (initial cfg addrs (.receive true) (.entries cfg.entries) (cfg.entries.length + 1))

/-! ### A sample -/

def sampleAddr : BuildkitAddr :=
  ⟨ascii "10.0.0.1:9094", ascii "tcp://10.0.0.1:9094", ascii "10.0.0.1"⟩

def noResults : ResultReader := fun _ => .ok none

def sampleConfig (buildModes : List Bool) (entries : List ImageDir) : Config where
  concurrency := 1
  retry := 1
  failfast := false
  skipFail := false
  buildModes := buildModes
  target := []
  imageDirs := ascii "/images"
  preparedRoot := ascii "/prepared"
  oomCooldown := 120
  entries := entries

def sampleStreaming (cfg : Config) : State :=
  initial cfg [sampleAddr] (.receive true) (.entries cfg.entries) (cfg.entries.length + 1)

def sampleSchedule : List Action := List.replicate 7 (.main .go)

def sampleBuilt (k : Nat) : List Action :=
  [.worker k .go, .worker k (.built true false), .worker k (.stored (.ok ()))] ++
    List.replicate 5 (.worker k .go)

def sampleFailed (k : Nat) : List Action := [.worker k .go, .worker k (.built false false)]

def sampleQueued (k : Nat) : List Action := sampleFailed k ++ List.replicate 4 (.worker k .go)

end BuildkitService.Batch
