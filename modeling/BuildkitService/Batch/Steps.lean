import BuildkitService.Batch.Run

/-!
# The transitions of a batch run

`MainEffect`, `WorkerEffect` and `ProducerEffect` list what the three kinds of threads can do, and
`Effect` what a run can do.
-/

namespace BuildkitService.Batch

open Strings Pool Option

variable {cfg : Config} {s s' : State}

def SchedPc.slot : SchedPc → Option Nat
  | .global slot | .releaseWorker slot => some slot
  | _ => none

def State.refuses (s : State) : Choice → Bool
  | .go =>
      match s.main with
      | .schedule .ctx _ _ | .schedule .wait _ _ => s.ctxErr.isSome
      | _ => false
  | .canceled =>
      match s.main with
      | .schedule .sleep _ _ | .schedule (.global _) _ _ => s.ctxErr.isSome
      | _ => false

inductive MainEffect (cfg : Config) (s : State) : Choice → State → Prop
  | firstDone (hmain : s.main = .first []) : MainEffect cfg s .go { s with main := .wait }
  | firstNext {job : BuildJob} {jobs : List BuildJob} (hmain : s.main = .first (job :: jobs)) :
      MainEffect cfg s .go { s with main := .schedule .failfast ⟨job, 0⟩ (.first jobs) }
  | received {job : BuildJob} {jobs : List BuildJob} (hmain : s.main = .receive true)
      (hjobs : s.jobCh = job :: jobs) :
      MainEffect cfg s .go { s with jobCh := jobs, main := .schedule .failfast ⟨job, 0⟩ .stream }
  | discarded {job : BuildJob} {jobs : List BuildJob} (hmain : s.main = .receive false)
      (hjobs : s.jobCh = job :: jobs) : MainEffect cfg s .go { s with jobCh := jobs, main := .receive false }
  | streamDone {scheduling : Bool} (hmain : s.main = .receive scheduling) (hjobs : s.jobCh = [])
      (hclosed : s.jobsClosed = true) : MainEffect cfg s .go { s with main := .prepareErr }
  | prepareOk (hmain : s.main = .prepareErr) (herr : s.prepareErr = some none) :
      MainEffect cfg s .go { s with prepareErr := none, main := .wait }
  | prepareErr {err : Bytes} (hmain : s.main = .prepareErr) (herr : s.prepareErr = some (some err)) :
      MainEffect cfg s .go { s with prepareErr := none, main := .prepareFatal err }
  | prepareFatal {err : Bytes} (hmain : s.main = .prepareFatal err) :
      MainEffect cfg s .go { s.recordFatalErr err with main := .prepareFailed }
  | prepareFailed (hmain : s.main = .prepareFailed) :
      MainEffect cfg s .go { s with failed := true, main := .prepareCancel }
  | prepareCancel (hmain : s.main = .prepareCancel) : MainEffect cfg s .go { s.cancelCtx with main := .wait }
  | waited (hmain : s.main = .wait) (hworkers : ∀ w ∈ s.workers, w.pc = .exited) :
      MainEffect cfg s .go { s with main := .select }
  | selected {task : BuildTask} {queue : List BuildTask} (hmain : s.main = .select)
      (hqueue : s.retryQueue = task :: queue) :
      MainEffect cfg s .go { s with retryQueue := queue, main := .drain [task] }
  | selectedNone (hmain : s.main = .select) (hqueue : s.retryQueue = []) :
      MainEffect cfg s .go { s with main := .done }
  | drained {task : BuildTask} {queue tasks : List BuildTask} (hmain : s.main = .drain tasks)
      (hqueue : s.retryQueue = task :: queue) :
      MainEffect cfg s .go { s with retryQueue := queue, main := .drain (tasks ++ [task]) }
  | drainedAll {tasks : List BuildTask} (hmain : s.main = .drain tasks) (hqueue : s.retryQueue = []) :
      MainEffect cfg s .go { s with main := .retry tasks }
  | retryDone (hmain : s.main = .retry []) : MainEffect cfg s .go { s with main := .wait }
  | retryNext {task : BuildTask} {tasks : List BuildTask} (hmain : s.main = .retry (task :: tasks)) :
      MainEffect cfg s .go { s with main := .schedule .failfast task (.retry tasks) }
  | returns (hmain : s.main = .done) : MainEffect cfg s .go { s with
      main := .returned (s.fatalErr.orElse fun _ => if s.failed then some buildsFailed else none) }
  | moves {choice : Choice} {pc pc' : SchedPc} {task : BuildTask} {site : Site}
      (hmain : s.main = .schedule pc task site) (hpc : pc.slot = none) (hpc' : pc'.slot = none) :
      MainEffect cfg s choice { s with main := .schedule pc' task site }
  | acquires {pc : SchedPc} {task : BuildTask} {site : Site} {slot : Nat} {pool : AddrPool}
      (hmain : s.main = .schedule pc task site) (hpc : pc.slot = none)
      (hpool : s.pool.tryAcquireAddrSlot slot = some pool) :
      MainEffect cfg s .go { s with pool := pool, main := .schedule (.global slot) task site }
  | spawns {task : BuildTask} {site : Site} {slot : Nat} (hmain : s.main = .schedule (.global slot) task site)
      (hroom : s.globalSem < cfg.concurrency) : MainEffect cfg s .go { s with
        globalSem := s.globalSem + 1
        workers := s.workers ++ [⟨task, slot, .next task.job.specs⟩]
        main := site.scheduled }
  | refused {choice : Choice} {pc : SchedPc} {task : BuildTask} {site : Site}
      (hmain : s.main = .schedule pc task site) (hpc : pc.slot = none)
      (hwhy : s.failed = true ∨ s.refuses choice = true) :
      MainEffect cfg s choice { s with main := site.refused }
  | givesUp {task : BuildTask} {site : Site} {slot : Nat} (hmain : s.main = .schedule (.global slot) task site)
      (hwhy : s.refuses .canceled = true) :
      MainEffect cfg s .canceled { s with main := .schedule (.releaseWorker slot) task site }
  | releasesWorker {task : BuildTask} {site : Site} {slot : Nat} {pool : AddrPool}
      (hmain : s.main = .schedule (.releaseWorker slot) task site)
      (hpool : s.pool.releaseAddrSlot slot = some pool) :
      MainEffect cfg s .go { s with pool := pool, main := site.refused }

theorem schedule_effect {task : BuildTask} {site : Site} {pc : SchedPc} {choice : Choice}
    (hmain : s.main = .schedule pc task site) (hstep : schedule cfg s task site pc choice = some s') :
    MainEffect cfg s choice s' := by
  unfold schedule at hstep
  split at hstep
  case h_1 =>
    cases hstep
    split_ifs with hfailed
    · exact .refused hmain rfl (.inl hfailed.1)
    · exact .moves hmain rfl rfl
  case h_2 =>
    cases hstep
    split_ifs with hctx
    · exact .refused hmain rfl (.inr (by rw [State.refuses, hmain]; exact hctx))
    · exact .moves hmain rfl rfl
  case h_3 =>
    cases hstep
    split_ifs with hctx
    · exact .refused hmain rfl (.inr (by rw [State.refuses, hmain]; exact hctx))
    · exact .moves hmain rfl rfl
  case h_4 =>
    obtain ⟨order, _, rfl⟩ := map_eq_some_iff.1 hstep
    exact .moves hmain rfl rfl
  case h_5 requireReady slot untried order =>
    split at hstep
    · cases hstep
      exact .moves hmain rfl rfl
    · split at hstep
      · rename_i pool hpool
        cases hstep
        exact .acquires hmain rfl hpool
      · cases hstep
        exact .moves hmain rfl rfl
  case h_6 => cases hstep; exact .moves hmain rfl rfl
  case h_7 => cases hstep; exact .moves hmain rfl rfl
  case h_8 => cases hstep; exact .moves hmain rfl rfl
  case h_9 =>
    split at hstep
    · rename_i hctx
      cases hstep
      exact .refused hmain rfl (.inr (by rw [State.refuses, hmain]; exact hctx))
    · cases hstep
  case h_10 slot =>
    split at hstep
    · rename_i hroom
      cases hstep
      exact .spawns hmain hroom
    · cases hstep
  case h_11 slot =>
    split at hstep
    · rename_i hctx
      cases hstep
      exact .givesUp hmain (by rw [State.refuses, hmain]; exact hctx)
    · cases hstep
  case h_12 slot =>
    obtain ⟨pool, hpool, rfl⟩ := map_eq_some_iff.1 hstep
    exact .releasesWorker hmain hpool
  case h_13 => cases hstep

theorem mainStep_effect {choice : Choice} (hstep : mainStep cfg s choice = some s') :
    MainEffect cfg s choice s' := by
  unfold mainStep at hstep
  split at hstep <;> rename_i hmain
  case h_1 => cases hstep; exact .firstDone hmain
  case h_2 => cases hstep; exact .firstNext hmain
  case h_3 scheduling =>
    split at hstep
    · rename_i hjobs
      cases hstep
      cases scheduling with
      | true => exact .received hmain hjobs
      | false => exact .discarded hmain hjobs
    · rename_i hjobs
      split at hstep
      · rename_i hclosed
        cases hstep
        exact .streamDone hmain hjobs hclosed
      · cases hstep
  case h_4 => exact schedule_effect hmain hstep
  case h_5 =>
    split at hstep
    · rename_i herr
      cases hstep
      exact .prepareOk hmain herr
    · rename_i herr
      cases hstep
      exact .prepareErr hmain herr
    · cases hstep
  case h_6 => cases hstep; exact .prepareFatal hmain
  case h_7 => cases hstep; exact .prepareFailed hmain
  case h_8 => cases hstep; exact .prepareCancel hmain
  case h_9 =>
    split at hstep
    · rename_i hworkers
      cases hstep
      exact .waited hmain (by simpa using hworkers)
    · cases hstep
  case h_10 =>
    split at hstep
    · rename_i hqueue
      cases hstep
      exact .selected hmain hqueue
    · rename_i hqueue
      cases hstep
      exact .selectedNone hmain hqueue
  case h_11 =>
    split at hstep
    · rename_i hqueue
      cases hstep
      exact .drained hmain hqueue
    · rename_i hqueue
      cases hstep
      exact .drainedAll hmain hqueue
  case h_12 => cases hstep; exact .retryDone hmain
  case h_13 => cases hstep; exact .retryNext hmain
  case h_14 => cases hstep; exact .returns hmain
  case h_15 => cases hstep

inductive WorkerEffect (cfg : Config) (s : State) (k : Nat) (w : Worker) : State → Prop
  | specsDone (hpc : w.pc = .next []) : WorkerEffect cfg s k w (setWorker s k w (.finish true))
  | starts {spec : BuildSpec} {rest : List BuildSpec} (hpc : w.pc = .next (spec :: rest)) :
      WorkerEffect cfg s k w (setWorker s k w (.building spec rest))
  | retries {spec : BuildSpec} {rest : List BuildSpec} {cooldownUntil : List (Nat × Nat)}
      (hpc : w.pc = .building spec rest) (hattempt : w.task.attempt < cfg.retry) :
      WorkerEffect cfg s k w
        (setWorker { s with cooldownUntil := cooldownUntil } k w (.retrying (spec :: rest)))
  | built {spec : BuildSpec} {rest : List BuildSpec} {success : Bool} {cooldownUntil : List (Nat × Nat)}
      (hpc : w.pc = .building spec rest) : WorkerEffect cfg s k w
        (setWorker { s with cooldownUntil := cooldownUntil } k w (.storing spec rest success))
  | queued {specs : List BuildSpec} (hpc : w.pc = .retrying specs)
      (hroom : s.retryQueue.length < s.retryCap) : WorkerEffect cfg s k w (setWorker { s with
        retryQueue := s.retryQueue ++ [⟨{ w.task.job with specs := specs }, w.task.attempt + 1⟩] } k w
        .releaseSlot)
  | stored {spec : BuildSpec} {rest : List BuildSpec} {success : Bool} (hpc : w.pc = .storing spec rest success) :
      WorkerEffect cfg s k w (setWorker { s with upserts := s.upserts ++ [(spec, success)] } k w
        (if success then .next rest else .finish false))
  | storeFailed {spec : BuildSpec} {rest : List BuildSpec} {success : Bool} (err : Bytes)
      (hpc : w.pc = .storing spec rest success) : WorkerEffect cfg s k w (setWorker s k w (.persistFatal err))
  | persistFatal {err : Bytes} (hpc : w.pc = .persistFatal err) :
      WorkerEffect cfg s k w (setWorker (s.recordFatalErr err) k w .persistFailed)
  | persistFailed (hpc : w.pc = .persistFailed) :
      WorkerEffect cfg s k w (setWorker { s with failed := true } k w .cancel)
  | finished {success : Bool} (hpc : w.pc = .finish success) : WorkerEffect cfg s k w
      (setWorker { s with results := s.results ++ [(w.task.job.key, success)] } k w
        (if success then .releaseSlot else .setFailed))
  | setsFailed (hpc : w.pc = .setFailed) : WorkerEffect cfg s k w
      (setWorker { s with failed := true } k w (if cfg.failfast then .cancel else .releaseSlot))
  | cancels (hpc : w.pc = .cancel) : WorkerEffect cfg s k w (setWorker s.cancelCtx k w .releaseSlot)
  | slotReleased {pool : AddrPool} (hpc : w.pc = .releaseSlot)
      (hpool : s.pool.releaseAddrSlot w.slot = some pool) :
      WorkerEffect cfg s k w (setWorker { s with pool := pool } k w .releaseGlobal)
  | globalReleased (hpc : w.pc = .releaseGlobal) (htoken : 0 < s.globalSem) :
      WorkerEffect cfg s k w (setWorker { s with globalSem := s.globalSem - 1 } k w .done)
  | exits (hpc : w.pc = .done) : WorkerEffect cfg s k w (setWorker s k w .exited)

theorem workerStep_effect {k : Nat} {w : Worker} {choice : WorkerChoice}
    (hstep : workerStep cfg s k w choice = some s') : WorkerEffect cfg s k w s' := by
  unfold workerStep at hstep
  split at hstep <;> rename_i hpc
  case h_1 => cases hstep; exact .specsDone hpc
  case h_2 => cases hstep; exact .starts hpc
  case h_3 spec rest success connectionRefused =>
    have hcooldown : ∃ cooldownUntil, (if (!success && connectionRefused) = true
        then s.setCooldown cfg w.slot else s) = { s with cooldownUntil := cooldownUntil } := by
      split_ifs
      · exact ⟨_, rfl⟩
      · exact ⟨s.cooldownUntil, rfl⟩
    obtain ⟨cooldownUntil, heq⟩ := hcooldown
    simp only [heq] at hstep
    split at hstep
    · rename_i hretry
      cases hstep
      exact .retries hpc hretry.2
    · cases hstep
      exact .built hpc
  case h_4 specs =>
    split at hstep
    · rename_i hroom
      cases hstep
      exact .queued hpc hroom
    · cases hstep
  case h_5 => cases hstep; exact .stored hpc
  case h_6 => cases hstep; exact .storeFailed _ hpc
  case h_7 => cases hstep; exact .persistFatal hpc
  case h_8 => cases hstep; exact .persistFailed hpc
  case h_9 => cases hstep; exact .finished hpc
  case h_10 => cases hstep; exact .setsFailed hpc
  case h_11 => cases hstep; exact .cancels hpc
  case h_12 =>
    obtain ⟨pool, hpool, rfl⟩ := map_eq_some_iff.1 hstep
    exact .slotReleased hpc hpool
  case h_13 =>
    split at hstep
    · rename_i htoken
      cases hstep
      exact .globalReleased hpc htoken
    · cases hstep
  case h_14 => cases hstep; exact .exits hpc
  case h_15 => cases hstep

inductive ProducerEffect (cfg : Config) (s : State) : State → Prop
  | allDone (hpc : s.producer = .entries []) : ProducerEffect cfg s { s with producer := .report none }
  | fails {err : Bytes} (hpc : (∃ entry rest, s.producer = .entries (entry :: rest)) ∨
      (∃ entry rest, s.producer = .preparing entry rest) ∨ ∃ jobs rest, s.producer = .sending jobs rest) :
      ProducerEffect cfg s { s with producer := .report (some err) }
  | takes {entry : ImageDir} {rest : List ImageDir} (hpc : s.producer = .entries (entry :: rest)) :
      ProducerEffect cfg s { s with producer := .preparing entry rest }
  | skips {entry : ImageDir} {rest : List ImageDir} (hpc : s.producer = .preparing entry rest)
      (hspecs : cfg.specs entry = []) : ProducerEffect cfg s { s with producer := .entries rest }
  | filters {entry : ImageDir} {rest : List ImageDir} {results : ResultReader} {filtered : Filtered}
      (hpc : s.producer = .preparing entry rest)
      (hfilter : filterBuildJobs results cfg.skipFail (groupBuildSpecs (cfg.specs entry)) = .ok filtered) :
      ProducerEffect cfg s { s with
        producer := .sending filtered.jobs rest
        issued := s.issued ++ (groupBuildSpecs (cfg.specs entry)).flatMap BuildJob.specs
        skipped := s.skipped ++ settledSpecs results cfg.skipFail (groupBuildSpecs (cfg.specs entry)) }
  | sentAll {rest : List ImageDir} (hpc : s.producer = .sending [] rest) :
      ProducerEffect cfg s { s with producer := .entries rest }
  | sends {job : BuildJob} {jobs : List BuildJob} {rest : List ImageDir}
      (hpc : s.producer = .sending (job :: jobs) rest) (hroom : s.jobCh.length < cfg.jobCap) :
      ProducerEffect cfg s { s with jobCh := s.jobCh ++ [job], producer := .sending jobs rest }
  | reports {err : Option Bytes} (hpc : s.producer = .report err) :
      ProducerEffect cfg s { s with prepareErr := some err, producer := .close }
  | closes (hpc : s.producer = .close) :
      ProducerEffect cfg s { s with jobsClosed := true, producer := .exited }

theorem prepared_effect {entry : ImageDir} {rest : List ImageDir} (results : ResultReader)
    (hpc : s.producer = .preparing entry rest) :
    ProducerEffect cfg s (prepared cfg s entry rest results) := by
  rw [prepared]
  split_ifs with htarget hspecs
  · exact .fails (.inr (.inl ⟨entry, rest, hpc⟩))
  · exact .skips hpc (List.isEmpty_iff.1 hspecs)
  · dsimp only
    split
    · exact .fails (.inr (.inl ⟨entry, rest, hpc⟩))
    · rename_i filtered hfilter
      exact .filters hpc hfilter

theorem producerStep_effect {choice : ProducerChoice} (hstep : producerStep cfg s choice = some s') :
    ProducerEffect cfg s s' := by
  unfold producerStep at hstep
  split at hstep <;> rename_i hpc
  case h_1 => cases hstep; exact .allDone hpc
  case h_2 entry rest =>
    split at hstep
    · cases hstep
      exact .fails (.inl ⟨entry, rest, hpc⟩)
    · split at hstep
      · cases hstep
        exact .takes hpc
      · cases hstep
        exact .fails (.inl ⟨entry, rest, hpc⟩)
  case h_3 entry rest err =>
    cases hstep
    exact .fails (.inr (.inl ⟨entry, rest, hpc⟩))
  case h_4 => cases hstep; exact prepared_effect _ hpc
  case h_5 => cases hstep; exact .sentAll hpc
  case h_6 =>
    split at hstep
    · rename_i hroom
      cases hstep
      exact .sends hpc hroom
    · cases hstep
  case h_7 job jobs rest =>
    obtain ⟨err, _, rfl⟩ := map_eq_some_iff.1 hstep
    exact .fails (.inr (.inr ⟨job :: jobs, rest, hpc⟩))
  case h_8 => cases hstep; exact .reports hpc
  case h_9 => cases hstep; exact .closes hpc
  case h_10 => cases hstep

inductive Effect (cfg : Config) (s : State) : Action → State → Prop
  | main {choice : Choice} {s' : State} (heffect : MainEffect cfg s choice s') :
      Effect cfg s (.main choice) s'
  | worker {k : Nat} {choice : WorkerChoice} {w : Worker} {s' : State} (hworker : s.workers[k]? = some w)
      (heffect : WorkerEffect cfg s k w s') : Effect cfg s (.worker k choice) s'
  | producer {choice : ProducerChoice} {s' : State} (heffect : ProducerEffect cfg s s') :
      Effect cfg s (.producer choice) s'
  | cancel (err : Bytes) :
      Effect cfg s (.cancel err) { s with ctxErr := s.ctxErr.orElse fun _ => some err }
  | refreshPool (addrs : List BuildkitAddr) :
      Effect cfg s (.refreshPool addrs) { s with pool := s.pool.replace addrs }
  | tick : Effect cfg s .tick { s with clock := s.clock + 1 }

theorem step_effect {a : Action} (hstep : step cfg s a = some s') : Effect cfg s a s' := by
  cases a with
  | main choice => exact .main (mainStep_effect hstep)
  | worker k choice =>
    simp only [step] at hstep
    split at hstep
    · rename_i w hworker
      exact .worker hworker (workerStep_effect hstep)
    · cases hstep
  | producer choice => exact .producer (producerStep_effect hstep)
  | cancel err => cases hstep; exact .cancel err
  | refreshPool addrs => cases hstep; exact .refreshPool addrs
  | tick => cases hstep; exact .tick

end BuildkitService.Batch
