import BuildkitService.Lib.Ledger
import BuildkitService.Batch.Steps

/-!
# The retry queue

A build goroutine that wants a retry sends its task to `retryQueue` and exits, and the queue is only
drained when all goroutines have exited: a send that blocks stops the run for good.
-/

namespace BuildkitService.Batch

open Strings List Ledger Runs

variable {cfg : Config} {s s' start t : State} {k : Nat} {w : Worker} {a : Action} {acts : List Action}

/-! ### Jobs of a directory -/

def Config.jobCount (cfg : Config) (entry : ImageDir) : Nat := (groupBuildSpecs (cfg.specs entry)).length

def splits (entry : ImageDir) : Bool :=
  stripNydusV3Suffix (normalizeTargetForMode (trimSpace entry.target) false) !=
    stripNydusV3Suffix (normalizeTargetForMode (trimSpace entry.target) true)

theorem groupBuildSpecs_length (specs : List BuildSpec) :
    (groupBuildSpecs specs).length = (specs.map BuildSpec.key).dedup.length := by
  rw [groupBuildSpecs, length_map, groupKeys, length_insertionSort]

theorem groupBuildSpecs_length_le (specs : List BuildSpec) : (groupBuildSpecs specs).length ≤ specs.length := by
  rw [groupBuildSpecs_length]
  exact (dedup_sublist _).length_le.trans_eq (length_map _)

theorem groupBuildSpecs_length_same {specs : List BuildSpec} {key : Bytes}
    (hsame : ∀ spec ∈ specs, spec.key = key) : (groupBuildSpecs specs).length ≤ 1 := by
  rw [groupBuildSpecs_length]
  have hreplicate : specs.map BuildSpec.key = replicate specs.length key := by
    rw [eq_replicate_iff]
    refine ⟨length_map _, ?_⟩
    intro other hother
    obtain ⟨spec, hspec, rfl⟩ := List.mem_map.1 hother
    exact hsame spec hspec
  rw [hreplicate]
  cases specs with
  | nil => simp
  | cons spec specs => rw [replicate_dedup (by simp)]; simp

theorem specs_length_le (entry : ImageDir) : (cfg.specs entry).length ≤ cfg.buildModes.length :=
  length_filterMap_le _ _

theorem mem_specs {entry : ImageDir} {spec : BuildSpec} (hspec : spec ∈ cfg.specs entry) :
    spec.key = stripNydusV3Suffix (normalizeTargetForMode (trimSpace entry.target) spec.oci) := by
  rw [Config.specs, dirSpecs, mem_filterMap] at hspec
  obtain ⟨oci, _, hsome⟩ := hspec
  dsimp only at hsome
  split_ifs at hsome
  cases hsome
  rfl

theorem jobCount_le_modes (entry : ImageDir) : cfg.jobCount entry ≤ cfg.buildModes.length :=
  (groupBuildSpecs_length_le _).trans (specs_length_le entry)

theorem jobCount_le_one {entry : ImageDir} (hsplits : splits entry = false) : cfg.jobCount entry ≤ 1 := by
  rw [splits, bne_eq_false_iff_eq] at hsplits
  have hsame : ∀ spec ∈ cfg.specs entry,
      spec.key = stripNydusV3Suffix (normalizeTargetForMode (trimSpace entry.target) false) := by
    intro spec hspec
    rw [mem_specs hspec]
    cases spec.oci with
    | false => rfl
    | true => exact hsplits.symm
  exact groupBuildSpecs_length_same hsame

theorem total_jobCount_le (hmodes : cfg.buildModes.length ≤ 2) (entries : List ImageDir) :
    total cfg.jobCount entries ≤ entries.length + (entries.filter splits).length := by
  induction entries with
  | nil => simp
  | cons entry entries ih =>
    have hpair : cfg.jobCount entry ≤ 2 := (jobCount_le_modes entry).trans hmodes
    rw [total_cons, length_cons]
    cases hsplits : splits entry with
    | false =>
      have hone : cfg.jobCount entry ≤ 1 := jobCount_le_one hsplits
      rw [filter_cons_of_neg (by simp [hsplits])]
      omega
    | true =>
      rw [filter_cons_of_pos hsplits, length_cons]
      omega

theorem total_jobCount_single (hmodes : cfg.buildModes.length ≤ 1) (entries : List ImageDir) :
    total cfg.jobCount entries ≤ entries.length := by
  induction entries with
  | nil => simp
  | cons entry entries ih =>
    have hone : cfg.jobCount entry ≤ 1 := (jobCount_le_modes entry).trans hmodes
    rw [total_cons, length_cons]
    omega

theorem resolveBuildModes_length {oci bothFormats : Bool} {buildModes : List Bool}
    (hmodes : resolveBuildModes oci bothFormats = .ok buildModes) : buildModes.length ≤ 2 := by
  unfold resolveBuildModes at hmodes
  split_ifs at hmodes <;> cases hmodes <;> simp

/-! ### Tasks of a run -/

def Site.tasks : Site → Nat
  | .first jobs => jobs.length
  | .stream => 0
  | .retry tasks => tasks.length

def MainPc.tasks : MainPc → Nat
  | .first jobs => jobs.length
  | .schedule _ _ site => 1 + site.tasks
  | .drain tasks | .retry tasks => tasks.length
  | _ => 0

def WorkerPc.tasks : WorkerPc → Nat
  | .next _ | .building .. | .retrying _ | .storing .. => 1
  | _ => 0

def ProducerPc.tasks (cfg : Config) : ProducerPc → Nat
  | .entries rest => Ledger.total cfg.jobCount rest
  | .preparing entry rest => Ledger.total cfg.jobCount (entry :: rest)
  | .sending jobs rest => jobs.length + Ledger.total cfg.jobCount rest
  | .report _ | .close | .exited => 0

def State.tasks (cfg : Config) (s : State) : Nat :=
  s.producer.tasks cfg + s.jobCh.length + s.main.tasks + s.retryQueue.length +
    Ledger.total (fun w => w.pc.tasks) s.workers

theorem scheduled_tasks (site : Site) : site.scheduled.tasks = site.tasks := by
  cases site <;> rfl

theorem refused_tasks (site : Site) : site.refused.tasks = 0 := by
  cases site <;> rfl

theorem tasks_main {choice : Choice} (heffect : MainEffect cfg s choice s') : s'.tasks cfg ≤ s.tasks cfg := by
  cases heffect with
  | firstDone hmain | firstNext hmain | prepareOk hmain | prepareErr hmain | prepareFatal hmain
  | prepareFailed hmain | prepareCancel hmain | waited hmain | returns hmain | moves hmain | acquires hmain
  | givesUp hmain | retryDone hmain | retryNext hmain | streamDone hmain =>
    simp only [State.tasks, State.recordFatalErr, State.cancelCtx, hmain, MainPc.tasks, Site.tasks,
      length_cons, length_nil]
    omega
  | received hmain hjobs =>
    simp only [State.tasks, hmain, hjobs, MainPc.tasks, Site.tasks, length_cons]
    omega
  | discarded hmain hjobs =>
    simp only [State.tasks, hmain, hjobs, MainPc.tasks, length_cons]
    omega
  | selected hmain hqueue =>
    simp only [State.tasks, hmain, hqueue, MainPc.tasks, length_cons, length_nil]
    omega
  | selectedNone hmain | drainedAll hmain => simp only [State.tasks, hmain, MainPc.tasks, le_refl]
  | drained hmain hqueue =>
    simp only [State.tasks, hmain, hqueue, MainPc.tasks, length_append, length_cons, length_nil]
    omega
  | @spawns task site slot hmain hroom =>
    -- The task goes from the function to its goroutine.
    have hheld : (MainPc.schedule (.global slot) task site).tasks = 1 + site.tasks := rfl
    have hspawned : total (fun w : Worker => w.pc.tasks) [⟨task, slot, .next task.job.specs⟩] = 1 := rfl
    simp only [State.tasks, hmain, hheld, scheduled_tasks, total_append, hspawned]
    omega
  | refused hmain | releasesWorker hmain =>
    simp only [State.tasks, hmain, refused_tasks]
    omega

theorem tasks_worker (hworker : s.workers[k]? = some w) (heffect : WorkerEffect cfg s k w s') :
    s'.tasks cfg ≤ s.tasks cfg := by
  have htotal : ∀ pc : WorkerPc, total (fun w => w.pc.tasks) (s.workers.set k { w with pc := pc }) +
      w.pc.tasks = total (fun w => w.pc.tasks) s.workers + pc.tasks :=
    fun pc => total_set _ hworker
  -- A goroutine whose new point accounts for no more than the old one.
  have hmoves : ∀ (pc : WorkerPc), pc.tasks ≤ w.pc.tasks →
      s'.workers = s.workers.set k { w with pc := pc } → s'.retryQueue = s.retryQueue →
      s'.producer = s.producer → s'.jobCh = s.jobCh → s'.main = s.main → s'.tasks cfg ≤ s.tasks cfg := by
    intro pc hle hworkers hqueue hproducer hjobs hmain
    have hpc := htotal pc
    simp only [State.tasks, hworkers, hqueue, hproducer, hjobs, hmain]
    omega
  cases heffect with
  | queued hpc hroom =>
    have hsent := htotal .releaseSlot
    have hheld : w.pc.tasks = 1 := by rw [hpc]; rfl
    have hreleased : WorkerPc.releaseSlot.tasks = 0 := rfl
    simp only [State.tasks, setWorker, length_append, length_cons, length_nil]
    omega
  | @stored spec rest success hpc | @finished success hpc =>
    refine hmoves _ ?_ rfl rfl rfl rfl rfl
    rw [hpc]
    cases success <;> simp [WorkerPc.tasks]
  | setsFailed hpc =>
    refine hmoves _ ?_ rfl rfl rfl rfl rfl
    rw [hpc]
    split <;> simp [WorkerPc.tasks]
  | specsDone hpc | starts hpc | retries hpc | built hpc | storeFailed _ hpc | persistFatal hpc
  | persistFailed hpc | cancels hpc | slotReleased hpc | globalReleased hpc | exits hpc =>
    exact hmoves _ (by simp [hpc, WorkerPc.tasks]) rfl rfl rfl rfl rfl

theorem tasks_producer (heffect : ProducerEffect cfg s s') : s'.tasks cfg ≤ s.tasks cfg := by
  cases heffect with
  | fails hpc =>
    simp only [State.tasks, ProducerPc.tasks]
    omega
  | @filters entry rest results filtered hpc hfilter =>
    -- The filter makes no jobs.
    have hjobs : filtered.jobs.length ≤ cfg.jobCount entry := filterBuildJobs_length hfilter
    simp only [State.tasks, hpc, ProducerPc.tasks, total_cons]
    omega
  | sends hpc hroom =>
    simp only [State.tasks, hpc, ProducerPc.tasks, length_append, length_cons, length_nil]
    omega
  | allDone hpc | takes hpc | skips hpc | sentAll hpc | reports hpc | closes hpc =>
    simp only [State.tasks, hpc, ProducerPc.tasks, total_cons, length_nil]
    omega

theorem tasks_step (heffect : Effect cfg s a s') : s'.tasks cfg ≤ s.tasks cfg := by
  cases heffect with
  | main heffect => exact tasks_main heffect
  | worker hworker heffect => exact tasks_worker hworker heffect
  | producer heffect => exact tasks_producer heffect
  | cancel | refreshPool | tick => exact le_refl _

/-! ### Room in the queue -/

def WorkerPc.sends : WorkerPc → Nat
  | .retrying _ => 1
  | _ => 0

theorem sends_eq_one {pc : WorkerPc} (hsends : pc.sends = 1) : ∃ specs, pc = .retrying specs := by
  cases pc with
  | retrying specs => exact ⟨specs, rfl⟩
  | _ => cases hsends

def State.senders (s : State) : Nat := Ledger.total (fun w : Worker => w.pc.sends) s.workers

def State.Roomy (s : State) : Prop := s.retryQueue.length + s.senders ≤ s.retryCap

theorem retryCap_step (heffect : Effect cfg s a s') : s'.retryCap = s.retryCap := by
  cases heffect with
  | main heffect | worker hworker heffect | producer heffect => cases heffect <;> rfl
  | cancel | refreshPool | tick => rfl

theorem roomy_of_tasks (htasks : s.tasks cfg ≤ s.retryCap) : s.Roomy := by
  have hsenders : s.senders ≤ total (fun w : Worker => w.pc.tasks) s.workers := by
    refine total_le_total _ ?_
    intro w _
    cases w.pc <;> simp [WorkerPc.sends, WorkerPc.tasks]
  rw [State.tasks] at htasks
  rw [State.Roomy]
  omega

theorem State.Roomy.send {specs : List BuildSpec} (hroomy : s.Roomy) (hworker : s.workers[k]? = some w)
    (hpc : w.pc = .retrying specs) : (step cfg s (.worker k .go)).isSome = true := by
  have hsender : 1 ≤ s.senders := by
    have hone : w.pc.sends = 1 := by rw [hpc]; rfl
    rw [← hone]
    exact Ledger.le_total (fun w : Worker => w.pc.sends) (mem_of_getElem? hworker)
  have hroom : s.retryQueue.length < s.retryCap := by
    rw [State.Roomy] at hroomy
    omega
  simp [step, hworker, workerStep, hpc, hroom]

structure NoRetries (s : State) : Prop where
  queue : s.retryQueue = []
  workers : ∀ w ∈ s.workers, w.pc.sends = 0

theorem NoRetries.roomy (hnone : NoRetries s) : s.Roomy := by
  rw [State.Roomy, State.senders, hnone.queue, total_eq_zero _ hnone.workers]
  exact Nat.zero_le _

theorem noRetries_worker (hretry : cfg.retry = 0) (hnone : NoRetries s) (hworker : s.workers[k]? = some w)
    (heffect : WorkerEffect cfg s k w s') : NoRetries s' := by
  have hset : ∀ pc : WorkerPc, pc.sends = 0 → ∀ v ∈ s.workers.set k { w with pc := pc }, v.pc.sends = 0 := by
    intro pc hpc v hv
    rcases mem_or_eq_of_mem_set hv with hold | rfl
    · exact hnone.workers v hold
    · exact hpc
  cases heffect with
  | queued hpc hroom =>
    have hzero := hnone.workers w (mem_of_getElem? hworker)
    rw [hpc] at hzero
    cases hzero
  | retries hpc hattempt =>
    rw [hretry] at hattempt
    cases hattempt
  | @stored spec rest success hpc =>
    refine ⟨hnone.queue, hset (if success then .next rest else .finish false) ?_⟩
    cases success <;> rfl
  | @finished success hpc =>
    refine ⟨hnone.queue, hset (if success then .releaseSlot else .setFailed) ?_⟩
    cases success <;> rfl
  | setsFailed hpc =>
    refine ⟨hnone.queue, hset (if cfg.failfast then .cancel else .releaseSlot) ?_⟩
    split <;> rfl
  | specsDone | starts | built | storeFailed | persistFatal | persistFailed | cancels | slotReleased hpc
  | globalReleased hpc | exits => exact ⟨hnone.queue, hset _ rfl⟩

theorem noRetries_step (hretry : cfg.retry = 0) (hnone : NoRetries s) (heffect : Effect cfg s a s') :
    NoRetries s' := by
  cases heffect with
  | main heffect =>
    cases heffect with
    | selected hmain hqueue | drained hmain hqueue =>
      rw [hnone.queue] at hqueue
      cases hqueue
    | spawns hmain hroom =>
      refine ⟨hnone.queue, ?_⟩
      simp only [forall_mem_append, forall_mem_singleton]
      exact ⟨hnone.workers, rfl⟩
    | _ => exact ⟨hnone.queue, hnone.workers⟩
  | worker hworker heffect => exact noRetries_worker hretry hnone hworker heffect
  | producer heffect => cases heffect <;> exact ⟨hnone.queue, hnone.workers⟩
  | cancel | refreshPool | tick => exact ⟨hnone.queue, hnone.workers⟩

/-! ### Runs -/

theorem retryCap_run (hexec : exec (step cfg) start acts = some t) : t.retryCap = start.retryCap := by
  have hkeep : ∀ s a s', s.retryCap = start.retryCap → step cfg s a = some s' →
      s'.retryCap = start.retryCap := by
    intro s a s' hcap hstep
    rw [retryCap_step (step_effect hstep), hcap]
  exact exec_invariant (step cfg) hkeep rfl hexec

theorem roomy_run (hstart : start.tasks cfg ≤ start.retryCap)
    (hexec : exec (step cfg) start acts = some t) : t.Roomy := by
  have hkeep : ∀ s a s', s.tasks cfg ≤ s.retryCap → step cfg s a = some s' → s'.tasks cfg ≤ s'.retryCap := by
    intro s a s' htasks hstep
    rw [retryCap_step (step_effect hstep)]
    exact (tasks_step (step_effect hstep)).trans htasks
  exact roomy_of_tasks (exec_invariant (step cfg) hkeep hstart hexec)

theorem batch_roomy {addrs : List Pool.BuildkitAddr} {results : ResultReader} {jobs : List BuildJob}
    (hstart : startBatch cfg addrs results jobs = .ok start)
    (hexec : exec (step cfg) start acts = some t) : t.Roomy := by
  unfold startBatch at hstart
  split at hstart
  · cases hstart
  · rename_i filtered hfilter
    cases hstart
    refine roomy_run ?_ hexec
    dsimp only [State.tasks, initial]
    split <;> simp [MainPc.tasks, ProducerPc.tasks]

def sampleSplit (name : Bytes) : ImageDir := ⟨name, true, name, name ++ ascii "_nydus_v3_nydus_v3"⟩

def sampleWhole (name : Bytes) : ImageDir := ⟨name, true, name, name⟩

def sampleFirstJob (k : Nat) : List Action :=
  [.producer .go, .producer (.prepared noResults), .producer .go] ++ sampleSchedule ++ sampleQueued k

def sampleSecondJob (k : Nat) : List Action := [.producer .go] ++ sampleSchedule ++ sampleFailed k

def sampleOneSplit : Config := sampleConfig [false, true] [sampleWhole (ascii "a"), sampleSplit (ascii "b")]

def sampleTwoSplits : Config := sampleConfig [false, true] [sampleSplit (ascii "a"), sampleSplit (ascii "b")]

def sampleFourRetries : List Action :=
  sampleFirstJob 0 ++ sampleSecondJob 1 ++ List.replicate 4 (.worker 1 .go) ++ [.producer .go] ++
    sampleFirstJob 2 ++ sampleSecondJob 3 ++ List.replicate 4 (.producer .go) ++ List.replicate 2 (.main .go)

end BuildkitService.Batch
