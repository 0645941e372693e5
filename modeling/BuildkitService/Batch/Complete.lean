import BuildkitService.Lib.Threads
import BuildkitService.Batch.Steps

/-!
# Complete runs

A run that returns nil has built everything it was given, unless a scheduling call gave up on a done
context before any build had failed: the result is computed from `failed` and `fatalErr`, and a
refused task leaves no trace in either.
-/

namespace BuildkitService.Batch

open Threads List

variable {cfg : Config} {s s' : State} {pc : MainPc} {k : Nat} {w : Worker} {choice : Choice}
  {spec : BuildSpec}

def Site.past : Site → Bool
  | .stream => false
  | .first _ | .retry _ => true

def MainPc.past : MainPc → Bool
  | .receive _ => false
  | .schedule _ _ site => site.past
  | _ => true

def MainPc.late : MainPc → Bool
  | .prepareErr => false
  | pc => pc.past

def MainPc.quiet : MainPc → Bool
  | .select | .drain _ | .done | .returned _ => true
  | _ => false

def MainPc.ended : MainPc → Bool
  | .done | .returned _ => true
  | _ => false

def MainPc.drops : MainPc → Bool
  | .receive false | .schedule (.releaseWorker _) _ _ => true
  | _ => false

structure Phases (s : State) : Prop where
  closed : s.jobsClosed = true → s.producer = .exited
  past : s.main.past = true → s.jobCh = [] ∧ s.producer = .exited
  late : s.main.late = true → s.prepareErr = none
  quiet : s.main.quiet = true → ∀ w ∈ s.workers, w.pc = .exited
  ended : s.main.ended = true → s.retryQueue = []
  drops : s.main.drops = true → s.failed = true
  verdict : s.main = .returned none → s.failed = false
  reported : s.prepareErr = none ∨ s.producer = .close ∨ s.producer = .exited

def Undisturbed (s : State) : Action → Prop
  | .main choice => s.refuses choice = true → s.failed = true
  | _ => True

instance (s : State) : ∀ a, Decidable (Undisturbed s a)
  | .main choice => inferInstanceAs (Decidable (s.refuses choice = true → s.failed = true))
  | .worker .. | .producer _ | .cancel _ | .refreshPool _ | .tick => isTrue trivial

theorem quiet_of_ended (hended : pc.ended = true) : pc.quiet = true := by
  cases pc <;> first | rfl | cases hended

theorem drops_of_quiet (hquiet : pc.quiet = true) : pc.drops = false := by
  cases pc <;> first | rfl | cases hquiet

theorem past_of_late (hlate : pc.late = true) : pc.past = true := by
  cases pc <;> first | rfl | exact hlate

structure WorkerFrame (s s' : State) (k : Nat) (w : Worker) : Prop where
  main : s'.main = s.main
  producer : s'.producer = s.producer
  jobCh : s'.jobCh = s.jobCh
  jobsClosed : s'.jobsClosed = s.jobsClosed
  prepareErr : s'.prepareErr = s.prepareErr
  issued : s'.issued = s.issued
  skipped : s'.skipped = s.skipped
  retryCap : s'.retryCap = s.retryCap
  failed : s.failed = true → s'.failed = true
  alive : w.pc ≠ .exited
  workers : ∃ pc, s'.workers = s.workers.set k { w with pc := pc }

theorem WorkerEffect.frame (heffect : WorkerEffect cfg s k w s') : WorkerFrame s s' k w := by
  cases heffect <;>
    exact ⟨rfl, rfl, rfl, rfl, rfl, rfl, rfl, rfl, fun h => by first | exact h | rfl, by simp_all, ⟨_, rfl⟩⟩

structure ProducerFrame (s s' : State) : Prop where
  main : s'.main = s.main
  workers : s'.workers = s.workers
  retryQueue : s'.retryQueue = s.retryQueue
  retryCap : s'.retryCap = s.retryCap
  failed : s'.failed = s.failed
  upserts : s'.upserts = s.upserts
  alive : s.producer ≠ .exited

theorem ProducerEffect.frame (heffect : ProducerEffect cfg s s') : ProducerFrame s s' := by
  cases heffect with
  | fails hpc =>
    refine ⟨rfl, rfl, rfl, rfl, rfl, rfl, ?_⟩
    rcases hpc with ⟨_, _, h⟩ | ⟨_, _, h⟩ | ⟨_, _, h⟩ <;> rw [h] <;> simp
  | _ => exact ⟨rfl, rfl, rfl, rfl, rfl, rfl, by simp_all⟩

section

variable (hphases : Phases s)

include hphases

theorem phases_worker (hworker : s.workers[k]? = some w)
    (heffect : WorkerEffect cfg s k w s') : Phases s' := by
  have hframe := heffect.frame
  -- A worker that moves has not been waited for.
  have hbusy : s.main.quiet ≠ true := fun hquiet =>
    hframe.alive (hphases.quiet hquiet w (mem_of_getElem? hworker))
  refine ⟨?_, ?_, ?_, ?_, ?_, ?_, ?_, ?_⟩
  · rw [hframe.jobsClosed, hframe.producer]
    exact hphases.closed
  · rw [hframe.main, hframe.jobCh, hframe.producer]
    exact hphases.past
  · rw [hframe.main, hframe.prepareErr]
    exact hphases.late
  · rw [hframe.main]
    exact fun hquiet => absurd hquiet hbusy
  · rw [hframe.main]
    exact fun hended => absurd (quiet_of_ended hended) hbusy
  · rw [hframe.main]
    exact fun hdrops => hframe.failed (hphases.drops hdrops)
  · intro hreturned
    rw [hframe.main] at hreturned
    exact absurd (by rw [hreturned]; rfl) hbusy
  · rw [hframe.prepareErr, hframe.producer]
    exact hphases.reported

theorem phases_producer (heffect : ProducerEffect cfg s s') : Phases s' := by
  have hframe := heffect.frame
  have hopen : s.main.past ≠ true := fun hpast => hframe.alive (hphases.past hpast).2
  have hclosed : s.jobsClosed ≠ true := fun hclosed => hframe.alive (hphases.closed hclosed)
  refine ⟨?_, ?_, ?_, ?_, ?_, ?_, ?_, ?_⟩
  · cases heffect with
    | closes hpc => exact fun _ => rfl
    | _ => exact fun h => absurd h hclosed
  · rw [hframe.main]
    exact fun hpast => absurd hpast hopen
  · rw [hframe.main]
    exact fun hlate => absurd (past_of_late hlate) hopen
  · rw [hframe.main, hframe.workers]
    exact hphases.quiet
  · rw [hframe.main, hframe.retryQueue]
    exact hphases.ended
  · rw [hframe.main, hframe.failed]
    exact hphases.drops
  · rw [hframe.main, hframe.failed]
    exact hphases.verdict
  · -- Before the report nothing has been sent.
    have hsilent : s.producer ≠ .close → s.prepareErr = none := fun hpc =>
      hphases.reported.resolve_right (not_or.2 ⟨hpc, hframe.alive⟩)
    cases heffect with
    | reports hpc => exact .inr (.inl rfl)
    | closes hpc => exact .inr (.inr rfl)
    | fails hpc =>
      refine .inl (hsilent ?_)
      rcases hpc with ⟨_, _, h⟩ | ⟨_, _, h⟩ | ⟨_, _, h⟩ <;> rw [h] <;> simp
    | allDone hpc | takes hpc | skips hpc | filters hpc | sentAll hpc | sends hpc =>
      exact .inl (hsilent (by rw [hpc]; simp))

theorem Phases.advance (hclosed : s'.jobsClosed = s.jobsClosed) (hproducer : s'.producer = s.producer)
    (hpast : s'.main.past = true → s'.jobCh = [] ∧ s.producer = .exited)
    (hlate : s'.main.late = true → s'.prepareErr = none) (hquiet : s'.main.quiet = false)
    (hdrops : s'.main.drops = true → s'.failed = true)
    (hreported : s'.prepareErr = none ∨ s'.prepareErr = s.prepareErr) : Phases s' := by
  refine ⟨?_, ?_, hlate, ?_, ?_, hdrops, ?_, ?_⟩
  · rw [hclosed, hproducer]
    exact hphases.closed
  · rw [hproducer]
    exact hpast
  · rw [hquiet]
    exact nofun
  · intro hended
    rw [quiet_of_ended hended] at hquiet
    cases hquiet
  · intro hreturned
    rw [hreturned] at hquiet
    cases hquiet
  · rw [hproducer]
    rcases hreported with hnone | hsame
    · exact .inl hnone
    · rw [hsame]
      exact hphases.reported

theorem Phases.within (hpast : pc.past = s.main.past) (hlate : pc.late = s.main.late)
    (hquiet : pc.quiet = false) (hdrops : pc.drops = false) (hmain : s'.main = pc)
    (hclosed : s'.jobsClosed = s.jobsClosed) (hproducer : s'.producer = s.producer)
    (hjobs : s'.jobCh = s.jobCh) (herr : s'.prepareErr = s.prepareErr) : Phases s' := by
  subst hmain
  refine hphases.advance hclosed hproducer ?_ ?_ hquiet ?_ (.inr herr)
  · rw [hpast, hjobs]
    exact hphases.past
  · rw [hlate, herr]
    exact hphases.late
  · rw [hdrops]
    exact nofun

theorem Phases.rest (hlate : s.main.late = true)
    (hexited : ∀ w ∈ s.workers, w.pc = .exited) (hquiet : s'.main.quiet = true)
    (hclosed : s'.jobsClosed = s.jobsClosed) (hproducer : s'.producer = s.producer) (hjobs : s'.jobCh = s.jobCh)
    (herr : s'.prepareErr = s.prepareErr) (hworkers : s'.workers = s.workers)
    (hended : s'.main.ended = true → s'.retryQueue = [])
    (hverdict : s'.main = .returned none → s'.failed = false) : Phases s' := by
  refine ⟨?_, ?_, ?_, ?_, hended, ?_, hverdict, ?_⟩
  · rw [hclosed, hproducer]
    exact hphases.closed
  · rw [hjobs, hproducer]
    exact fun _ => hphases.past (past_of_late hlate)
  · rw [herr]
    exact fun _ => hphases.late hlate
  · rw [hworkers]
    exact fun _ => hexited
  · intro hdrops
    rw [drops_of_quiet hquiet] at hdrops
    cases hdrops
  · rw [herr, hproducer]
    exact hphases.reported

end

theorem scheduled_within (site : Site) : site.scheduled.past = site.past ∧ site.scheduled.late = site.past ∧
    site.scheduled.quiet = false ∧ site.scheduled.drops = false := by
  cases site <;> exact ⟨rfl, rfl, rfl, rfl⟩

theorem refused_within (site : Site) : site.refused.past = site.past ∧ site.refused.late = site.past ∧
    site.refused.quiet = false := by
  cases site <;> exact ⟨rfl, rfl, rfl⟩

theorem phases_main (hphases : Phases s) (hok : s.refuses choice = true → s.failed = true)
    (heffect : MainEffect cfg s choice s') : Phases s' := by
  have hrefused : ∀ {pc : SchedPc} {task : BuildTask} {site : Site} {s' : State},
      s.main = .schedule pc task site → s.failed = true → s'.main = site.refused →
      s'.jobsClosed = s.jobsClosed → s'.producer = s.producer → s'.jobCh = s.jobCh →
      s'.prepareErr = s.prepareErr → s'.failed = s.failed → Phases s' := by
    intro pc task site s' hmain hfailed hmain' hclosed hproducer hjobs herr hfailed'
    obtain ⟨hpast, hlate, hquiet⟩ := refused_within site
    refine hphases.advance hclosed hproducer ?_ ?_ (by rw [hmain', hquiet]) ?_ (.inr herr)
    · rw [hmain', hpast, hjobs]
      exact fun h => hphases.past (by rw [hmain]; exact h)
    · rw [hmain', hlate, herr]
      exact fun h => hphases.late (by rw [hmain]; exact h)
    · rw [hfailed']
      exact fun _ => hfailed
  cases heffect with
  | firstDone hmain | firstNext hmain | prepareFatal hmain | prepareFailed hmain | prepareCancel hmain
  | drainedAll hmain | retryDone hmain | retryNext hmain | acquires hmain =>
    exact hphases.within (by rw [hmain]; rfl) (by rw [hmain]; rfl) rfl rfl rfl rfl rfl rfl rfl
  | received hmain hjobs =>
    exact hphases.advance rfl rfl nofun nofun rfl nofun (.inr rfl)
  | discarded hmain hjobs =>
    refine hphases.advance rfl rfl nofun nofun rfl ?_ (.inr rfl)
    exact fun _ => hphases.drops (by rw [hmain]; rfl)
  | streamDone hmain hjobs hclosed =>
    exact hphases.advance rfl rfl (fun _ => ⟨hjobs, hphases.closed hclosed⟩) nofun rfl nofun (.inr rfl)
  | prepareOk hmain | prepareErr hmain =>
    exact hphases.advance rfl rfl (fun _ => hphases.past (by rw [hmain]; rfl)) (fun _ => rfl) rfl nofun
      (.inl rfl)
  | waited hmain hworkers =>
    exact hphases.rest (by rw [hmain]; rfl) hworkers rfl rfl rfl rfl rfl rfl nofun nofun
  | selected hmain | drained hmain =>
    exact hphases.rest (by rw [hmain]; rfl) (hphases.quiet (by rw [hmain]; rfl)) rfl rfl rfl rfl rfl rfl nofun nofun
  | selectedNone hmain hqueue =>
    exact hphases.rest (by rw [hmain]; rfl) (hphases.quiet (by rw [hmain]; rfl)) rfl rfl rfl rfl rfl rfl
      (fun _ => hqueue) nofun
  | returns hmain =>
    refine hphases.rest (by rw [hmain]; rfl) (hphases.quiet (by rw [hmain]; rfl)) rfl rfl rfl rfl rfl rfl
      (fun _ => hphases.ended (by rw [hmain]; rfl)) ?_
    intro hverdict
    have hnone : s.fatalErr = none ∧ s.failed = false := by simpa using hverdict
    exact hnone.2
  | @moves _ pc pc' task site hmain hpc hpc' =>
    refine hphases.within (by rw [hmain]; rfl) (by rw [hmain]; rfl) rfl ?_ rfl rfl rfl rfl rfl
    cases pc' <;> first | rfl | cases hpc'
  | @spawns task site slot hmain hroom =>
    obtain ⟨hpast, hlate, hquiet, hdrops⟩ := scheduled_within site
    exact hphases.within (by rw [hmain, hpast]; rfl) (by rw [hmain, hlate]; rfl) hquiet hdrops rfl rfl rfl rfl rfl
  | refused hmain hpc hwhy =>
    exact hrefused hmain (hwhy.elim id hok) rfl rfl rfl rfl rfl rfl
  | @givesUp task site slot hmain hwhy =>
    refine hphases.advance rfl rfl ?_ ?_ rfl (fun _ => hok hwhy) (.inr rfl)
    · exact fun h => hphases.past (by rw [hmain]; exact h)
    · exact fun h => hphases.late (by rw [hmain]; exact h)
  | releasesWorker hmain hpool =>
    exact hrefused hmain (hphases.drops (by rw [hmain]; rfl)) rfl rfl rfl rfl rfl rfl

theorem phases_step {a : Action} (hphases : Phases s) (hok : Undisturbed s a) (heffect : Effect cfg s a s') :
    Phases s' := by
  cases heffect with
  | main heffect => exact phases_main hphases hok heffect
  | worker hworker heffect => exact phases_worker hphases hworker heffect
  | producer heffect => exact phases_producer hphases heffect
  | cancel | refreshPool | tick =>
    exact ⟨hphases.closed, hphases.past, hphases.late, hphases.quiet, hphases.ended, hphases.drops,
      hphases.verdict, hphases.reported⟩

def Site.specs : Site → List BuildSpec
  | .first jobs => jobs.flatMap BuildJob.specs
  | .stream => []
  | .retry tasks => tasks.flatMap fun task => task.job.specs

def MainPc.specs : MainPc → List BuildSpec
  | .first jobs => jobs.flatMap BuildJob.specs
  | .schedule _ task site => task.job.specs ++ site.specs
  | .drain tasks | .retry tasks => tasks.flatMap fun task => task.job.specs
  | _ => []

def WorkerPc.specs : WorkerPc → List BuildSpec
  | .next specs | .retrying specs => specs
  | .building spec rest | .storing spec rest _ => spec :: rest
  | _ => []

def ProducerPc.specs : ProducerPc → List BuildSpec
  | .sending jobs _ => jobs.flatMap BuildJob.specs
  | _ => []

def WorkerPc.dooms : WorkerPc → Bool
  | .storing _ _ false | .persistFatal _ | .persistFailed | .finish false | .setFailed => true
  | _ => false

def State.Aborted (s : State) : Prop :=
  (∃ err, s.producer = .report (some err)) ∨ (∃ err, s.prepareErr = some (some err)) ∨
    (∃ err, s.main = .prepareFatal err) ∨ s.main = .prepareFailed

def State.Doomed (s : State) : Prop :=
  s.failed = true ∨ (∃ w ∈ s.workers, w.pc.dooms = true) ∨ s.Aborted

inductive State.Live (s : State) (spec : BuildSpec) : Prop
  | main (h : spec ∈ s.main.specs)
  | producer (h : spec ∈ s.producer.specs)
  | channel (h : spec ∈ s.jobCh.flatMap BuildJob.specs)
  | queue (h : spec ∈ s.retryQueue.flatMap fun task => task.job.specs)
  | worker {w : Worker} (hw : w ∈ s.workers) (h : spec ∈ w.pc.specs)

inductive State.Covered (s : State) (spec : BuildSpec) : Prop
  | skipped (h : spec ∈ s.skipped)
  | built (h : (spec, true) ∈ s.upserts)
  | live (h : s.Live spec)
  | doomed (h : s.Doomed)

theorem Covered.step (hskipped : ∀ spec ∈ s.skipped, spec ∈ s'.skipped)
    (hupserts : ∀ upsert ∈ s.upserts, upsert ∈ s'.upserts) (hdoomed : s.Doomed → s'.Doomed)
    (hlive : s.Live spec → s'.Covered spec) (hcovered : s.Covered spec) : s'.Covered spec := by
  cases hcovered with
  | skipped h => exact .skipped (hskipped spec h)
  | built h => exact .built (hupserts _ h)
  | live h => exact hlive h
  | doomed h => exact .doomed (hdoomed h)

theorem WorkerEffect.dooms (heffect : WorkerEffect cfg s k w s') (hdooms : w.pc.dooms = true) :
    s'.failed = true ∨ ∃ pc : WorkerPc, pc.dooms = true ∧ s'.workers = s.workers.set k { w with pc := pc } := by
  cases heffect with
  | @stored spec rest success hpc =>
    cases success with
    | true => simp [hpc, WorkerPc.dooms] at hdooms
    | false => exact .inr ⟨.finish false, rfl, rfl⟩
  | storeFailed err hpc => exact .inr ⟨.persistFatal err, rfl, rfl⟩
  | persistFatal hpc => exact .inr ⟨.persistFailed, rfl, rfl⟩
  | persistFailed | setsFailed => exact .inl rfl
  | @finished success hpc =>
    cases success with
    | true => simp [hpc, WorkerPc.dooms] at hdooms
    | false => exact .inr ⟨.setFailed, rfl, rfl⟩
  | specsDone hpc | starts hpc | retries hpc | built hpc | queued hpc | cancels hpc | slotReleased hpc
  | globalReleased hpc | exits hpc => simp [hpc, WorkerPc.dooms] at hdooms

section

variable (hworker : s.workers[k]? = some w)

include hworker

theorem doomed_worker (heffect : WorkerEffect cfg s k w s') (hdoomed : s.Doomed) : s'.Doomed := by
  have hframe := heffect.frame
  rcases hdoomed with hfailed | ⟨v, hv, hdooms⟩ | haborted
  · exact .inl (hframe.failed hfailed)
  · obtain ⟨pc, hworkers⟩ := hframe.workers
    rcases eq_or_mem_set (y := { w with pc := pc }) hworker hv with rfl | hstays
    · rcases heffect.dooms hdooms with hfailed | ⟨pc', hpc, hworkers'⟩
      · exact .inl hfailed
      · exact .inr (.inl ⟨{ v with pc := pc' }, by rw [hworkers']; exact mem_set_self hworker, hpc⟩)
    · exact .inr (.inl ⟨v, by rw [hworkers]; exact hstays, hdooms⟩)
  · refine .inr (.inr ?_)
    rw [State.Aborted, hframe.producer, hframe.prepareErr, hframe.main]
    exact haborted

theorem covered_moves {pc : WorkerPc} (heffect : WorkerEffect cfg s k w s')
    (hworkers : s'.workers = s.workers.set k { w with pc := pc })
    (hqueue : ∀ task ∈ s.retryQueue, task ∈ s'.retryQueue)
    (hupserts : ∀ upsert ∈ s.upserts, upsert ∈ s'.upserts) (hspecs : ∀ spec ∈ w.pc.specs, s'.Covered spec)
    (hcovered : s.Covered spec) : s'.Covered spec := by
  have hframe := heffect.frame
  refine Covered.step (by rw [hframe.skipped]; exact fun _ h => h) hupserts (doomed_worker hworker heffect) ?_
    hcovered
  intro hlive
  cases hlive with
  | main h => exact .live (.main (by rw [hframe.main]; exact h))
  | producer h => exact .live (.producer (by rw [hframe.producer]; exact h))
  | channel h => exact .live (.channel (by rw [hframe.jobCh]; exact h))
  | queue h =>
    obtain ⟨task, htask, hmem⟩ := mem_flatMap.1 h
    exact .live (.queue (mem_flatMap.2 ⟨task, hqueue task htask, hmem⟩))
  | @worker v hv h =>
    rcases eq_or_mem_set hworker hv with rfl | hmem
    · exact hspecs spec h
    · exact .live (.worker (by rw [hworkers]; exact hmem) h)

theorem covered_worker (heffect : WorkerEffect cfg s k w s')
    (hcovered : s.Covered spec) : s'.Covered spec := by
  have hwhole := heffect
  -- The moved worker carries specs on, or dooms the run.
  have hcarries : ∀ {p : WorkerPc} {t : State}, t.workers = s.workers.set k { w with pc := p } →
      ∀ other ∈ p.specs, t.Covered other := by
    intro p t ht other hother
    refine .live (.worker (w := { w with pc := p }) ?_ hother)
    rw [ht]
    exact mem_set_self hworker
  have hdoom : ∀ {p : WorkerPc} {t : State}, t.workers = s.workers.set k { w with pc := p } →
      p.dooms = true → t.Covered spec := by
    intro p t ht hp
    refine .doomed (.inr (.inl ⟨{ w with pc := p }, ?_, hp⟩))
    rw [ht]
    exact mem_set_self hworker
  cases heffect with
  | @starts next rest hpc =>
    refine covered_moves hworker hwhole rfl (fun _ h => h) (fun _ h => h) ?_ hcovered
    rw [hpc]
    exact hcarries (p := .building next rest) rfl
  | @retries next rest cooldownUntil hpc hattempt =>
    refine covered_moves hworker hwhole rfl (fun _ h => h) (fun _ h => h) ?_ hcovered
    rw [hpc]
    exact hcarries (p := .retrying (next :: rest)) rfl
  | @built next rest success cooldownUntil hpc =>
    refine covered_moves hworker hwhole rfl (fun _ h => h) (fun _ h => h) ?_ hcovered
    rw [hpc]
    exact hcarries (p := .storing next rest success) rfl
  | @queued specs hpc hroom =>
    refine covered_moves hworker hwhole rfl (fun _ h => by simp [setWorker, h]) (fun _ h => h) ?_ hcovered
    rw [hpc]
    intro other hother
    exact .live (.queue (mem_flatMap.2
      ⟨⟨{ w.task.job with specs := specs }, w.task.attempt + 1⟩, by simp [setWorker], hother⟩))
  | @stored next rest success hpc =>
    cases success with
    | true =>
      refine covered_moves hworker hwhole rfl (fun _ h => h) (fun _ h => by simp [setWorker, h]) ?_ hcovered
      rw [hpc]
      simp only [WorkerPc.specs, forall_mem_cons]
      exact ⟨.built (by simp [setWorker]), hcarries (p := .next rest) rfl⟩
    | false => exact hdoom (p := .finish false) rfl rfl
  | storeFailed err hpc => exact hdoom (p := .persistFatal err) rfl rfl
  | persistFatal hpc => exact hdoom (p := .persistFailed) rfl rfl
  | persistFailed | setsFailed => exact .doomed (.inl rfl)
  | specsDone hpc | finished hpc | cancels hpc | slotReleased hpc | globalReleased hpc | exits hpc =>
    exact covered_moves hworker hwhole rfl (fun _ h => h) (fun _ h => h) (by simp [hpc, WorkerPc.specs]) hcovered

end

theorem doomed_producer (hphases : Phases s) (heffect : ProducerEffect cfg s s') (hdoomed : s.Doomed) :
    s'.Doomed := by
  have hframe := heffect.frame
  rcases hdoomed with hfailed | hworker | hproducer | herr | hmain
  · exact .inl (by rw [hframe.failed, hfailed])
  · exact .inr (.inl (by rw [hframe.workers]; exact hworker))
  · obtain ⟨err, hpc⟩ := hproducer
    cases heffect with
    | reports hpc' =>
      rw [hpc] at hpc'
      cases hpc'
      exact .inr (.inr (.inr (.inl ⟨err, rfl⟩)))
    | fails hpc' => rw [hpc] at hpc'; simp at hpc'
    | allDone hpc' | takes hpc' | skips hpc' | filters hpc' | sentAll hpc' | sends hpc' | closes hpc' =>
      rw [hpc] at hpc'
      cases hpc'
  · obtain ⟨err, herr⟩ := herr
    refine .inr (.inr (.inr (.inl ⟨err, ?_⟩)))
    cases heffect with
    | reports hpc =>
      rcases hphases.reported with hnone | hclose | hexited
      · rw [herr] at hnone
        cases hnone
      · rw [hpc] at hclose
        cases hclose
      · rw [hpc] at hexited
        cases hexited
    | _ => exact herr
  · exact .inr (.inr (.inr (.inr (by rw [hframe.main]; exact hmain))))

theorem covered_producer (hphases : Phases s) (heffect : ProducerEffect cfg s s') (hcovered : s.Covered spec) :
    s'.Covered spec := by
  have hframe := heffect.frame
  have hskipped : ∀ other ∈ s.skipped, other ∈ s'.skipped := by
    cases heffect with
    | filters hpc hfilter => exact fun other hother => mem_append_left _ hother
    | _ => exact fun _ h => h
  have hchannel : ∀ other ∈ s.jobCh.flatMap BuildJob.specs, other ∈ s'.jobCh.flatMap BuildJob.specs := by
    cases heffect with
    | sends hpc hroom =>
      intro other hother
      simp only [flatMap_append, mem_append]
      exact .inl hother
    | _ => exact fun _ h => h
  refine Covered.step hskipped (by rw [hframe.upserts]; exact fun _ h => h) (doomed_producer hphases heffect) ?_
    hcovered
  intro hlive
  cases hlive with
  | main h => exact .live (.main (by rw [hframe.main]; exact h))
  | channel h => exact .live (.channel (hchannel spec h))
  | queue h => exact .live (.queue (by rw [hframe.retryQueue]; exact h))
  | worker hw h => exact .live (.worker (by rw [hframe.workers]; exact hw) h)
  | producer h =>
    cases heffect with
    | @fails err hpc => exact .doomed (.inr (.inr (.inl ⟨err, rfl⟩)))
    | @sends job jobs rest hpc hroom =>
      rw [hpc, ProducerPc.specs, flatMap_cons, mem_append] at h
      rcases h with hjob | hrest
      · exact .live (.channel (by simp [hjob]))
      · exact .live (.producer hrest)
    | allDone hpc | takes hpc | skips hpc | filters hpc | sentAll hpc | reports hpc | closes hpc =>
      rw [hpc] at h
      simp [ProducerPc.specs] at h

theorem issued_producer (heffect : ProducerEffect cfg s s') (hspec : spec ∈ s'.issued) :
    spec ∈ s.issued ∨ s'.Covered spec := by
  cases heffect with
  | filters hpc hfilter =>
    rcases mem_append.1 hspec with hold | hnew
    · exact .inl hold
    · rcases filterBuildJobs_covers hfilter hnew with hsettled | hpending
      · exact .inr (.skipped (mem_append_right _ hsettled))
      · exact .inr (.live (.producer hpending))
  | _ => exact .inl hspec

structure MainFrame (s s' : State) : Prop where
  producer : s'.producer = s.producer
  issued : s'.issued = s.issued
  skipped : s'.skipped = s.skipped
  upserts : s'.upserts = s.upserts
  retryCap : s'.retryCap = s.retryCap
  failed : s.failed = true → s'.failed = true
  workers : ∀ w ∈ s.workers, w ∈ s'.workers

theorem MainEffect.frame (heffect : MainEffect cfg s choice s') : MainFrame s s' := by
  cases heffect with
  | spawns hmain hroom => exact ⟨rfl, rfl, rfl, rfl, rfl, id, fun w hw => mem_append_left _ hw⟩
  | prepareFailed hmain => exact ⟨rfl, rfl, rfl, rfl, rfl, fun _ => rfl, fun _ h => h⟩
  | _ => exact ⟨rfl, rfl, rfl, rfl, rfl, id, fun _ h => h⟩

theorem aborted_main (hphases : Phases s) (heffect : MainEffect cfg s choice s') (haborted : s.Aborted) :
    s'.Doomed := by
  -- Only the points of the error itself read or drop it.
  have hstays : s'.prepareErr = s.prepareErr → (∀ err, s.main ≠ .prepareFatal err) →
      s.main ≠ .prepareFailed → s'.Doomed := by
    intro herr hfatal hfailed
    refine .inr (.inr ?_)
    rcases haborted with hproducer | hprepare | ⟨err, hmain⟩ | hmain
    · exact .inl (by rw [heffect.frame.producer]; exact hproducer)
    · exact .inr (.inl (by rw [herr]; exact hprepare))
    · exact absurd hmain (hfatal err)
    · exact absurd hmain hfailed
  cases heffect with
  | prepareOk hmain herr =>
    have hexited := (hphases.past (by rw [hmain]; rfl)).2
    simp [State.Aborted, hexited, herr, hmain] at haborted
  | @prepareErr err hmain herr => exact .inr (.inr (.inr (.inr (.inl ⟨err, rfl⟩))))
  | prepareFatal hmain => exact .inr (.inr (.inr (.inr (.inr rfl))))
  | prepareFailed hmain => exact .inl rfl
  | firstDone hmain | firstNext hmain | received hmain | discarded hmain | streamDone hmain
  | prepareCancel hmain | waited hmain | selected hmain | selectedNone hmain | drained hmain
  | drainedAll hmain | retryDone hmain | retryNext hmain | returns hmain | moves hmain | acquires hmain
  | spawns hmain | refused hmain | givesUp hmain | releasesWorker hmain =>
    exact hstays rfl (by simp [hmain]) (by simp [hmain])

theorem doomed_main (hphases : Phases s) (heffect : MainEffect cfg s choice s') (hdoomed : s.Doomed) :
    s'.Doomed := by
  rcases hdoomed with hfailed | ⟨w, hw, hdoom⟩ | haborted
  · exact .inl (heffect.frame.failed hfailed)
  · exact .inr (.inl ⟨w, heffect.frame.workers w hw, hdoom⟩)
  · exact aborted_main hphases heffect haborted

theorem scheduled_specs (site : Site) : site.scheduled.specs = site.specs := by
  cases site <;> rfl

theorem covered_main (hphases : Phases s) (hok : s.refuses choice = true → s.failed = true)
    (heffect : MainEffect cfg s choice s') (hcovered : s.Covered spec) : s'.Covered spec := by
  have hframe := heffect.frame
  refine Covered.step (by rw [hframe.skipped]; exact fun _ h => h) (by rw [hframe.upserts]; exact fun _ h => h)
    (doomed_main hphases heffect) ?_ hcovered
  have hplaces : (spec ∈ s.main.specs → s'.Covered spec) →
      (spec ∈ s.jobCh.flatMap BuildJob.specs → s'.Covered spec) →
      ((spec ∈ s.retryQueue.flatMap fun task => task.job.specs) → s'.Covered spec) →
      s.Live spec → s'.Covered spec := by
    intro hmain hjobs hqueue hlive
    cases hlive with
    | main h => exact hmain h
    | producer h => exact .live (.producer (by rw [hframe.producer]; exact h))
    | channel h => exact hjobs h
    | queue h => exact hqueue h
    | worker hw h => exact .live (.worker (hframe.workers _ hw) h)
  -- A step within the function leaves the channels alone and keeps what the function holds.
  have hholds : (spec ∈ s.main.specs → spec ∈ s'.main.specs) → s'.jobCh = s.jobCh →
      s'.retryQueue = s.retryQueue → s.Live spec → s'.Covered spec := by
    intro hmain hjobs hqueue
    exact hplaces (fun h => .live (.main (hmain h))) (fun h => .live (.channel (by rw [hjobs]; exact h)))
      (fun h => .live (.queue (by rw [hqueue]; exact h)))
  have hfails : s'.failed = true → s.Live spec → s'.Covered spec := fun hfailed _ => .doomed (.inl hfailed)
  cases heffect with
  | firstDone hmain | firstNext hmain | streamDone hmain | prepareOk hmain | prepareErr hmain
  | prepareFatal hmain | prepareCancel hmain | waited hmain | selectedNone hmain | drainedAll hmain
  | retryDone hmain | retryNext hmain | returns hmain | moves hmain | acquires hmain | givesUp hmain =>
    exact hholds (by rw [hmain]; exact id) rfl rfl
  | prepareFailed hmain => exact hfails rfl
  | @received job jobs hmain hjobs =>
    refine hplaces (by simp [hmain, MainPc.specs]) ?_ fun h => .live (.queue h)
    intro h
    rw [hjobs, flatMap_cons, mem_append] at h
    rcases h with hjob | hrest
    · exact .live (.main (mem_append_left _ hjob))
    · exact .live (.channel hrest)
  | discarded hmain | releasesWorker hmain => exact hfails (hphases.drops (by rw [hmain]; rfl))
  | @selected task queue hmain hqueue =>
    refine hplaces (by simp [hmain, MainPc.specs]) (fun h => .live (.channel h)) ?_
    intro h
    rw [hqueue, flatMap_cons, mem_append] at h
    rcases h with htask | hrest
    · exact .live (.main (by simpa [MainPc.specs] using htask))
    · exact .live (.queue hrest)
  | @drained task queue tasks hmain hqueue =>
    refine hplaces ?_ (fun h => .live (.channel h)) ?_
    · intro h
      rw [hmain] at h
      refine .live (.main ?_)
      simp only [MainPc.specs, flatMap_append, mem_append]
      exact .inl h
    · intro h
      rw [hqueue, flatMap_cons, mem_append] at h
      rcases h with htask | hrest
      · refine .live (.main ?_)
        simp only [MainPc.specs, flatMap_append, mem_append]
        exact .inr (by simpa using htask)
      · exact .live (.queue hrest)
  | @spawns task site slot hmain hroom =>
    refine hplaces ?_ (fun h => .live (.channel h)) fun h => .live (.queue h)
    intro h
    rw [hmain, MainPc.specs, mem_append] at h
    rcases h with htask | hsite
    · exact .live (.worker (w := ⟨task, slot, .next task.job.specs⟩) (by simp) htask)
    · exact .live (.main (by rw [scheduled_specs]; exact hsite))
  | refused hmain hpc hwhy => exact hfails (hwhy.elim id hok)

theorem State.Covered.outside (hcovered : s.Covered spec) (hmain : s'.main = s.main)
    (hproducer : s'.producer = s.producer) (hworkers : s'.workers = s.workers) (hjobs : s'.jobCh = s.jobCh)
    (hqueue : s'.retryQueue = s.retryQueue) (hfailed : s'.failed = s.failed)
    (herr : s'.prepareErr = s.prepareErr) (hupserts : s'.upserts = s.upserts)
    (hskipped : s'.skipped = s.skipped) : s'.Covered spec := by
  cases hcovered with
  | skipped h => exact .skipped (by rw [hskipped]; exact h)
  | built h => exact .built (by rw [hupserts]; exact h)
  | doomed h =>
    rw [State.Doomed, State.Aborted, ← hmain, ← hproducer, ← hworkers, ← hfailed, ← herr] at h
    exact .doomed h
  | live h =>
    cases h with
    | main h => exact .live (.main (by rw [hmain]; exact h))
    | producer h => exact .live (.producer (by rw [hproducer]; exact h))
    | channel h => exact .live (.channel (by rw [hjobs]; exact h))
    | queue h => exact .live (.queue (by rw [hqueue]; exact h))
    | worker hw h => exact .live (.worker (by rw [hworkers]; exact hw) h)

def ProducerPc.rest : ProducerPc → List ImageDir
  | .entries rest | .sending _ rest => rest
  | .preparing entry rest => entry :: rest
  | .report _ | .close | .exited => []

inductive State.Promised (cfg : Config) (s : State) (spec : BuildSpec) : Prop
  | issued (h : spec ∈ s.issued)
  | comes {entry : ImageDir} (hentry : entry ∈ s.producer.rest) (h : spec ∈ cfg.specs entry)
  | doomed (h : s.Doomed)

theorem State.Promised.same (hpromised : s.Promised cfg spec) (hissued : s'.issued = s.issued)
    (hproducer : s'.producer = s.producer) (hdoomed : s.Doomed → s'.Doomed) : s'.Promised cfg spec := by
  cases hpromised with
  | issued h => exact .issued (by rw [hissued]; exact h)
  | comes hentry h => exact .comes (by rw [hproducer]; exact hentry) h
  | doomed h => exact .doomed (hdoomed h)

theorem promised_producer (hphases : Phases s) (heffect : ProducerEffect cfg s s')
    (hpromised : s.Promised cfg spec) : s'.Promised cfg spec := by
  have hissued : ∀ other ∈ s.issued, other ∈ s'.issued := by
    cases heffect with
    | filters hpc hfilter => exact fun other hother => mem_append_left _ hother
    | _ => exact fun _ h => h
  cases hpromised with
  | issued h => exact .issued (hissued spec h)
  | doomed h => exact .doomed (doomed_producer hphases heffect h)
  | comes hentry h =>
    cases heffect with
    | @fails err hpc => exact .doomed (.inr (.inr (.inl ⟨err, rfl⟩)))
    | takes hpc | sentAll hpc | sends hpc => exact .comes (by rw [hpc] at hentry; exact hentry) h
    | skips hpc hspecs =>
      rw [hpc, ProducerPc.rest, mem_cons] at hentry
      rcases hentry with rfl | hentry
      · rw [hspecs] at h
        cases h
      · exact .comes hentry h
    | filters hpc hfilter =>
      rw [hpc, ProducerPc.rest, mem_cons] at hentry
      rcases hentry with rfl | hentry
      · exact .issued (mem_append_right _ (mem_flatMap.2 (mem_groupBuildSpecs h)))
      · exact .comes hentry h
    | allDone hpc | reports hpc | closes hpc =>
      rw [hpc] at hentry
      cases hentry

structure Complete (cfg : Config) (specs : List BuildSpec) (s : State) : Prop where
  phases : Phases s
  promised : ∀ spec ∈ specs, s.Promised cfg spec
  covered : ∀ spec ∈ s.issued, s.Covered spec

variable {specs : List BuildSpec}

theorem complete_step {a : Action} (hcomplete : Complete cfg specs s) (hok : Undisturbed s a)
    (heffect : Effect cfg s a s') : Complete cfg specs s' := by
  obtain ⟨hphases, hpromised, hcovered⟩ := hcomplete
  refine ⟨phases_step hphases hok heffect, ?_, ?_⟩
  · intro spec hspec
    cases heffect with
    | main heffect =>
      exact (hpromised spec hspec).same heffect.frame.issued heffect.frame.producer (doomed_main hphases heffect)
    | worker hworker heffect =>
      exact (hpromised spec hspec).same heffect.frame.issued heffect.frame.producer
        (doomed_worker hworker heffect)
    | producer heffect => exact promised_producer hphases heffect (hpromised spec hspec)
    | cancel | refreshPool | tick => exact (hpromised spec hspec).same rfl rfl id
  · intro spec hspec
    cases heffect with
    | main heffect =>
      rw [heffect.frame.issued] at hspec
      exact covered_main hphases hok heffect (hcovered spec hspec)
    | worker hworker heffect =>
      rw [heffect.frame.issued] at hspec
      exact covered_worker hworker heffect (hcovered spec hspec)
    | producer heffect =>
      rcases issued_producer heffect hspec with hold | hnew
      · exact covered_producer hphases heffect (hcovered spec hold)
      · exact hnew
    | cancel | refreshPool | tick => exact (hcovered spec hspec).outside rfl rfl rfl rfl rfl rfl rfl rfl rfl

inductive Starts (cfg : Config) : List BuildSpec → State → Prop
  | batch {addrs : List Pool.BuildkitAddr} {results : ResultReader} {jobs : List BuildJob} {s : State}
      (h : startBatch cfg addrs results jobs = .ok s) : Starts cfg (jobs.flatMap BuildJob.specs) s
  | streaming {addrs : List Pool.BuildkitAddr} {s : State} (h : startStreaming cfg addrs = .ok s) :
      Starts cfg (cfg.entries.flatMap cfg.specs) s

theorem complete_start (hstart : Starts cfg specs s) : Complete cfg specs s := by
  cases hstart with
  | @batch addrs results jobs s h =>
    unfold startBatch at h
    split at h
    · cases h
    · rename_i filtered hfilter
      cases h
      refine ⟨⟨nofun, fun _ => ⟨rfl, rfl⟩, fun _ => rfl, nofun, fun _ => rfl, ?_, fun _ => rfl, .inl rfl⟩,
        fun spec hspec => .issued hspec, ?_⟩
      · dsimp only [initial]
        split <;> exact nofun
      · intro spec hspec
        rcases filterBuildJobs_covers hfilter hspec with hsettled | hpending
        · exact .skipped hsettled
        · refine .live (.main ?_)
          -- A spec is pending, so the filter left a job.
          have hjobs : filtered.jobs.isEmpty = false := by
            cases hjobs : filtered.jobs with
            | nil => rw [hjobs] at hpending; cases hpending
            | cons job jobs => rfl
          simpa [hjobs, initial, MainPc.specs] using hpending
  | @streaming addrs s h =>
    unfold startStreaming at h
    split_ifs at h
    cases h
    refine ⟨⟨nofun, nofun, nofun, nofun, nofun, nofun, nofun, .inl rfl⟩, ?_, nofun⟩
    intro spec hspec
    obtain ⟨entry, hentry, hmem⟩ := mem_flatMap.1 hspec
    exact .comes hentry hmem

theorem complete_run {start t : State} {acts : List Action} (hstart : Starts cfg specs start)
    (hok : Runs.Along (step cfg) Undisturbed start acts) (hexec : Runs.exec (step cfg) start acts = some t) :
    Complete cfg specs t :=
  Runs.exec_invariant_along (step cfg)
    (fun _ _ _ hcomplete hok hstep => complete_step hcomplete hok (step_effect hstep)) (complete_start hstart)
    hok hexec

theorem Phases.not_doomed (hphases : Phases s) (hreturned : s.main = .returned none) : ¬ s.Doomed := by
  rintro (hfailed | ⟨w, hw, hdooms⟩ | hproducer | herr | ⟨err, hmain⟩ | hmain)
  · rw [hphases.verdict hreturned] at hfailed
    cases hfailed
  · rw [hphases.quiet (by rw [hreturned]; rfl) w hw] at hdooms
    cases hdooms
  · obtain ⟨err, hproducer⟩ := hproducer
    rw [(hphases.past (by rw [hreturned]; rfl)).2] at hproducer
    cases hproducer
  · obtain ⟨err, herr⟩ := herr
    rw [hphases.late (by rw [hreturned]; rfl)] at herr
    cases herr
  · rw [hreturned] at hmain
    cases hmain
  · rw [hreturned] at hmain
    cases hmain

theorem Phases.not_live (hphases : Phases s) (hreturned : s.main = .returned none) : ¬ s.Live spec := by
  have hpast := hphases.past (by rw [hreturned]; rfl)
  intro hlive
  cases hlive with
  | main h =>
    rw [hreturned] at h
    cases h
  | producer h =>
    rw [hpast.2] at h
    cases h
  | channel h =>
    rw [hpast.1] at h
    cases h
  | queue h =>
    rw [hphases.ended (by rw [hreturned]; rfl)] at h
    cases h
  | worker hw h =>
    rw [hphases.quiet (by rw [hreturned]; rfl) _ hw] at h
    cases h

/-- If no scheduling call gives up early, a run that returns nil has built what it had to. -/
theorem nil_run_is_complete {start t : State} {acts : List Action} (hstart : Starts cfg specs start)
    (hok : Runs.Along (step cfg) Undisturbed start acts) (hexec : Runs.exec (step cfg) start acts = some t)
    (hreturned : t.main = .returned none) :
    ∀ spec ∈ specs, spec ∈ t.skipped ∨ (spec, true) ∈ t.upserts := by
  obtain ⟨hphases, hpromised, hcovered⟩ := complete_run hstart hok hexec
  have hdoomed := hphases.not_doomed hreturned
  intro spec hspec
  have hissued : spec ∈ t.issued := by
    cases hpromised spec hspec with
    | issued h => exact h
    | comes hentry h =>
      rw [(hphases.past (by rw [hreturned]; rfl)).2] at hentry
      cases hentry
    | doomed h => exact absurd h hdoomed
  cases hcovered spec hissued with
  | skipped h => exact Or.inl h
  | built h => exact Or.inr h
  | live h => exact absurd h (hphases.not_live hreturned)
  | doomed h => exact absurd h hdoomed

def sampleSpec : BuildSpec := ⟨[], ascii "app:1_nydus_v3", ascii "app:1", false⟩

def sampleJob : BuildJob := ⟨ascii "app:1", ascii "app:1", [sampleSpec]⟩

def sampleBatch : State :=
  { initial (sampleConfig [false] []) [sampleAddr] (.first [sampleJob]) .exited 1 with issued := [sampleSpec] }

def sampleRetried : List Action :=
  sampleSchedule ++ sampleQueued 0 ++ List.replicate 4 (.main .go) ++ sampleSchedule ++ sampleBuilt 1 ++
    List.replicate 4 (.main .go)

theorem nil_run_is_complete_retried :
    ∃ start t, startBatch (sampleConfig [false] []) [sampleAddr] noResults [sampleJob] = .ok start ∧
      Runs.exec (step (sampleConfig [false] [])) start sampleRetried = some t ∧ t.main = .returned none ∧
      t.skipped = [] ∧ (sampleSpec ∈ t.skipped ∨ (sampleSpec, true) ∈ t.upserts) := by
  have hstart : startBatch (sampleConfig [false] []) [sampleAddr] noResults [sampleJob] = .ok sampleBatch := rfl
  have hok : Runs.Along (step (sampleConfig [false] [])) Undisturbed sampleBatch sampleRetried := by
    decide +kernel
  have hends : (Runs.exec (step (sampleConfig [false] [])) sampleBatch sampleRetried).map
      (fun t => (t.main, t.skipped)) = some (.returned none, []) := by decide +kernel
  obtain ⟨t, hexec, hend⟩ := Option.map_eq_some_iff.1 hends
  obtain ⟨hmain, hskipped⟩ := Prod.mk.inj hend
  exact ⟨sampleBatch, t, hstart, hexec, hmain, hskipped,
    nil_run_is_complete (.batch hstart) hok hexec hmain sampleSpec (List.mem_singleton.2 rfl)⟩

def sampleCanceledRetry : List Action :=
  sampleSchedule ++ sampleQueued 0 ++ [.cancel (ascii "context canceled")] ++ List.replicate 10 (.main .go)

def sampleCanceledStream : List Action :=
  [.producer .go, .producer (.prepared noResults)] ++ List.replicate 5 (.producer .go) ++
    [.cancel (ascii "context canceled")] ++ List.replicate 8 (.main .go)

def sampleEntry : ImageDir := ⟨ascii "app", true, ascii "key", ascii "app:1"⟩

theorem canceled_run_returns_nil :
    (∃ start t, startBatch (sampleConfig [false] []) [sampleAddr] noResults [sampleJob] = .ok start ∧
      Runs.exec (step (sampleConfig [false] [])) start sampleCanceledRetry = some t ∧
      t.main = .returned none ∧ t.skipped = [] ∧ t.upserts = []) ∧
    (sampleConfig [false] [sampleEntry]).specs sampleEntry ≠ [] ∧
    ∃ start t, startStreaming (sampleConfig [false] [sampleEntry]) [sampleAddr] = .ok start ∧
      Runs.exec (step (sampleConfig [false] [sampleEntry])) start sampleCanceledStream = some t ∧
      t.main = .returned none ∧ t.skipped = [] ∧ t.upserts = [] := by
  have hbatch : (Runs.exec (step (sampleConfig [false] [])) sampleBatch sampleCanceledRetry).map
      (fun t => (t.main, t.skipped, t.upserts)) = some (.returned none, [], []) := by decide +kernel
  have hstream : (Runs.exec (step (sampleConfig [false] [sampleEntry]))
      (sampleStreaming (sampleConfig [false] [sampleEntry])) sampleCanceledStream).map
      (fun t => (t.main, t.skipped, t.upserts)) = some (.returned none, [], []) := by decide +kernel
  obtain ⟨t, hexec, hend⟩ := Option.map_eq_some_iff.1 hbatch
  obtain ⟨t', hexec', hend'⟩ := Option.map_eq_some_iff.1 hstream
  simp only [Prod.mk.injEq] at hend hend'
  exact ⟨⟨sampleBatch, t, rfl, hexec, hend⟩, by decide +kernel, _, t', rfl, hexec', hend'⟩

end BuildkitService.Batch
