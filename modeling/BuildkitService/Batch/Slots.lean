import BuildkitService.Lib.Ledger
import BuildkitService.Pool.Holders
import BuildkitService.Batch.Complete

/-!
# Slots of a batch run

A task holds a slot of its worker from the moment the scheduling call has taken it until the
deferred release of its goroutine, and a slot of the global semaphore for as long as the goroutine
has not released it.
-/

namespace BuildkitService.Batch

open Pool Ledger List Runs

variable {cfg : Config} {s s' : State} {p : AddrPool} {slot : Nat}

/-! ### Tokens of a slot -/

def slotTokens (p : AddrPool) (slot : Nat) : Nat := ((p.objects[slot]?).map AddrSlot.sem).getD 0

theorem tokens_of_object {o : AddrSlot} (ho : p.objects[slot]? = some o) : slotTokens p slot = o.sem := by
  simp [slotTokens, ho]

theorem tokens_set {o : AddrSlot} (ho : p.objects[slot]? = some o) (sem other : Nat) :
    slotTokens { p with objects := p.objects.set slot { o with sem := sem } } other =
      if slot = other then sem else slotTokens p other := by
  have hlt : slot < p.objects.length := (List.getElem?_eq_some_iff.1 ho).1
  rw [slotTokens, getElem?_set]
  split_ifs
  · rfl
  · rfl

theorem tokens_acquire {p' : AddrPool} (hpool : p.tryAcquireAddrSlot slot = some p') (other : Nat) :
    slotTokens p' other = slotTokens p other + if slot = other then 1 else 0 := by
  obtain ⟨o, ho, _, rfl⟩ := tryAcquireAddrSlot_eq_some hpool
  rw [tokens_set ho]
  split_ifs with hother
  · rw [← hother, tokens_of_object ho]
  · rfl

theorem tokens_release {p' : AddrPool} (hpool : p.releaseAddrSlot slot = some p') (other : Nat) :
    slotTokens p' other + (if slot = other then 1 else 0) = slotTokens p other := by
  obtain ⟨o, ho, htoken, rfl⟩ := releaseAddrSlot_eq_some hpool
  rw [tokens_set ho]
  split_ifs with hother
  · rw [← hother, tokens_of_object ho]
    omega
  · rfl

theorem tokens_replace (p : AddrPool) (addrs : List BuildkitAddr) (slot : Nat) :
    slotTokens (p.replace addrs) slot = slotTokens p slot := by
  rw [slotTokens, AddrPool.replace_objects]
  by_cases hlt : slot < p.objects.length
  · rw [getElem?_append_left hlt]
    rfl
  · have hnone : p.objects[slot]? = none := getElem?_eq_none (by omega)
    rw [getElem?_append_right (by omega), getElem?_map, Option.map_map, slotTokens, hnone]
    cases (p.fresh addrs)[slot - p.objects.length]? <;> rfl

/-! ### Holders -/

def WorkerPc.holdsSlot : WorkerPc → Nat
  | .releaseGlobal | .done | .exited => 0
  | _ => 1

def WorkerPc.holdsGlobal : WorkerPc → Nat
  | .done | .exited => 0
  | _ => 1

def WorkerPc.executes : WorkerPc → Nat
  | .building .. => 1
  | _ => 0

def Worker.holds (slot : Nat) (w : Worker) : Nat := if w.slot = slot then w.pc.holdsSlot else 0

def MainPc.holds (slot : Nat) : MainPc → Nat
  | .schedule pc _ _ => if pc.slot = some slot then 1 else 0
  | _ => 0

def State.holders (s : State) (slot : Nat) : Nat := Ledger.total (Worker.holds slot) s.workers

def State.globalHolders (s : State) : Nat := Ledger.total (fun w : Worker => w.pc.holdsGlobal) s.workers

def State.executions (s : State) : Nat := Ledger.total (fun w : Worker => w.pc.executes) s.workers

structure Conserved (cfg : Config) (s : State) : Prop where
  slots : ∀ slot, slotTokens s.pool slot = s.holders slot + s.main.holds slot
  global : s.globalSem = s.globalHolders
  room : s.globalSem ≤ cfg.concurrency

theorem Conserved.same (hconserved : Conserved cfg s) (hpool : s'.pool = s.pool) (hglobal : s'.globalSem = s.globalSem)
    (hworkers : s'.workers = s.workers) (hmain : ∀ slot, s'.main.holds slot = s.main.holds slot) :
    Conserved cfg s' := by
  refine ⟨?_, ?_, ?_⟩
  · intro slot
    rw [hpool, State.holders, hworkers, hmain]
    exact hconserved.slots slot
  · rw [hglobal, State.globalHolders, hworkers]
    exact hconserved.global
  · rw [hglobal]
    exact hconserved.room

theorem scheduled_holds (site : Site) (slot : Nat) : site.scheduled.holds slot = 0 := by
  cases site <;> rfl

theorem refused_holds (site : Site) (slot : Nat) : site.refused.holds slot = 0 := by
  cases site <;> rfl

theorem schedule_holds {pc : SchedPc} (hpc : pc.slot = none) (task : BuildTask) (site : Site) (slot : Nat) :
    (MainPc.schedule pc task site).holds slot = 0 := by
  simp [MainPc.holds, hpc]

theorem global_holds (held : Nat) (task : BuildTask) (site : Site) (slot : Nat) :
    (MainPc.schedule (.global held) task site).holds slot = if held = slot then 1 else 0 := by
  simp [MainPc.holds, SchedPc.slot]

theorem releaseWorker_holds (held : Nat) (task : BuildTask) (site : Site) (slot : Nat) :
    (MainPc.schedule (.releaseWorker held) task site).holds slot = if held = slot then 1 else 0 := by
  simp [MainPc.holds, SchedPc.slot]

section

variable (hconserved : Conserved cfg s)

include hconserved

theorem conserved_main {choice : Choice} (heffect : MainEffect cfg s choice s') : Conserved cfg s' := by
  cases heffect with
  | firstDone hmain | firstNext hmain | received hmain | discarded hmain | streamDone hmain | prepareOk hmain
  | prepareErr hmain | prepareFatal hmain | prepareFailed hmain | prepareCancel hmain | waited hmain
  | selected hmain | selectedNone hmain | drained hmain | drainedAll hmain | retryDone hmain | retryNext hmain
  | returns hmain =>
    exact hconserved.same rfl rfl rfl (fun slot => (congrArg (MainPc.holds slot) hmain).symm)
  | @moves _ pc pc' task site hmain hpc hpc' =>
    exact hconserved.same rfl rfl rfl (fun slot => by rw [hmain, schedule_holds hpc, schedule_holds hpc'])
  | @acquires pc task site held pool hmain hpc hpool =>
    refine ⟨?_, hconserved.global, hconserved.room⟩
    intro slot
    have hbefore := hconserved.slots slot
    rw [hmain, schedule_holds hpc] at hbefore
    rw [tokens_acquire hpool, global_holds, hbefore]
    rfl
  | @spawns task site held hmain hroom =>
    -- The goroutine starts with the slot the call held, and with the global slot it has just taken.
    have hspawned : ∀ slot, total (Worker.holds slot) [⟨task, held, .next task.job.specs⟩] =
        if held = slot then 1 else 0 := fun slot => rfl
    refine ⟨?_, ?_, hroom⟩
    · intro slot
      have hbefore := hconserved.slots slot
      rw [hmain, global_holds] at hbefore
      rw [State.holders, total_append, hspawned, scheduled_holds, hbefore]
      rfl
    · rw [State.globalHolders, total_append, hconserved.global]
      rfl
  | refused hmain hpc hwhy =>
    exact hconserved.same rfl rfl rfl (fun slot => by rw [hmain, schedule_holds hpc, refused_holds])
  | givesUp hmain hwhy =>
    exact hconserved.same rfl rfl rfl (fun slot => by rw [hmain, global_holds, releaseWorker_holds])
  | @releasesWorker task site held pool hmain hpool =>
    refine ⟨?_, hconserved.global, hconserved.room⟩
    intro slot
    have hbefore := hconserved.slots slot
    have htokens := tokens_release hpool slot
    rw [hmain, releaseWorker_holds] at hbefore
    show slotTokens pool slot = s.holders slot + site.refused.holds slot
    rw [refused_holds]
    omega

theorem Conserved.moves {k : Nat} {w : Worker} {pc : WorkerPc}
    (hworker : s.workers[k]? = some w) (hworkers : s'.workers = s.workers.set k { w with pc := pc })
    (hmain : s'.main = s.main)
    (hslots : ∀ slot, slotTokens s'.pool slot + w.holds slot =
      slotTokens s.pool slot + Worker.holds slot { w with pc := pc })
    (hglobal : s'.globalSem + w.pc.holdsGlobal = s.globalSem + pc.holdsGlobal)
    (hroom : s'.globalSem ≤ s.globalSem) : Conserved cfg s' := by
  refine ⟨?_, ?_, hroom.trans hconserved.room⟩
  · intro slot
    have htotal : total (Worker.holds slot) (s.workers.set k { w with pc := pc }) + w.holds slot =
        total (Worker.holds slot) s.workers + Worker.holds slot { w with pc := pc } :=
      total_set _ hworker
    have hbefore := hconserved.slots slot
    have hmoves := hslots slot
    rw [State.holders] at hbefore ⊢
    rw [hworkers, hmain]
    omega
  · rw [State.globalHolders, hworkers]
    exact balance_set _ hworker hconserved.global hglobal

theorem conserved_worker {k : Nat} {w : Worker} (hworker : s.workers[k]? = some w)
    (heffect : WorkerEffect cfg s k w s') : Conserved cfg s' := by
  -- Until its releases a goroutine holds both slots.
  have hkeeps : ∀ {pc : WorkerPc} {s' : State}, s'.workers = s.workers.set k { w with pc := pc } →
      s'.main = s.main → s'.pool = s.pool → s'.globalSem = s.globalSem → pc.holdsSlot = w.pc.holdsSlot →
      pc.holdsGlobal = w.pc.holdsGlobal → Conserved cfg s' := by
    intro pc s' hworkers hmain hpool hglobal hslot hheld
    refine hconserved.moves hworker hworkers hmain ?_ (by rw [hglobal, hheld]) (le_of_eq hglobal)
    intro slot
    rw [hpool, Worker.holds, Worker.holds, hslot]
  cases heffect with
  | @stored spec rest success hpc | @finished success hpc =>
    exact hkeeps rfl rfl rfl rfl (by rw [hpc]; cases success <;> rfl) (by rw [hpc]; cases success <;> rfl)
  | setsFailed hpc => exact hkeeps rfl rfl rfl rfl (by rw [hpc]; split <;> rfl) (by rw [hpc]; split <;> rfl)
  | specsDone hpc | starts hpc | retries hpc | built hpc | queued hpc | storeFailed _ hpc | persistFatal hpc
  | persistFailed hpc | cancels hpc | exits hpc =>
    exact hkeeps rfl rfl rfl rfl (by rw [hpc]; rfl) (by rw [hpc]; rfl)
  | slotReleased hpc hpool =>
    refine hconserved.moves hworker rfl rfl ?_ (by rw [hpc]; rfl) le_rfl
    intro slot
    have htokens := tokens_release hpool slot
    simp only [Worker.holds, hpc, WorkerPc.holdsSlot, setWorker, ite_self]
    omega
  | globalReleased hpc htoken =>
    refine hconserved.moves hworker rfl rfl ?_ ?_ (Nat.sub_le _ _)
    · intro slot
      simp only [Worker.holds, hpc, WorkerPc.holdsSlot, setWorker]
    · rw [hpc]
      show s.globalSem - 1 + 1 = s.globalSem
      omega

theorem conserved_step {a : Action} (heffect : Effect cfg s a s') : Conserved cfg s' := by
  cases heffect with
  | main heffect => exact conserved_main hconserved heffect
  | worker hworker heffect => exact conserved_worker hconserved hworker heffect
  | producer heffect =>
    have hframe : s'.pool = s.pool ∧ s'.globalSem = s.globalSem := by cases heffect <;> exact ⟨rfl, rfl⟩
    refine hconserved.same hframe.1 hframe.2 heffect.frame.workers ?_
    intro slot
    rw [heffect.frame.main]
  | cancel | tick => exact hconserved.same rfl rfl rfl (fun _ => rfl)
  | refreshPool addrs =>
    refine ⟨?_, hconserved.global, hconserved.room⟩
    intro slot
    rw [tokens_replace]
    exact hconserved.slots slot

end

/-! ### Runs -/

variable {specs : List BuildSpec} {start t u : State} {acts : List Action}

theorem slotTokens_newAddrPool (addrs : List BuildkitAddr) (concurrency slot : Nat) :
    slotTokens (newAddrPool addrs concurrency) slot = 0 := by
  rw [newAddrPool, tokens_replace]
  rfl

theorem conserved_start (hstart : Starts cfg specs start) : Conserved cfg start := by
  cases hstart with
  | batch h =>
    unfold startBatch at h
    split at h
    · cases h
    · cases h
      refine ⟨?_, rfl, Nat.zero_le _⟩
      intro slot
      simp only [initial, slotTokens_newAddrPool, State.holders, total_nil]
      split_ifs <;> rfl
  | streaming h =>
    unfold startStreaming at h
    split_ifs at h
    cases h
    refine ⟨?_, rfl, Nat.zero_le _⟩
    intro slot
    simp only [initial, slotTokens_newAddrPool, State.holders, total_nil]
    rfl

theorem conserved_run (hstart : Starts cfg specs start) (hexec : exec (step cfg) start acts = some t) :
    Conserved cfg t :=
  exec_invariant (step cfg) (fun _ _ _ hconserved hstep => conserved_step hconserved (step_effect hstep))
    (conserved_start hstart) hexec

theorem executes_le_holdsGlobal (pc : WorkerPc) : pc.executes ≤ pc.holdsGlobal := by
  cases pc <;> simp [WorkerPc.executes, WorkerPc.holdsGlobal]

theorem Conserved.executions_le (hconserved : Conserved cfg s) : s.executions ≤ cfg.concurrency := by
  calc s.executions
      ≤ s.globalHolders := total_le_total _ fun w _ => executes_le_holdsGlobal w.pc
    _ = s.globalSem := hconserved.global.symm
    _ ≤ cfg.concurrency := hconserved.room

/-! ### A call that is refused -/

variable {task : BuildTask} {site : Site}

def InCall (task : BuildTask) (site : Site) (s : State) : Prop := ∃ pc, s.main = .schedule pc task site

instance (task : BuildTask) (site : Site) (s : State) : Decidable (InCall task site s) :=
  match hmain : s.main with
  | .schedule pc task' site' => decidable_of_iff (task' = task ∧ site' = site) (by simp [InCall, hmain])
  | .first _ | .receive _ | .prepareErr | .prepareFatal _ | .prepareFailed | .prepareCancel | .wait | .select
  | .drain _ | .retry _ | .done | .returned _ => isFalse (by simp [InCall, hmain])

theorem scheduled_ne_refused (site : Site) : site.scheduled ≠ site.refused := by
  cases site <;> simp [Site.scheduled, Site.refused]

theorem MainEffect.workers {choice : Choice} (heffect : MainEffect cfg s choice s') (hcall : InCall task site s) :
    s'.main = site.scheduled ∨ s'.workers = s.workers := by
  cases heffect with
  | spawns hmain hroom =>
    obtain ⟨pc, hpc⟩ := hcall
    rw [hmain, MainPc.schedule.injEq] at hpc
    exact .inl (by rw [hpc.2.2])
  | _ => exact .inr rfl

theorem call_step {a : Action} (hcall : InCall task site s) (heffect : Effect cfg s a s') :
    s'.main = site.scheduled ∨ (s'.workers.length = s.workers.length ∧
      ((∀ k choice, a ≠ .worker k choice) → s'.workers = s.workers)) := by
  cases heffect with
  | main heffect =>
    rcases heffect.workers hcall with hscheduled | hworkers
    · exact .inl hscheduled
    · exact .inr ⟨by rw [hworkers], fun _ => hworkers⟩
  | @worker k choice w _ hworker heffect =>
    obtain ⟨pc, hworkers⟩ := heffect.frame.workers
    exact .inr ⟨by rw [hworkers, length_set], fun hquiet => absurd rfl (hquiet k choice)⟩
  | producer heffect => exact .inr ⟨by rw [heffect.frame.workers], fun _ => heffect.frame.workers⟩
  | cancel | refreshPool | tick => exact .inr ⟨rfl, fun _ => rfl⟩

theorem call_run {ok : State → Action → Prop} {R : List Worker → Prop}
    (hok : ∀ s a, ok s a → InCall task site s)
    (hkeep : ∀ s a s', R s.workers → ok s a → Effect cfg s a s' → s'.main = site.scheduled ∨ R s'.workers)
    (hstart : R t.workers) (hcall : Along (step cfg) ok t acts)
    (hexec : exec (step cfg) t acts = some u) (hrefused : u.main = site.refused) : R u.workers := by
  have hstays : ∀ s a s', s.main = site.scheduled ∨ R s.workers → ok s a → step cfg s a = some s' →
      s'.main = site.scheduled ∨ R s'.workers := by
    rintro s a s' (hscheduled | hr) hs hstep
    · -- A call that has returned is no longer a call.
      obtain ⟨pc, hpc⟩ := hok s a hs
      rw [hscheduled] at hpc
      cases site <;> cases hpc
    · exact hkeep s a s' hr hs (step_effect hstep)
  have hend := exec_invariant_along (step cfg) hstays (.inr hstart) hcall hexec
  refine hend.resolve_left fun hscheduled => ?_
  exact scheduled_ne_refused site (hscheduled.symm.trans hrefused)

section

variable (hcall : Along (step cfg) (fun s _ => InCall task site s) t acts)

include hcall

theorem refused_call_length (hexec : exec (step cfg) t acts = some u) (hrefused : u.main = site.refused) :
    u.workers.length = t.workers.length := by
  refine call_run (R := fun workers => workers.length = t.workers.length) (fun _ _ h => h) ?_ rfl hcall hexec
    hrefused
  intro s a s' hlength hin heffect
  exact (call_step hin heffect).imp_right fun h => h.1.trans hlength

theorem refused_call_workers
    (hquiet : ∀ k choice, .worker k choice ∉ acts) (hexec : exec (step cfg) t acts = some u)
    (hrefused : u.main = site.refused) : u.workers = t.workers := by
  have hboth : Along (step cfg) (fun s a => InCall task site s ∧ ∀ k choice, a ≠ .worker k choice) t acts := by
    refine along_and (step cfg) hcall (along_of_forall (step cfg) ?_ t)
    rintro a ha _ k choice rfl
    exact hquiet k choice ha
  refine call_run (R := fun workers => workers = t.workers) (fun _ _ h => h.1) ?_ rfl hboth hexec hrefused
  intro s a s' hsame hin heffect
  exact (call_step hin.1 heffect).imp_right fun h => (h.2 hin.2).trans hsame

end

/-- The tokens of every semaphore are its holders. -/
theorem batch_slots_conserved (hstart : Starts cfg specs start)
    (hexec : Runs.exec (step cfg) start acts = some t) :
    (∀ slot o, t.pool.objects[slot]? = some o → o.sem = t.holders slot + t.main.holds slot) ∧
    t.globalSem = t.globalHolders ∧ t.executions ≤ cfg.concurrency ∧
    ∀ (task : BuildTask) (site : Site) (rest : List Action) (u : State),
      t.main = .schedule .failfast task site →
      Runs.Along (step cfg) (fun s _ => InCall task site s) t rest → Runs.exec (step cfg) t rest = some u →
      u.main = site.refused →
      u.workers.length = t.workers.length ∧
      u.globalSem + t.globalHolders = t.globalSem + u.globalHolders ∧
      (∀ slot o o', t.pool.objects[slot]? = some o → u.pool.objects[slot]? = some o' →
        o'.sem + t.holders slot = o.sem + u.holders slot) ∧
      ((∀ k choice, .worker k choice ∉ rest) → u.globalSem = t.globalSem ∧
        ∀ (slot : Nat) (o o' : AddrSlot), t.pool.objects[slot]? = some o → u.pool.objects[slot]? = some o' → o'.sem = o.sem) := by
  have hconserved := conserved_run hstart hexec
  refine ⟨?_, hconserved.global, hconserved.executions_le, ?_⟩
  · intro slot o ho
    rw [← tokens_of_object ho]
    exact hconserved.slots slot
  · intro task site rest u hmain hcall hrest hrefused
    have hend : Conserved cfg u := conserved_run hstart (Runs.exec_append (step cfg) hexec hrest)
    have htokens : ∀ slot o, t.pool.objects[slot]? = some o → o.sem = t.holders slot := by
      intro slot o ho
      rw [← tokens_of_object ho, hconserved.slots slot, hmain, schedule_holds rfl]
      rfl
    have htokens' : ∀ slot o', u.pool.objects[slot]? = some o' → o'.sem = u.holders slot := by
      intro slot o' ho'
      rw [← tokens_of_object ho', hend.slots slot, hrefused, refused_holds]
      rfl
    refine ⟨refused_call_length hcall hrest hrefused, ?_, ?_, ?_⟩
    · rw [hconserved.global, hend.global]
      exact Nat.add_comm _ _
    · intro slot o o' ho ho'
      rw [htokens slot o ho, htokens' slot o' ho']
      exact Nat.add_comm _ _
    · intro hquiet
      have hworkers := refused_call_workers hcall hquiet hrest hrefused
      refine ⟨?_, ?_⟩
      · rw [hconserved.global, hend.global, State.globalHolders, hworkers]
        rfl
      · intro slot o o' ho ho'
        rw [htokens slot o ho, htokens' slot o' ho', State.holders, hworkers]
        rfl

def sampleTwoJobs : State :=
  { initial (sampleConfig [false] []) [sampleAddr] (.first [sampleJob, sampleJob]) .exited 2 with
    issued := [sampleSpec, sampleSpec] }

def sampleReplaced : List Action :=
  sampleSchedule ++ [.worker 0 .go,
    .refreshPool [⟨ascii "10.0.0.2:9094", ascii "tcp://10.0.0.2:9094", ascii "10.0.0.2"⟩], .main .go]

def sampleRefused : List Action :=
  List.replicate 5 (.main .go) ++ [.cancel (ascii "context canceled"), .main .canceled, .main .go]

theorem batch_slots_conserved_refused :
    ∃ start t u, startBatch (sampleConfig [false] []) [sampleAddr] noResults [sampleJob, sampleJob] = .ok start ∧
      Runs.exec (step (sampleConfig [false] [])) start sampleReplaced = some t ∧
      Runs.exec (step (sampleConfig [false] [])) t sampleRefused = some u ∧
      t.executions = 1 ∧ t.executions ≤ 1 ∧ u.main = .wait ∧ u.globalSem = t.globalSem := by
  have hstart : startBatch (sampleConfig [false] []) [sampleAddr] noResults [sampleJob, sampleJob] =
      .ok sampleTwoJobs := rfl
  have hends : (Runs.exec (step (sampleConfig [false] [])) sampleTwoJobs sampleReplaced).bind (fun t =>
      (Runs.exec (step (sampleConfig [false] [])) t sampleRefused).map fun u =>
        (t.executions, t.main, u.main,
          decide (Runs.Along (step (sampleConfig [false] [])) (fun s _ => InCall ⟨sampleJob, 0⟩ (.first []) s)
            t sampleRefused))) =
      some (1, .schedule .failfast ⟨sampleJob, 0⟩ (.first []), .wait, true) := by decide +kernel
  obtain ⟨t, hexec, hend⟩ := Option.bind_eq_some_iff.1 hends
  obtain ⟨u, hrest, hfacts⟩ := Option.map_eq_some_iff.1 hend
  simp only [Prod.mk.injEq, decide_eq_true_eq] at hfacts
  obtain ⟨hone, hmain, hwait, hcall⟩ := hfacts
  have hconserved := batch_slots_conserved (.batch hstart) hexec
  have hrefused := hconserved.2.2.2 ⟨sampleJob, 0⟩ (.first []) sampleRefused u hmain hcall hrest hwait
  have hquiet : ∀ k choice, Action.worker k choice ∉ sampleRefused := by
    intro k choice
    simp [sampleRefused]
  exact ⟨sampleTwoJobs, t, u, hstart, hexec, hrest, hone, hconserved.2.2.1, hwait, (hrefused.2.2.2 hquiet).1⟩

end BuildkitService.Batch
