import BuildkitService.Lib.Ledger
import BuildkitService.Lib.Runs
import BuildkitService.Lib.Strings
import BuildkitService.Lib.Threads

/-!
# Mode queues

`buildModeScheduler` and `buildTaskQueue` of `internal/builddaemon/mode_scheduler.go`, with the
workers of all modes.
-/

namespace BuildkitService.Daemon

open Strings List Ledger Option

/-! ### One queue -/

inductive ModeWorker where
  | ready
  | parked
  | woken
  | popped (id : Bytes)
  | running (id : Bytes)
  | returned
  deriving DecidableEq, Repr

structure BuildTaskQueue where
  mode : Bytes
  ids : List Bytes
  closed : Bool
  workers : List ModeWorker
  pushed : List Bytes
  handed : List Bytes
  finished : List Bytes
  deriving DecidableEq, Repr

def newBuildTaskQueue (mode : Bytes) (concurrency : Nat) : BuildTaskQueue :=
  ⟨mode, [], false, List.replicate concurrency .ready, [], [], []⟩

def errModeSchedulerClosed : Bytes := ascii "build mode scheduler is closed"

def signalWaiter (workers : List ModeWorker) (waiter : Nat) : Option (List ModeWorker) :=
  if .parked ∈ workers then
    if workers[waiter]? = some .parked then some (workers.set waiter .woken) else none
  else some workers

def ModeWorker.wake : ModeWorker → ModeWorker
  | .parked => .woken
  | w => w

def BuildTaskQueue.push (q : BuildTaskQueue) (id : Bytes) (waiter : Nat) :
    Option (BuildTaskQueue × Except Bytes Unit) :=
  if q.closed then some (q, .error errModeSchedulerClosed)
  else (signalWaiter q.workers waiter).map fun workers =>
    ({ q with ids := q.ids ++ [id], workers := workers, pushed := q.pushed ++ [id] }, .ok ())

def BuildTaskQueue.setWorker (q : BuildTaskQueue) (k : Nat) (w : ModeWorker) : BuildTaskQueue :=
  { q with workers := q.workers.set k w }

def BuildTaskQueue.pop (q : BuildTaskQueue) (k : Nat) : BuildTaskQueue :=
  if q.closed then q.setWorker k .returned
  else
    match q.ids with
    | [] => q.setWorker k .parked
    | id :: ids => { q with ids := ids, handed := q.handed ++ [id] }.setWorker k (.popped id)

def BuildTaskQueue.close (q : BuildTaskQueue) : BuildTaskQueue := { q with closed := true, ids := [] }

def BuildTaskQueue.broadcast (q : BuildTaskQueue) : BuildTaskQueue :=
  { q with workers := q.workers.map ModeWorker.wake }

inductive QueueAction where
  | push (id : Bytes) (waiter : Nat)
  | worker (k : Nat)
  | close
  | broadcast
  deriving DecidableEq, Repr

def BuildTaskQueue.runWorker (q : BuildTaskQueue) (k : Nat) : ModeWorker → Option BuildTaskQueue
  | .ready | .woken => some (q.pop k)
  | .popped id => some (q.setWorker k (.running id))
  | .running id => some ({ q with finished := q.finished ++ [id] }.setWorker k .ready)
  | .parked | .returned => none

def BuildTaskQueue.step (q : BuildTaskQueue) : QueueAction → Option BuildTaskQueue
  | .push id waiter => (q.push id waiter).map Prod.fst
  | .worker k => (q.workers[k]?).bind (q.runWorker k)
  | .close => some q.close
  | .broadcast => some q.broadcast

/-! ### The scheduler -/

inductive ClosePc where
  | idle
  | loop (left : List Nat)
  | broadcast (m : Nat) (left : List Nat)
  | returned
  deriving DecidableEq, Repr

structure BuildModeScheduler where
  queues : List BuildTaskQueue
  closing : ClosePc
  deriving DecidableEq, Repr

def newBuildModeScheduler (modes : Option (List (Bytes × Nat))) : Option BuildModeScheduler :=
  modes.map fun configs => ⟨configs.map fun c => newBuildTaskQueue c.1 c.2, .idle⟩

inductive SchedulerAction where
  | enqueue (mode id : Bytes) (waiter : Nat)
  | worker (m k : Nat)
  | close
  | closeQueue (m : Nat)
  | broadcast
  | closed
  deriving DecidableEq, Repr

def BuildModeScheduler.onQueue (s : BuildModeScheduler) (m : Nat) (a : QueueAction) :
    Option BuildModeScheduler :=
  (s.queues[m]?).bind fun q => (q.step a).map fun q' => { s with queues := s.queues.set m q' }

def BuildModeScheduler.queueOf (s : BuildModeScheduler) (mode : Bytes) : Option Nat :=
  s.queues.findIdx? fun q => q.mode == mode

def enqueueError (s : Option BuildModeScheduler) (mode : Bytes) : Option Bytes :=
  match s with
  | none => some (ascii "build mode scheduler is not configured")
  | some s =>
      match s.queues.find? fun q => q.mode == mode with
      | none => some (ascii "unknown build mode " ++ quote mode)
      | some q => if q.closed then some errModeSchedulerClosed else none

def BuildModeScheduler.step (s : BuildModeScheduler) : SchedulerAction → Option BuildModeScheduler
  | .enqueue mode id waiter =>
      match s.queueOf mode with
      | none => some s
      | some m => s.onQueue m (.push id waiter)
  | .worker m k => s.onQueue m (.worker k)
  | .close => some { s with closing := if s.closing = .idle then .loop (List.range s.queues.length) else s.closing }
  | .closeQueue m =>
      match s.closing with
      | .loop left =>
          if m ∈ left then { s with closing := .broadcast m (left.erase m) }.onQueue m .close else none
      | _ => none
  | .broadcast =>
      match s.closing with
      | .broadcast m left => { s with closing := .loop left }.onQueue m .broadcast
      | _ => none
  | .closed => if s.closing = .loop [] then some { s with closing := .returned } else none

/-! ### What a queue does -/

variable {q q' : BuildTaskQueue}

inductive QueueEffect (q : BuildTaskQueue) : BuildTaskQueue → Prop where
  | refused (hclosed : q.closed = true) : QueueEffect q q
  | pushed (id : Bytes) (hopen : q.closed = false) (hnone : .parked ∉ q.workers) :
      QueueEffect q { q with ids := q.ids ++ [id], pushed := q.pushed ++ [id] }
  | signals (id : Bytes) {k : Nat} (hopen : q.closed = false) (hworker : q.workers[k]? = some .parked) :
      QueueEffect q { q with
        ids := q.ids ++ [id], pushed := q.pushed ++ [id], workers := q.workers.set k .woken }
  | leaves {k : Nat} {w : ModeWorker} (hclosed : q.closed = true) (hworker : q.workers[k]? = some w)
      (hpops : w = .ready ∨ w = .woken) : QueueEffect q (q.setWorker k .returned)
  | parks {k : Nat} {w : ModeWorker} (hopen : q.closed = false) (hempty : q.ids = [])
      (hworker : q.workers[k]? = some w) (hpops : w = .ready ∨ w = .woken) :
      QueueEffect q (q.setWorker k .parked)
  | takes {k : Nat} {w : ModeWorker} {id : Bytes} {ids : List Bytes} (hopen : q.closed = false)
      (hids : q.ids = id :: ids) (hworker : q.workers[k]? = some w) (hpops : w = .ready ∨ w = .woken) :
      QueueEffect q { q with
        ids := ids, handed := q.handed ++ [id], workers := q.workers.set k (.popped id) }
  | starts {k : Nat} {id : Bytes} (hworker : q.workers[k]? = some (.popped id)) :
      QueueEffect q (q.setWorker k (.running id))
  | finishes {k : Nat} {id : Bytes} (hworker : q.workers[k]? = some (.running id)) :
      QueueEffect q { q with finished := q.finished ++ [id], workers := q.workers.set k .ready }
  | closes : QueueEffect q q.close
  | broadcasts : QueueEffect q q.broadcast

theorem push_effect {id : Bytes} {waiter : Nat} {result : Except Bytes Unit}
    (hpush : q.push id waiter = some (q', result)) : QueueEffect q q' := by
  unfold BuildTaskQueue.push at hpush
  cases hclosed : q.closed with
  | true =>
    rw [if_pos hclosed, Option.some.injEq, Prod.mk.injEq] at hpush
    rw [← hpush.1]
    exact .refused hclosed
  | false =>
    rw [if_neg (by simp [hclosed]), map_eq_some_iff] at hpush
    obtain ⟨workers, hsignal, heq⟩ := hpush
    obtain ⟨rfl, _⟩ := Prod.mk.inj heq
    unfold signalWaiter at hsignal
    split_ifs at hsignal with hany hwaiter
    · rw [← Option.some.inj hsignal]
      exact .signals id hclosed hwaiter
    · rw [← Option.some.inj hsignal]
      exact .pushed id hclosed hany

theorem pop_effect {k : Nat} {w : ModeWorker} (hworker : q.workers[k]? = some w)
    (hpops : w = .ready ∨ w = .woken) : QueueEffect q (q.pop k) := by
  unfold BuildTaskQueue.pop
  split_ifs with hclosed
  · exact .leaves hclosed hworker hpops
  · rw [Bool.not_eq_true] at hclosed
    split
    · rename_i hids
      exact .parks hclosed hids hworker hpops
    · rename_i id ids hids
      exact .takes hclosed hids hworker hpops

theorem queue_effect {a : QueueAction} (hstep : q.step a = some q') : QueueEffect q q' := by
  cases a with
  | push id waiter =>
    obtain ⟨⟨r, result⟩, hpush, rfl⟩ := map_eq_some_iff.1 hstep
    exact push_effect hpush
  | worker k =>
    obtain ⟨w, hworker, hrun⟩ := bind_eq_some_iff.1 hstep
    cases w with
    | ready =>
      rw [← Option.some.inj hrun]
      exact pop_effect hworker (.inl rfl)
    | woken =>
      rw [← Option.some.inj hrun]
      exact pop_effect hworker (.inr rfl)
    | popped id =>
      rw [← Option.some.inj hrun]
      exact .starts hworker
    | running id =>
      rw [← Option.some.inj hrun]
      exact .finishes hworker
    | parked | returned => cases hrun
  | close =>
    rw [← Option.some.inj hstep]
    exact .closes
  | broadcast =>
    rw [← Option.some.inj hstep]
    exact .broadcasts

/-! ### Order -/

structure BuildTaskQueue.Ordered (q : BuildTaskQueue) : Prop where
  split : q.closed = false → q.pushed = q.handed ++ q.ids
  handed : q.handed <+: q.pushed

theorem ordered_step (hordered : q.Ordered) (heffect : QueueEffect q q') : q'.Ordered := by
  cases heffect with
  | pushed id hopen | signals id hopen =>
    have hsplit := hordered.split hopen
    refine ⟨?_, ?_⟩
    · intro _
      dsimp only
      rw [hsplit, append_assoc]
    · exact hordered.handed.trans (prefix_append _ _)
  | @takes k w id ids hopen hids hworker hpops =>
    have hsplit := hordered.split hopen
    rw [hids, ← singleton_append, ← append_assoc] at hsplit
    exact ⟨fun _ => hsplit, ⟨ids, hsplit.symm⟩⟩
  | closes => exact ⟨nofun, hordered.handed⟩
  | refused | leaves | parks | starts | finishes | broadcasts =>
    exact ⟨hordered.split, hordered.handed⟩

theorem closed_step (heffect : QueueEffect q q') (hclosed : q.closed = true) :
    q'.closed = true ∧ q'.handed = q.handed ∧ q'.pushed = q.pushed := by
  cases heffect with
  | pushed _ hopen | signals _ hopen | parks hopen | takes hopen =>
    rw [hopen] at hclosed
    cases hclosed
  | closes => exact ⟨rfl, rfl, rfl⟩
  | refused | leaves | starts | finishes | broadcasts => exact ⟨hclosed, rfl, rfl⟩

/-! ### Workers -/

def ModeWorker.holds (id : Bytes) : ModeWorker → Nat
  | .popped id' | .running id' => if id' = id then 1 else 0
  | _ => 0

def ModeWorker.runs : ModeWorker → Nat
  | .running _ => 1
  | _ => 0

def ModeWorker.wakes : ModeWorker → Nat
  | .woken => 1
  | _ => 0

def BuildTaskQueue.Held (q : BuildTaskQueue) : Prop :=
  ∀ id, q.handed.count id = q.finished.count id + Ledger.total (ModeWorker.holds id) q.workers

theorem wake_holds (id : Bytes) (w : ModeWorker) : w.wake.holds id = w.holds id := by
  cases w <;> rfl

theorem holds_of_pops {w : ModeWorker} (hpops : w = .ready ∨ w = .woken) (id : Bytes) : w.holds id = 0 := by
  rcases hpops with rfl | rfl <;> rfl

theorem count_snoc (ids : List Bytes) (new id : Bytes) :
    (ids ++ [new]).count id = ids.count id + if new = id then 1 else 0 := by
  rw [count_append, count_singleton]
  simp only [beq_iff_eq]

theorem held_step (hheld : q.Held) (heffect : QueueEffect q q') : q'.Held := by
  intro id
  have hbefore := hheld id
  -- One worker moves to another point.
  have hmoves : ∀ {k : Nat} {w : ModeWorker} (w' : ModeWorker), q.workers[k]? = some w →
      total (ModeWorker.holds id) (q.workers.set k w') + w.holds id =
        total (ModeWorker.holds id) q.workers + w'.holds id :=
    fun w' hworker => total_set _ hworker
  cases heffect with
  | refused | pushed | closes => exact hbefore
  | signals _ _ hworker =>
    have hset := hmoves .woken hworker
    simp only [ModeWorker.holds] at hset
    dsimp only
    omega
  | leaves _ hworker hpops =>
    have hset := hmoves .returned hworker
    rw [holds_of_pops hpops] at hset
    simp only [ModeWorker.holds] at hset
    dsimp only [BuildTaskQueue.setWorker]
    omega
  | parks _ _ hworker hpops =>
    have hset := hmoves .parked hworker
    rw [holds_of_pops hpops] at hset
    simp only [ModeWorker.holds] at hset
    dsimp only [BuildTaskQueue.setWorker]
    omega
  | @takes k w new ids _ _ hworker hpops =>
    have hset := hmoves (.popped new) hworker
    rw [holds_of_pops hpops] at hset
    simp only [ModeWorker.holds] at hset
    dsimp only
    rw [count_snoc]
    omega
  | @starts k new hworker =>
    have hset := hmoves (.running new) hworker
    simp only [ModeWorker.holds] at hset
    dsimp only [BuildTaskQueue.setWorker]
    omega
  | @finishes k new hworker =>
    have hset := hmoves .ready hworker
    simp only [ModeWorker.holds] at hset
    dsimp only
    rw [count_snoc]
    omega
  | broadcasts =>
    dsimp only [BuildTaskQueue.broadcast]
    rw [total_map]
    simp only [wake_holds]
    exact hbefore

/-! ### Wake-ups -/

def BuildTaskQueue.woken (q : BuildTaskQueue) : Nat := Ledger.total ModeWorker.wakes q.workers

def BuildTaskQueue.Awake (q : BuildTaskQueue) : Prop :=
  q.closed = false → .parked ∈ q.workers → q.ids.length ≤ q.woken

theorem awake_step (hawake : q.Awake) (heffect : QueueEffect q q') : q'.Awake := by
  intro hopen' hparked
  have hmoves : ∀ {k : Nat} {w : ModeWorker} (w' : ModeWorker), q.workers[k]? = some w →
      total ModeWorker.wakes (q.workers.set k w') + w.wakes = q.woken + w'.wakes :=
    fun w' hworker => total_set _ hworker
  -- A worker that is parked after another one moved was parked before.
  have hstays : ∀ {k : Nat} (w' : ModeWorker), w' ≠ .parked → .parked ∈ q.workers.set k w' →
      .parked ∈ q.workers := by
    intro k w' hne hmem
    rcases mem_or_eq_of_mem_set hmem with hold | heq
    · exact hold
    · exact absurd heq.symm hne
  cases heffect with
  | refused => exact hawake hopen' hparked
  | pushed id hopen hnone => exact absurd hparked hnone
  | signals id hopen hworker =>
    have hset := hmoves .woken hworker
    have hle := hawake hopen (mem_of_getElem? hworker)
    simp only [ModeWorker.wakes] at hset
    dsimp only [BuildTaskQueue.woken]
    rw [length_append, length_singleton]
    omega
  | leaves hclosed => exact absurd hopen' (by simp [BuildTaskQueue.setWorker, hclosed])
  | parks hopen hempty hworker hpops =>
    dsimp only [BuildTaskQueue.setWorker]
    rw [hempty]
    exact Nat.zero_le _
  | @takes k w id ids hopen hids hworker hpops =>
    -- The worker may be one of those that were woken, but it also takes an id.
    have hset := hmoves (.popped id) hworker
    have hle := hawake hopen (hstays (.popped id) nofun hparked)
    have hone : w.wakes ≤ 1 := by cases w <;> simp [ModeWorker.wakes]
    have hnone : (ModeWorker.popped id).wakes = 0 := rfl
    rw [hids, length_cons] at hle
    rw [hnone] at hset
    dsimp only [BuildTaskQueue.woken]
    omega
  | @starts k id hworker =>
    have hset := hmoves (.running id) hworker
    have hle := hawake hopen' (hstays (.running id) nofun hparked)
    simp only [ModeWorker.wakes] at hset
    dsimp only [BuildTaskQueue.woken, BuildTaskQueue.setWorker]
    omega
  | finishes hworker =>
    have hset := hmoves .ready hworker
    have hle := hawake hopen' (hstays .ready nofun hparked)
    simp only [ModeWorker.wakes] at hset
    dsimp only [BuildTaskQueue.woken]
    omega
  | closes => cases hopen'
  | broadcasts =>
    -- Nobody is parked any more.
    obtain ⟨w, _, hwake⟩ := List.mem_map.1 hparked
    cases w <;> cases hwake

/-! ### Runs of the scheduler -/

structure BuildTaskQueue.Sound (mode : Bytes) (concurrency : Nat) (q : BuildTaskQueue) : Prop where
  name : q.mode = mode
  workers : q.workers.length = concurrency
  ordered : q.Ordered
  held : q.Held
  awake : q.Awake

theorem sound_new (mode : Bytes) (concurrency : Nat) :
    (newBuildTaskQueue mode concurrency).Sound mode concurrency where
  name := rfl
  workers := length_replicate
  ordered := ⟨fun _ => rfl, prefix_refl _⟩
  held := by
    intro id
    have hnone : ∀ w ∈ replicate concurrency ModeWorker.ready, w.holds id = 0 := by
      intro w hw
      rw [eq_of_mem_replicate hw]
      rfl
    dsimp only [newBuildTaskQueue]
    rw [total_eq_zero _ hnone]
    rfl
  awake := by
    intro _ hparked
    cases eq_of_mem_replicate hparked

theorem sound_step {mode : Bytes} {concurrency : Nat} (hsound : q.Sound mode concurrency)
    (heffect : QueueEffect q q') : q'.Sound mode concurrency where
  name := by
    rw [← hsound.name]
    cases heffect <;> rfl
  workers := by
    rw [← hsound.workers]
    cases heffect <;>
      simp [BuildTaskQueue.setWorker, BuildTaskQueue.close, BuildTaskQueue.broadcast]
  ordered := ordered_step hsound.ordered heffect
  held := held_step hsound.held heffect
  awake := awake_step hsound.awake heffect

inductive QueuesEffect (queues : List BuildTaskQueue) : List BuildTaskQueue → Prop where
  | same : QueuesEffect queues queues
  | one {m : Nat} {q q' : BuildTaskQueue} (hq : queues[m]? = some q) (heffect : QueueEffect q q') :
      QueuesEffect queues (queues.set m q')

variable {s s' : BuildModeScheduler}

theorem onQueue_effect {m : Nat} {a : QueueAction} (hstep : s.onQueue m a = some s') :
    QueuesEffect s.queues s'.queues := by
  obtain ⟨q, hq, hmap⟩ := bind_eq_some_iff.1 hstep
  obtain ⟨q', hstep', rfl⟩ := map_eq_some_iff.1 hmap
  exact .one hq (queue_effect hstep')

theorem scheduler_effect {a : SchedulerAction} (hstep : s.step a = some s') :
    QueuesEffect s.queues s'.queues := by
  cases a with
  | enqueue mode id waiter =>
    unfold BuildModeScheduler.step at hstep
    dsimp only at hstep
    split at hstep
    · rw [← Option.some.inj hstep]
      exact .same
    · exact onQueue_effect hstep
  | worker m k => exact onQueue_effect hstep
  | close =>
    rw [← Option.some.inj hstep]
    exact .same
  | closeQueue m =>
    unfold BuildModeScheduler.step at hstep
    dsimp only at hstep
    split at hstep
    · split_ifs at hstep
      have heffect := onQueue_effect hstep
      exact heffect
    · cases hstep
  | broadcast =>
    unfold BuildModeScheduler.step at hstep
    dsimp only at hstep
    split at hstep
    · have heffect := onQueue_effect hstep
      exact heffect
    · cases hstep
  | closed =>
    unfold BuildModeScheduler.step at hstep
    dsimp only at hstep
    split_ifs at hstep
    rw [← Option.some.inj hstep]
    exact .same

def SoundQueues (configs : List (Bytes × Nat)) (queues : List BuildTaskQueue) : Prop :=
  ∀ (m : Nat) (q : BuildTaskQueue), queues[m]? = some q → ∃ c, configs[m]? = some c ∧ q.Sound c.1 c.2

theorem soundQueues_step {configs : List (Bytes × Nat)} {queues queues' : List BuildTaskQueue}
    (hsound : SoundQueues configs queues) (heffect : QueuesEffect queues queues') :
    SoundQueues configs queues' := by
  cases heffect with
  | same => exact hsound
  | @one m q q' hq heffect =>
    intro j r hr
    rcases Threads.getElem?_set_cases hr with ⟨rfl, rfl⟩ | ⟨_, hold⟩
    · obtain ⟨c, hc, hqueue⟩ := hsound j q hq
      exact ⟨c, hc, sound_step hqueue heffect⟩
    · exact hsound j r hold

theorem soundQueues_run {configs : List (Bytes × Nat)} {start : BuildModeScheduler}
    {acts : List SchedulerAction} (hstart : newBuildModeScheduler (some configs) = some start)
    (hexec : Runs.exec BuildModeScheduler.step start acts = some s) : SoundQueues configs s.queues := by
  have hinit : SoundQueues configs start.queues := by
    rw [← Option.some.inj hstart]
    intro m q hq
    rw [getElem?_map, map_eq_some_iff] at hq
    obtain ⟨c, hc, rfl⟩ := hq
    exact ⟨c, hc, sound_new c.1 c.2⟩
  have hkeep : ∀ s a s', SoundQueues configs s.queues → BuildModeScheduler.step s a = some s' →
      SoundQueues configs s'.queues :=
    fun s a s' hsound hstep => soundQueues_step hsound (scheduler_effect hstep)
  exact Runs.exec_invariant BuildModeScheduler.step hkeep hinit hexec

def StaysClosed (queues queues' : List BuildTaskQueue) : Prop :=
  ∀ (m : Nat) (q : BuildTaskQueue), queues[m]? = some q → q.closed = true →
    ∃ r, queues'[m]? = some r ∧ r.closed = true ∧ r.handed = q.handed

theorem staysClosed_step {queues queues' : List BuildTaskQueue} (heffect : QueuesEffect queues queues') :
    StaysClosed queues queues' := by
  intro j r hr hclosed
  cases heffect with
  | same => exact ⟨r, hr, hclosed, rfl⟩
  | @one m q q' hq heffect =>
    by_cases hm : m = j
    · subst hm
      rw [hq, Option.some.injEq] at hr
      subst hr
      obtain ⟨hclosed', hhanded, _⟩ := closed_step heffect hclosed
      refine ⟨q', ?_, hclosed', hhanded⟩
      rw [getElem?_set_self (List.getElem?_eq_some_iff.1 hq).1]
    · refine ⟨r, ?_, hclosed, rfl⟩
      rw [getElem?_set_ne hm]
      exact hr

theorem staysClosed_run {t : BuildModeScheduler} {acts : List SchedulerAction}
    (hexec : Runs.exec BuildModeScheduler.step s acts = some t) : StaysClosed s.queues t.queues := by
  have htrans : ∀ {s t u : BuildModeScheduler}, StaysClosed s.queues t.queues → StaysClosed t.queues u.queues →
      StaysClosed s.queues u.queues := by
    intro s t u hst htu m q hq hclosed
    obtain ⟨r, hr, hrclosed, hrhanded⟩ := hst m q hq hclosed
    obtain ⟨p, hp, hpclosed, hphanded⟩ := htu m r hr hrclosed
    exact ⟨p, hp, hpclosed, hphanded.trans hrhanded⟩
  exact Runs.exec_relates BuildModeScheduler.step (R := fun s t => StaysClosed s.queues t.queues)
    (fun s m q hq hclosed => ⟨q, hq, hclosed, rfl⟩) htrans (fun _ _ _ _ _ => trivial)
    (fun s a s' _ hstep => staysClosed_step (scheduler_effect hstep)) trivial hexec

theorem runs_le_workers (workers : List ModeWorker) : total ModeWorker.runs workers ≤ workers.length := by
  have hone : total ModeWorker.runs workers ≤ total (fun _ => 1) workers := by
    refine total_le_total _ ?_
    intro w _
    cases w <;> simp [ModeWorker.runs]
  rwa [total_one] at hone

/-- Each queue hands out its ids once, in order, to its own workers. -/
theorem mode_queues_safe {configs : List (Bytes × Nat)} {start : BuildModeScheduler}
    {acts : List SchedulerAction} (hstart : newBuildModeScheduler (some configs) = some start)
    (hexec : Runs.exec BuildModeScheduler.step start acts = some s) (m : Nat) (q : BuildTaskQueue)
    (hq : s.queues[m]? = some q) :
    ∃ concurrency, configs[m]? = some (q.mode, concurrency) ∧
      q.handed <+: q.pushed ∧ (q.pushed.Nodup → q.handed.Nodup) ∧
      (∀ id, q.handed.count id = q.finished.count id + Ledger.total (ModeWorker.holds id) q.workers) ∧
      Ledger.total ModeWorker.runs q.workers ≤ concurrency ∧
      (q.closed = true → ∀ more t, Runs.exec BuildModeScheduler.step s more = some t →
        ∃ r, t.queues[m]? = some r ∧ r.handed = q.handed) ∧
      (q.closed = false → .parked ∈ q.workers → q.ids.length ≤ q.woken) := by
  obtain ⟨c, hc, hsound⟩ := soundQueues_run hstart hexec m q hq
  refine ⟨c.2, ?_, hsound.ordered.handed, ?_, hsound.held, ?_, ?_, hsound.awake⟩
  · rw [hc, hsound.name]
  · intro hnodup
    exact hsound.ordered.handed.sublist.nodup hnodup
  · rw [← hsound.workers]
    exact runs_le_workers q.workers
  · intro hclosed more t hmore
    obtain ⟨r, hr, _, hhanded⟩ := staysClosed_run hmore m q hq hclosed
    exact ⟨r, hr, hhanded⟩

def sampleStolen : List SchedulerAction :=
  [.worker 0 0, .worker 0 1, .enqueue (ascii "slow") (ascii "a") 0, .worker 0 2, .enqueue (ascii "slow") (ascii "b") 1,
    .worker 0 0, .worker 0 0, .worker 0 2]

theorem mode_queues_safe_stolen :
    ∃ start s q, newBuildModeScheduler (some [(ascii "slow", 3)]) = some start ∧
      Runs.exec BuildModeScheduler.step start sampleStolen = some s ∧ s.queues[0]? = some q ∧
      q.pushed = [ascii "a", ascii "b"] ∧ q.woken = 1 ∧ q.handed <+: q.pushed ∧
      Ledger.total ModeWorker.runs q.workers ≤ 3 := by
  have hstart : newBuildModeScheduler (some [(ascii "slow", 3)]) =
      some ⟨[newBuildTaskQueue (ascii "slow") 3], .idle⟩ := rfl
  have hends : (Runs.exec BuildModeScheduler.step
      ⟨[newBuildTaskQueue (ascii "slow") 3], .idle⟩ sampleStolen).bind (fun s => (s.queues[0]?).map fun q =>
        (q.pushed, q.woken)) = some ([ascii "a", ascii "b"], 1) := by decide +kernel
  obtain ⟨s, hexec, hqueue⟩ := Option.bind_eq_some_iff.1 hends
  obtain ⟨q, hq, hend⟩ := Option.map_eq_some_iff.1 hqueue
  obtain ⟨hpushed, hwoken⟩ := Prod.mk.inj hend
  obtain ⟨concurrency, hconfig, hhanded, _, _, hruns, _, _⟩ := mode_queues_safe hstart hexec 0 q hq
  have hthree : concurrency = 3 := by
    simp only [List.getElem?_cons_zero, Option.some.injEq, Prod.mk.injEq] at hconfig
    exact hconfig.2.symm
  rw [hthree] at hruns
  exact ⟨_, s, q, hstart, hexec, hq, hpushed, hwoken, hhanded, hruns⟩

end BuildkitService.Daemon
