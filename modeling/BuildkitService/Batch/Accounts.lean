import BuildkitService.Batch.Complete
import BuildkitService.Batch.History
import BuildkitService.Batch.Slots
import BuildkitService.Batch.Retries

/-!
# Accounts of the jobs

Along a run that is not disturbed every scheduled job is in exactly one place: with a goroutine, in
the retry queue, with the function that drains the queue, or in `results`.
-/

namespace BuildkitService.Batch

open Threads List Ledger Option Runs

variable {cfg : Config} {s s' : State} {h h' : History} {event : Event} {success : Bool} {task : BuildTask}
  {w w' : Worker} {k : Nat} {pc : WorkerPc} {choice : WorkerChoice} {rest : List BuildSpec} {spec : BuildSpec}
  {b : BuildJob} {post : Option Nat}

def WorkerPc.stage (len attempt : Nat) : WorkerPc → Option Stage
  | .next specs => some (.ready (len - specs.length) attempt)
  | .building _ rest => some (.ready (len - (rest.length + 1)) attempt)
  | .retrying specs => some (.ready (len - specs.length) (attempt + 1))
  | .storing _ rest success => some (.called (len - (rest.length + 1)) attempt success)
  | .finish success => some (.finished success)
  | _ => none

def WorkerPc.idle : WorkerPc → Bool
  | .setFailed | .cancel | .releaseSlot | .releaseGlobal | .done | .exited => true
  | _ => false

def MainPc.retries : MainPc → List BuildTask
  | .drain tasks | .retry tasks => tasks
  | .schedule _ task (.retry tasks) => task :: tasks
  | _ => []

def Waits (cfg : Config) (h : History) (job : Nat) (task : BuildTask) : Prop :=
  ∃ b, h.jobs[job]? = some b ∧ b.key = task.job.key ∧ task.job.specs <:+ b.specs ∧
    Stage.Holds cfg.retry b.specs.length (h.calls job) (h.stores job) (h.entries job)
      (.ready (b.specs.length - task.job.specs.length) task.attempt)

def Works (cfg : Config) (h : History) (job : Nat) (w : Worker) : Prop :=
  ∃ b stage, h.jobs[job]? = some b ∧ b.key = w.task.job.key ∧ w.pc.specs <:+ b.specs ∧
    w.pc.stage b.specs.length w.task.attempt = some stage ∧
    stage.Holds cfg.retry b.specs.length (h.calls job) (h.stores job) (h.entries job)

def worksFor (job : Nat) (post : Option Nat) : Nat := if post = some job then 1 else 0

def History.places (h : History) (job : Nat) : Nat :=
  Ledger.total (worksFor job) h.posts + h.queueIds.count job + h.retryIds.count job

def Event.job : Event → Nat
  | .called job _ _ | .stored job _ _ | .entered job _ => job

def History.result? (h : History) : Event → Option (Bytes × Bool)
  | .entered job success => (h.jobs[job]?).map fun b => (b.key, success)
  | _ => none

def History.upsert? (h : History) : Event → Option (BuildSpec × Bool)
  | .stored job spec success => (h.jobs[job]?).bind fun b => (b.specs[spec]?).map fun spec => (spec, success)
  | _ => none

structure Accounted (cfg : Config) (h : History) : Prop where
  length : h.posts.length = h.state.workers.length
  workers : ∀ (k : Nat) (w : Worker), h.state.workers[k]? = some w →
    (h.posts[k]? = some none ∧ w.pc.idle = true) ∨ ∃ job, h.posts[k]? = some (some job) ∧ Works cfg h job w
  queue : List.Forall₂ (Waits cfg h) h.queueIds h.state.retryQueue
  retries : List.Forall₂ (Waits cfg h) h.retryIds h.state.main.retries
  places : ∀ job, h.places job + (h.entries job).length = if job < h.jobs.length then 1 else 0
  ended : ∀ job b, h.jobs[job]? = some b → h.entries job ≠ [] → ∃ success, Stage.Holds cfg.retry
    b.specs.length (h.calls job) (h.stores job) (h.entries job) (.ended success)
  known : ∀ event ∈ h.log, event.job < h.jobs.length
  results : h.state.results = h.log.filterMap h.result?
  upserts : h.state.upserts = h.log.filterMap h.upsert?

structure SameJob (h h' : History) (job : Nat) : Prop where
  calls : h'.calls job = h.calls job
  stores : h'.stores job = h.stores job
  entries : h'.entries job = h.entries job

theorem filterMap_snoc {α β : Type} (f : α → Option β) (l : List α) (a : α) :
    (l ++ [a]).filterMap f = l.filterMap f ++ (f a).toList := by
  rw [filterMap_append, filterMap_cons, filterMap_nil]
  cases f a <;> rfl

theorem log_snoc (hlog : h'.log = h.log ++ [event]) (job : Nat) :
    h'.calls job = h.calls job ++ (event.call? job).toList ∧ h'.stores job = h.stores job ++ (event.store? job).toList ∧
      h'.entries job = h.entries job ++ (event.entry? job).toList := by
  rw [History.calls, History.stores, History.entries, hlog, filterMap_snoc, filterMap_snoc, filterMap_snoc]
  exact ⟨rfl, rfl, rfl⟩

theorem Event.of_other {job : Nat} (hother : event.job ≠ job) :
    event.call? job = none ∧ event.store? job = none ∧ event.entry? job = none := by
  cases event <;> simp_all [Event.call?, Event.store?, Event.entry?, Event.job]

theorem SameJob.of_other {job : Nat} (hlog : h'.log = h.log ++ [event]) (hother : event.job ≠ job) :
    SameJob h h' job := by
  have hlogs := log_snoc hlog job
  simp only [Event.of_other hother, toList_none, append_nil] at hlogs
  exact ⟨hlogs.1, hlogs.2.1, hlogs.2.2⟩

theorem Waits.same {job : Nat} (hwaits : Waits cfg h job task) (hsame : SameJob h h' job)
    (hjobs : ∀ b, h.jobs[job]? = some b → h'.jobs[job]? = some b) : Waits cfg h' job task := by
  obtain ⟨b, hb, hkey, hspecs, hstage⟩ := hwaits
  refine ⟨b, hjobs b hb, hkey, hspecs, ?_⟩
  rw [hsame.calls, hsame.stores, hsame.entries]
  exact hstage

theorem Works.same {job : Nat} (hworks : Works cfg h job w) (hsame : SameJob h h' job)
    (hjobs : ∀ b, h.jobs[job]? = some b → h'.jobs[job]? = some b) : Works cfg h' job w := by
  obtain ⟨b, stage, hb, hkey, hspecs, hpc, hstage⟩ := hworks
  refine ⟨b, stage, hjobs b hb, hkey, hspecs, hpc, ?_⟩
  rw [hsame.calls, hsame.stores, hsame.entries]
  exact hstage

theorem Accounted.only (haccounted : Accounted cfg h) {job : Nat} (hpost : h.posts[k]? = some (some job)) :
    (∀ j, j ≠ k → h.posts[j]? ≠ some (some job)) ∧ job ∉ h.queueIds ∧ job ∉ h.retryIds ∧ h.entries job = [] := by
  have hplaces := haccounted.places job
  have hset : total (worksFor job) (h.posts.set k none) + worksFor job (some job) =
      total (worksFor job) h.posts + worksFor job none := total_set _ hpost
  have hself : worksFor job (some job) = 1 := if_pos rfl
  have hnone : worksFor job none = 0 := rfl
  have hone : (if job < h.jobs.length then 1 else 0) ≤ 1 := by split_ifs <;> omega
  rw [History.places] at hplaces
  refine ⟨?_, ?_, ?_, ?_⟩
  · intro j hne hj
    -- The other goroutine is still there when the first one is taken away.
    have hmem : some job ∈ h.posts.set k none := by
      apply mem_of_getElem? (i := j)
      rw [getElem?_set_ne (Ne.symm hne), hj]
    have hle := Ledger.le_total (worksFor job) hmem
    omega
  · intro hmem
    have hcount := count_pos_iff.2 hmem
    omega
  · intro hmem
    have hcount := count_pos_iff.2 hmem
    omega
  · apply eq_nil_of_length_eq_zero
    omega

theorem forall₂_of_mem {α β : Type} {R S : α → β → Prop} {as : List α} {bs : List β}
    (hall : Forall₂ R as bs) (himp : ∀ a ∈ as, ∀ b, R a b → S a b) : Forall₂ S as bs := by
  induction hall with
  | nil => exact .nil
  | cons hab _ ih =>
    exact .cons (himp _ (by simp) _ hab) (ih fun a ha b hr => himp a (by simp [ha]) b hr)

theorem set_same {α : Type} {l : List α} {a : α} (hk : l[k]? = some a) : l.set k a = l := by
  obtain ⟨hlt, rfl⟩ := List.getElem?_eq_some_iff.1 hk
  exact set_getElem_self hlt

def AtPost (cfg : Config) (h : History) (post : Option (Option Nat)) (w : Worker) : Prop :=
  (post = some none ∧ w.pc.idle = true) ∨ ∃ job, post = some (some job) ∧ Works cfg h job w

theorem atPost_set {old : Option Nat} (hpost : h.posts[k]? = some old) (hself : AtPost cfg h' (some post) w')
    (hothers : ∀ (j : Nat) (v : Worker), j ≠ k → h.state.workers[j]? = some v → AtPost cfg h' h.posts[j]? v)
    (j : Nat) (v : Worker) (hv : (h.state.workers.set k w')[j]? = some v) :
    AtPost cfg h' (h.posts.set k post)[j]? v := by
  rcases getElem?_set_cases hv with ⟨rfl, rfl⟩ | ⟨hne, hold⟩
  · rw [getElem?_set_self (List.getElem?_eq_some_iff.1 hpost).1]
    exact hself
  · rw [getElem?_set_ne (Ne.symm hne)]
    exact hothers j v hne hold

theorem atPost_snoc (hlength : h.posts.length = h.state.workers.length) (hself : AtPost cfg h' (some post) w')
    (hothers : ∀ (j : Nat) (v : Worker), h.state.workers[j]? = some v → AtPost cfg h' h.posts[j]? v) (j : Nat)
    (v : Worker) (hv : (h.state.workers ++ [w'])[j]? = some v) : AtPost cfg h' (h.posts ++ [post])[j]? v := by
  rcases getElem?_snoc hv with hold | ⟨rfl, rfl⟩
  · rw [getElem?_append_left (hlength ▸ (List.getElem?_eq_some_iff.1 hold).1)]
    exact hothers j v hold
  · rw [← hlength, getElem?_concat_length]
    exact hself

theorem Accounted.at_post (haccounted : Accounted cfg h) (hmem : post ∈ h.posts) :
    ∃ w ∈ h.state.workers, AtPost cfg h (some post) w := by
  obtain ⟨k, hk⟩ := getElem?_of_mem hmem
  have hlt : k < h.state.workers.length := haccounted.length ▸ (List.getElem?_eq_some_iff.1 hk).1
  have hworker := haccounted.workers k _ (getElem?_eq_getElem hlt)
  rw [hk] at hworker
  exact ⟨_, getElem_mem hlt, hworker⟩

theorem Accounted.logs {job : Nat} {stage : Stage} (haccounted : Accounted cfg h) (event : Event)
    (hpost : h.posts[k]? = some (some job)) (hb : h.jobs[job]? = some b) (hevent : event.job = job)
    (hworkers : s'.workers = h.state.workers.set k w') (hqueue : s'.retryQueue = h.state.retryQueue)
    (hmain : s'.main = h.state.main) (hresults : s'.results = h.state.results ++ (h.result? event).toList)
    (hupserts : s'.upserts = h.state.upserts ++ (h.upsert? event).toList)
    (hstage : stage.Holds cfg.retry b.specs.length (h.calls job ++ (event.call? job).toList) (h.stores job ++ (event.store? job).toList) (h.entries job ++ (event.entry? job).toList))
    (hnext : (post = some job ∧ event.entry? job = none ∧ b.key = w'.task.job.key ∧ w'.pc.specs <:+ b.specs ∧ w'.pc.stage b.specs.length w'.task.attempt = some stage) ∨ post = none ∧ w'.pc.idle = true ∧ ∃ success, event.entry? job = some success ∧ stage = .ended success) :
    Accounted cfg { h with posts := h.posts.set k post, log := h.log ++ [event], state := s' } := by
  obtain ⟨hposts, hqueued, hretried, hnone⟩ := haccounted.only hpost
  let h' : History := { h with posts := h.posts.set k post, log := h.log ++ [event], state := s' }
  have hsame (other : Nat) (hother : other ≠ job) : SameJob h h' other := .of_other rfl (hevent ▸ Ne.symm hother)
  obtain ⟨hcalls, hstores, hentries⟩ := log_snoc (show h'.log = h.log ++ [event] from rfl) job
  rw [← hcalls, ← hstores, ← hentries] at hstage
  rw [hnone, nil_append] at hentries
  refine ⟨?_, ?_, ?_, ?_, ?_, ?_, ?_, ?_, ?_⟩
  · simp only [hworkers, length_set]
    exact haccounted.length
  · intro j v hv
    rw [hworkers] at hv
    refine atPost_set hpost ?_ ?_ j v hv
    · rcases hnext with ⟨rfl, _, hkey, hspecs, hpc⟩ | ⟨rfl, hidle, _⟩
      · exact .inr ⟨job, rfl, b, stage, hb, hkey, hspecs, hpc, hstage⟩
      · exact .inl ⟨rfl, hidle⟩
    · intro j v hne hv
      rcases haccounted.workers j v hv with hidle | ⟨other, hother, hworks⟩
      · exact .inl hidle
      · refine .inr ⟨other, hother, hworks.same (hsame other ?_) fun _ hb => hb⟩
        rintro rfl
        exact hposts j hne hother
  · simp only [hqueue]
    refine forall₂_of_mem haccounted.queue fun other hmem task hwaits => ?_
    exact hwaits.same (hsame other (by rintro rfl; exact hqueued hmem)) fun _ hb => hb
  · simp only [hmain]
    refine forall₂_of_mem haccounted.retries fun other hmem task hwaits => ?_
    exact hwaits.same (hsame other (by rintro rfl; exact hretried hmem)) fun _ hb => hb
  · intro other
    have hset : total (worksFor other) (h.posts.set k post) + worksFor other (some job) =
        total (worksFor other) h.posts + worksFor other post := total_set _ hpost
    have hmoved : worksFor other post + (h'.entries other).length = worksFor other (some job) + (h.entries other).length := by
      by_cases hother : other = job
      · subst hother
        rcases hnext with ⟨rfl, hentry, _⟩ | ⟨rfl, _, success, hentry, _⟩ <;> simp [hentries, hentry, hnone, worksFor]
      · rw [(hsame other hother).entries]
        rcases hnext with ⟨rfl, _⟩ | ⟨rfl, _⟩ <;> simp [worksFor, Ne.symm hother]
    have hbefore := haccounted.places other
    rw [History.places] at hbefore
    show total (worksFor other) (h.posts.set k post) + h.queueIds.count other + h.retryIds.count other +
      (h'.entries other).length = if other < h.jobs.length then 1 else 0
    omega
  · intro other b' hb' hentered
    by_cases hother : other = job
    · subst hother
      obtain rfl : b = b' := Option.some.inj (hb.symm.trans hb')
      rcases hnext with ⟨_, hentry, _⟩ | ⟨_, _, success, _, rfl⟩
      · rw [hentry] at hentries
        exact absurd hentries hentered
      · exact ⟨success, hstage⟩
    · have hlog := hsame other hother
      rw [hlog.entries] at hentered
      rw [hlog.calls, hlog.stores, hlog.entries]
      exact haccounted.ended other b' hb' hentered
  · intro e he
    rcases mem_append.1 he with hold | hnew
    · exact haccounted.known e hold
    · rw [mem_singleton.1 hnew, hevent]
      exact (List.getElem?_eq_some_iff.1 hb).1
  · rw [hresults, haccounted.results, filterMap_snoc]
    rfl
  · rw [hupserts, haccounted.upserts, filterMap_snoc]
    rfl

theorem Accounted.steps (haccounted : Accounted cfg h) (hpost : h.posts[k]? = some post)
    (hworkers : s'.workers = h.state.workers.set k { w with pc := pc })
    (hqueue : s'.retryQueue = h.state.retryQueue) (hmain : s'.main = h.state.main)
    (hresults : s'.results = h.state.results) (hupserts : s'.upserts = h.state.upserts)
    (hself : AtPost cfg h (some post) { w with pc := pc }) : Accounted cfg { h with state := s' } := by
  refine ⟨?_, ?_, ?_, ?_, haccounted.places, haccounted.ended, haccounted.known, ?_, ?_⟩
  · simp only [hworkers, length_set]
    exact haccounted.length
  · intro j v hv
    rw [hworkers] at hv
    have hatPost := atPost_set hpost hself (fun j v _ => haccounted.workers j v) j v hv
    rw [set_same hpost] at hatPost
    exact hatPost
  · simp only [hqueue]
    exact haccounted.queue
  · simp only [hmain]
    exact haccounted.retries
  · exact hresults.trans haccounted.results
  · exact hupserts.trans haccounted.upserts

theorem workerStep_building (hpc : w.pc = .building spec rest) (hstep : workerStep cfg s k w choice = some s') :
    ∃ success refused, choice = .built success refused ∧ s'.workers = s.workers.set k { w with
      pc := if success = false ∧ w.task.attempt < cfg.retry then .retrying (spec :: rest)
        else .storing spec rest success } ∧ s'.retryQueue = s.retryQueue ∧ s'.main = s.main ∧
      s'.results = s.results ∧ s'.upserts = s.upserts := by
  simp only [workerStep, hpc] at hstep
  split at hstep
  case h_3 success refused heq =>
    refine ⟨success, refused, rfl, ?_⟩
    cases heq
    split_ifs at hstep ⊢ <;> cases hstep <;> exact ⟨rfl, rfl, rfl, rfl, rfl⟩
  all_goals simp_all

theorem workerStep_storing (hpc : w.pc = .storing spec rest success)
    (hstep : workerStep cfg s k w choice = some s') : ∃ result, choice = .stored result ∧
      (result = .ok () → s' = setWorker { s with upserts := s.upserts ++ [(spec, success)] } k w
        (if success then .next rest else .finish false)) := by
  simp only [workerStep, hpc] at hstep
  split at hstep <;> simp_all

theorem position_eq {job : Nat} (hb : h.jobs[job]? = some b) (rest : List BuildSpec) :
    h.position job rest = b.specs.length - (rest.length + 1) := by
  simp [History.position, hb]

theorem getElem?_position {specs : List BuildSpec} (hsuffix : spec :: rest <:+ specs) :
    specs[specs.length - (rest.length + 1)]? = some spec := by
  obtain ⟨before, rfl⟩ := hsuffix
  rw [length_append, length_cons, Nat.add_sub_cancel, getElem?_append_right le_rfl]
  simp

theorem Works.at {job : Nat} (hworks : Works cfg h job w) (hpc : w.pc = pc) :
    ∃ b, h.jobs[job]? = some b ∧ b.key = w.task.job.key ∧ pc.specs <:+ b.specs ∧
      ∀ stage, pc.stage b.specs.length w.task.attempt = some stage → stage.Holds cfg.retry b.specs.length
        (h.calls job) (h.stores job) (h.entries job) := by
  obtain ⟨b, stage, hb, hkey, hspecs, hstage, hholds⟩ := hworks
  rw [hpc] at hspecs hstage
  refine ⟨b, hb, hkey, hspecs, ?_⟩
  intro other hother
  rw [hstage, Option.some.injEq] at hother
  exact hother ▸ hholds

section

variable (haccounted : Accounted cfg h)

include haccounted

theorem accounted_called {job : Nat} (hpost : h.posts[k]? = some (some job))
    (hworks : Works cfg h job w) (hpc : w.pc = .building spec rest)
    (hstep : workerStep cfg h.state k w choice = some s') :
    Accounted cfg { h.recordWorker k job (.building spec rest) choice with state := s' } := by
  obtain ⟨success, refused, rfl, hworkers, hqueue, hmain, hresults, hupserts⟩ := workerStep_building hpc hstep
  obtain ⟨b, hb, hkey, hspecs, hholds⟩ := hworks.at hpc
  have hnext := Stage.call success (Nat.sub_lt_of_pos_le (Nat.succ_pos _) hspecs.length_le) (hholds _ rfl)
  have hlogged := haccounted.logs (.called job (h.position job rest) success) hpost hb rfl hworkers hqueue hmain
    (by simp [hresults, History.result?]) (by simp [hupserts, History.upsert?])
    (by simpa [Event.call?, Event.store?, Event.entry?, position_eq hb] using hnext)
    (.inl ⟨rfl, rfl, hkey, by split_ifs <;> exact hspecs, by split_ifs <;> rfl⟩)
  rw [set_same hpost] at hlogged
  exact hlogged

theorem accounted_stored {job : Nat} (hpost : h.posts[k]? = some (some job))
    (hworks : Works cfg h job w) (hpc : w.pc = .storing spec rest success) : Accounted cfg { h with
      log := h.log ++ [.stored job (h.position job rest) success]
      state := setWorker { h.state with upserts := h.state.upserts ++ [(spec, success)] } k w
        (if success then .next rest else .finish false) } := by
  obtain ⟨b, hb, hkey, hspecs, hholds⟩ := hworks.at hpc
  have hnext := Stage.store (hholds _ rfl)
  -- The next spec is at the next position.
  have hposition : b.specs.length - (rest.length + 1) + 1 = b.specs.length - rest.length := by
    have hle : rest.length + 1 ≤ b.specs.length := hspecs.length_le
    omega
  rw [hposition] at hnext
  have hlogged := haccounted.logs (.stored job (h.position job rest) success) hpost hb rfl
    (show (setWorker { h.state with upserts := h.state.upserts ++ [(spec, success)] } k w
      (if success then .next rest else .finish false)).workers = _ from rfl) rfl rfl
    (by simp [History.result?, setWorker])
    (by simp [History.upsert?, setWorker, hb, position_eq hb, getElem?_position hspecs])
    (by simpa [Event.call?, Event.store?, Event.entry?, position_eq hb] using hnext)
    (.inl ⟨rfl, rfl, hkey, ?_, by split_ifs <;> rfl⟩)
  · rw [set_same hpost] at hlogged
    exact hlogged
  · split_ifs
    · exact (suffix_cons spec rest).trans hspecs
    · exact nil_suffix

theorem accounted_queued {job : Nat} {specs : List BuildSpec}
    (hpost : h.posts[k]? = some (some job)) (hworks : Works cfg h job w) (hpc : w.pc = .retrying specs) :
    Accounted cfg { h with
      queueIds := h.queueIds ++ [job], posts := h.posts.set k none
      state := setWorker { h.state with
        retryQueue := h.state.retryQueue ++ [⟨{ w.task.job with specs := specs }, w.task.attempt + 1⟩] } k w .releaseSlot } := by
  obtain ⟨b, hb, hkey, hspecs, hholds⟩ := hworks.at hpc
  refine ⟨?_, ?_, ?_, haccounted.retries, ?_, haccounted.ended, haccounted.known, haccounted.results, haccounted.upserts⟩
  · simp only [setWorker, length_set]
    exact haccounted.length
  · exact atPost_set hpost (.inl ⟨rfl, rfl⟩) fun j v _ => haccounted.workers j v
  · exact rel_append haccounted.queue (.cons ⟨b, hb, hkey, hspecs, hholds _ rfl⟩ .nil)
  · intro other
    have hset : total (worksFor other) (h.posts.set k none) + worksFor other (some job) =
        total (worksFor other) h.posts + worksFor other none := total_set _ hpost
    have hworksFor : worksFor other (some job) = [job].count other := by
      simp [worksFor, count_singleton]
    have hnone : worksFor other none = 0 := rfl
    have hbefore := haccounted.places other
    rw [History.places] at hbefore
    show total (worksFor other) (h.posts.set k none) + (h.queueIds ++ [job]).count other + h.retryIds.count other +
      (h.entries other).length = if other < h.jobs.length then 1 else 0
    rw [count_append]
    omega

theorem accounted_finished {job : Nat} (hpost : h.posts[k]? = some (some job))
    (hworks : Works cfg h job w) (hpc : w.pc = .finish success) : Accounted cfg { h with
      log := h.log ++ [.entered job success], posts := h.posts.set k none
      state := setWorker { h.state with results := h.state.results ++ [(w.task.job.key, success)] } k w
        (if success then .releaseSlot else .setFailed) } := by
  obtain ⟨b, hb, hkey, hspecs, hholds⟩ := hworks.at hpc
  have hnext := Stage.enter (hholds _ rfl)
  exact haccounted.logs (.entered job success) hpost hb rfl
    (show (setWorker { h.state with results := h.state.results ++ [(w.task.job.key, success)] } k w
      (if success then .releaseSlot else .setFailed)).workers = _ from rfl) rfl rfl
    (by simp [History.result?, setWorker, hb, hkey]) (by simp [History.upsert?, setWorker])
    (by simpa [Event.call?, Event.store?, Event.entry?] using hnext)
    (.inr ⟨rfl, by split_ifs <;> rfl, success, by simp [Event.entry?], rfl⟩)

end

theorem Works.not_idle {job : Nat} (hworks : Works cfg h job w)
    (hstage : ∀ len attempt, w.pc.stage len attempt = none) : False := by
  obtain ⟨b, stage, _, _, _, hsome, _⟩ := hworks
  rw [hstage] at hsome
  cases hsome

theorem accounted_works {job : Nat} (haccounted : Accounted cfg h) (hworker : h.state.workers[k]? = some w)
    (hpost : h.posts[k]? = some (some job)) (hworks : Works cfg h job w)
    (hchoice : ∀ err, choice ≠ .stored (.error err)) (hstep : workerStep cfg h.state k w choice = some s') :
    Accounted cfg (h.record (.worker k choice) s') := by
  simp only [History.record, hworker, hpost]
  have hstored {spec : BuildSpec} {rest : List BuildSpec} {success : Bool} (hpc : w.pc = .storing spec rest success) :
      Accounted cfg { h.recordWorker k job w.pc choice with state := s' } := by
    obtain ⟨result, rfl, hok⟩ := workerStep_storing hpc hstep
    cases result with
    | error err => exact absurd rfl (hchoice err)
    | ok _ =>
      rw [hpc, hok rfl]
      exact accounted_stored haccounted hpost hworks hpc
  cases workerStep_effect hstep with
  | specsDone hpc =>
    obtain ⟨b, hb, hkey, hspecs, hholds⟩ := hworks.at hpc
    rw [hpc]
    exact haccounted.steps hpost rfl rfl rfl rfl rfl
      (.inr ⟨job, rfl, b, _, hb, hkey, nil_suffix, rfl, Stage.finish (hholds _ rfl)⟩)
  | starts hpc =>
    obtain ⟨b, hb, hkey, hspecs, hholds⟩ := hworks.at hpc
    rw [hpc]
    exact haccounted.steps hpost rfl rfl rfl rfl rfl (.inr ⟨job, rfl, b, _, hb, hkey, hspecs, rfl, hholds _ rfl⟩)
  | retries hpc | built hpc =>
    rw [hpc]
    exact accounted_called haccounted hpost hworks hpc hstep
  | queued hpc =>
    rw [hpc]
    exact accounted_queued haccounted hpost hworks hpc
  | stored hpc | storeFailed err hpc => exact hstored hpc
  | finished hpc =>
    rw [hpc]
    exact accounted_finished haccounted hpost hworks hpc
  | persistFatal hpc | persistFailed hpc | setsFailed hpc | cancels hpc | slotReleased hpc
  | globalReleased hpc | exits hpc => exact (hworks.not_idle fun _ _ => by rw [hpc]; rfl).elim

theorem accounted_worker (haccounted : Accounted cfg h) (hworker : h.state.workers[k]? = some w)
    (hchoice : ∀ err, choice ≠ .stored (.error err)) (hstep : workerStep cfg h.state k w choice = some s') :
    Accounted cfg (h.record (.worker k choice) s') := by
  rcases haccounted.workers k w hworker with ⟨hpost, hidle⟩ | ⟨job, hpost, hworks⟩
  · have hidles {pc : WorkerPc} (hidle : pc.idle = true) : AtPost cfg h (some none) { w with pc := pc } :=
      .inl ⟨rfl, hidle⟩
    simp only [History.record, hworker, hpost]
    cases workerStep_effect hstep with
    | setsFailed hpc => exact haccounted.steps hpost rfl rfl rfl rfl rfl (hidles (by split_ifs <;> rfl))
    | cancels | slotReleased | globalReleased | exits =>
      exact haccounted.steps hpost rfl rfl rfl rfl rfl (hidles rfl)
    | specsDone hpc | starts hpc | retries hpc | built hpc | queued hpc | stored hpc | storeFailed _ hpc
    | persistFatal hpc | persistFailed hpc | finished hpc =>
      rw [hpc] at hidle
      cases hidle
  · exact accounted_works haccounted hworker hpost hworks hchoice hstep

theorem schedule_ne_refused (pc : SchedPc) (task : BuildTask) (site : Site) :
    MainPc.schedule pc task site ≠ site.refused := by
  cases site <;> simp [Site.refused]

theorem mainStep_not_refused {choice : Choice} {pc : SchedPc} {site : Site} (hfailfast : cfg.failfast = false)
    (hctx : s.ctxErr = none) (hmain : s.main = .schedule pc task site) (hpc : pc.slot = none)
    (hstep : mainStep cfg s choice = some s') : s'.main ≠ site.refused := by
  have hschedule : schedule cfg s task site pc choice = some s' := by simpa [mainStep, hmain] using hstep
  unfold schedule at hschedule
  split at hschedule
  case h_5 =>
    split_ifs at hschedule
    · cases hschedule
      exact schedule_ne_refused _ _ _
    · split at hschedule <;> cases hschedule <;> exact schedule_ne_refused _ _ _
  case h_4 =>
    obtain ⟨order, _, rfl⟩ := map_eq_some_iff.1 hschedule
    exact schedule_ne_refused _ _ _
  case h_10 | h_11 | h_12 => cases hpc
  all_goals
    simp only [hfailfast, hctx, Bool.false_eq_true, and_false, if_false, isSome_none, Option.some.injEq,
      reduceCtorEq] at hschedule
  all_goals
    subst hschedule
    exact schedule_ne_refused _ _ _

theorem refuses_eq_false (hctx : s.ctxErr = none) (choice : Choice) : s.refuses choice = false := by
  unfold State.refuses
  split <;> split <;> simp [hctx]

theorem Accounted.quiet (haccounted : Accounted cfg h) (hworkers : s'.workers = h.state.workers)
    (hqueue : s'.retryQueue = h.state.retryQueue) (hretries : s'.main.retries = h.state.main.retries)
    (hresults : s'.results = h.state.results) (hupserts : s'.upserts = h.state.upserts) :
    Accounted cfg { h with state := s' } := by
  refine ⟨?_, ?_, ?_, ?_, haccounted.places, haccounted.ended, haccounted.known, ?_, ?_⟩
  · simp only [hworkers]
    exact haccounted.length
  · simp only [hworkers]
    exact haccounted.workers
  · simp only [hqueue]
    exact haccounted.queue
  · simp only [hretries]
    exact haccounted.retries
  · exact hresults.trans haccounted.results
  · exact hupserts.trans haccounted.upserts

theorem accounted_taken {queue : List BuildTask} (haccounted : Accounted cfg h)
    (hqueue : h.state.retryQueue = task :: queue)
    (hretries : s'.main.retries = h.state.main.retries ++ [task]) (hworkers : s'.workers = h.state.workers)
    (hqueue' : s'.retryQueue = queue) (hresults : s'.results = h.state.results)
    (hupserts : s'.upserts = h.state.upserts) : Accounted cfg { h with
      queueIds := h.queueIds.tail, retryIds := h.retryIds ++ h.queueIds.take 1, state := s' } := by
  have hwaits := haccounted.queue
  rw [hqueue] at hwaits
  cases hids : h.queueIds with
  | nil =>
    rw [hids] at hwaits
    cases hwaits
  | cons job ids =>
    rw [hids] at hwaits
    obtain ⟨hjob, hrest⟩ := forall₂_cons.1 hwaits
    refine ⟨?_, ?_, ?_, ?_, ?_, haccounted.ended, haccounted.known, ?_, ?_⟩
    · simp only [hworkers]
      exact haccounted.length
    · simp only [hworkers]
      exact haccounted.workers
    · simp only [hqueue', tail_cons]
      exact hrest
    · simp only [hretries, take_succ_cons, take_zero]
      exact rel_append haccounted.retries (.cons hjob .nil)
    · intro other
      have hbefore := haccounted.places other
      simp only [History.places, hids, count_cons] at hbefore
      simp only [History.places, tail_cons, take_succ_cons, take_zero, count_append,
        count_singleton]
      rw [← hbefore]
      show _ + (h.entries other).length = _
      omega
    · exact hresults.trans haccounted.results
    · exact hupserts.trans haccounted.upserts

theorem accounted_respawned {tasks : List BuildTask} {slot : Nat} (haccounted : Accounted cfg h)
    (hretries : h.state.main.retries = task :: tasks) (hretries' : s'.main.retries = tasks)
    (hworkers : s'.workers = h.state.workers ++ [⟨task, slot, .next task.job.specs⟩])
    (hqueue : s'.retryQueue = h.state.retryQueue) (hresults : s'.results = h.state.results)
    (hupserts : s'.upserts = h.state.upserts) : Accounted cfg { h with
      posts := h.posts ++ [h.retryIds.head?], retryIds := h.retryIds.tail, state := s' } := by
  have hwaits := haccounted.retries
  rw [hretries] at hwaits
  cases hids : h.retryIds with
  | nil =>
    rw [hids] at hwaits
    cases hwaits
  | cons job ids =>
    rw [hids] at hwaits
    obtain ⟨⟨b, hb, hkey, hspecs, hholds⟩, hrest⟩ := forall₂_cons.1 hwaits
    refine ⟨?_, ?_, ?_, ?_, ?_, haccounted.ended, haccounted.known, ?_, ?_⟩
    · simp only [hworkers, length_append, length_singleton, haccounted.length]
    · rw [hworkers]
      exact atPost_snoc haccounted.length (.inr ⟨job, rfl, b, _, hb, hkey, hspecs, rfl, hholds⟩) haccounted.workers
    · simp only [hqueue]
      exact haccounted.queue
    · simp only [hretries', tail_cons]
      exact hrest
    · intro other
      have hbefore := haccounted.places other
      simp only [History.places, hids, count_cons, beq_iff_eq] at hbefore
      have hspawned : total (worksFor other) [some job] = if job = other then 1 else 0 := by
        simp [worksFor]
      simp only [History.places, tail_cons, head?_cons, total_append, hspawned]
      rw [← hbefore]
      show _ + (h.entries other).length = _
      omega
    · exact hresults.trans haccounted.results
    · exact hupserts.trans haccounted.upserts

theorem result?_of_known (hjobs : h'.jobs[event.job]? = h.jobs[event.job]?) :
    h'.result? event = h.result? event := by
  cases event with
  | entered job success =>
    simp only [Event.job] at hjobs
    simp only [History.result?, hjobs]
  | called | stored => rfl

theorem upsert?_of_known (hjobs : h'.jobs[event.job]? = h.jobs[event.job]?) :
    h'.upsert? event = h.upsert? event := by
  cases event with
  | stored job spec success =>
    simp only [Event.job] at hjobs
    simp only [History.upsert?, hjobs]
  | called | entered => rfl

theorem Accounted.unlogged (haccounted : Accounted cfg h) {job : Nat} (hjob : h.jobs.length ≤ job) :
    h.calls job = [] ∧ h.stores job = [] ∧ h.entries job = [] := by
  have hother : ∀ event ∈ h.log, event.job ≠ job := by
    intro event hevent
    have hknown := haccounted.known event hevent
    omega
  refine ⟨?_, ?_, ?_⟩ <;> refine filterMap_eq_nil_iff.2 fun event hevent => ?_ <;>
    simp only [Event.of_other (hother event hevent)]

theorem accounted_spawned {slot : Nat} (haccounted : Accounted cfg h) (hattempt : task.attempt = 0)
    (hretries : s'.main.retries = h.state.main.retries)
    (hworkers : s'.workers = h.state.workers ++ [⟨task, slot, .next task.job.specs⟩])
    (hqueue : s'.retryQueue = h.state.retryQueue) (hresults : s'.results = h.state.results)
    (hupserts : s'.upserts = h.state.upserts) : Accounted cfg { h with
      jobs := h.jobs ++ [task.job], posts := h.posts ++ [some h.jobs.length], state := s' } := by
  obtain ⟨hcalls, hstores, hentries⟩ := haccounted.unlogged (le_refl h.jobs.length)
  have hkept : ∀ (job : Nat) (b : BuildJob), h.jobs[job]? = some b → (h.jobs ++ [task.job])[job]? = some b := by
    intro job b hb
    rw [getElem?_append_left (List.getElem?_eq_some_iff.1 hb).1, hb]
  have hknown : ∀ event ∈ h.log, (h.jobs ++ [task.job])[event.job]? = h.jobs[event.job]? :=
    fun event hevent => getElem?_append_left (haccounted.known event hevent)
  refine ⟨?_, ?_, ?_, ?_, ?_, ?_, ?_, ?_, ?_⟩
  · simp only [hworkers, length_append, length_singleton, haccounted.length]
  · rw [hworkers]
    refine atPost_snoc haccounted.length (.inr ⟨h.jobs.length, rfl, task.job, .ready 0 0, getElem?_concat_length,
      rfl, suffix_rfl, by simp [WorkerPc.stage, hattempt], ?_⟩) ?_
    · show Stage.Holds cfg.retry task.job.specs.length (h.calls h.jobs.length) (h.stores h.jobs.length)
        (h.entries h.jobs.length) (.ready 0 0)
      rw [hcalls, hstores, hentries]
      exact ⟨.none, Nat.zero_le _, rfl, rfl⟩
    · intro k w hw
      rcases haccounted.workers k w hw with hidle | ⟨job, hpost, hworks⟩
      · exact .inl hidle
      · exact .inr ⟨job, hpost, hworks.same ⟨rfl, rfl, rfl⟩ (hkept job)⟩
  · simp only [hqueue]
    exact haccounted.queue.imp fun job _ hwaits => hwaits.same ⟨rfl, rfl, rfl⟩ (hkept job)
  · simp only [hretries]
    exact haccounted.retries.imp fun job _ hwaits => hwaits.same ⟨rfl, rfl, rfl⟩ (hkept job)
  · intro other
    have hbefore := haccounted.places other
    have hspawned : total (worksFor other) [some h.jobs.length] = if h.jobs.length = other then 1 else 0 := by
      simp [worksFor]
    simp only [History.places] at hbefore
    simp only [History.places, total_append, hspawned, length_append, length_singleton]
    show _ + (h.entries other).length = _
    split_ifs at hbefore ⊢ <;> omega
  · intro job b hb hentered
    rcases getElem?_snoc hb with hold | ⟨rfl, _⟩
    · exact haccounted.ended job b hold hentered
    · exact absurd hentries hentered
  · intro event hevent
    have hlt := haccounted.known event hevent
    simp only [length_append, length_singleton]
    omega
  · rw [hresults, haccounted.results]
    exact filterMap_congr fun event hevent => (result?_of_known (hknown event hevent)).symm
  · rw [hupserts, haccounted.upserts]
    exact filterMap_congr fun event hevent => (upsert?_of_known (hknown event hevent)).symm

structure Calm (s : State) : Prop where
  releases : ∀ slot task site, s.main ≠ .schedule (.releaseWorker slot) task site
  fresh : ∀ pc task site, s.main = .schedule pc task site → (∀ tasks, site ≠ .retry tasks) → task.attempt = 0

theorem calm_main {choice : Choice} (hctx : s.ctxErr = none) (hcalm : Calm s)
    (heffect : MainEffect cfg s choice s') : Calm s' := by
  cases heffect with
  | firstNext | received hmain =>
    refine ⟨by simp, ?_⟩
    intro pc task site hsame _
    rw [MainPc.schedule.injEq] at hsame
    rw [← hsame.2.1]
  | retryNext hmain =>
    refine ⟨by simp, ?_⟩
    intro pc task site hsame hsite
    rw [MainPc.schedule.injEq] at hsame
    exact absurd hsame.2.2.symm (hsite _)
  | @moves _ pc pc' task site hmain hpc hpc' =>
    refine ⟨?_, ?_⟩
    · intro slot task' site' hsame
      rw [MainPc.schedule.injEq] at hsame
      rw [hsame.1] at hpc'
      cases hpc'
    · intro pc'' task' site' hsame hsite
      rw [MainPc.schedule.injEq] at hsame
      obtain ⟨_, rfl, rfl⟩ := hsame
      exact hcalm.fresh pc task site hmain hsite
  | @acquires pc task site slot pool hmain hpc hpool =>
    refine ⟨by simp, ?_⟩
    intro pc' task' site' hsame hsite
    rw [MainPc.schedule.injEq] at hsame
    obtain ⟨_, rfl, rfl⟩ := hsame
    exact hcalm.fresh pc task site hmain hsite
  | @spawns task site slot hmain hroom => cases site <;> exact ⟨by simp [Site.scheduled], by simp [Site.scheduled]⟩
  | @refused _ pc task site hmain hpc hwhy =>
    cases site <;> exact ⟨by simp [Site.refused], by simp [Site.refused]⟩
  | givesUp hmain hwhy =>
    rw [refuses_eq_false hctx] at hwhy
    cases hwhy
  | @releasesWorker task site slot pool hmain hpool => exact absurd hmain (hcalm.releases slot task site)
  | firstDone | discarded | streamDone | prepareOk | prepareErr | prepareFatal | prepareFailed | prepareCancel
  | waited | selected | selectedNone | drained | drainedAll | retryDone | returns => exact ⟨by simp, by simp⟩

theorem schedule_retries (pc pc' : SchedPc) (task : BuildTask) (site : Site) :
    (MainPc.schedule pc task site).retries = (MainPc.schedule pc' task site).retries := by
  cases site <;> rfl

theorem recordMain_moves {choice : Choice} {pc : SchedPc} {site : Site}
    (hmain : h.state.main = .schedule pc task site) (hpc : pc.slot = none) : h.recordMain choice = h := by
  unfold History.recordMain
  rw [hmain]
  cases pc <;> first | rfl | cases hpc

theorem Accounted.queue_empty (haccounted : Accounted cfg h) (hqueue : h.state.retryQueue = []) :
    h.queueIds = [] := by
  have hwaits := haccounted.queue
  rw [hqueue] at hwaits
  exact forall₂_nil_right_iff.1 hwaits

theorem accounted_main {choice : Choice} (hfailfast : cfg.failfast = false) (hctx : h.state.ctxErr = none)
    (hcalm : Calm h.state) (haccounted : Accounted cfg h) (hstep : mainStep cfg h.state choice = some s') :
    Accounted cfg (h.record (.main choice) s') := by
  unfold History.record
  dsimp only
  cases mainStep_effect hstep with
  | firstDone hmain | firstNext hmain | received hmain | discarded hmain | streamDone hmain | prepareOk hmain
  | prepareErr hmain | prepareFatal hmain | prepareFailed hmain | prepareCancel hmain | waited hmain
  | retryDone hmain | retryNext hmain | returns hmain =>
    unfold History.recordMain
    rw [hmain]
    exact haccounted.quiet rfl rfl (congrArg MainPc.retries hmain).symm rfl rfl
  | selected hmain hqueue | drained hmain hqueue =>
    unfold History.recordMain
    rw [hmain]
    exact accounted_taken haccounted hqueue (by rw [hmain]; rfl) rfl rfl rfl rfl
  | selectedNone hmain hqueue | drainedAll hmain hqueue =>
    have hids := haccounted.queue_empty hqueue
    unfold History.recordMain
    rw [hmain]
    simp only [hids, tail_nil, take_nil, append_nil]
    rw [← hids]
    exact haccounted.quiet rfl rfl (congrArg MainPc.retries hmain).symm rfl rfl
  | moves hmain hpc | acquires hmain hpc =>
    rw [recordMain_moves hmain hpc]
    refine haccounted.quiet rfl rfl ?_ rfl rfl
    rw [hmain]
    exact schedule_retries _ _ _ _
  | @spawns task site slot hmain hroom =>
    unfold History.recordMain
    rw [hmain]
    cases site with
    | retry tasks => exact accounted_respawned haccounted (by rw [hmain]; rfl) rfl rfl rfl rfl rfl
    | first | stream =>
      have hattempt := hcalm.fresh _ _ _ hmain (by simp)
      exact accounted_spawned haccounted hattempt (by rw [hmain]; rfl) rfl rfl rfl rfl
  | refused hmain hpc hwhy => exact absurd rfl (mainStep_not_refused hfailfast hctx hmain hpc hstep)
  | givesUp hmain hwhy =>
    rw [refuses_eq_false hctx] at hwhy
    cases hwhy
  | @releasesWorker task site slot pool hmain hpool => exact absurd hmain (hcalm.releases slot task site)

def Smooth (s : State) : Action → Prop
  | .worker _ (.stored (.error _)) => False
  | _ => s.ctxErr = none

instance (s : State) : ∀ a, Decidable (Smooth s a)
  | .worker _ (.stored (.error _)) => isFalse id
  | .worker _ (.stored (.ok ())) | .worker _ .go | .worker _ (.built _ _) | .main _ | .producer _ | .cancel _
  | .refreshPool _ | .tick => inferInstanceAs (Decidable (s.ctxErr = none))

theorem accounted_step {a : Action} (hfailfast : cfg.failfast = false) (hok : Smooth h.state a)
    (hinv : Accounted cfg h ∧ Calm h.state) (hstep : recordedStep cfg h a = some h') :
    Accounted cfg h' ∧ Calm h'.state := by
  obtain ⟨haccounted, hcalm⟩ := hinv
  obtain ⟨s', hbase, rfl⟩ := map_eq_some_iff.1 hstep
  have heffect := step_effect hbase
  rw [record_state]
  cases a with
  | main choice =>
    cases heffect with
    | main heffect => exact ⟨accounted_main hfailfast hok hcalm haccounted hbase, calm_main hok hcalm heffect⟩
  | worker k choice =>
    cases heffect with
    | @worker k choice w _ hworker heffect =>
      have hchoice : ∀ err, choice ≠ .stored (.error err) := by
        rintro err rfl
        exact hok
      have hworkerStep : workerStep cfg h.state k w choice = some s' := by simpa [step, hworker] using hbase
      refine ⟨accounted_worker haccounted hworker hchoice hworkerStep, ?_⟩
      have hmain := heffect.frame.main
      exact ⟨by rw [hmain]; exact hcalm.releases, by rw [hmain]; exact hcalm.fresh⟩
  | producer choice =>
    cases heffect with
    | producer heffect =>
      have hframe := heffect.frame
      have hresults : s'.results = h.state.results := by cases heffect <;> rfl
      exact ⟨haccounted.quiet hframe.workers hframe.retryQueue (by rw [hframe.main]) hresults hframe.upserts,
        by rw [hframe.main]; exact hcalm.releases, by rw [hframe.main]; exact hcalm.fresh⟩
  | cancel | refreshPool | tick =>
    cases heffect
    exact ⟨haccounted.quiet rfl rfl rfl rfl rfl, hcalm.releases, hcalm.fresh⟩

inductive Accountable (cfg : Config) : State → Prop
  | batch {addrs : List Pool.BuildkitAddr} {results : ResultReader} {jobs : List BuildJob} {s : State}
      (h : startBatch cfg addrs results jobs = .ok s) : Accountable cfg s
  | streaming {addrs : List Pool.BuildkitAddr} {s : State} (h : startStreaming cfg addrs = .ok s)
      (hone : ∀ entry ∈ cfg.entries, cfg.jobCount entry ≤ 1) : Accountable cfg s

variable {start : State} {acts : List Action}

theorem Accountable.starts (hstart : Accountable cfg start) : ∃ specs, Starts cfg specs start := by
  cases hstart with
  | batch h => exact ⟨_, .batch h⟩
  | streaming h _ => exact ⟨_, .streaming h⟩

theorem accounted_empty (hworkers : start.workers = []) (hqueue : start.retryQueue = [])
    (hretries : start.main.retries = []) (hresults : start.results = []) (hupserts : start.upserts = []) :
    Accounted cfg (History.start start) := by
  refine ⟨?_, ?_, ?_, ?_, ?_, ?_, ?_, hresults, hupserts⟩
  · simp [History.start, hworkers]
  · intro k w hw
    simp [History.start, hworkers] at hw
  · simp [History.start, hqueue]
  · simp [History.start, hretries]
  · intro job
    rfl
  · intro job b hb
    simp [History.start] at hb
  · intro event hevent
    simp [History.start] at hevent

section

variable (hstart : Accountable cfg start)

include hstart

theorem accounted_start : Accounted cfg (History.start start) ∧ Calm (History.start start).state := by
  cases hstart with
  | batch h =>
    unfold startBatch at h
    split at h
    · cases h
    · cases h
      refine ⟨accounted_empty rfl rfl ?_ rfl rfl, ?_, ?_⟩
      · dsimp only [initial]
        split_ifs <;> rfl
      · dsimp only [initial, History.start]
        split_ifs <;> simp
      · dsimp only [initial, History.start]
        split_ifs <;> simp
  | streaming h hone =>
    unfold startStreaming at h
    split_ifs at h
    cases h
    exact ⟨accounted_empty rfl rfl rfl rfl rfl, by simp [initial, History.start], by simp [initial, History.start]⟩

theorem accounted_run (hfailfast : cfg.failfast = false)
    (hok : Along (recordedStep cfg) (fun h a => Smooth h.state a) (History.start start) acts)
    (hexec : exec (recordedStep cfg) (History.start start) acts = some h) : Accounted cfg h :=
  (exec_invariant_along (recordedStep cfg)
    (fun _ _ _ hinv hok hstep => accounted_step hfailfast hok hinv hstep) (accounted_start hstart) hok hexec).1

theorem phases_run (hok : Along (recordedStep cfg) (fun h a => Smooth h.state a) (History.start start) acts)
    (hexec : exec (recordedStep cfg) (History.start start) acts = some h) : Phases h.state := by
  have hkeep : ∀ h a h', Phases h.state → Smooth h.state a → recordedStep cfg h a = some h' → Phases h'.state := by
    intro h a h' hphases hsmooth hstep
    obtain ⟨s', hbase, rfl⟩ := map_eq_some_iff.1 hstep
    rw [record_state]
    refine phases_step hphases ?_ (step_effect hbase)
    cases a with
    | main choice =>
      intro hrefuses
      rw [refuses_eq_false hsmooth] at hrefuses
      cases hrefuses
    | worker | producer | cancel | refreshPool | tick => trivial
  obtain ⟨specs, hstarts⟩ := hstart.starts
  exact exec_invariant_along (recordedStep cfg) hkeep (complete_start hstarts).phases hok hexec

end

theorem Accounted.stage (haccounted : Accounted cfg h) {job : Nat} (hb : h.jobs[job]? = some b) :
    ∃ stage : Stage, stage.Holds cfg.retry b.specs.length (h.calls job) (h.stores job) (h.entries job) := by
  have hlt : job < h.jobs.length := (List.getElem?_eq_some_iff.1 hb).1
  have hplaces := haccounted.places job
  rw [if_pos hlt, History.places] at hplaces
  have hwaits : ∀ {ids : List Nat} {tasks : List BuildTask}, Forall₂ (Waits cfg h) ids tasks → job ∈ ids →
      ∃ stage : Stage, stage.Holds cfg.retry b.specs.length (h.calls job) (h.stores job) (h.entries job) := by
    intro ids tasks hall hmem
    induction hall with
    | nil => cases hmem
    | cons hwaits _ ih =>
      rcases mem_cons.1 hmem with rfl | hmem
      · obtain ⟨b', hb', _, _, hholds⟩ := hwaits
        rw [hb, Option.some.injEq] at hb'
        exact ⟨_, hb' ▸ hholds⟩
      · exact ih hmem
  by_cases hentries : h.entries job = []
  · rw [hentries] at hplaces
    by_cases hqueue : job ∈ h.queueIds
    · exact hwaits haccounted.queue hqueue
    · by_cases hretries : job ∈ h.retryIds
      · exact hwaits haccounted.retries hretries
      · -- The only place left is a goroutine.
        have hcounts : h.queueIds.count job = 0 ∧ h.retryIds.count job = 0 :=
          ⟨count_eq_zero.2 hqueue, count_eq_zero.2 hretries⟩
        have hposted : some job ∈ h.posts := by
          by_contra hnone
          have hzero : total (worksFor job) h.posts = 0 := by
            apply total_eq_zero
            intro post hpost
            rw [worksFor, if_neg]
            rintro rfl
            exact hnone hpost
          simp only [length_nil] at hplaces
          omega
        obtain ⟨w, _, ⟨hidle, _⟩ | ⟨job', hpost, b', stage, hb', _, _, _, hholds⟩⟩ := haccounted.at_post hposted
        · cases hidle
        · cases hpost
          rw [hb, Option.some.injEq] at hb'
          exact ⟨stage, hb' ▸ hholds⟩
  · obtain ⟨success, hended⟩ := haccounted.ended job b hb hentries
    exact ⟨_, hended⟩

theorem Accounted.returned (haccounted : Accounted cfg h) (hphases : Phases h.state) {err : Option Bytes}
    (hreturned : h.state.main = .returned err) {job : Nat} (hb : h.jobs[job]? = some b) :
    ∃ success, Stage.Holds cfg.retry b.specs.length (h.calls job) (h.stores job) (h.entries job)
      (.ended success) := by
  have hlt : job < h.jobs.length := (List.getElem?_eq_some_iff.1 hb).1
  have hqueue : h.queueIds = [] := haccounted.queue_empty (hphases.ended (by rw [hreturned]; rfl))
  have hretries : h.retryIds = [] := by
    have hwaits := haccounted.retries
    rw [hreturned] at hwaits
    exact forall₂_nil_right_iff.1 hwaits
  have hposts : total (worksFor job) h.posts = 0 := by
    apply total_eq_zero
    intro post hpost
    obtain ⟨w, hw, ⟨hidle, _⟩ | ⟨job', _, hworks⟩⟩ := haccounted.at_post hpost
    · cases hidle
      rfl
    · have hexited := hphases.quiet (by rw [hreturned]; rfl) w hw
      exact (hworks.not_idle fun _ _ => by rw [hexited]; rfl).elim
  have hplaces := haccounted.places job
  rw [if_pos hlt, History.places, hposts, hqueue, hretries] at hplaces
  refine haccounted.ended job b hb ?_
  intro hnone
  rw [hnone] at hplaces
  cases hplaces

theorem Accountable.roomy {t : State} (hstart : Accountable cfg start)
    (hexec : exec (step cfg) start acts = some t) : t.Roomy := by
  cases hstart with
  | batch h => exact batch_roomy h hexec
  | streaming h hone =>
    unfold startStreaming at h
    split_ifs at h
    cases h
    have hjobs : total cfg.jobCount cfg.entries ≤ total (fun _ => 1) cfg.entries :=
      total_le_total _ hone
    rw [total_one] at hjobs
    refine roomy_run ?_ hexec
    simp only [State.tasks, initial, ProducerPc.tasks, MainPc.tasks, length_nil, total_nil]
    omega

theorem Conserved.releases (hconserved : Conserved cfg s) (hworker : s.workers[k]? = some w)
    (hholds : w.pc.holdsSlot = 1) : ∃ pool, s.pool.releaseAddrSlot w.slot = some pool := by
  have hle := Ledger.le_total (Worker.holds w.slot) (mem_of_getElem? hworker)
  rw [Worker.holds, if_pos rfl, hholds] at hle
  have htokens := hconserved.slots w.slot
  rw [State.holders] at htokens
  rw [Pool.AddrPool.releaseAddrSlot]
  cases ho : s.pool.objects[w.slot]? with
  | none =>
    have hempty : slotTokens s.pool w.slot = 0 := by simp [slotTokens, ho]
    omega
  | some o =>
    rw [tokens_of_object ho] at htokens
    exact ⟨_, if_pos (by omega)⟩

theorem worker_moves (hconserved : Conserved cfg s) (hroomy : s.Roomy) (hworker : s.workers[k]? = some w)
    (hpc : w.pc ≠ .exited) : ∃ choice, (step cfg s (.worker k choice)).isSome = true := by
  have hstep : ∀ choice, step cfg s (.worker k choice) = workerStep cfg s k w choice := by
    intro choice
    simp only [step, hworker]
  cases hw : w.pc with
  | next specs => exact ⟨.go, by rw [hstep]; cases specs <;> simp [workerStep, hw]⟩
  | building spec rest =>
    refine ⟨.built true false, ?_⟩
    rw [hstep]
    simp [workerStep, hw]
  | retrying specs => exact ⟨.go, hroomy.send hworker hw⟩
  | storing spec rest success => exact ⟨.stored (.ok ()), by rw [hstep]; simp [workerStep, hw]⟩
  | releaseSlot =>
    obtain ⟨pool, hpool⟩ := hconserved.releases hworker (by rw [hw]; rfl)
    exact ⟨.go, by rw [hstep]; simp [workerStep, hw, hpool]⟩
  | releaseGlobal =>
    have hle := Ledger.le_total (fun w : Worker => w.pc.holdsGlobal) (mem_of_getElem? hworker)
    have hglobal := hconserved.global
    rw [hw] at hle
    have htoken : 0 < s.globalSem := by
      rw [hglobal]
      exact hle
    exact ⟨.go, by rw [hstep]; simp [workerStep, hw, htoken]⟩
  | persistFatal | persistFailed | finish | setFailed | cancel | done =>
    exact ⟨.go, by rw [hstep]; simp [workerStep, hw]⟩
  | exited => exact absurd hw hpc

/-- The calls and the stored results of every job, at any time. -/
theorem batch_accounting (hstart : Accountable cfg start) (hfailfast : cfg.failfast = false)
    (hok : Runs.Along (recordedStep cfg) (fun h a => Smooth h.state a) (History.start start) acts)
    (hexec : Runs.exec (recordedStep cfg) (History.start start) acts = some h) :
    (∀ job b, h.jobs[job]? = some b →
      (∀ (i j : Nat) spec other success, i < j → (h.calls job)[i]? = some (spec, true) →
        (h.calls job)[j]? = some (other, success) → other ≠ spec) ∧
      (∀ (j : Nat) spec success, (h.calls job)[j]? = some (spec, success) →
        spec < b.specs.length ∧ ∀ earlier < spec, ∃ i < j, (h.calls job)[i]? = some (earlier, true)) ∧
      (h.calls job).length ≤ b.specs.length + cfg.retry ∧ (h.entries job).length ≤ 1 ∧
      ∀ err, h.state.main = .returned err → ∃ success, h.entries job = [success] ∧
        (success = true ↔ ∀ spec < b.specs.length, lastOutcome spec (h.calls job) = some true) ∧
        ∀ spec, lastOutcome spec (h.calls job) ≠ none →
          lastOutcome spec (h.stores job) = lastOutcome spec (h.calls job)) ∧
    h.state.results = h.log.filterMap h.result? ∧ h.state.upserts = h.log.filterMap h.upsert? ∧
    ∀ k w, h.state.workers[k]? = some w → w.pc ≠ .exited →
      ∃ choice, (step cfg h.state (.worker k choice)).isSome = true := by
  have haccounted := accounted_run hstart hfailfast hok hexec
  have hphases := phases_run hstart hok hexec
  refine ⟨?_, haccounted.results, haccounted.upserts, ?_⟩
  · intro job b hb
    obtain ⟨stage, hstage⟩ := haccounted.stage hb
    obtain ⟨⟨done, failures, hcalls⟩, hlength⟩ := hstage.calls_ok
    refine ⟨?_, ?_, hlength, ?_, ?_⟩
    · intro i j spec other success hlt hfirst hsecond
      exact Nat.ne_of_gt (hcalls.not_again hlt hfirst hsecond)
    · intro j spec success hcall
      exact ⟨(hcalls.bounds (List.mem_of_getElem? hcall)).1, fun earlier hlt => hcalls.in_order hcall hlt⟩
    · have hplaces := haccounted.places job
      split_ifs at hplaces <;> omega
    · intro err hreturned
      obtain ⟨success, hconcluded, hentries⟩ := haccounted.returned hphases hreturned hb
      exact ⟨success, hentries, hconcluded.success_iff, fun spec hcalled => hconcluded.last_stored hcalled⟩
  · intro k w hworker hpc
    obtain ⟨specs, hstarts⟩ := hstart.starts
    have hbase : Runs.exec (step cfg) start acts = some h.state :=
      (exec_recorded (h := History.start start)).2 ⟨h, hexec, rfl⟩
    exact worker_moves (conserved_run hstarts hbase) (hstart.roomy hbase) hworker hpc

theorem batch_accounting_retried :
    ∃ start h, startBatch (sampleConfig [false] []) [sampleAddr] noResults [sampleJob] = .ok start ∧
      Runs.exec (recordedStep (sampleConfig [false] [])) (History.start start) sampleRetried = some h ∧
      h.state.main = .returned none ∧ h.calls 0 = [(0, false), (0, true)] ∧ h.entries 0 = [true] ∧
      lastOutcome 0 (h.stores 0) = some true := by
  have hstart : startBatch (sampleConfig [false] []) [sampleAddr] noResults [sampleJob] = .ok sampleBatch := rfl
  have hok : Runs.Along (recordedStep (sampleConfig [false] [])) (fun h a => Smooth h.state a)
      (History.start sampleBatch) sampleRetried := by decide +kernel
  have hends : (Runs.exec (recordedStep (sampleConfig [false] [])) (History.start sampleBatch) sampleRetried).map
      (fun h => (h.state.main, h.calls 0, h.jobs)) = some (.returned none, [(0, false), (0, true)], [sampleJob]) := by
    decide +kernel
  obtain ⟨h, hexec, hend⟩ := Option.map_eq_some_iff.1 hends
  simp only [Prod.mk.injEq] at hend
  obtain ⟨hmain, hcalls, hjobs⟩ := hend
  have haccounts := (batch_accounting (.batch hstart) rfl hok hexec).1 0 sampleJob (by rw [hjobs]; rfl)
  obtain ⟨_, _, _, _, hreturned⟩ := haccounts
  obtain ⟨success, hentries, hsuccess, hstored⟩ := hreturned none hmain
  have hlast : lastOutcome 0 (h.calls 0) = some true := by rw [hcalls]; rfl
  have hspecs : ∀ spec < sampleJob.specs.length, lastOutcome spec (h.calls 0) = some true := by
    intro spec hspec
    obtain rfl : spec = 0 := Nat.lt_one_iff.1 hspec
    exact hlast
  rw [hsuccess.2 hspecs] at hentries
  refine ⟨sampleBatch, h, hstart, hexec, hmain, hcalls, hentries, ?_⟩
  rw [hstored 0 (by rw [hlast]; exact nofun), hlast]

end BuildkitService.Batch
