import BuildkitService.Lib.Threads
import BuildkitService.Batch.Run

/-!
# The history of a batch run

A job keeps its identity only in the head of a reader: a retry is a new task with the rest of the
specs, and two jobs may look alike.
-/

namespace BuildkitService.Batch

open List

/-! ### The log -/

inductive Event where
  | called (job spec : Nat) (success : Bool)
  | stored (job spec : Nat) (success : Bool)
  | entered (job : Nat) (success : Bool)
  deriving DecidableEq, Repr

structure History where
  state : State
  jobs : List BuildJob
  posts : List (Option Nat)
  queueIds : List Nat
  retryIds : List Nat
  log : List Event

def History.position (h : History) (job : Nat) (rest : List BuildSpec) : Nat :=
  ((h.jobs[job]?).map fun job => job.specs.length).getD 0 - (rest.length + 1)

def History.recordMain (h : History) (choice : Choice) : History :=
  match h.state.main, choice with
  | .schedule (.global _) _ (.retry _), .go =>
      { h with posts := h.posts ++ [h.retryIds.head?], retryIds := h.retryIds.tail }
  | .schedule (.global _) task _, .go =>
      { h with jobs := h.jobs ++ [task.job], posts := h.posts ++ [some h.jobs.length] }
  | .select, .go | .drain _, .go =>
      { h with queueIds := h.queueIds.tail, retryIds := h.retryIds ++ h.queueIds.take 1 }
  | _, _ => h

def History.recordWorker (h : History) (k job : Nat) (pc : WorkerPc) (choice : WorkerChoice) : History :=
  match pc, choice with
  | .building _ rest, .built success _ => { h with log := h.log ++ [.called job (h.position job rest) success] }
  | .retrying _, _ => { h with queueIds := h.queueIds ++ [job], posts := h.posts.set k none }
  | .storing _ rest success, .stored (.ok ()) =>
      { h with log := h.log ++ [.stored job (h.position job rest) success] }
  | .finish success, _ => { h with log := h.log ++ [.entered job success], posts := h.posts.set k none }
  | _, _ => h

def History.record (h : History) (a : Action) (s' : State) : History :=
  match a with
  | .main choice => { h.recordMain choice with state := s' }
  | .worker k choice =>
      match h.state.workers[k]?, h.posts[k]? with
      | some w, some (some job) => { h.recordWorker k job w.pc choice with state := s' }
      | _, _ => { h with state := s' }
  | _ => { h with state := s' }

def recordedStep (cfg : Config) (h : History) (a : Action) : Option History :=
  (step cfg h.state a).map (h.record a)

def History.start (s : State) : History := ⟨s, [], [], [], [], []⟩

theorem record_state (h : History) (a : Action) (s' : State) : (h.record a s').state = s' := by
  unfold History.record
  split
  · rfl
  · split <;> rfl
  · rfl

theorem exec_recorded {cfg : Config} {h : History} {acts : List Action} {t : State} :
    Runs.exec (step cfg) h.state acts = some t ↔
      ∃ h', Runs.exec (recordedStep cfg) h acts = some h' ∧ h'.state = t := by
  induction acts generalizing h with
  | nil => simp
  | cons a acts ih =>
    simp only [Runs.exec_cons_eq_some, recordedStep, Option.map_eq_some_iff]
    constructor
    · rintro ⟨s', hstep, hrest⟩
      rw [← record_state h a s'] at hrest
      obtain ⟨h', hexec, hstate⟩ := ih.1 hrest
      exact ⟨h', ⟨h.record a s', ⟨s', hstep, rfl⟩, hexec⟩, hstate⟩
    · rintro ⟨h', ⟨_, ⟨s', hstep, rfl⟩, hexec⟩, hstate⟩
      have hrest := ih.2 ⟨h', hexec, hstate⟩
      rw [record_state] at hrest
      exact ⟨s', hstep, hrest⟩

/-! ### The log of one job -/

def Event.call? (job : Nat) : Event → Option (Nat × Bool)
  | .called j spec success => if j = job then some (spec, success) else none
  | _ => none

def Event.store? (job : Nat) : Event → Option (Nat × Bool)
  | .stored j spec success => if j = job then some (spec, success) else none
  | _ => none

def Event.entry? (job : Nat) : Event → Option Bool
  | .entered j success => if j = job then some success else none
  | _ => none

def History.calls (h : History) (job : Nat) : List (Nat × Bool) := h.log.filterMap (Event.call? job)

def History.stores (h : History) (job : Nat) : List (Nat × Bool) := h.log.filterMap (Event.store? job)

def History.entries (h : History) (job : Nat) : List Bool := h.log.filterMap (Event.entry? job)

def lastOutcome (spec : Nat) (calls : List (Nat × Bool)) : Option Bool :=
  (calls.reverse.find? fun call => call.1 == spec).map Prod.snd

@[simp] theorem lastOutcome_nil (spec : Nat) : lastOutcome spec [] = none := rfl

theorem lastOutcome_snoc (spec : Nat) (calls : List (Nat × Bool)) (call : Nat × Bool) :
    lastOutcome spec (calls ++ [call]) = if call.1 = spec then some call.2 else lastOutcome spec calls := by
  rw [lastOutcome, reverse_append, reverse_singleton, singleton_append, find?_cons]
  by_cases hspec : call.1 = spec
  · simp [hspec]
  · have hne : (call.1 == spec) = false := beq_eq_false_iff_ne.2 hspec
    simp [hspec, hne, lastOutcome]

inductive Calls (len : Nat) : List (Nat × Bool) → Nat → Nat → Prop
  | none : Calls len [] 0 0
  | success {calls : List (Nat × Bool)} {done failures : Nat} (hcalls : Calls len calls done failures)
      (hlt : done < len) : Calls len (calls ++ [(done, true)]) (done + 1) failures
  | failure {calls : List (Nat × Bool)} {done failures : Nat} (hcalls : Calls len calls done failures)
      (hlt : done < len) : Calls len (calls ++ [(done, false)]) done (failures + 1)

variable {spec : Nat} {success : Bool}

section Calls

variable {len done failures : Nat} {calls : List (Nat × Bool)}

section

variable (hcalls : Calls len calls done failures)

include hcalls

theorem Calls.done_le : done ≤ len := by
  induction hcalls with
  | none => exact Nat.zero_le len
  | success _ hlt => exact hlt
  | failure _ hlt => exact le_of_lt hlt

theorem Calls.length_eq : calls.length = done + failures := by
  induction hcalls with
  | none => rfl
  | success _ _ ih | failure _ _ ih =>
    rw [length_append, length_singleton, ih]
    omega

theorem Calls.succeeded (hspec : spec < done) : ∃ i < calls.length, calls[i]? = some (spec, true) := by
  induction hcalls with
  | none => omega
  | @success calls done failures _ _ ih =>
    rw [length_append, length_singleton]
    by_cases hlast : spec = done
    · exact ⟨calls.length, by omega, by simp [hlast]⟩
    · obtain ⟨i, hi, hcall⟩ := ih (by omega)
      exact ⟨i, by omega, by rw [getElem?_append_left hi, hcall]⟩
  | failure _ _ ih =>
    obtain ⟨i, hi, hcall⟩ := ih hspec
    rw [length_append, length_singleton]
    exact ⟨i, by omega, by rw [getElem?_append_left hi, hcall]⟩

theorem Calls.bounds (hcall : (spec, success) ∈ calls) :
    spec < len ∧ (if success then spec < done else spec ≤ done) := by
  induction hcalls with
  | none => simp at hcall
  | success _ hlt ih =>
    rcases mem_append.1 hcall with hold | hnew
    · have hbounds := ih hold
      refine ⟨hbounds.1, ?_⟩
      cases success <;> simp only [Bool.false_eq_true, if_true, if_false] at hbounds ⊢ <;> omega
    · simp only [mem_singleton, Prod.mk.injEq] at hnew
      obtain ⟨rfl, rfl⟩ := hnew
      exact ⟨hlt, by simp⟩
  | failure _ hlt ih =>
    rcases mem_append.1 hcall with hold | hnew
    · exact ih hold
    · simp only [mem_singleton, Prod.mk.injEq] at hnew
      obtain ⟨rfl, rfl⟩ := hnew
      exact ⟨hlt, by simp⟩

theorem Calls.in_order {j : Nat}
    (hcall : calls[j]? = some (spec, success)) {earlier : Nat} (hearlier : earlier < spec) :
    ∃ i < j, calls[i]? = some (earlier, true) := by
  induction hcalls with
  | none => simp at hcall
  | @success calls done _ hbefore _ ih | @failure calls done _ hbefore _ ih =>
    rcases Threads.getElem?_snoc hcall with hold | ⟨rfl, hnew⟩
    · obtain ⟨i, hi, hi'⟩ := ih hold
      have hj : j < calls.length := (List.getElem?_eq_some_iff.1 hold).1
      exact ⟨i, hi, by rw [getElem?_append_left (by omega), hi']⟩
    · obtain ⟨rfl, rfl⟩ := Prod.mk.inj hnew
      obtain ⟨i, hi, hi'⟩ := hbefore.succeeded hearlier
      exact ⟨i, hi, by rw [getElem?_append_left hi, hi']⟩

theorem Calls.not_again {i j other : Nat} (hlt : i < j)
    (hfirst : calls[i]? = some (spec, true)) (hsecond : calls[j]? = some (other, success)) :
    spec < other := by
  induction hcalls with
  | none => simp at hfirst
  | @success calls done _ hbefore _ ih | @failure calls done _ hbefore _ ih =>
    rcases Threads.getElem?_snoc hsecond with hold | ⟨rfl, hnew⟩
    · have hj : j < calls.length := (List.getElem?_eq_some_iff.1 hold).1
      rw [getElem?_append_left (by omega)] at hfirst
      exact ih hfirst hold
    · obtain ⟨rfl, rfl⟩ := Prod.mk.inj hnew
      rw [getElem?_append_left hlt] at hfirst
      exact (hbefore.bounds (mem_of_getElem? hfirst)).2

end

theorem mem_of_lastOutcome (hlast : lastOutcome spec calls = some success) : (spec, success) ∈ calls := by
  obtain ⟨call, hfind, rfl⟩ := Option.map_eq_some_iff.1 hlast
  have hspec : call.1 = spec := by simpa using find?_some hfind
  have hmem := mem_reverse.1 (mem_of_find?_eq_some hfind)
  rw [← hspec]
  exact hmem

theorem filter_success (calls : List (Nat × Bool)) (spec : Nat) :
    (calls ++ [(spec, true)]).filter Prod.snd = calls.filter Prod.snd ++ [(spec, true)] := by
  rw [filter_append]
  rfl

theorem filter_failure (calls : List (Nat × Bool)) (spec : Nat) :
    (calls ++ [(spec, false)]).filter Prod.snd = calls.filter Prod.snd := by
  simp

theorem Calls.lastOutcome_of_lt (hcalls : Calls len calls done failures) (hspec : spec < done) :
    lastOutcome spec calls = some true ∧ lastOutcome spec (calls.filter Prod.snd) = some true := by
  induction hcalls with
  | none => omega
  | @success calls done _ _ _ ih =>
    rw [filter_success, lastOutcome_snoc, lastOutcome_snoc]
    by_cases hlast : done = spec
    · simp [hlast]
    · rw [if_neg hlast, if_neg hlast]
      exact ih (by omega)
  | @failure calls done _ _ _ ih =>
    have hne : done ≠ spec := by omega
    rw [filter_failure, lastOutcome_snoc, if_neg hne]
    exact ih hspec

theorem Calls.lastOutcome_next (hcalls : Calls len calls done failures) : lastOutcome done calls ≠ some true := by
  intro hlast
  have hbounds := (hcalls.bounds (mem_of_lastOutcome hlast)).2
  simp at hbounds

end Calls

/-! ### Stages of a job -/

inductive Stage where
  | ready (done failures : Nat)
  | called (done failures : Nat) (success : Bool)
  | finished (success : Bool)
  | ended (success : Bool)
  deriving DecidableEq, Repr

def Concluded (retry len : Nat) (calls stores : List (Nat × Bool)) : Bool → Prop
  | true => ∃ failures ≤ retry, Calls len calls len failures ∧ stores = calls.filter Prod.snd
  | false => ∃ done < len, Calls len calls done (retry + 1) ∧ lastOutcome done calls = some false ∧
      stores = calls.filter Prod.snd ++ [(done, false)]

def Stage.Holds (retry len : Nat) (calls stores : List (Nat × Bool)) (entries : List Bool) : Stage → Prop
  | .ready done failures => Calls len calls done failures ∧ failures ≤ retry ∧
      stores = calls.filter Prod.snd ∧ entries = []
  | .called done failures true => done < len ∧ Calls len calls (done + 1) failures ∧ failures ≤ retry ∧
      stores ++ [(done, true)] = calls.filter Prod.snd ∧ entries = []
  | .called done failures false => done < len ∧ Calls len calls done (failures + 1) ∧ failures = retry ∧
      lastOutcome done calls = some false ∧ stores = calls.filter Prod.snd ∧ entries = []
  | .finished success => Concluded retry len calls stores success ∧ entries = []
  | .ended success => Concluded retry len calls stores success ∧ entries = [success]

section Stages

variable {retry len done failures : Nat} {calls stores : List (Nat × Bool)} {entries : List Bool}

theorem Stage.call (success : Bool) (hlt : done < len)
    (hready : Stage.Holds retry len calls stores entries (.ready done failures)) :
    Stage.Holds retry len (calls ++ [(done, success)]) stores entries
      (if success = false ∧ failures < retry then .ready done (failures + 1)
        else .called done failures success) := by
  obtain ⟨hcalls, hbudget, hstores, hentries⟩ := hready
  cases success with
  | true =>
    rw [if_neg (by simp)]
    refine ⟨hlt, hcalls.success hlt, hbudget, ?_, hentries⟩
    rw [filter_success, hstores]
  | false =>
    have hkept : stores = (calls ++ [(done, false)]).filter Prod.snd := by rw [filter_failure, hstores]
    split_ifs with hretry
    · exact ⟨hcalls.failure hlt, hretry.2, hkept, hentries⟩
    · refine ⟨hlt, hcalls.failure hlt, ?_, ?_, hkept, hentries⟩
      · simp only [true_and] at hretry
        omega
      · rw [lastOutcome_snoc, if_pos rfl]

theorem Stage.store (hcalled : Stage.Holds retry len calls stores entries (.called done failures success)) :
    Stage.Holds retry len calls (stores ++ [(done, success)]) entries
      (if success then .ready (done + 1) failures else .finished false) := by
  cases success with
  | true =>
    obtain ⟨_, hcalls, hbudget, hstores, hentries⟩ := hcalled
    exact ⟨hcalls, hbudget, hstores, hentries⟩
  | false =>
    obtain ⟨hlt, hcalls, rfl, hlast, hstores, hentries⟩ := hcalled
    exact ⟨⟨done, hlt, hcalls, hlast, by rw [hstores]⟩, hentries⟩

theorem Stage.finish (hready : Stage.Holds retry len calls stores entries (.ready len failures)) :
    Stage.Holds retry len calls stores entries (.finished true) := by
  obtain ⟨hcalls, hbudget, hstores, hentries⟩ := hready
  exact ⟨⟨failures, hbudget, hcalls, hstores⟩, hentries⟩

theorem Stage.enter (hfinished : Stage.Holds retry len calls stores entries (.finished success)) :
    Stage.Holds retry len calls stores (entries ++ [success]) (.ended success) := by
  obtain ⟨hconcluded, rfl⟩ := hfinished
  exact ⟨hconcluded, rfl⟩

theorem Stage.Holds.calls_ok {stage : Stage} (hstage : stage.Holds retry len calls stores entries) :
    (∃ done failures, Calls len calls done failures) ∧ calls.length ≤ len + retry := by
  cases stage with
  | ready done failures =>
    obtain ⟨hcalls, hbudget, _⟩ := hstage
    have hdone := hcalls.done_le
    have hlength := hcalls.length_eq
    exact ⟨⟨_, _, hcalls⟩, by omega⟩
  | called done failures success =>
    cases success with
    | true =>
      obtain ⟨_, hcalls, hbudget, _⟩ := hstage
      have hdone := hcalls.done_le
      have hlength := hcalls.length_eq
      exact ⟨⟨_, _, hcalls⟩, by omega⟩
    | false =>
      obtain ⟨hlt, hcalls, hbudget, _⟩ := hstage
      have hlength := hcalls.length_eq
      exact ⟨⟨_, _, hcalls⟩, by omega⟩
  | finished success | ended success =>
    cases success with
    | true =>
      obtain ⟨⟨failures, hbudget, hcalls, _⟩, _⟩ := hstage
      have hlength := hcalls.length_eq
      exact ⟨⟨_, _, hcalls⟩, by omega⟩
    | false =>
      obtain ⟨⟨done, hlt, hcalls, _⟩, _⟩ := hstage
      have hlength := hcalls.length_eq
      exact ⟨⟨_, _, hcalls⟩, by omega⟩

theorem Concluded.success_iff (hconcluded : Concluded retry len calls stores success) :
    success = true ↔ ∀ spec < len, lastOutcome spec calls = some true := by
  cases success with
  | true =>
    obtain ⟨failures, _, hcalls, _⟩ := hconcluded
    exact ⟨fun _ spec hspec => (hcalls.lastOutcome_of_lt hspec).1, fun _ => rfl⟩
  | false =>
    obtain ⟨done, hlt, hcalls, _⟩ := hconcluded
    exact ⟨nofun, fun hall => absurd (hall done hlt) hcalls.lastOutcome_next⟩

theorem Concluded.last_stored (hconcluded : Concluded retry len calls stores success)
    (hcalled : lastOutcome spec calls ≠ none) : lastOutcome spec stores = lastOutcome spec calls := by
  obtain ⟨outcome, houtcome⟩ := Option.ne_none_iff_exists'.1 hcalled
  have hmem := mem_of_lastOutcome houtcome
  cases success with
  | true =>
    obtain ⟨failures, _, hcalls, rfl⟩ := hconcluded
    obtain ⟨hcall, hkept⟩ := hcalls.lastOutcome_of_lt (hcalls.bounds hmem).1
    rw [hcall, hkept]
  | false =>
    obtain ⟨done, hlt, hcalls, hlast, rfl⟩ := hconcluded
    rw [lastOutcome_snoc]
    by_cases hnext : done = spec
    · rw [if_pos hnext, ← hnext, hlast]
    · have hbefore : spec < done := by
        have hbounds := (hcalls.bounds hmem).2
        cases outcome <;> simp only [Bool.false_eq_true, if_true, if_false] at hbounds <;> omega
      obtain ⟨hcall, hkept⟩ := hcalls.lastOutcome_of_lt hbefore
      rw [if_neg hnext, hcall, hkept]

end Stages

end BuildkitService.Batch
