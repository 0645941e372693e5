import BuildkitService.Daemon.Stages
import BuildkitService.Daemon.Workers

/-!
# What the record of a task says

A record is written by five updates: a task is queued, given a worker, cancelled, finished, and its
`done` channel is dropped.
-/

namespace BuildkitService.Daemon

open Strings Pool

variable {cfg : Config} {sh : Shared} {c c' : Cell} {r : Record} {op : Op} {a : Action} {s : State}

structure Consistent (r : Record) : Prop where
  queued : r.status = .queued → r.buildkitAddr = [] ∧ r.nodeIP = []
  running : r.status = .running → r.buildkitAddr ≠ [] ∧ r.startedAt.isSome = true
  finished : r.finishedAt.isSome = true ↔ r.status.terminal = true
  terminal : r.observed = true → r.status.terminal = true
  observed : r.status.terminal = true → r.observed = false → r.status = .canceled

theorem Consistent.settled (hconsistent : Consistent r) : Settled r := by
  refine ⟨hconsistent.terminal, ?_⟩
  intro hstatus
  by_contra hobserved
  have hcanceled := hconsistent.observed (by rcases hstatus with h | h <;> rw [h] <;> rfl)
    (eq_false_of_ne_true hobserved)
  rcases hstatus with h | h <;> rw [h] at hcanceled <;> cases hcanceled

theorem consistent_created (now : Nat) : Consistent (.created now) :=
  ⟨fun _ => ⟨rfl, rfl⟩, nofun, by simp [Record.created, BuildStatus.terminal], nofun, nofun⟩

theorem Consistent.open (hconsistent : Consistent r) (hopen : r.status.terminal = false) :
    r.finishedAt = none ∧ r.observed = false := by
  constructor
  · rw [← Option.not_isSome_iff_eq_none, hconsistent.finished, hopen]
    exact Bool.false_ne_true
  · by_contra hobserved
    have hterminal := hconsistent.terminal (eq_true_of_ne_false hobserved)
    rw [hopen] at hterminal
    cases hterminal

theorem RecordNext.consistent {r' : Record} (hrecord : RecordNext sh r op r') (hconsistent : Consistent r)
    (hop : op.FinishesTerminal) (haddressed : Addressed sh.pool) : Consistent r' := by
  cases hrecord with
  | queued hopen queuedAt =>
    obtain ⟨hfinished, hobserved⟩ := hconsistent.open (terminal_iff.2 hopen)
    refine ⟨fun _ => ⟨rfl, rfl⟩, fun h => (by cases h), ?_, ?_, fun h => (by cases h)⟩
    · simp [hfinished, BuildStatus.terminal]
    · intro htrue
      rw [hobserved] at htrue
      cases htrue
  | @assigned slot o hfree hslot =>
    have hopen : r.status.terminal = false := by
      by_contra hterminal
      exact hfree (hconsistent.settled.canceled_or_observed (eq_true_of_ne_false hterminal))
    obtain ⟨hfinished, hobserved⟩ := hconsistent.open hopen
    refine ⟨fun h => (by cases h), fun _ => ⟨haddressed o (List.mem_of_getElem? hslot), ?_⟩, ?_, ?_, fun h => (by cases h)⟩
    · cases r.startedAt <;> rfl
    · simp [hfinished, BuildStatus.terminal]
    · intro htrue
      rw [hobserved] at htrue
      cases htrue
  | @finished status exporter err finished hobserved hstatus =>
    have hterminal : status.terminal = true := hop
    refine ⟨?_, ?_, by simp [hterminal], fun _ => hterminal, fun _ h => by cases h⟩
    · rintro rfl
      cases hterminal
    · rintro rfl
      cases hterminal
  | canceled hopen =>
    exact ⟨fun h => (by cases h), fun h => (by cases h), by simp [BuildStatus.terminal], fun _ => rfl, fun _ _ => rfl⟩

theorem RecordNext.startedAt {r' : Record} (hrecord : RecordNext sh r op r') (hstarted : r.startedAt ≠ none) :
    r'.startedAt = r.startedAt := by
  cases hrecord with
  | assigned hfree hslot =>
    obtain ⟨started, hsome⟩ := Option.ne_none_iff_exists'.1 hstarted
    rw [hsome]
    rfl
  | _ => rfl

theorem onCell_consistent (hconsistent : Consistent c.record) (hop : op.FinishesTerminal)
    (haddressed : Addressed sh.pool) : Consistent (op.onCell sh c).record := by
  have hnext := onCell_next sh c op
  generalize op.onCell sh c = c' at hnext ⊢
  cases hnext with
  | rewritten _ hrecord => exact hrecord.consistent hconsistent hop haddressed
  | doneClosed _ =>
    exact ⟨hconsistent.queued, hconsistent.running, hconsistent.finished, hconsistent.terminal,
      hconsistent.observed⟩
  | _ => exact hconsistent

theorem onCell_startedAt (hstarted : c.record.startedAt ≠ none) :
    (op.onCell sh c).record.startedAt = c.record.startedAt := by
  have hnext := onCell_next sh c op
  generalize op.onCell sh c = c' at hnext ⊢
  cases hnext with
  | rewritten _ hrecord => exact hrecord.startedAt hstarted
  | _ => rfl

/-! ### Runs -/

structure Recorded (s : State) : Prop where
  admitted : Admitted s
  accounted : Accounted s
  addressed : Addressed s.shared.pool
  records : ∀ (i : Nat) (c : Cell), s.cells[i]? = some c → Consistent c.record

theorem CellStep.consistent {i : Nat} (hstep : CellStep cfg s a i c c') (haccounted : Accounted s)
    (haddressed : Addressed s.shared.pool) (hcell : s.cells[i]? = some c) (hconsistent : Consistent c.record) :
    Consistent c'.record := by
  cases hstep with
  | framed _ hrecord =>
    rw [hrecord]
    exact hconsistent
  | queued | reaped => exact hconsistent
  | handled hhandler hid hnext =>
    subst hid
    exact onCell_consistent hconsistent (haccounted.handlerOp hhandler hcell hnext).2 haddressed
  | moved _ hcontrol =>
    exact onCell_consistent hconsistent (haccounted.taskOp hcell (control_next hcontrol)).2 haddressed

theorem recorded_step {s' : State} (hinv : Recorded s) (hparsed : a.Parsed) (hstep : step cfg s a = some s') :
    Recorded s' := by
  have heffect := step_effect hstep
  obtain ⟨hadmitted, haccounted, haddressed, hrecords⟩ := hinv
  refine ⟨admitted_step hadmitted heffect, accounted_step hadmitted haccounted heffect,
    (poolNext_of_effect heffect).addressed hparsed haddressed, ?_⟩
  intro i c' hcell'
  rcases cellStep_of_effect hadmitted heffect hcell' with ⟨c, hcell, hcellstep⟩ | ⟨_, hcreated⟩
  · exact hcellstep.consistent haccounted haddressed hcell (hrecords i c hcell)
  · rw [hcreated]
    exact consistent_created _

theorem recorded_run {addrs : List BuildkitAddr} {addrConcurrency : Nat} {as : List Action}
    (haddrs : ParsedAddrs addrs) (hparsed : ∀ a ∈ as, a.Parsed)
    (hrun : Runs.exec (step cfg) (start addrs addrConcurrency) as = some s) : Recorded s := by
  refine Runs.exec_invariant_along (step cfg) (fun s a s' hinv hok hstep => recorded_step hinv hok hstep) ?_
    (Runs.along_of_forall (step cfg) (fun a ha _ => hparsed a ha) _) hrun
  exact ⟨admitted_start addrs addrConcurrency, accounted_start addrs addrConcurrency,
    addressed_start haddrs addrConcurrency, by simp [start]⟩

def KeepsStart (s t : State) : Prop :=
  ∀ (i : Nat) (c : Cell), s.cells[i]? = some c → c.record.startedAt ≠ none →
    ∃ d, t.cells[i]? = some d ∧ d.record.startedAt = c.record.startedAt

theorem CellStep.startedAt {i : Nat} (hstep : CellStep cfg s a i c c') (hstarted : c.record.startedAt ≠ none) :
    c'.record.startedAt = c.record.startedAt := by
  cases hstep with
  | framed _ hrecord => rw [hrecord]
  | queued | reaped => rfl
  | handled | moved => exact onCell_startedAt hstarted

/-- The fields of every record agree with its status. -/
theorem records_consistent {addrs : List BuildkitAddr} {addrConcurrency : Nat} {as bs : List Action} {s t : State}
    (haddrs : ParsedAddrs addrs) (hparsed : ∀ a ∈ as, a.Parsed)
    (hrun : Runs.exec (step cfg) (start addrs addrConcurrency) as = some s)
    (hlater : Runs.exec (step cfg) s bs = some t) :
    (∀ c ∈ s.cells, Consistent c.record) ∧ KeepsStart s t := by
  constructor
  · intro c hmem
    obtain ⟨i, hcell⟩ := List.getElem?_of_mem hmem
    exact (recorded_run haddrs hparsed hrun).records i c hcell
  · refine Runs.exec_relates (step cfg) ?_ ?_ accounted_keep ?_ (accounted_run hrun) hlater
    · exact fun s i c hcell _ => ⟨c, hcell, rfl⟩
    · intro s t u hfirst hsecond i c hcell hstarted
      obtain ⟨d, hd, hsame⟩ := hfirst i c hcell hstarted
      obtain ⟨e, he, hsame'⟩ := hsecond i d hd (hsame ▸ hstarted)
      exact ⟨e, he, hsame'.trans hsame⟩
    · intro s a s' hinv hstep i c hcell hstarted
      obtain ⟨c', hcell', hcellstep⟩ := cellStep_forward hinv.1 (step_effect hstep) hcell
      exact ⟨c', hcell', hcellstep.startedAt hstarted⟩

def sampleNet : Net where
  splitHostPort _ := .ok (ascii "10.0.0.1", ascii "9094")
  parseIP _ := some (ascii "10.0.0.1")
  lookupHost _ := .error []
  joinHostPort host port := host ++ ascii ":" ++ port

theorem sample_parsed :
    ParsedAddrs [⟨ascii "10.0.0.1:9094", ascii "tcp://10.0.0.1:9094", ascii "10.0.0.1"⟩] :=
  ⟨sampleNet, ascii "10.0.0.1:9094", by decide +kernel⟩

theorem records_consistent_failover : ∃ s t,
    Runs.exec (step sampleConfig) sampleStart sampleBuild = some s ∧
    Runs.exec (step sampleConfig) s [.task 0 (.result [] (some (ascii "connection refused"))), .task 0 .go] = some t ∧
    (∀ c ∈ s.cells, Consistent c.record) ∧ KeepsStart s t := by
  have hruns : ((Runs.exec (step sampleConfig) sampleStart sampleBuild).bind fun s => Runs.exec (step sampleConfig) s
      [.task 0 (.result [] (some (ascii "connection refused"))), .task 0 .go]).isSome = true := by decide +kernel
  obtain ⟨t, ht⟩ := Option.isSome_iff_exists.1 hruns
  obtain ⟨s, hrun, hlater⟩ := Option.bind_eq_some_iff.1 ht
  have hparsed : ∀ a ∈ sampleBuild, a.Parsed := by
    intro a ha addrs haddrs
    have hnone : ∀ a ∈ sampleBuild, a.installs = none := by simp [sampleBuild, Action.installs]
    rw [hnone a ha] at haddrs
    cases haddrs
  exact ⟨s, t, hrun, hlater, records_consistent sample_parsed hparsed hrun hlater⟩

end BuildkitService.Daemon
