import BuildkitService.Daemon.Records
import BuildkitService.Daemon.Waiting

/-!
# The last build of a failed task

A task that fails reports an error, and its record keeps the worker of the last build.
-/

namespace BuildkitService.Daemon

open Strings Pool List Runs

variable {cfg : Config} {sh : Shared} {c c' : Cell} {w : BuildkitAddr} {err : Bytes} {op : Op}
  {pc pc' : TaskPc} {a : Attempt} {p : AddrPool} {slot : Nat} {b : Action} {s' : State}

def Names (w : BuildkitAddr) (r : Record) : Prop :=
  r.status = .canceled ∨ (r.buildkitAddr = w.addr ∧ r.nodeIP = w.nodeIP)

theorem Names.of_record (hnames : Names w c.record)
    (hrecord : c'.record = c.record ∨ c'.record.status = .canceled) : Names w c'.record := by
  rcases hrecord with hsame | hcanceled
  · rw [hsame]
    exact hnames
  · exact .inl hcanceled

def Cell.Dead (c : Cell) : Prop :=
  c.record.status ≠ .failed ∧ (c.stored = false ∨ c.record.status.terminal = true)

structure ReportsBuild (w : BuildkitAddr) (err : Bytes) (r : Record) : Prop where
  error : r.error = err
  buildkitAddr : r.buildkitAddr = w.addr
  nodeIP : r.nodeIP = w.nodeIP

def lastError (builds : List BuildCall) : Option Bytes :=
  (builds.getLast?.bind BuildCall.result).bind BuildResult.err

theorem lastError_finishCall (result : BuildResult) {builds : List BuildCall} (hbuilds : builds ≠ []) :
    lastError (finishCall result builds) = result.err := by
  induction builds with
  | nil => exact absurd rfl hbuilds
  | cons call calls ih =>
    cases calls with
    | nil => rfl
    | cons next calls =>
      have hne : finishCall result (next :: calls) ≠ [] := by
        rw [← length_pos_iff, length_finishCall]
        exact Nat.succ_pos _
      rw [finishCall, lastError, getLast?_cons_of_ne_nil hne, ← lastError, ih (cons_ne_nil _ _)]
      exact cons_ne_nil _ _

theorem HandlerNext.canceled_or_same {h : Handler} {pc next : HandlerPc}
    (hnext : HandlerNext sh c h pc op next) (hcancel : ∀ f, pc.finish? = some f → f.status = .canceled) :
    (op.onCell sh c).record = c.record ∨ (op.onCell sh c).record.status = .canceled := by
  have hfinish := hnext.finish_canceled hcancel
  have hwrites : op ≠ .markTaskQueued ∧ op ≠ .closeDone ∧ ∀ slot, op ≠ .assign slot := by
    cases hnext with
    | rejectFinishes hfinish | rejectFinished hfinish | cancelFinishes hfinish | cancelFinished hfinish =>
      cases hfinish <;> exact ⟨nofun, nofun, nofun⟩
    | @cancelsCtx cancels | @cancelReturns cancels => cases cancels <;> exact ⟨nofun, nofun, nofun⟩
    | _ => exact ⟨nofun, nofun, nofun⟩
  have hcell := onCell_next sh c op
  generalize op.onCell sh c = c' at hcell ⊢
  cases hcell with
  | rewritten _ hrecord =>
    right
    cases hrecord with
    | queued => exact absurd rfl hwrites.1
    | assigned => exact absurd rfl (hwrites.2.2 _)
    | finished => exact hfinish _ _ _ _ rfl
    | canceled => rfl
  | doneClosed => exact absurd rfl hwrites.2.1
  | _ => exact .inl rfl

theorem onCell_ctx (hctx : c.ctx.isSome = true) : (op.onCell sh c).ctx.isSome = true := by
  have hcell := onCell_next sh c op
  generalize op.onCell sh c = c' at hcell ⊢
  cases hcell with
  | ctxCanceled =>
    obtain ⟨text, htext⟩ := Option.isSome_iff_exists.1 hctx
    rw [htext]
    rfl
  | _ => exact hctx

theorem Cell.Dead.onCell (hdead : c.Dead) (hsettled : Settled c.record) (hop : op.FinishesTerminal) :
    (op.onCell sh c).Dead := by
  obtain ⟨hfailed, hstored | hterminal⟩ := hdead
  · have hsame : (op.onCell sh c).record = c.record := by
      have hcell := onCell_next sh c op
      generalize op.onCell sh c = c' at hcell ⊢
      cases hcell with
      | rewritten hthere | doneClosed hthere =>
        rw [hstored] at hthere
        cases hthere
      | _ => rfl
    exact ⟨by rw [hsame]; exact hfailed, .inl (onCell_stored hstored)⟩
  · have hsame : (op.onCell sh c).record.status = c.record.status := (onCell_settled hsettled hop).2 hterminal
    exact ⟨by rw [hsame]; exact hfailed, .inr (by rw [hsame]; exact hterminal)⟩

def Fate (w : BuildkitAddr) (err : Bytes) (c : Cell) : TaskPc → Prop
  | .releaseSlot _ _ _ e | .releaseGlobal _ _ _ e | .classify _ _ _ e => e = some err ∧ Names w c.record
  | .attemptDone _ _ e => (e = some err ∧ Names w c.record) ∨ (e ≠ none ∧ (c.ctx.isSome = true ∨ c.Dead))
  | .picking _ _ slots => slots ≠ []
  | .dropSlot .. => c.Dead
  | .releaseGlobalOnly .. => c.ctx.isSome = true ∨ c.Dead
  | .finishing (.now status _ e) | .finishing (.update status _ e _) =>
      status = .failed → (e = some err ∧ Names w c.record) ∨ c.Dead
  | .finishing (.observe _) | .closeDone | .returned => c.record.status = .failed → ReportsBuild w err c.record
  | .retryQueued _ | .retryTimer _ | .retryWait .. | .markQueued _ | .acquireGlobal _ | .snapshot _
  | .selecting .. | .assign .. | .call .. | .refresh _ => True
  | .created | .rejected | .queued | .get | .openLog | .nextStep .. | .prepare .. | .building .. => False

theorem Fate.of_record (hfate : Fate w err c pc)
    (hrecord : c'.record = c.record ∨ c'.record.status = .canceled)
    (hctx : c.ctx.isSome = true → c'.ctx.isSome = true) (hdead : c.Dead → c'.Dead) : Fate w err c' pc := by
  have hnames : Names w c.record → Names w c'.record := fun hnames => hnames.of_record hrecord
  have hreports : (c.record.status = .failed → ReportsBuild w err c.record) →
      c'.record.status = .failed → ReportsBuild w err c'.record := by
    intro hreports hfailed
    rcases hrecord with hsame | hcanceled
    · rw [hsame] at hfailed ⊢
      exact hreports hfailed
    · rw [hcanceled] at hfailed
      cases hfailed
  cases pc with
  | releaseSlot | releaseGlobal | classify => exact ⟨hfate.1, hnames hfate.2⟩
  | attemptDone a exporter e =>
    rcases hfate with ⟨he, hshows⟩ | ⟨he, hleft⟩
    · exact .inl ⟨he, hnames hshows⟩
    · exact .inr ⟨he, hleft.imp hctx hdead⟩
  | dropSlot => exact hdead hfate
  | releaseGlobalOnly => exact Or.imp hctx hdead hfate
  | finishing f =>
    cases f with
    | now | update =>
      intro hfailed
      exact (hfate hfailed).imp (fun hboth => ⟨hboth.1, hnames hboth.2⟩) hdead
    | observe => exact hreports hfate
  | closeDone | returned => exact hreports hfate
  | _ => exact hfate

theorem Fate.finish {exporter : Exporter} {e : Option Bytes} {finished : Nat} {r : Record} {status : BuildStatus}
    (hfate : Fate w err c (.finishing (.update status exporter e finished))) (hsettled : Settled c.record)
    (hstored : c.stored = true) (hrecord : c.record.finish status exporter e finished = some r)
    (hfailed : r.status = .failed) : ReportsBuild w err r := by
  rw [Record.finish] at hrecord
  split_ifs at hrecord with hobserved hcanceled
  cases hrecord
  dsimp only at hfailed
  subst hfailed
  have hopen : c.record.status ≠ .canceled := fun hstatus => hcanceled ⟨hstatus, by decide⟩
  rcases hfate rfl with ⟨rfl, hnames⟩ | ⟨_, hgone | hterminal⟩
  · obtain ⟨haddr, hip⟩ := hnames.resolve_left hopen
    exact ⟨rfl, haddr, hip⟩
  · rw [hstored] at hgone
    cases hgone
  · rcases hsettled.canceled_or_observed hterminal with hstatus | htrue
    · exact absurd hstatus hopen
    · exact absurd htrue hobserved

theorem Fate.attempted {exporter : Exporter} {e : Option Bytes}
    (hfate : Fate w err c (.attemptDone a exporter e)) : Fate w err c (c.afterAttempt a exporter e) := by
  cases e with
  | none =>
    rcases hfate with ⟨he, _⟩ | ⟨he, _⟩
    · cases he
    · exact absurd rfl he
  | some text =>
    have hverdict : c.ctx = none → Fate w err c (.finishing (.now .failed exporter (some text))) := by
      intro hctx _
      rcases hfate with hnames | ⟨_, hsome | hdead⟩
      · exact .inl hnames
      · rw [hctx] at hsome
        cases hsome
      · exact .inr hdead
    rw [Cell.afterAttempt]
    split
    · intro hfailed
      cases hfailed
    · rename_i hctx
      split_ifs
      · exact hverdict hctx
      · trivial
      · exact hverdict hctx

def Attempt.Offered (a : Attempt) (p : AddrPool) : Prop := ∃ addr ∈ p.addresses, addr ∉ a.excluded

theorem Attempt.Offered.snapshot {key : Bytes} {order : List Nat} (hoffered : a.Offered p)
    (horder : orderedAddrSlots p.slots key = some order) : p.filterExcludedAddrSlots order a.excluded ≠ [] := by
  obtain ⟨addr, haddr, hnew⟩ := hoffered
  obtain ⟨slot, hslot, haddress⟩ := mem_filterMap.1 haddr
  exact ne_nil_of_mem (covers_snapshot a.excluded horder slot hslot addr haddress hnew)

theorem dead_of_gone (hsettled : Settled c.record) (hfailed : c.record.status ≠ .failed)
    (hgone : ¬(c.stored = true ∧ c.record.status ≠ .canceled ∧ c.record.observed = false)) : c.Dead := by
  refine ⟨hfailed, ?_⟩
  by_contra hlive
  rw [not_or, Bool.not_eq_false, Bool.not_eq_true] at hlive
  refine hgone ⟨hlive.1, ?_, ?_⟩
  · intro hcanceled
    rw [hcanceled] at hlive
    cases hlive.2
  · by_contra hobserved
    rw [hsettled.terminal (eq_true_of_ne_false hobserved)] at hlive
    cases hlive.2

theorem Next.fate (hnext : Next cfg sh c pc op pc') (hfate : Fate w err c pc) (hsettled : Settled c.record)
    (hunfinished : pc.stage ≠ .ended → c.record.status ≠ .succeeded ∧ c.record.status ≠ .failed)
    (hoffered : ∀ a, pc = .snapshot a → a.Offered sh.pool) (hcall : ∀ a slot, pc ≠ .call a slot) :
    Fate w err (op.onCell sh c) pc' := by
  cases hnext with
  | gone | found | logOpened | logFailed | stepsDone | stepFromContext | stepFromImage | prepared | built =>
    exact hfate.elim
  | retryQueued | retryNow | retryLater | retryFires | markedQueued | globalAcquired | allFull | picked
  | selected | assigned | failsOver | refreshed | refreshFailed => trivial
  | retryCanceled => exact fun h => by cases h
  | globalCanceled hctx =>
    have hdone : c.ctx.isSome = true := by rw [hctx]; rfl
    exact .inr ⟨fun h => (by cases h), .inl hdone⟩
  | @snapshotTaken a order horder => exact (hoffered a rfl).snapshot horder
  | pickedNot | slotReleased | globalReleased => exact hfate
  | noAddress => exact absurd rfl hfate
  | selectCanceled hctx =>
    have hdone : c.ctx.isSome = true := by rw [hctx]; rfl
    exact .inl hdone
  | globalReleasedOnly => exact .inr ⟨fun h => (by cases h), hfate⟩
  | unassigned hgone => exact dead_of_gone hsettled (hunfinished (fun h => by cases h)).2 hgone
  | dropped => exact .inr hfate
  | called a slot => exact absurd rfl (hcall a slot)
  | attemptReturns => exact .inl hfate
  | attempted a exporter e => exact hfate.attempted
  | finishes hfinish =>
    cases hfinish with
    | now => exact hfate
    | @applied status exporter e finished r hstored hrecord =>
      have hcell : (Op.finish status exporter e finished).onCell sh c = { c with record := r } := by
        simp only [Op.onCell, Cell.update, if_pos hstored, hrecord, Option.getD_some]
      rw [hcell]
      exact hfate.finish hsettled hstored hrecord
  | finished hfinish =>
    cases hfinish with
    | @refused status exporter e finished hrefused =>
      have hsame : ((Op.finish status exporter e finished).onCell sh c).record = c.record := by
        simp only [Op.onCell, Cell.update]
        split_ifs with hstored
        · rw [hrefused.resolve_left (by rw [hstored]; exact Bool.noConfusion), Option.getD_none]
        · rfl
      intro hfailed
      rw [hsame] at hfailed
      exact absurd hfailed (hunfinished (fun h => by cases h)).2
    | observed => exact hfate
  | closed =>
    simp only [Op.onCell]
    split_ifs
    · intro hfailed
      obtain ⟨herror, haddr, hip⟩ := hfate hfailed
      exact ⟨herror, haddr, hip⟩
    · exact hfate

def TaskPc.waits : TaskPc → Bool
  | .acquireGlobal _ | .snapshot _ => true
  | _ => false

structure Watched (p : AddrPool) (c : Cell) : Prop where
  unfinished : c.pc.stage ≠ .ended → c.record.status ≠ .succeeded ∧ c.record.status ≠ .failed
  assigned : ∀ a slot, c.pc = .call a slot → ∃ w, (workers p)[slot]? = some w ∧ Names w c.record
  cleared : c.pc.waits = true → c.Dead ∨ c.record.buildkitAddr = []

theorem afterAttempt_stage (c : Cell) (a : Attempt) (exporter : Exporter) (e : Option Bytes) :
    (c.afterAttempt a exporter e).waits = false ∧ (c.afterAttempt a exporter e).assigned = false := by
  rw [Cell.afterAttempt.eq_def]
  split
  · exact ⟨rfl, rfl⟩
  · split
    · exact ⟨rfl, rfl⟩
    · split_ifs <;> exact ⟨rfl, rfl⟩

theorem afterPrepare_stage (c : Cell) (step : BuildStep) (rest : List BuildStep) (exporter : Exporter)
    (written : Except Bytes Unit) : (c.afterPrepare cfg step rest exporter written).waits = false ∧
      (c.afterPrepare cfg step rest exporter written).assigned = false := by
  rw [Cell.afterPrepare]
  split <;> exact ⟨rfl, rfl⟩

theorem Next.to_call (hnext : Next cfg sh c pc op (.call a slot)) :
    pc = .assign a slot ∧ op = .assign slot ∧ c.stored = true ∧ c.record.status ≠ .canceled ∧
      c.record.observed = false := by
  generalize hpc : TaskPc.call a slot = pc' at hnext
  have hassigned : pc'.assigned = true := by rw [← hpc]; rfl
  cases hnext with
  | assigned hstored hstatus hobserved =>
    cases hpc
    exact ⟨rfl, rfl, hstored, hstatus, hobserved⟩
  | prepared step rest exporter written =>
    rw [(afterPrepare_stage c step rest exporter written).2] at hassigned
    cases hassigned
  | attempted a exporter e =>
    rw [(afterAttempt_stage c a exporter e).2] at hassigned
    cases hassigned
  | _ => cases hpc

theorem Next.waits (hnext : Next cfg sh c pc op pc') (hwaits : pc'.waits = true)
    (hcleared : pc.waits = true → c.Dead ∨ c.record.buildkitAddr = []) (hsettled : Settled c.record)
    (hunfinished : pc.stage ≠ .ended → c.record.status ≠ .succeeded ∧ c.record.status ≠ .failed) :
    (op.onCell sh c).Dead ∨ (op.onCell sh c).record.buildkitAddr = [] := by
  cases hnext with
  | markedQueued =>
    by_cases hlive : c.stored = true ∧ (c.record.status = .queued ∨ c.record.status = .running)
    · right
      simp only [Op.onCell, Cell.update, if_pos hlive.1, Record.markTaskQueued, if_pos hlive.2]
    · have hdead : c.Dead := by
        refine ⟨(hunfinished (fun h => by cases h)).2, ?_⟩
        rw [not_and_or, Bool.not_eq_true, ← terminal_iff, Bool.not_eq_false] at hlive
        exact hlive
      exact .inl (hdead.onCell hsettled trivial)
  | globalAcquired => exact hcleared rfl
  | prepared step rest exporter written =>
    rw [(afterPrepare_stage c step rest exporter written).1] at hwaits
    cases hwaits
  | attempted a exporter e =>
    rw [(afterAttempt_stage c a exporter e).1] at hwaits
    cases hwaits
  | _ => cases hwaits

theorem cleared_of_record (hcleared : c.Dead ∨ c.record.buildkitAddr = [])
    (hrecord : c'.record = c.record ∨ c'.record.status = .canceled) (hdead : c.Dead → c'.Dead) :
    c'.Dead ∨ c'.record.buildkitAddr = [] := by
  rcases hrecord with hsame | hcanceled
  · rw [hsame]
    exact hcleared.imp_left hdead
  · exact .inl ⟨by rw [hcanceled]; nofun, .inr (by rw [hcanceled]; rfl)⟩

theorem CellStep.watched {addrConcurrency : Nat} {s : State} {i : Nat} (hsound : Sound cfg addrConcurrency s)
    (hcancel : OnlyCancel s) (hcell : s.cells[i]? = some c) (hpool : PoolNext b s.shared.pool s'.shared.pool)
    (hstep : CellStep cfg s b i c c') (hwatched : Watched s.shared.pool c) : Watched s'.shared.pool c' := by
  refine ⟨hstep.unfinished hcancel hwatched.unfinished, ?_, ?_⟩
  · intro a slot hpc'
    have hkept : c.pc = .call a slot → (c'.record = c.record ∨ c'.record.status = .canceled) →
        ∃ w, (workers s'.shared.pool)[slot]? = some w ∧ Names w c'.record := by
      intro hpc hrecord
      obtain ⟨w, hworker, hnames⟩ := hwatched.assigned a slot hpc
      exact ⟨w, hpool.worker hworker, hnames.of_record hrecord⟩
    cases hstep with
    | framed _ hrecord _ hpc => exact hkept (hpc ▸ hpc') (.inl hrecord)
    | queued _ hafter => rcases hafter with rfl | rfl | rfl <;> cases hpc'
    | handled hhandler _ hnext =>
      exact hkept hpc' (hnext.canceled_or_same (hcancel _ (mem_of_getElem? hhandler)))
    | moved haction hcontrol =>
      have hnext := control_next hcontrol
      dsimp only at hpc'
      subst hpc'
      obtain ⟨hpc, rfl, hstored, hstatus, hobserved⟩ := hnext.to_call
      obtain ⟨o, ho⟩ := hsound.slot hcell (by rw [hpc]; rfl)
      have hworker : (workers s.shared.pool)[slot]? = some o.addr := by
        rw [workers, getElem?_map, ho]
        rfl
      refine ⟨o.addr, hpool.worker hworker, .inr ?_⟩
      simp only [Op.onCell, ho, Cell.update, if_pos hstored, Record.assign]
      rw [if_neg (by simp [hstatus, hobserved])]
      exact ⟨rfl, rfl⟩
    | reaped => exact hkept hpc' (.inl rfl)
  · intro hwaits
    cases hstep with
    | framed _ hrecord hstored hpc =>
      rw [hpc] at hwaits
      refine cleared_of_record (hwatched.cleared hwaits) (.inl hrecord) ?_
      rw [Cell.Dead, Cell.Dead, hrecord, hstored]
      exact id
    | queued _ hafter => rcases hafter with rfl | rfl | rfl <;> cases hwaits
    | handled hhandler hid hnext =>
      subst hid
      obtain ⟨hsettled, hop⟩ := hsound.accounted.handlerOp hhandler hcell hnext
      exact cleared_of_record (hwatched.cleared hwaits)
        (hnext.canceled_or_same (hcancel _ (mem_of_getElem? hhandler))) fun hdead => hdead.onCell hsettled hop
    | moved haction hcontrol =>
      have hnext := control_next hcontrol
      exact hnext.waits hwaits hwatched.cleared (hsound.accounted.taskOp hcell hnext).1 hwatched.unfinished
    | reaped => exact cleared_of_record (hwatched.cleared hwaits) (.inl rfl) fun hdead => ⟨hdead.1, .inl rfl⟩

structure WatchedRun (cfg : Config) (addrs : List BuildkitAddr) (addrConcurrency : Nat) (s : State) : Prop where
  run : ∃ as, Runs.exec (step cfg) (start addrs addrConcurrency) as = some s
  onlyCancel : OnlyCancel s
  watched : ∀ (i : Nat) (c : Cell), s.cells[i]? = some c → Watched s.shared.pool c

theorem WatchedRun.sound {addrs : List BuildkitAddr} {addrConcurrency : Nat} {s : State}
    (hinv : WatchedRun cfg addrs addrConcurrency s) : Sound cfg addrConcurrency s := by
  obtain ⟨as, hrun⟩ := hinv.run
  exact sound_run hrun

theorem watchedRun_step {addrs : List BuildkitAddr} {addrConcurrency : Nat} {s : State}
    (hinv : WatchedRun cfg addrs addrConcurrency s) (hstep : step cfg s b = some s') :
    WatchedRun cfg addrs addrConcurrency s' := by
  have heffect := step_effect hstep
  refine ⟨reached_step hinv.run hstep, onlyCancel_step hinv.onlyCancel heffect, ?_⟩
  intro i c' hcell'
  rcases cellStep_of_effect hinv.sound.admitted heffect hcell' with ⟨c, hcell, hcellstep⟩ | ⟨_, hcreated⟩
  · exact hcellstep.watched hinv.sound hinv.onlyCancel hcell (poolNext_of_effect heffect) (hinv.watched i c hcell)
  · rw [hcreated]
    exact ⟨fun _ => ⟨nofun, nofun⟩, nofun, nofun⟩

theorem watchedRun_run {addrs : List BuildkitAddr} {addrConcurrency : Nat} {as : List Action} {s : State}
    (hrun : exec (step cfg) (start addrs addrConcurrency) as = some s) :
    WatchedRun cfg addrs addrConcurrency s :=
  exec_invariant (step cfg) (fun _ _ _ hinv hstep => watchedRun_step hinv hstep)
    ⟨⟨[], rfl⟩, by simp [OnlyCancel, start], by simp [start]⟩ hrun

inductive Followed (w : BuildkitAddr) (n : Nat) (c : Cell) : Prop
  | calling {a : Attempt} {slot : Nat} (hpc : c.pc = .call a slot) (hbuilds : c.builds.length = n)
      (hnames : Names w c.record)
  | building {a : Attempt} {slot : Nat} (hpc : c.pc = .building a slot) (hbuilds : c.builds.length = n + 1)
      (hnames : Names w c.record)
  | called (hpc : ∀ a slot, c.pc ≠ .building a slot) (hbuilds : c.builds.length = n + 1)
      (hfate : ∀ err, lastError c.builds = some err → Fate w err c c.pc)
  | later (hbuilds : n + 1 < c.builds.length)

def TaskPc.snapshots : TaskPc → Option Attempt
  | .snapshot a => some a
  | _ => none

def Action.moves (i : Nat) : Action → Bool
  | .task j _ => j == i
  | _ => false

def FindsWorker (i : Nat) (s : State) (b : Action) : Prop :=
  b.moves i = true → ∀ c ∈ s.cells[i]?, ∀ a ∈ c.pc.snapshots, a.Offered s.shared.pool

instance (i : Nat) (s : State) (b : Action) : Decidable (FindsWorker i s b) := by
  unfold FindsWorker Attempt.Offered
  infer_instance

theorem Next.to_building (hnext : Next cfg sh c pc op pc') (hpc' : pc' = .building a slot) :
    pc = .call a slot := by
  have hassigned : pc'.assigned = true := by rw [hpc']; rfl
  cases hnext with
  | called =>
    cases hpc'
    rfl
  | prepared step rest exporter written =>
    rw [(afterPrepare_stage c step rest exporter written).2] at hassigned
    cases hassigned
  | attempted a exporter e =>
    rw [(afterAttempt_stage c a exporter e).2] at hassigned
    cases hassigned
  | _ => cases hpc'

theorem Next.length_builds (hnext : Next cfg sh c pc op pc') :
    c.builds.length ≤ (op.onCell sh c).builds.length := by
  by_cases hcall : pc.assigned = true
  · cases hnext with
    | called => simp [Op.onCell]
    | built => exact Nat.le_of_eq (length_finishCall _ _).symm
    | finishes | finished => cases hcall
    | _ => cases hcall
  · exact Nat.le_of_eq (by rw [hnext.builds (eq_false_of_ne_true hcall)])

theorem Followed.moved {n : Nat} (hfollowed : Followed w n c) (hnext : Next cfg sh c c.pc op pc)
    (hsettled : Settled c.record)
    (hunfinished : c.pc.stage ≠ .ended → c.record.status ≠ .succeeded ∧ c.record.status ≠ .failed)
    (hoffered : ∀ a, c.pc = .snapshot a → a.Offered sh.pool) : Followed w n { op.onCell sh c with pc := pc } := by
  cases hfollowed with
  | @calling a slot hpc hbuilds hnames =>
    rw [hpc] at hnext
    cases hnext
    exact .building rfl (by simp [Op.onCell, hbuilds]) hnames
  | @building a slot hpc hbuilds hnames =>
    rw [hpc] at hnext
    cases hnext with
    | built a slot exporter e =>
      refine .called (fun _ _ h => by cases h) ((length_finishCall _ _).trans hbuilds) ?_
      intro err herr
      have hne : c.builds ≠ [] := ne_nil_of_length_eq_add_one hbuilds
      have hlast : lastError (finishCall ⟨exporter, e, c.ctx.isSome⟩ c.builds) = e := lastError_finishCall _ hne
      exact ⟨hlast.symm.trans herr, hnames⟩
  | called hpc hbuilds hfate =>
    by_cases hcall : ∃ a slot, c.pc = .call a slot
    · obtain ⟨a, slot, hcall⟩ := hcall
      rw [hcall] at hnext
      cases hnext
      exact .later (by simp [Op.onCell, hbuilds])
    · have hassigned : c.pc.assigned = false := by
        cases hat : c.pc with
        | call a slot => exact absurd ⟨a, slot, hat⟩ hcall
        | building a slot => exact absurd hat (hpc a slot)
        | _ => rfl
      have hsame := hnext.builds hassigned
      refine .called ?_ (by rw [hsame]; exact hbuilds) ?_
      · intro a slot hbuilding
        exact hcall ⟨a, slot, hnext.to_building hbuilding⟩
      · intro err herr
        dsimp only at herr
        rw [hsame] at herr
        exact hnext.fate (hfate err herr) hsettled hunfinished hoffered fun a slot hat => hcall ⟨a, slot, hat⟩
  | later hbuilds => exact .later (Nat.lt_of_lt_of_le hbuilds hnext.length_builds)

theorem Followed.framed {n : Nat} (hfollowed : Followed w n c) (hpc : c'.pc = c.pc) (hbuilds : c'.builds = c.builds)
    (hrecord : c'.record = c.record ∨ c'.record.status = .canceled) (hctx : c.ctx.isSome = true → c'.ctx.isSome = true)
    (hdead : c.Dead → c'.Dead) : Followed w n c' := by
  cases hfollowed with
  | calling hat hlength hnames => exact .calling (hpc.trans hat) (by rw [hbuilds, hlength]) (hnames.of_record hrecord)
  | building hat hlength hnames => exact .building (hpc.trans hat) (by rw [hbuilds, hlength]) (hnames.of_record hrecord)
  | called hat hlength hfate =>
    refine .called (by rw [hpc]; exact hat) (by rw [hbuilds, hlength]) ?_
    intro err herr
    rw [hbuilds] at herr
    rw [hpc]
    exact (hfate err herr).of_record hrecord hctx hdead
  | later hlength => exact .later (by rw [hbuilds]; exact hlength)

theorem CellStep.followed {addrConcurrency n : Nat} {s : State} {i : Nat}
    (hsound : Sound cfg addrConcurrency s) (hcancel : OnlyCancel s) (hcell : s.cells[i]? = some c)
    (hwatched : Watched s.shared.pool c) (hfinds : FindsWorker i s b) (hstep : CellStep cfg s b i c c')
    (hfollowed : Followed w n c) : Followed w n c' := by
  cases hstep with
  | framed _ hrecord hstored hpc hbuilds hctx =>
    refine hfollowed.framed hpc hbuilds (.inl hrecord) hctx ?_
    rw [Cell.Dead, Cell.Dead, hrecord, hstored]
    exact id
  | @queued pc hbefore hafter =>
    cases hfollowed with
    | calling hpc | building hpc => rcases hbefore with hat | hat <;> rw [hpc] at hat <;> cases hat
    | called _ hlength hfate =>
      refine .called ?_ hlength ?_
      · rcases hafter with rfl | rfl | rfl <;> exact nofun
      · intro err herr
        have hnone := hfate err herr
        rcases hbefore with hat | hat <;> rw [hat] at hnone <;> exact hnone.elim
    | later hlength => exact .later hlength
  | handled hhandler hid hnext =>
    subst hid
    obtain ⟨hsettled, hop⟩ := hsound.accounted.handlerOp hhandler hcell hnext
    exact hfollowed.framed rfl hnext.builds (hnext.canceled_or_same (hcancel _ (mem_of_getElem? hhandler)))
      onCell_ctx fun hdead => hdead.onCell hsettled hop
  | @moved choice op pc haction hcontrol =>
    have hnext := control_next hcontrol
    exact hfollowed.moved hnext (hsound.accounted.taskOp hcell hnext).1 hwatched.unfinished
      fun a hpc => hfinds (by rw [haction]; exact beq_self_eq_true i) c hcell a (by rw [hpc]; rfl)
  | reaped => exact hfollowed.framed rfl rfl (.inl rfl) id fun hdead => ⟨hdead.1, .inl rfl⟩

theorem Followed.reports {n : Nat} (hfollowed : Followed w n c) (hwatched : Watched p c)
    (hlast : c.builds.length = n + 1) (herr : lastError c.builds = some err)
    (hfailed : c.record.status = .failed) : ReportsBuild w err c.record := by
  have hended : c.pc.stage = .ended := by
    by_contra hopen
    exact (hwatched.unfinished hopen).2 hfailed
  cases hfollowed with
  | calling | later => omega
  | building hpc => rw [hpc] at hended; cases hended
  | called _ _ hfate =>
    have hreports := hfate err herr
    generalize c.pc = pc at hended hreports
    cases pc with
    | finishing f =>
      cases f with
      | observe => exact hreports hfailed
      | now | update => cases hended
    | closeDone | returned => exact hreports hfailed
    | _ => cases hended

inductive Unnamed (n : Nat) (c : Cell) : Prop
  | waiting (hpc : c.pc.assigned = false) (hbuilds : c.builds.length = n)
      (hcleared : c.Dead ∨ c.record.buildkitAddr = [])
  | calling {a : Attempt} {slot : Nat} (hpc : c.pc = .call a slot) (hbuilds : c.builds.length = n)
  | later (hbuilds : n < c.builds.length)

theorem Next.to_assign (hnext : Next cfg sh c pc op pc') (hop : op = .assign slot) : ∃ a, pc' = .call a slot := by
  cases hnext with
  | assigned =>
    cases hop
    exact ⟨_, rfl⟩
  | finishes hfinish | finished hfinish => cases hfinish <;> cases hop
  | _ => cases hop

theorem onCell_cleared (hassign : ∀ slot, op ≠ .assign slot) (hsettled : Settled c.record)
    (hop : op.FinishesTerminal) (hcleared : c.Dead ∨ c.record.buildkitAddr = []) :
    (op.onCell sh c).Dead ∨ (op.onCell sh c).record.buildkitAddr = [] := by
  rcases hcleared with hdead | hempty
  · exact .inl (hdead.onCell hsettled hop)
  · right
    have hcell := onCell_next sh c op
    generalize op.onCell sh c = c' at hcell ⊢
    cases hcell with
    | rewritten _ hrecord =>
      cases hrecord with
      | queued => rfl
      | assigned => exact absurd rfl (hassign _)
      | finished | canceled => exact hempty
    | _ => exact hempty

theorem Unnamed.framed {n : Nat} (hunnamed : Unnamed n c) (hpc : c'.pc = c.pc) (hbuilds : c'.builds = c.builds)
    (hcleared : c.Dead ∨ c.record.buildkitAddr = [] → c'.Dead ∨ c'.record.buildkitAddr = []) : Unnamed n c' := by
  cases hunnamed with
  | waiting hat hlength hold => exact .waiting (by rw [hpc, hat]) (by rw [hbuilds, hlength]) (hcleared hold)
  | calling hat hlength => exact .calling (hpc.trans hat) (by rw [hbuilds, hlength])
  | later hlength => exact .later (by rw [hbuilds]; exact hlength)

theorem CellStep.unnamed {addrConcurrency n : Nat} {s : State} {i : Nat}
    (hsound : Sound cfg addrConcurrency s) (hcancel : OnlyCancel s) (hcell : s.cells[i]? = some c)
    (hstep : CellStep cfg s b i c c') (hunnamed : Unnamed n c) : Unnamed n c' := by
  cases hstep with
  | framed _ hrecord hstored hpc hbuilds =>
    refine hunnamed.framed hpc hbuilds ?_
    rw [Cell.Dead, Cell.Dead, hrecord, hstored]
    exact id
  | queued hbefore hafter =>
    cases hunnamed with
    | waiting _ hlength hcleared =>
      exact .waiting (by rcases hafter with rfl | rfl | rfl <;> rfl) hlength hcleared
    | calling hpc => rcases hbefore with hat | hat <;> rw [hpc] at hat <;> cases hat
    | later hlength => exact .later hlength
  | handled hhandler hid hnext =>
    subst hid
    obtain ⟨hsettled, hop⟩ := hsound.accounted.handlerOp hhandler hcell hnext
    refine hunnamed.framed rfl hnext.builds fun hcleared => cleared_of_record hcleared
      (hnext.canceled_or_same (hcancel _ (mem_of_getElem? hhandler))) fun hdead => hdead.onCell hsettled hop
  | @moved choice op pc haction hcontrol =>
    have hnext := control_next hcontrol
    obtain ⟨hsettled, hop⟩ := hsound.accounted.taskOp hcell hnext
    cases hunnamed with
    | waiting hat hlength hcleared =>
      have hbuilds : (op.onCell s.shared c).builds.length = n := by rw [hnext.builds hat, hlength]
      by_cases hassign : ∃ slot, op = .assign slot
      · obtain ⟨slot, hassign⟩ := hassign
        obtain ⟨a, hcall⟩ := hnext.to_assign hassign
        exact .calling hcall hbuilds
      · refine .waiting ?_ hbuilds (onCell_cleared (fun slot hslot => hassign ⟨slot, hslot⟩) hsettled hop hcleared)
        cases hpc' : pc with
        | call a slot =>
          rw [hpc'] at hnext
          exact absurd ⟨slot, hnext.to_call.2.1⟩ hassign
        | building a slot =>
          rw [hnext.to_building hpc'] at hat
          cases hat
        | _ => rfl
    | calling hat hlength =>
      rw [hat] at hnext
      cases hnext
      exact .later (by simp [Op.onCell, hlength])
    | later hlength => exact .later (Nat.lt_of_lt_of_le hlength hnext.length_builds)
  | reaped => exact hunnamed.framed rfl rfl (Or.imp (fun hdead => ⟨hdead.1, .inl rfl⟩) id)

theorem Unnamed.failed {n : Nat} (hunnamed : Unnamed n c) (hwatched : Watched p c)
    (hbuilds : c.builds.length = n) (hfailed : c.record.status = .failed) : c.record.buildkitAddr = [] := by
  cases hunnamed with
  | waiting _ _ hcleared => exact hcleared.resolve_left fun hdead => hdead.1 hfailed
  | calling hpc => exact absurd hfailed (hwatched.unfinished (by rw [hpc]; nofun)).2
  | later hlength => omega

section Run

variable {addrs : List BuildkitAddr} {addrConcurrency n i : Nat} {bs : List Action} {s t : State} {d : Cell}

section

variable (hinv : WatchedRun cfg addrs addrConcurrency s)

include hinv

theorem followed_step (hcell : s.cells[i]? = some c)
    (hfollowed : Followed w n c) (hfinds : FindsWorker i s b) (hstep : step cfg s b = some s') :
    ∃ c', s'.cells[i]? = some c' ∧ Followed w n c' := by
  obtain ⟨c', hcell', hcellstep⟩ := cellStep_forward hinv.sound.admitted (step_effect hstep) hcell
  exact ⟨c', hcell', hcellstep.followed hinv.sound hinv.onlyCancel hcell (hinv.watched i c hcell) hfinds hfollowed⟩

theorem followed_run (hcell : s.cells[i]? = some c)
    (hfollowed : Followed w n c) (hfinds : Along (step cfg) (FindsWorker i) s bs)
    (hlater : exec (step cfg) s bs = some t) :
    WatchedRun cfg addrs addrConcurrency t ∧ ∃ d, t.cells[i]? = some d ∧ Followed w n d := by
  have hkeep : ∀ s b s', (WatchedRun cfg addrs addrConcurrency s ∧ ∃ c, s.cells[i]? = some c ∧ Followed w n c) →
      FindsWorker i s b → step cfg s b = some s' →
      WatchedRun cfg addrs addrConcurrency s' ∧ ∃ c, s'.cells[i]? = some c ∧ Followed w n c := by
    rintro s b s' ⟨hinv, c, hcell, hfollowed⟩ hfinds hstep
    exact ⟨watchedRun_step hinv hstep, followed_step hinv hcell hfollowed hfinds hstep⟩
  exact exec_invariant_along (step cfg) hkeep ⟨hinv, c, hcell, hfollowed⟩ hfinds hlater

theorem unnamed_run (hcell : s.cells[i]? = some c)
    (hunnamed : Unnamed n c) (hlater : exec (step cfg) s bs = some t) :
    WatchedRun cfg addrs addrConcurrency t ∧ ∃ d, t.cells[i]? = some d ∧ Unnamed n d := by
  have hkeep : ∀ s b s', (WatchedRun cfg addrs addrConcurrency s ∧ ∃ c, s.cells[i]? = some c ∧ Unnamed n c) →
      step cfg s b = some s' →
      WatchedRun cfg addrs addrConcurrency s' ∧ ∃ c, s'.cells[i]? = some c ∧ Unnamed n c := by
    rintro s b s' ⟨hinv, c, hcell, hunnamed⟩ hstep
    obtain ⟨c', hcell', hcellstep⟩ := cellStep_forward hinv.sound.admitted (step_effect hstep) hcell
    exact ⟨watchedRun_step hinv hstep, c', hcell', hcellstep.unnamed hinv.sound hinv.onlyCancel hcell hunnamed⟩
  exact exec_invariant (step cfg) hkeep ⟨hinv, c, hcell, hunnamed⟩ hlater

end

theorem Followed.unnamed (hfollowed : Followed w n c) (hwatched : Watched p c) (hpc : c.pc = .snapshot a) :
    Unnamed (n + 1) c := by
  cases hfollowed with
  | calling hat | building hat => rw [hpc] at hat; cases hat
  | called _ hbuilds _ => exact .waiting (by rw [hpc]; rfl) hbuilds (hwatched.cleared (by rw [hpc]; rfl))
  | later hbuilds => exact .later hbuilds

theorem finds_of_reports (hinv : WatchedRun cfg addrs addrConcurrency s) (hcell : s.cells[i]? = some c)
    (hfollowed : Followed w n c) (hlater : exec (step cfg) s bs = some t) (hd : t.cells[i]? = some d)
    (hlast : d.builds.length = n + 1) (hfailed : d.record.status = .failed) (hnamed : d.record.buildkitAddr ≠ []) :
    Along (step cfg) (FindsWorker i) s bs := by
  induction bs generalizing s c with
  | nil => trivial
  | cons b bs ih =>
    obtain ⟨s', hstep, hrest⟩ := (exec_cons_eq_some (step cfg)).1 hlater
    have hfinds : FindsWorker i s b := by
      intro _ c' hc' a hsnapshots
      rw [hcell] at hc'
      cases hc'
      have hpc : c.pc = .snapshot a := by
        generalize c.pc = pc at hsnapshots
        cases pc with
        | snapshot a' => cases hsnapshots; rfl
        | _ => cases hsnapshots
      have hunnamed := hfollowed.unnamed (hinv.watched i c hcell) hpc
      obtain ⟨hinv', e, he, hlost⟩ := unnamed_run hinv hcell hunnamed hlater
      rw [hd] at he
      cases he
      exact absurd (hlost.failed (hinv'.watched i d hd) hlast hfailed) hnamed
    obtain ⟨c', hcell', hfollowed'⟩ := followed_step hinv hcell hfollowed hfinds hstep
    refine ⟨hfinds, ?_⟩
    intro s'' hstep'
    rw [hstep] at hstep'
    cases hstep'
    exact ih (watchedRun_step hinv hstep) hcell' hfollowed' hrest

/-- A task that failed with the error of its last build reports that build. -/
theorem last_build_reported {as : List Action} {a : Attempt} {slot : Nat} (haddrs : ParsedAddrs addrs)
    (hparsed : ∀ a ∈ as, a.Parsed) (hrun : Runs.exec (step cfg) (start addrs addrConcurrency) as = some s)
    (hcell : s.cells[i]? = some c) (hpc : c.pc = .call a slot) (hworker : (workers s.shared.pool)[slot]? = some w)
    (hlater : Runs.exec (step cfg) s bs = some t) (hd : t.cells[i]? = some d)
    (hlast : d.builds.length = c.builds.length + 1) (herr : lastError d.builds = some err)
    (hfailed : d.record.status = .failed) :
    ReportsBuild w err d.record ↔ Runs.Along (step cfg) (FindsWorker i) s bs := by
  have hinv := watchedRun_run hrun
  have hfollowed : Followed w c.builds.length c := by
    obtain ⟨w', hworker', hnames⟩ := (hinv.watched i c hcell).assigned a slot hpc
    rw [hworker] at hworker'
    cases hworker'
    exact .calling hpc rfl hnames
  constructor
  · intro hreports
    refine finds_of_reports hinv hcell hfollowed hlater hd hlast hfailed ?_
    rw [hreports.buildkitAddr]
    exact addressed_iff.1 (recorded_run haddrs hparsed hrun).addressed w (List.mem_of_getElem? hworker)
  · intro hfinds
    obtain ⟨hinv', e, he, hend⟩ := followed_run hinv hcell hfollowed hfinds hlater
    rw [hd] at he
    cases he
    exact hend.reports (hinv'.watched i d hd) hlast herr hfailed

end Run

def onceTask : TaskSpec := { sampleTask with retry := 0 }

def onceCalls : List Action := [.create onceTask, .handler 0 false] ++ List.replicate 8 (.task 0 .go)

def onceFails (err : Bytes) : List Action :=
  [.task 0 .go, .task 0 (.result [] (some err))] ++ List.replicate 8 (.task 0 .go)

def onceWorker : BuildkitAddr := ⟨ascii "10.0.0.1:9094", ascii "tcp://10.0.0.1:9094", ascii "10.0.0.1"⟩

def endsFailed (s : State) (err : Bytes) (bs : List Action) : Bool :=
  match s.cells[0]? with
  | none => false
  | some c =>
      (Runs.exec (step sampleConfig) s bs).any fun t => (t.cells[0]?).any fun d =>
        decide (d.builds.length = c.builds.length + 1 ∧ lastError d.builds = some err ∧ d.record.status = .failed)

theorem last_build_reported_once : ∃ t d,
    Runs.exec (step sampleConfig) sampleStart (onceCalls ++ onceFails (ascii "exit code: 1")) = some t ∧
    t.cells[0]? = some d ∧ ReportsBuild onceWorker (ascii "exit code: 1") d.record := by
  have hcalls : ((Runs.exec (step sampleConfig) sampleStart onceCalls).bind fun s => s.cells[0]?).map Cell.pc =
      some (.call (.first ⟨ascii "registry/app:1", .oci, [], []⟩ [] []) 0) := by decide +kernel
  obtain ⟨c, hc, hpc⟩ := Option.map_eq_some_iff.1 hcalls
  obtain ⟨s, hrun, hcell⟩ := Option.bind_eq_some_iff.1 hc
  have hrest : (Runs.exec (step sampleConfig) sampleStart onceCalls).all (fun s =>
      decide ((workers s.shared.pool)[0]? = some onceWorker) &&
        endsFailed s (ascii "exit code: 1") (onceFails (ascii "exit code: 1")) &&
        decide (Runs.Along (step sampleConfig) (FindsWorker 0) s (onceFails (ascii "exit code: 1")))) = true := by
    decide +kernel
  rw [hrun, Option.all_some, Bool.and_eq_true, Bool.and_eq_true, decide_eq_true_iff, decide_eq_true_iff,
    endsFailed, hcell] at hrest
  obtain ⟨⟨hworker, hends⟩, hfinds⟩ := hrest
  obtain ⟨t, hlater, hd⟩ := (Option.any_eq_true _ _).1 hends
  obtain ⟨d, hd, hfacts⟩ := (Option.any_eq_true _ _).1 hd
  obtain ⟨hlast, herr, hfailed⟩ := of_decide_eq_true hfacts
  have hparsed : ∀ a ∈ onceCalls, a.Parsed := by
    intro a ha addrs haddrs
    have hnone : ∀ a ∈ onceCalls, a.installs = none := by simp [onceCalls, Action.installs]
    rw [hnone a ha] at haddrs
    cases haddrs
  exact ⟨t, d, Runs.exec_append (step sampleConfig) hrun hlater, hd,
    (last_build_reported sample_parsed hparsed hrun hcell hpc hworker hlater hd hlast herr hfailed).2 hfinds⟩

def onceRefused : List Action :=
  [.task 0 .go, .task 0 (.result [] (some (ascii "dial tcp 10.0.0.1:9094: connect: connection refused")))] ++
    List.replicate 3 (.task 0 .go) ++ [.task 0 (.refreshed (.error []))] ++ List.replicate 10 (.task 0 .go)

theorem last_build_unreported :
    ((Runs.exec (step sampleConfig) sampleStart (onceCalls ++ onceRefused)).bind fun t => t.cells[0]?).map (fun d =>
      decide (d.builds.length = 1 ∧ d.record.status = .failed ∧
        lastError d.builds = some (ascii "dial tcp 10.0.0.1:9094: connect: connection refused") ∧
        d.record.error = ascii "no buildkitd addresses available" ∧ d.record.buildkitAddr = [])) = some true := by
  decide +kernel

end BuildkitService.Daemon
