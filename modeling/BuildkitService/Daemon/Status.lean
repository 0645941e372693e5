import BuildkitService.Lib.Ledger
import BuildkitService.Daemon.Admission

/-!
# Terminal states and counters

A record has five writers: the marking as queued, the assignment of a worker, `store.cancel`,
`finishTask`, and the closing of `done`.
-/

namespace BuildkitService.Daemon

open Threads List Ledger

variable {cfg : Config} {sh : Shared} {c : Cell} {op : Op} {pc : TaskPc} {h : Handler} {next : HandlerPc}
  {k i : Nat} {s s' : State} {handlers : List Handler}

structure Settled (r : Record) : Prop where
  terminal : r.observed = true → r.status.terminal = true
  observed : r.status = .succeeded ∨ r.status = .failed → r.observed = true

def Op.FinishesTerminal : Op → Prop
  | .finish status .. => status.terminal = true
  | .count status => status.terminal = true
  | _ => True

theorem terminal_iff {status : BuildStatus} :
    status.terminal = false ↔ status = .queued ∨ status = .running := by
  cases status <;> simp [BuildStatus.terminal]

theorem Settled.canceled_or_observed {r : Record} (hsettled : Settled r) (hterminal : r.status.terminal = true) :
    r.status = .canceled ∨ r.observed = true := by
  cases hstatus : r.status with
  | canceled => exact .inl rfl
  | succeeded => exact .inr (hsettled.observed (.inl hstatus))
  | failed => exact .inr (hsettled.observed (.inr hstatus))
  | queued | running =>
    rw [hstatus] at hterminal
    cases hterminal

theorem RecordNext.settled {r r' : Record} (hrecord : RecordNext sh r op r') (hsettled : Settled r)
    (hop : op.FinishesTerminal) : Settled r' ∧ (r.status.terminal = true → r'.status = r.status) := by
  cases hrecord with
  | queued hopen queuedAt =>
    have hterminal : r.status.terminal = false := terminal_iff.2 hopen
    refine ⟨⟨?_, by simp⟩, by simp [hterminal]⟩
    intro hobserved
    exact absurd (hsettled.terminal hobserved) (by simp [hterminal])
  | canceled hopen => exact ⟨⟨fun _ => rfl, by simp⟩, by simp [terminal_iff.2 hopen]⟩
  | assigned hfree hslot =>
    refine ⟨⟨fun hobserved => absurd (.inr hobserved) hfree, by simp⟩, ?_⟩
    intro hterminal
    exact absurd (hsettled.canceled_or_observed hterminal) hfree
  | @finished status exporter err finished hobserved hstatus =>
    refine ⟨⟨fun _ => hop, fun _ => rfl⟩, ?_⟩
    intro hterminal
    rcases hsettled.canceled_or_observed hterminal with hcanceled | hdone
    · show status = r.status
      rw [hcanceled]
      by_contra hother
      exact hstatus ⟨hcanceled, hother⟩
    · exact absurd hdone hobserved

theorem onCell_settled (hsettled : Settled c.record) (hop : op.FinishesTerminal) :
    Settled (op.onCell sh c).record ∧
      (c.record.status.terminal = true → (op.onCell sh c).record.status = c.record.status) := by
  have hnext := onCell_next sh c op
  generalize op.onCell sh c = c' at hnext ⊢
  cases hnext with
  | rewritten _ hrecord => exact hrecord.settled hsettled hop
  | doneClosed _ => exact ⟨⟨hsettled.terminal, hsettled.observed⟩, fun _ => rfl⟩
  | _ => exact ⟨hsettled, fun _ => rfl⟩

def FinishPc.observes : FinishPc → Option BuildStatus
  | .observe status => some status
  | _ => none

def FinishPc.status : FinishPc → BuildStatus
  | .now status .. | .update status .. | .observe status => status

def TaskPc.finish? : TaskPc → Option FinishPc
  | .finishing f => some f
  | _ => none

def HandlerPc.finish? : HandlerPc → Option FinishPc
  | .rejectFinish f | .cancelFinish f => some f
  | _ => none

def pending (finish : Option FinishPc) : Nat := if (finish.bind FinishPc.observes).isSome then 1 else 0

def Record.observations (r : Record) : Nat := if r.observed then 1 else 0

def FinishesTerminal (finish : Option FinishPc) : Prop := ∀ f, finish = some f → f.status.terminal = true

theorem onCell_observed (hfinish : ∀ status exporter err finished, op ≠ .finish status exporter err finished)
    (hcount : ∀ status, op ≠ .count status) :
    (op.onCell sh c).record.observed = c.record.observed ∧ (op.onCell sh c).counts = c.counts := by
  have hnext := onCell_next sh c op
  generalize op.onCell sh c = c' at hnext ⊢
  cases hnext with
  | rewritten _ hrecord =>
    cases hrecord with
    | finished _ _ => exact absurd rfl (hfinish _ _ _ _)
    | _ => exact ⟨rfl, rfl⟩
  | counted status => exact absurd rfl (hcount status)
  | _ => exact ⟨rfl, rfl⟩

structure Accounts (sh : Shared) (c : Cell) (op : Op) (before after : Option FinishPc) : Prop where
  terminal : FinishesTerminal before → FinishesTerminal after ∧ op.FinishesTerminal
  balance : (op.onCell sh c).counts.length + pending after + c.record.observations =
    c.counts.length + pending before + (op.onCell sh c).record.observations
  counts : ∀ status ∈ (op.onCell sh c).counts,
    status ∈ c.counts ∨ before.bind FinishPc.observes = some status
  after : ∀ status, after.bind FinishPc.observes = some status → (op.onCell sh c).record.status = status

theorem FinishNext.accounts {f : FinishPc} {next : Option FinishPc} (hfinish : FinishNext sh c f op next) :
    Accounts sh c op (some f) next := by
  cases hfinish with
  | @now status exporter err =>
    refine ⟨?_, by simp [Op.onCell, pending, FinishPc.observes], fun _ h => .inl h,
      by simp [FinishPc.observes]⟩
    intro hterminal
    refine ⟨?_, trivial⟩
    rintro f' ⟨⟩
    exact hterminal (.now status exporter err) rfl
  | @applied status exporter err finished r hstored hrecord =>
    have hcell : (Op.finish status exporter err finished).onCell sh c = { c with record := r } := by
      simp only [Op.onCell, Cell.update, if_pos hstored, hrecord, Option.getD_some]
    have hr : c.record.observed = false ∧ r.observed = true ∧ r.status = status := by
      rw [Record.finish] at hrecord
      split at hrecord
      · cases hrecord
      · rename_i hobserved
        split at hrecord
        · cases hrecord
        · cases hrecord
          exact ⟨eq_false_of_ne_true hobserved, rfl, rfl⟩
    refine ⟨?_, ?_, ?_, ?_⟩
    · intro hterminal
      refine ⟨?_, hterminal _ rfl⟩
      rintro f' ⟨⟩
      exact hterminal (.update status exporter err finished) rfl
    · rw [hcell]
      simp [pending, FinishPc.observes, Record.observations, hr]
    · rw [hcell]
      exact fun _ h => .inl h
    · intro other hother
      rw [hcell]
      simpa [FinishPc.observes, hr] using hother
  | @refused status exporter err finished hrefused =>
    have hcell : (Op.finish status exporter err finished).onCell sh c = c := by
      simp only [Op.onCell, Cell.update]
      rcases hrefused with hstored | hrecord
      · rw [if_neg (by simp [hstored])]
      · rw [hrecord]
        simp
    refine ⟨?_, ?_, ?_, by simp⟩
    · intro hterminal
      exact ⟨by rintro f' ⟨⟩, hterminal _ rfl⟩
    · rw [hcell]
      simp [pending, FinishPc.observes]
    · rw [hcell]
      exact fun _ h => .inl h
  | @observed status =>
    refine ⟨?_, ?_, ?_, by simp⟩
    · intro hterminal
      exact ⟨by rintro f' ⟨⟩, hterminal _ rfl⟩
    · have hrecord : ((Op.count status).onCell sh c).record = c.record := rfl
      rw [hrecord]
      simp [Op.onCell, pending, FinishPc.observes]
    · intro other hother
      rcases mem_append.1 hother with hold | hnew
      · exact .inl hold
      · rw [mem_singleton.1 hnew]
        exact .inr rfl

theorem accounts_of_quiet {after : Option FinishPc}
    (hfinish : ∀ status exporter err finished, op ≠ .finish status exporter err finished)
    (hcount : ∀ status, op ≠ .count status)
    (hafter : ∀ f, after = some f → f.observes = none ∧ f.status.terminal = true) :
    Accounts sh c op none after := by
  obtain ⟨hobserved, hcounts⟩ := @onCell_observed sh c op hfinish hcount
  have hpending : after.bind FinishPc.observes = none := by
    cases after with
    | none => rfl
    | some f => exact (hafter f rfl).1
  refine ⟨?_, ?_, ?_, ?_⟩
  · intro _
    refine ⟨fun f hf => (hafter f hf).2, ?_⟩
    cases op with
    | finish status exporter err finished => exact absurd rfl (hfinish status exporter err finished)
    | count status => exact absurd rfl (hcount status)
    | _ => exact trivial
  · simp [pending, hpending, hcounts, Record.observations, hobserved]
  · rw [hcounts]
    exact fun _ h => .inl h
  · intro status hstatus
    rw [hpending] at hstatus
    cases hstatus

theorem afterAttempt_finish (c : Cell) (a : Attempt) (exporter : Exporter) (err : Option Bytes) (f : FinishPc)
    (hfinish : (c.afterAttempt a exporter err).finish? = some f) :
    f.observes = none ∧ f.status.terminal = true := by
  rw [Cell.afterAttempt.eq_def] at hfinish
  split at hfinish
  · cases hfinish
  · split at hfinish
    · cases hfinish
      exact ⟨rfl, rfl⟩
    · split_ifs at hfinish <;> cases hfinish <;> exact ⟨rfl, rfl⟩

theorem afterPrepare_finish (c : Cell) (step : BuildStep) (rest : List BuildStep) (exporter : Exporter)
    (written : Except Bytes Unit) (f : FinishPc)
    (hfinish : (c.afterPrepare cfg step rest exporter written).finish? = some f) :
    f.observes = none ∧ f.status.terminal = true := by
  rw [Cell.afterPrepare] at hfinish
  split at hfinish <;> cases hfinish
  exact ⟨rfl, rfl⟩

theorem Next.accounts {pc' : TaskPc} (hnext : Next cfg sh c pc op pc') :
    Accounts sh c op pc.finish? pc'.finish? := by
  have hquiet : ∀ f : FinishPc, (none : Option FinishPc) = some f → f.observes = none ∧
      f.status.terminal = true := by
    intro f hf
    cases hf
  have hstarts : ∀ (status : BuildStatus) (exporter : Exporter) (err : Option Bytes),
      status.terminal = true → ∀ f : FinishPc, some (FinishPc.now status exporter err) = some f →
        f.observes = none ∧ f.status.terminal = true := by
    rintro status exporter err hterminal f ⟨⟩
    exact ⟨rfl, hterminal⟩
  cases hnext with
  | finishes hfinish | finished hfinish => exact hfinish.accounts
  | prepared step rest exporter written =>
    exact accounts_of_quiet (by simp) (by simp) (afterPrepare_finish c step rest exporter written)
  | attempted a exporter err =>
    exact accounts_of_quiet (by simp) (by simp) (afterAttempt_finish c a exporter err)
  | logFailed | stepsDone | retryCanceled => exact accounts_of_quiet (by simp) (by simp) (hstarts _ _ _ rfl)
  | _ => exact accounts_of_quiet (by simp) (by simp) hquiet

theorem HandlerNext.accounts {pc : HandlerPc} (hnext : HandlerNext sh c h pc op next) :
    Accounts sh c op pc.finish? next.finish? := by
  have hstarts : ∀ f : FinishPc, some finishCanceled = some f → f.observes = none ∧
      f.status.terminal = true := by
    rintro f ⟨⟩
    exact ⟨rfl, rfl⟩
  cases hnext with
  | rejectFinishes hfinish | rejectFinished hfinish | cancelFinishes hfinish | cancelFinished hfinish =>
    exact hfinish.accounts
  | rejectCancels | shutdownGone => exact accounts_of_quiet (by simp) (by simp) hstarts
  | @cancelsCtx cancels status hfinish =>
    cases cancels <;> exact accounts_of_quiet (by simp) (by simp) hstarts
  | @cancelReturns cancels status hshutdown hstatus =>
    cases cancels <;> exact accounts_of_quiet (by simp) (by simp) (by rintro f ⟨⟩)
  | _ => exact accounts_of_quiet (by simp) (by simp) (by rintro f ⟨⟩)

def Shared.counter (sh : Shared) : BuildStatus → Nat
  | .succeeded => sh.succeeded
  | .failed => sh.failed
  | .canceled => sh.canceled
  | .queued | .running => 0

def pendingFor (i : Nat) (handlers : List Handler) : Nat :=
  Ledger.total (fun h => if h.id = i then pending h.pc.finish? else 0) handlers

def Mover (handlers : List Handler) (i : Nat) (c : Cell) (finish : Option FinishPc) : Prop :=
  finish = c.pc.finish? ∨ ∃ h ∈ handlers, h.id = i ∧ finish = h.pc.finish?

structure Observed (handlers : List Handler) (i : Nat) (c : Cell) : Prop where
  settled : Settled c.record
  terminal : ∀ finish, Mover handlers i c finish → FinishesTerminal finish
  once : c.counts.length + pending c.pc.finish? + pendingFor i handlers = c.record.observations
  counts : ∀ status ∈ c.counts, c.record.status = status
  claims : ∀ finish status, Mover handlers i c finish → finish.bind FinishPc.observes = some status →
    c.record.status = status

structure Accounted (s : State) : Prop where
  ids : ∀ h ∈ s.handlers, h.id < s.cells.length
  cells : ∀ (i : Nat) (c : Cell), s.cells[i]? = some c → Observed s.handlers i c
  counters : ∀ status, s.shared.counter status = Ledger.total (fun c => c.counts.count status) s.cells

theorem Accounted.handlerOp (haccounted : Accounted s) (hhandler : s.handlers[k]? = some h)
    (hcell : s.cells[h.id]? = some c) (hnext : HandlerNext s.shared c h h.pc op next) :
    Settled c.record ∧ op.FinishesTerminal := by
  have hobserved := haccounted.cells h.id c hcell
  have hmover : Mover s.handlers h.id c h.pc.finish? :=
    .inr ⟨h, mem_of_getElem? hhandler, rfl, rfl⟩
  exact ⟨hobserved.settled, (hnext.accounts.terminal (hobserved.terminal _ hmover)).2⟩

theorem Accounted.taskOp (haccounted : Accounted s) (hcell : s.cells[i]? = some c)
    (hnext : Next cfg s.shared c c.pc op pc) : Settled c.record ∧ op.FinishesTerminal := by
  have hobserved := haccounted.cells i c hcell
  exact ⟨hobserved.settled, (hnext.accounts.terminal (hobserved.terminal _ (.inl rfl))).2⟩

theorem pending_of_observes {finish : Option FinishPc} {status : BuildStatus}
    (hobserves : finish.bind FinishPc.observes = some status) : pending finish = 1 := by
  simp [pending, hobserves]

theorem pending_le {finish : Option FinishPc} (hmover : Mover handlers i c finish) :
    pending finish ≤ pending c.pc.finish? + pendingFor i handlers := by
  rcases hmover with rfl | ⟨h, hmem, hid, rfl⟩
  · omega
  · have hle := Ledger.le_total (fun g : Handler => if g.id = i then pending g.pc.finish? else 0) hmem
    simp only [hid, if_true] at hle
    rw [pendingFor]
    omega

theorem Observed.keeps (hobserved : Observed handlers i c) (hop : op.FinishesTerminal)
    (hclaim : 0 < c.counts.length + pending c.pc.finish? + pendingFor i handlers) :
    (op.onCell sh c).record.status = c.record.status := by
  apply (onCell_settled hobserved.settled hop).2
  apply hobserved.settled.terminal
  rw [hobserved.once, Record.observations] at hclaim
  split at hclaim
  · assumption
  · omega

theorem Observed.move {handlers' : List Handler} {pc' : TaskPc} {before after : Option FinishPc}
    (hobserved : Observed handlers i c) (haccounts : Accounts sh c op before after)
    (hmover : Mover handlers i c before)
    (hmovers : ∀ finish, Mover handlers' i { op.onCell sh c with pc := pc' } finish → Mover handlers i c finish ∨ finish = after)
    (hbalance : pending pc'.finish? + pendingFor i handlers' + pending before = pending c.pc.finish? + pendingFor i handlers + pending after) :
    Observed handlers' i { op.onCell sh c with pc := pc' } := by
  obtain ⟨hafter, hop⟩ := haccounts.terminal (hobserved.terminal before hmover)
  have hclaimed : ∀ finish status, Mover handlers i c finish →
      finish.bind FinishPc.observes = some status → (op.onCell sh c).record.status = status := by
    intro finish status hfinish hobserves
    have hle := pending_le hfinish
    rw [pending_of_observes hobserves] at hle
    rw [hobserved.keeps hop (by omega)]
    exact hobserved.claims finish status hfinish hobserves
  refine ⟨(onCell_settled hobserved.settled hop).1, ?_, ?_, ?_, ?_⟩
  · intro finish hfinish
    rcases hmovers finish hfinish with hold | rfl
    · exact hobserved.terminal finish hold
    · exact hafter
  · have honce := hobserved.once
    have hmoves := haccounts.balance
    simp only
    omega
  · intro status hstatus
    rcases haccounts.counts status hstatus with hold | hobserves
    · have hlength := length_pos_of_mem hold
      rw [hobserved.keeps hop (by omega)]
      exact hobserved.counts status hold
    · exact hclaimed before status hmover hobserves
  · intro finish status hfinish hobserves
    rcases hmovers finish hfinish with hold | rfl
    · exact hclaimed finish status hold hobserves
    · exact haccounts.after status hobserves

theorem pendingFor_set (hhandler : handlers[k]? = some h) (next : HandlerPc) (i : Nat) :
    pendingFor i (handlers.set k { h with pc := next }) +
        (if h.id = i then pending h.pc.finish? else 0) =
      pendingFor i handlers + (if h.id = i then pending next.finish? else 0) :=
  total_set (fun g : Handler => if g.id = i then pending g.pc.finish? else 0) hhandler

theorem Observed.setHandler {j : Nat} {d : Cell} (hobserved : Observed handlers j d)
    (hhandler : handlers[k]? = some h) (hother : j ≠ h.id ∨ (h.pc.finish? = none ∧ next.finish? = none)) :
    Observed (handlers.set k { h with pc := next }) j d := by
  have hpending : pendingFor j (handlers.set k { h with pc := next }) = pendingFor j handlers := by
    have hset := pendingFor_set hhandler next j
    rcases hother with hne | ⟨hbefore, hafter⟩
    · rw [if_neg (Ne.symm hne), if_neg (Ne.symm hne)] at hset
      exact hset
    · rw [hbefore, hafter] at hset
      omega
  have hmovers : ∀ finish, Mover (handlers.set k { h with pc := next }) j d finish →
      Mover handlers j d finish := by
    rintro finish (hown | ⟨g, hg, hid, hfinish⟩)
    · exact .inl hown
    · rcases mem_or_eq_of_mem_set hg with hold | rfl
      · exact .inr ⟨g, hold, hid, hfinish⟩
      · rcases hother with hne | ⟨hbefore, hafter⟩
        · exact absurd hid.symm hne
        · refine .inr ⟨h, mem_of_getElem? hhandler, hid, ?_⟩
          rw [hfinish, hafter, hbefore]
  exact ⟨hobserved.settled, fun finish hmover => hobserved.terminal finish (hmovers finish hmover),
    by rw [hpending]; exact hobserved.once, hobserved.counts,
    fun finish status hmover => hobserved.claims finish status (hmovers finish hmover)⟩

theorem Observed.addHandler (hobserved : Observed handlers i c) (hfinish : h.pc.finish? = none) :
    Observed (handlers ++ [h]) i c := by
  have hpending : pendingFor i (handlers ++ [h]) = pendingFor i handlers := by
    simp [pendingFor, total_append, hfinish, pending]
  have hmovers : ∀ finish, Mover (handlers ++ [h]) i c finish → Mover handlers i c finish ∨ finish = none := by
    rintro finish (hown | ⟨g, hg, hid, hg'⟩)
    · exact .inl (.inl hown)
    · rcases mem_append.1 hg with hold | hnew
      · exact .inl (.inr ⟨g, hold, hid, hg'⟩)
      · rw [mem_singleton.1 hnew, hfinish] at hg'
        exact .inr hg'
  refine ⟨hobserved.settled, ?_, by rw [hpending]; exact hobserved.once, hobserved.counts, ?_⟩
  · intro finish hmover
    rcases hmovers finish hmover with hold | rfl
    · exact hobserved.terminal finish hold
    · rintro f ⟨⟩
  · intro finish status hmover hobserves
    rcases hmovers finish hmover with hold | rfl
    · exact hobserved.claims finish status hold hobserves
    · cases hobserves

theorem Observed.of_eq {d : Cell} (hobserved : Observed handlers i c) (hrecord : d.record = c.record)
    (hpc : d.pc.finish? = c.pc.finish?) (hcounts : d.counts = c.counts) : Observed handlers i d := by
  obtain ⟨hsettled, hterminal, honce, hcount, hclaims⟩ := hobserved
  have hmover : ∀ finish, Mover handlers i d finish ↔ Mover handlers i c finish := by
    intro finish
    rw [Mover, Mover, hpc]
  refine ⟨hrecord ▸ hsettled, fun finish hd => hterminal finish ((hmover finish).1 hd), ?_, ?_, ?_⟩
  · rw [hcounts, hpc, hrecord]
    exact honce
  · rw [hcounts, hrecord]
    exact hcount
  · rw [hrecord]
    exact fun finish status hd => hclaims finish status ((hmover finish).1 hd)

theorem onShared_counters {sh' : Shared} (hshared : op.onShared cfg sh = some sh')
    (hcount : ∀ status, op ≠ .count status) (status : BuildStatus) :
    sh'.counter status = sh.counter status := by
  have hquiet : sh'.succeeded = sh.succeeded ∧ sh'.failed = sh.failed ∧ sh'.canceled = sh.canceled := by
    unfold Op.onShared at hshared
    split at hshared
    case h_6 counted => exact absurd rfl (hcount counted)
    case h_5 => cases hshared; exact ⟨rfl, rfl, rfl⟩
    case h_7 => cases hshared; exact ⟨rfl, rfl, rfl⟩
    case h_3 | h_4 =>
      obtain ⟨pool, _, rfl⟩ := Option.map_eq_some_iff.1 hshared
      exact ⟨rfl, rfl, rfl⟩
    all_goals split_ifs at hshared <;> cases hshared <;> exact ⟨rfl, rfl, rfl⟩
  obtain ⟨hsucceeded, hfailed, hcanceled⟩ := hquiet
  cases status <;> simp only [Shared.counter, hsucceeded, hfailed, hcanceled]

theorem onCell_counts (hcount : ∀ status, op ≠ .count status) : (op.onCell sh c).counts = c.counts := by
  have hnext := onCell_next sh c op
  generalize op.onCell sh c = c' at hnext ⊢
  cases hnext with
  | counted status => exact absurd rfl (hcount status)
  | _ => rfl

theorem counter_balance {sh' : Shared} (hshared : op.onShared cfg sh = some sh') (hop : op.FinishesTerminal)
    (status : BuildStatus) : sh'.counter status + c.counts.count status =
      sh.counter status + (op.onCell sh c).counts.count status := by
  by_cases hcount : ∃ counted, op = .count counted
  · obtain ⟨counted, rfl⟩ := hcount
    cases hshared
    have hcounter : (sh.count counted).counter status =
        sh.counter status + if counted = status then 1 else 0 := by
      cases counted <;> cases hop <;> cases status <;> rfl
    simp only [Op.onCell, count_append, count_singleton, hcounter, beq_iff_eq]
    omega
  · have hquiet : ∀ counted, op ≠ .count counted := fun counted hop => hcount ⟨counted, hop⟩
    rw [onShared_counters hshared hquiet, onCell_counts hquiet]

section

variable (haccounted : Accounted s)

include haccounted

theorem Accounted.set {c' : Cell} (hcell : s.cells[i]? = some c)
    (hcells : s'.cells = s.cells.set i c') (hids : ∀ h ∈ s'.handlers, h.id < s.cells.length)
    (hobserved : Observed s'.handlers i c')
    (hothers : ∀ (j : Nat) (d : Cell), j ≠ i → Observed s.handlers j d → Observed s'.handlers j d)
    (hcounter : ∀ status, s'.shared.counter status + c.counts.count status = s.shared.counter status + c'.counts.count status) :
    Accounted s' := by
  refine ⟨?_, ?_, ?_⟩
  · rw [hcells, length_set]
    exact hids
  · intro j d hd
    rw [hcells] at hd
    rcases getElem?_set_cases hd with ⟨rfl, rfl⟩ | ⟨hne, hold⟩
    · exact hobserved
    · exact hothers j d hne (haccounted.cells j d hold)
  · intro status
    rw [hcells]
    exact balance_set (fun c => c.counts.count status) hcell (haccounted.counters status)
      (hcounter status)

theorem Accounted.lt_of_set (hhandler : s.handlers[k]? = some h) (next : HandlerPc) :
    ∀ g ∈ s.handlers.set k { h with pc := next }, g.id < s.cells.length := by
  intro g hg
  rcases mem_or_eq_of_mem_set hg with hold | rfl
  · exact haccounted.ids g hold
  · exact haccounted.ids h (mem_of_getElem? hhandler)

theorem accounted_task (hcell : s.cells[i]? = some c)
    (haccounts : Accounts s.shared c op c.pc.finish? pc.finish?)
    (hshared : op.onShared cfg s.shared = some sh) :
    Accounted { s with shared := sh, cells := s.cells.set i { op.onCell s.shared c with pc := pc } } := by
  have hobserved : Observed s.handlers i c := haccounted.cells i c hcell
  have hmover : Mover s.handlers i c c.pc.finish? := .inl rfl
  refine haccounted.set hcell rfl haccounted.ids ?_ (fun _ _ _ hold => hold) ?_
  · refine hobserved.move haccounts hmover ?_ (by simp only; omega)
    rintro finish (hown | hhandler)
    · exact .inr hown
    · exact .inl (.inr hhandler)
  · exact counter_balance hshared (haccounts.terminal (hobserved.terminal _ hmover)).2

theorem accounted_handler (hhandler : s.handlers[k]? = some h)
    (hcell : s.cells[h.id]? = some c) (haccounts : Accounts s.shared c op h.pc.finish? next.finish?)
    (hshared : op.onShared cfg s.shared = some sh) : Accounted { s with
      shared := sh
      cells := s.cells.set h.id { op.onCell s.shared c with pc := c.pc }
      handlers := s.handlers.set k { h with pc := next } } := by
  have hobserved : Observed s.handlers h.id c := haccounted.cells h.id c hcell
  have hmover : Mover s.handlers h.id c h.pc.finish? :=
    .inr ⟨h, mem_of_getElem? hhandler, rfl, rfl⟩
  refine haccounted.set hcell rfl (haccounted.lt_of_set hhandler next) ?_ ?_ ?_
  · have hpending := pendingFor_set hhandler next h.id
    simp only [if_true] at hpending
    refine hobserved.move haccounts hmover ?_ (by simp only; omega)
    rintro finish (hown | ⟨g, hg, hid, hfinish⟩)
    · exact .inl (.inl hown)
    · rcases mem_or_eq_of_mem_set hg with hold | rfl
      · exact .inl (.inr ⟨g, hold, hid, hfinish⟩)
      · exact .inr hfinish
  · intro j d hne hold
    exact hold.setHandler hhandler (.inl hne)
  · exact counter_balance hshared (haccounts.terminal (hobserved.terminal _ hmover)).2

theorem accounted_create (spec : TaskSpec) : Accounted { s with
      cells := s.cells ++ [.create spec s.shared.clock]
      handlers := s.handlers ++ [⟨s.cells.length, false, .enqueue⟩] } := by
  have hnone : ∀ g ∈ s.handlers ++ [⟨s.cells.length, false, .enqueue⟩], g.id = s.cells.length →
      g.pc.finish? = none := by
    intro g hg hid
    rcases mem_append.1 hg with hold | hnew
    · exact absurd (haccounted.ids g hold) (by omega)
    · rw [mem_singleton.1 hnew]
      rfl
  refine ⟨?_, ?_, ?_⟩
  · intro g hg
    simp only [length_append, length_singleton]
    rcases mem_append.1 hg with hold | hnew
    · have := haccounted.ids g hold
      omega
    · rw [mem_singleton.1 hnew]
      simp
  · intro i d hd
    rcases getElem?_snoc hd with hold | ⟨rfl, rfl⟩
    · exact (haccounted.cells i d hold).addHandler rfl
    · have hmovers : ∀ finish, Mover (s.handlers ++ [⟨s.cells.length, false, .enqueue⟩]) s.cells.length
          (.create spec s.shared.clock) finish → finish = none := by
        rintro finish (rfl | ⟨g, hg, hid, rfl⟩)
        · rfl
        · exact hnone g hg hid
      refine ⟨⟨by simp [Cell.create, Record.created], by simp [Cell.create, Record.created]⟩, ?_, ?_,
        by simp [Cell.create], ?_⟩
      · intro finish hmover f hf
        rw [hmovers finish hmover] at hf
        cases hf
      · have hzero : pendingFor s.cells.length (s.handlers ++ [⟨s.cells.length, false, .enqueue⟩]) = 0 := by
          apply total_eq_zero
          intro g hg
          split
          · rename_i hid
            rw [hnone g hg hid]
            rfl
          · rfl
        rw [hzero]
        rfl
      · intro finish status hmover hobserves
        rw [hmovers finish hmover] at hobserves
        cases hobserves
  · intro status
    rw [total_append, ← haccounted.counters status]
    simp [Cell.create]

theorem accounted_reap (now : Nat) : Accounted { s with cells := s.cells.map (Cell.reap cfg now) } := by
  have hreap : ∀ c : Cell, (c.reap cfg now).record = c.record ∧ (c.reap cfg now).pc = c.pc ∧
      (c.reap cfg now).counts = c.counts := by
    intro c
    rw [Cell.reap]
    split <;> exact ⟨rfl, rfl, rfl⟩
  refine ⟨?_, ?_, ?_⟩
  · rw [length_map]
    exact haccounted.ids
  · intro i d hd
    rw [getElem?_map] at hd
    obtain ⟨c, hc, rfl⟩ := Option.map_eq_some_iff.1 hd
    obtain ⟨hrecord, hpc, hcounts⟩ := hreap c
    exact (haccounted.cells i c hc).of_eq hrecord (by rw [hpc]) hcounts
  · intro status
    rw [total_map]
    simp only [(hreap _).2.2]
    exact haccounted.counters status

end

theorem accounted_step {a : Action} (hadmitted : Admitted s) (haccounted : Accounted s)
    (heffect : Effect cfg s a s') : Accounted s' := by
  have hskip : ∀ (c : Cell) (after : TaskPc), c.pc.finish? = none → after.finish? = none →
      Accounts s.shared c .skip c.pc.finish? after.finish? := by
    intro c after hbefore hafter
    rw [hbefore, hafter]
    exact accounts_of_quiet (by simp) (by simp) (by simp)
  have hshared : ∀ sh : Shared, Op.skip.onShared cfg sh = some sh := fun _ => rfl
  cases heffect with
  | tick | refreshPool => exact ⟨haccounted.ids, haccounted.cells, fun status => haccounted.counters status⟩
  | create spec => exact accounted_create haccounted spec
  | request shutdown hid =>
    refine ⟨?_, fun i c hcell => (haccounted.cells i c hcell).addHandler rfl, haccounted.counters⟩
    intro g hg
    rcases mem_append.1 hg with hold | hnew
    · exact haccounted.ids g hold
    · rw [mem_singleton.1 hnew]
      exact hid
  | handler hhandler hcell hnext hshared => exact accounted_handler haccounted hhandler hcell hnext.accounts hshared
  | @enqueue k leaves h c outcome hhandler hpc hcell =>
    have hcreated : c.pc = .created := (hadmitted.enqueues k h hhandler hpc).eq hcell
    have hmoved := accounted_task haccounted hcell
      (hskip c outcome.pc (by rw [hcreated]; rfl) (by cases outcome <;> rfl)) (hshared s.shared)
    have hquiet : h.pc.finish? = none ∧ (outcome.handlerPc c.spec.sync).finish? = none := by
      refine ⟨by rw [hpc]; rfl, ?_⟩
      cases outcome <;> cases c.spec.sync <;> rfl
    exact ⟨hmoved.lt_of_set hhandler _, fun i d hd => (hmoved.cells i d hd).setHandler hhandler (.inr hquiet),
      hmoved.counters⟩
  | @pop mode i c hqueue hcell =>
    have hwaits : c.pc = .queued := (hadmitted.queued i hqueue).eq hcell
    have hmoved := accounted_task haccounted hcell (hskip c .get (by rw [hwaits]; rfl) rfl) (hshared s.shared)
    exact ⟨hmoved.ids, hmoved.cells, hmoved.counters⟩
  | closeQueue mode => exact ⟨haccounted.ids, haccounted.cells, haccounted.counters⟩
  | task hcell hcontrol hshared => exact accounted_task haccounted hcell (control_next hcontrol).accounts hshared
  | @ctxDone i err c hcell | @removeDir i c hcell =>
    refine haccounted.set hcell rfl haccounted.ids ?_ (fun _ _ _ hold => hold) (fun _ => rfl)
    exact (haccounted.cells i c hcell).of_eq rfl rfl rfl
  | reap hnow => exact accounted_reap haccounted _

def Lasting (s t : State) : Prop :=
  ∀ (i : Nat) (c : Cell), s.cells[i]? = some c → c.record.status.terminal = true →
    ∃ d, t.cells[i]? = some d ∧ d.record.status = c.record.status

structure CountedOnce (s : State) : Prop where
  tasks : ∀ c ∈ s.cells, c.counts.length ≤ 1 ∧
    ∀ status ∈ c.counts, status.terminal = true ∧ c.record.status = status
  succeeded : s.shared.succeeded = Ledger.total (fun c => c.counts.count .succeeded) s.cells
  failed : s.shared.failed = Ledger.total (fun c => c.counts.count .failed) s.cells
  canceled : s.shared.canceled = Ledger.total (fun c => c.counts.count .canceled) s.cells

theorem Lasting.of_set {c' : Cell} (hcell : s.cells[i]? = some c) (hcells : s'.cells = s.cells.set i c')
    (hstatus : c.record.status.terminal = true → c'.record.status = c.record.status) : Lasting s s' := by
  intro j d hd hterminal
  rw [hcells]
  by_cases hij : i = j
  · subst hij
    rw [hcell] at hd
    cases hd
    exact ⟨c', getElem?_set_self (List.getElem?_eq_some_iff.1 hcell).1, hstatus hterminal⟩
  · exact ⟨d, by rw [getElem?_set_ne hij, hd], rfl⟩

theorem lasting_step {a : Action} (haccounted : Accounted s) (heffect : Effect cfg s a s') :
    Lasting s s' := by
  have hsame : ∀ s'' : State, s''.cells = s.cells → Lasting s s'' := by
    intro s'' hcells i c hcell _
    exact ⟨c, by rw [hcells, hcell], rfl⟩
  cases heffect with
  | tick | request | closeQueue | refreshPool => exact hsame _ rfl
  | create spec =>
    intro i c hcell _
    exact ⟨c, by rw [getElem?_append_left (List.getElem?_eq_some_iff.1 hcell).1, hcell], rfl⟩
  | @handler k leaves h c op next sh hhandler hcell hnext hshared =>
    obtain ⟨hsettled, hop⟩ := haccounted.handlerOp hhandler hcell hnext
    exact .of_set hcell rfl (onCell_settled hsettled hop).2
  | @task i choice c op pc sh hcell hcontrol hshared =>
    obtain ⟨hsettled, hop⟩ := haccounted.taskOp hcell (control_next hcontrol)
    exact .of_set hcell rfl (onCell_settled hsettled hop).2
  | enqueue hhandler hpc hcell | pop hqueue hcell | ctxDone hcell | removeDir hcell =>
    exact .of_set hcell rfl fun _ => rfl
  | @reap now hnow =>
    intro i c hcell _
    refine ⟨c.reap cfg now, by rw [getElem?_map, hcell]; rfl, ?_⟩
    rw [Cell.reap]
    split <;> rfl

theorem Accounted.countedOnce (haccounted : Accounted s) : CountedOnce s := by
  refine ⟨?_, haccounted.counters .succeeded, haccounted.counters .failed, haccounted.counters .canceled⟩
  intro c hmem
  obtain ⟨i, hcell⟩ := getElem?_of_mem hmem
  have hobserved := haccounted.cells i c hcell
  have honce := hobserved.once
  rw [Record.observations] at honce
  refine ⟨by split at honce <;> omega, ?_⟩
  intro status hstatus
  have hcounted : c.record.observed = true := by
    have hlength := length_pos_of_mem hstatus
    split at honce
    · assumption
    · omega
  have hterminal := hobserved.settled.terminal hcounted
  rw [hobserved.counts status hstatus] at hterminal
  exact ⟨hterminal, hobserved.counts status hstatus⟩

theorem accounted_start (addrs : List Pool.BuildkitAddr) (addrConcurrency : Nat) :
    Accounted (start addrs addrConcurrency) :=
  ⟨by simp [start], by simp [start], fun status => by cases status <;> rfl⟩

theorem accounted_keep (s : State) (a : Action) (s' : State) (hinv : Admitted s ∧ Accounted s)
    (hstep : step cfg s a = some s') : Admitted s' ∧ Accounted s' :=
  ⟨admitted_step hinv.1 (step_effect hstep), accounted_step hinv.1 hinv.2 (step_effect hstep)⟩

theorem accounted_run {addrs : List Pool.BuildkitAddr} {addrConcurrency : Nat} {as : List Action}
    (hrun : Runs.exec (step cfg) (start addrs addrConcurrency) as = some s) : Admitted s ∧ Accounted s :=
  Runs.exec_invariant (step cfg) accounted_keep
    ⟨admitted_start addrs addrConcurrency, accounted_start addrs addrConcurrency⟩ hrun

/-- A terminal status never changes, and is counted once. -/
theorem terminal_status_final {addrs : List Pool.BuildkitAddr} {addrConcurrency : Nat} {as bs : List Action}
    {s t : State} (hrun : Runs.exec (step cfg) (start addrs addrConcurrency) as = some s)
    (hlater : Runs.exec (step cfg) s bs = some t) : Lasting s t ∧ CountedOnce t := by
  have hinv := accounted_run hrun
  refine ⟨?_, (Runs.exec_invariant (step cfg) accounted_keep hinv hlater).2.countedOnce⟩
  refine Runs.exec_relates (step cfg) ?_ ?_ accounted_keep ?_ hinv hlater
  · intro s i c hcell _
    exact ⟨c, hcell, rfl⟩
  · intro s t u hfirst hsecond i c hcell hterminal
    obtain ⟨d, hd, hstatus⟩ := hfirst i c hcell hterminal
    obtain ⟨e, he, hstatus'⟩ := hsecond i d hd (hstatus ▸ hterminal)
    exact ⟨e, he, hstatus'.trans hstatus⟩
  · exact fun s a s' hinv hstep => lasting_step hinv.2 (step_effect hstep)

def sampleCancel : List Action := [.create sampleTask, .handler 0 false, .requestCancel 0, .handler 1 false]

def sampleCanceled : List Action := List.replicate 4 (.handler 1 false) ++ List.replicate 2 (.task 0 .go)

theorem canceled_task_final : ∃ s t, Runs.exec (step sampleConfig) sampleStart sampleCancel = some s ∧
    Runs.exec (step sampleConfig) s sampleCanceled = some t ∧ Lasting s t ∧ CountedOnce t := by
  have hruns : ((Runs.exec (step sampleConfig) sampleStart sampleCancel).bind fun s =>
      Runs.exec (step sampleConfig) s sampleCanceled).isSome = true := by decide +kernel
  obtain ⟨t, ht⟩ := Option.isSome_iff_exists.1 hruns
  obtain ⟨s, hrun, hlater⟩ := Option.bind_eq_some_iff.1 ht
  exact ⟨s, t, hrun, hlater, terminal_status_final hrun hlater⟩

example : (Runs.exec (step sampleConfig) sampleStart (sampleCancel ++ sampleCanceled)).map
    (fun t => (t.shared.canceled, t.cells.map fun c => (c.record.status, c.pc))) =
      some (1, [(.canceled, .returned)]) := by
  decide +kernel

end BuildkitService.Daemon
