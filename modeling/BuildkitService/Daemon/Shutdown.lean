import BuildkitService.Daemon.Deterministic

/-!
# Shutting the daemon down

`Run` and `serveHTTP` in `internal/builddaemon/run.go`, around the daemon.
-/

namespace BuildkitService.Daemon

open Threads List Option

/-! ### The process -/

inductive RunPc where
  | serving
  | closing (modes : List Bytes)
  | canceling (ids : List Nat)
  | cancelsTask (ids : List Nat) (k : Nat)
  | returned
  deriving DecidableEq, Repr

structure Process where
  daemon : State
  creating : Nat
  ctxDone : Bool
  closed : Bool
  run : RunPc
  deriving DecidableEq, Repr

inductive RunAction where
  | accept
  | refuse
  | add (spec : TaskSpec)
  | cancelCtx
  | shutdown
  | listenReturns (failed : Bool)
  | closeQueue (mode : Bytes)
  | list (ids : List Nat)
  | cancelNext
  | cancelStep
  | other (a : Action)
  deriving Repr

def RunPc.owns : RunPc → Action → Bool
  | .cancelsTask _ k, .handler k' _ => k == k'
  | _, .create _ | _, .requestShutdown _ | _, .closeQueue _ => true
  | _, _ => false

def State.unfinished (s : State) : List Nat :=
  (List.range s.cells.length).filter fun i =>
    (s.cells[i]?).any fun c => c.stored && !c.record.status.terminal

def Process.step (cfg : Config) (p : Process) : RunAction → Option Process
  | .accept => if p.closed then none else some { p with creating := p.creating + 1 }
  | .refuse => if p.creating = 0 then none else some { p with creating := p.creating - 1 }
  | .add spec =>
      if p.creating = 0 then none
      else (Daemon.step cfg p.daemon (.create spec)).map fun d =>
        { p with daemon := d, creating := p.creating - 1 }
  | .cancelCtx => some { p with ctxDone := true }
  | .shutdown => if p.ctxDone = true ∨ p.run = .returned then some { p with closed := true } else none
  | .listenReturns failed =>
      if p.run = .serving ∧ (failed = true ∨ p.closed = true)
      then some { p with run := .closing ((cfg.modes.getD []).map Prod.fst) } else none
  | .closeQueue mode =>
      match p.run with
      | .closing modes =>
          if mode ∈ modes then (Daemon.step cfg p.daemon (.closeQueue mode)).map fun d =>
            { p with daemon := d, run := .closing (modes.erase mode) }
          else none
      | _ => none
  | .list ids =>
      if p.run = .closing [] ∧ ids.Perm p.daemon.unfinished then some { p with run := .canceling ids } else none
  | .cancelNext =>
      match p.run with
      | .canceling [] => some { p with run := .returned }
      | .canceling (id :: ids) => some { p with
          daemon := { p.daemon with handlers := p.daemon.handlers ++ [⟨id, true, .cancel⟩] }
          run := .cancelsTask ids p.daemon.handlers.length }
      | _ => none
  | .cancelStep =>
      match p.run with
      | .cancelsTask ids k =>
          match p.daemon.handlers[k]? with
          | some h =>
              if h.pc = .returned then some { p with run := .canceling ids }
              else (Daemon.step cfg p.daemon (.handler k false)).map fun d => { p with daemon := d }
          | none => none
      | _ => none
  | .other a =>
      if p.run.owns a then none else (Daemon.step cfg p.daemon a).map fun d => { p with daemon := d }

def Process.start (addrs : List Pool.BuildkitAddr) (addrConcurrency : Nat) : Process :=
  ⟨Daemon.start addrs addrConcurrency, 0, false, false, .serving⟩

variable {cfg : Config} {s s' : State} {p p' : Process} {i : Nat} {a : Action}

inductive RunEffect (cfg : Config) (p : Process) : RunAction → Process → Prop
  | accepts (hopen : p.closed = false) : RunEffect cfg p .accept { p with creating := p.creating + 1 }
  | refuses (hcreating : p.creating ≠ 0) : RunEffect cfg p .refuse { p with creating := p.creating - 1 }
  | adds {spec : TaskSpec} {d : State} (hcreating : p.creating ≠ 0)
      (heffect : Effect cfg p.daemon (.create spec) d) :
      RunEffect cfg p (.add spec) { p with daemon := d, creating := p.creating - 1 }
  | ctxEnds : RunEffect cfg p .cancelCtx { p with ctxDone := true }
  | shutsDown : RunEffect cfg p .shutdown { p with closed := true }
  | listenReturns {failed : Bool} (hrun : p.run = .serving) (modes : List Bytes) :
      RunEffect cfg p (.listenReturns failed) { p with run := .closing modes }
  | closesQueue {mode : Bytes} {modes : List Bytes} {d : State} (hrun : p.run = .closing modes)
      (heffect : Effect cfg p.daemon (.closeQueue mode) d) :
      RunEffect cfg p (.closeQueue mode) { p with daemon := d, run := .closing (modes.erase mode) }
  | lists {ids : List Nat} (hrun : p.run = .closing []) (hids : ids.Perm p.daemon.unfinished) :
      RunEffect cfg p (.list ids) { p with run := .canceling ids }
  | returns (hrun : p.run = .canceling []) : RunEffect cfg p .cancelNext { p with run := .returned }
  | begins {id : Nat} {ids : List Nat} (hrun : p.run = .canceling (id :: ids)) :
      RunEffect cfg p .cancelNext { p with
        daemon := { p.daemon with handlers := p.daemon.handlers ++ [⟨id, true, .cancel⟩] }
        run := .cancelsTask ids p.daemon.handlers.length }
  | ends {ids : List Nat} {k : Nat} {h : Handler} (hrun : p.run = .cancelsTask ids k)
      (hhandler : p.daemon.handlers[k]? = some h) (hpc : h.pc = .returned) :
      RunEffect cfg p .cancelStep { p with run := .canceling ids }
  | moves {r : RunAction} {a : Action} {d : State} (ha : ∀ spec, a ≠ .create spec)
      (heffect : Effect cfg p.daemon a d) : RunEffect cfg p r { p with daemon := d }

theorem run_effect {r : RunAction} (hstep : p.step cfg r = some p') : RunEffect cfg p r p' := by
  cases r with
  | accept =>
    simp only [Process.step] at hstep
    split at hstep
    · cases hstep
    · rename_i hopen
      cases hstep
      exact .accepts (eq_false_of_ne_true hopen)
  | refuse =>
    simp only [Process.step] at hstep
    split_ifs at hstep with hcreating
    cases hstep
    exact .refuses hcreating
  | add spec =>
    simp only [Process.step] at hstep
    split_ifs at hstep with hcreating
    obtain ⟨d, hd, rfl⟩ := map_eq_some_iff.1 hstep
    exact .adds hcreating (step_effect hd)
  | cancelCtx =>
    cases hstep
    exact .ctxEnds
  | shutdown =>
    simp only [Process.step] at hstep
    split_ifs at hstep
    cases hstep
    exact .shutsDown
  | listenReturns failed =>
    simp only [Process.step] at hstep
    split_ifs at hstep with hrun
    cases hstep
    exact .listenReturns hrun.1 _
  | closeQueue mode =>
    simp only [Process.step] at hstep
    split at hstep
    · rename_i modes hrun
      split_ifs at hstep
      obtain ⟨d, hd, rfl⟩ := map_eq_some_iff.1 hstep
      exact .closesQueue hrun (step_effect hd)
    · cases hstep
  | list ids =>
    simp only [Process.step] at hstep
    split_ifs at hstep with hrun
    cases hstep
    exact .lists hrun.1 hrun.2
  | cancelNext =>
    simp only [Process.step] at hstep
    split at hstep
    · rename_i hrun
      cases hstep
      exact .returns hrun
    · rename_i id ids hrun
      cases hstep
      exact .begins hrun
    · cases hstep
  | cancelStep =>
    simp only [Process.step] at hstep
    split at hstep
    · rename_i ids k hrun
      split at hstep
      · rename_i h hhandler
        split_ifs at hstep with hpc
        · cases hstep
          exact .ends hrun hhandler hpc
        · obtain ⟨d, hd, rfl⟩ := map_eq_some_iff.1 hstep
          exact .moves (by simp) (step_effect hd)
      · cases hstep
    · cases hstep
  | other a =>
    simp only [Process.step] at hstep
    split at hstep
    · cases hstep
    · rename_i howns
      obtain ⟨d, hd, rfl⟩ := map_eq_some_iff.1 hstep
      refine .moves ?_ (step_effect hd)
      rintro spec rfl
      exact howns (by cases p.run <;> rfl)

/-! ### Unfinished tasks -/

theorem mem_unfinished :
    i ∈ s.unfinished ↔ ∃ c, s.cells[i]? = some c ∧ c.stored = true ∧ c.record.status.terminal = false := by
  rw [State.unfinished, mem_filter, mem_range]
  constructor
  · rintro ⟨hlt, hopen⟩
    rw [getElem?_eq_getElem hlt] at hopen ⊢
    refine ⟨_, rfl, ?_⟩
    simpa using hopen
  · rintro ⟨c, hcell, hstored, hterminal⟩
    refine ⟨(List.getElem?_eq_some_iff.1 hcell).1, ?_⟩
    simp [hcell, hstored, hterminal]

theorem lt_of_mem_unfinished (hi : i ∈ s.unfinished) : i < s.cells.length := by
  obtain ⟨c, hcell, _⟩ := mem_unfinished.1 hi
  exact (List.getElem?_eq_some_iff.1 hcell).1

theorem not_unfinished_of_over {c : Cell} (hcell : s.cells[i]? = some c) (hover : c.over) :
    i ∉ s.unfinished := by
  intro hi
  obtain ⟨d, hd, hstored, hterminal⟩ := mem_unfinished.1 hi
  rw [hcell] at hd
  cases hd
  rcases hover with hdone | hgone
  · rw [hdone] at hterminal
    cases hterminal
  · rw [hgone] at hstored
    cases hstored

theorem length_cells_step (heffect : Effect cfg s a s') (ha : ∀ spec, a ≠ .create spec) :
    s'.cells.length = s.cells.length := by
  cases heffect with
  | create spec => exact absurd rfl (ha spec)
  | handler | enqueue | pop | task | ctxDone | removeDir => exact length_set
  | reap => exact length_map _
  | tick | request | closeQueue | refreshPool => rfl

theorem unfinished_step (haccounted : Accounted s) (heffect : Effect cfg s a s')
    (ha : ∀ spec, a ≠ .create spec) (hi : i ∈ s'.unfinished) : i ∈ s.unfinished := by
  obtain ⟨c', hcell', hstored', hterminal'⟩ := mem_unfinished.1 hi
  rcases ages_step haccounted heffect hcell' with ⟨c, hcell, hages⟩ | ⟨hnew, _⟩
  · refine mem_unfinished.2 ⟨c, hcell, ?_, ?_⟩
    · by_contra hgone
      rw [hages.stored (eq_false_of_ne_true hgone)] at hstored'
      cases hstored'
    · by_contra hdone
      have hterminal : c.record.status.terminal = true := eq_true_of_ne_false hdone
      rw [hages.status hterminal, hterminal] at hterminal'
      cases hterminal'
  · have hlt := (List.getElem?_eq_some_iff.1 hcell').1
    rw [length_cells_step heffect ha] at hlt
    omega

theorem handler_step {k : Nat} {h : Handler} (heffect : Effect cfg s a s')
    (hhandler : s.handlers[k]? = some h) (hshutdown : h.shutdown = true) :
    ∃ h', s'.handlers[k]? = some h' ∧ h'.id = h.id ∧ h'.shutdown = true ∧
      (h.pc = .cancel → h'.pc = .cancel ∨ h.id ∉ s'.unfinished) := by
  have hlt : k < s.handlers.length := (List.getElem?_eq_some_iff.1 hhandler).1
  have hsame : s'.handlers = s.handlers → ∃ h', s'.handlers[k]? = some h' ∧ h'.id = h.id ∧
      h'.shutdown = true ∧ (h.pc = .cancel → h'.pc = .cancel ∨ h.id ∉ s'.unfinished) := by
    intro hhandlers
    exact ⟨h, by rw [hhandlers, hhandler], rfl, hshutdown, .inl⟩
  cases heffect with
  | create spec => exact ⟨h, by rw [getElem?_append_left hlt, hhandler], rfl, hshutdown, .inl⟩
  | request shutdown hid =>
    exact ⟨h, by rw [getElem?_append_left hlt, hhandler], rfl, hshutdown, .inl⟩
  | @handler k' leaves g c op next sh hother hcell hnext hshared =>
    by_cases hk : k' = k
    · subst hk
      rw [hhandler] at hother
      cases hother
      refine ⟨_, getElem?_set_self hlt, rfl, hshutdown, fun hpc => .inr ?_⟩
      refine not_unfinished_of_over (getElem?_set_self (List.getElem?_eq_some_iff.1 hcell).1) ?_
      rw [hpc] at hnext
      -- Both ways out of `store.cancel` are for good: the task is cancelled, or it was deleted.
      have hover : (op.onCell s.shared c).over := by
        cases hnext with
        | cancels hstored =>
          left
          simp only [Op.onCell, Cell.update, if_pos hstored]
          exact Record.cancel_terminal c.record s.shared.clock
        | cancelGone hstored hnot =>
          rw [hshutdown] at hnot
          cases hnot
        | shutdownGone hstored _ => exact .inr hstored
      exact hover
    · exact ⟨h, by rw [getElem?_set_ne hk, hhandler], rfl, hshutdown, .inl⟩
  | @enqueue k' leaves g c outcome hother hpc hcell =>
    by_cases hk : k' = k
    · subst hk
      rw [hhandler] at hother
      cases hother
      refine ⟨_, getElem?_set_self hlt, rfl, hshutdown, fun hcancel => ?_⟩
      rw [hpc] at hcancel
      cases hcancel
    · exact ⟨h, by rw [getElem?_set_ne hk, hhandler], rfl, hshutdown, .inl⟩
  | tick | pop | closeQueue | task | ctxDone | reap | removeDir | refreshPool => exact hsame rfl

/-! ### The deferred calls -/

def RunPc.Leaves (s : State) : RunPc → Prop
  | .serving | .closing _ => True
  | .canceling ids => (∀ id ∈ ids, id < s.cells.length) ∧ ∀ i ∈ s.unfinished, i ∈ ids
  | .cancelsTask ids k => (∀ id ∈ ids, id < s.cells.length) ∧ ∃ h, s.handlers[k]? = some h ∧
      h.shutdown = true ∧ ∀ i ∈ s.unfinished, i ∈ ids ∨ (i = h.id ∧ h.pc = .cancel)
  | .returned => ∀ i, i ∉ s.unfinished

def RunPc.listed : RunPc → Bool
  | .serving | .closing _ => false
  | _ => true

def Drained (p : Process) : RunAction → Prop
  | .list _ => p.closed = true ∧ p.creating = 0
  | _ => True

instance (p : Process) (r : RunAction) : Decidable (Drained p r) := by
  unfold Drained
  split <;> infer_instance

structure Process.Inv (p : Process) : Prop where
  admitted : Admitted p.daemon
  accounted : Accounted p.daemon
  leaves : p.run.Leaves p.daemon
  quiet : p.run.listed = true → p.closed = true ∧ p.creating = 0

theorem leaves_step {run : RunPc} (haccounted : Accounted s) (heffect : Effect cfg s a s')
    (ha : ∀ spec, a ≠ .create spec) (hleaves : run.Leaves s) : run.Leaves s' := by
  have hlength := length_cells_step heffect ha
  cases run with
  | serving | closing => trivial
  | canceling ids =>
    obtain ⟨hids, hopen⟩ := hleaves
    refine ⟨fun id hid => by rw [hlength]; exact hids id hid, ?_⟩
    intro i hi
    exact hopen i (unfinished_step haccounted heffect ha hi)
  | cancelsTask ids k =>
    obtain ⟨hids, h, hhandler, hshutdown, hopen⟩ := hleaves
    obtain ⟨h', hhandler', hid, hshutdown', hcancel⟩ := handler_step heffect hhandler hshutdown
    refine ⟨fun id hid => by rw [hlength]; exact hids id hid, h', hhandler', hshutdown', ?_⟩
    intro i hi
    rcases hopen i (unfinished_step haccounted heffect ha hi) with hlisted | ⟨rfl, hpc⟩
    · exact .inl hlisted
    · rcases hcancel hpc with hpc' | hgone
      · exact .inr ⟨hid.symm, hpc'⟩
      · exact absurd hi hgone
  | returned =>
    intro i hi
    exact hleaves i (unfinished_step haccounted heffect ha hi)

theorem Process.Inv.step {r : RunAction} (hinv : p.Inv) (hdrained : Drained p r)
    (heffect : RunEffect cfg p r p') : p'.Inv := by
  have hkeeps : ∀ {a : Action} {d : State}, Effect cfg p.daemon a d → Admitted d ∧ Accounted d := by
    intro a d heffect
    exact ⟨admitted_step hinv.admitted heffect, accounted_step hinv.admitted hinv.accounted heffect⟩
  cases heffect with
  | accepts hopen =>
    refine ⟨hinv.admitted, hinv.accounted, hinv.leaves, fun hlisted => ?_⟩
    have hclosed := (hinv.quiet hlisted).1
    rw [hopen] at hclosed
    cases hclosed
  | refuses hcreating =>
    refine ⟨hinv.admitted, hinv.accounted, hinv.leaves, fun hlisted => ?_⟩
    exact absurd (hinv.quiet hlisted).2 hcreating
  | adds hcreating heffect =>
    obtain ⟨hadmitted, haccounted⟩ := hkeeps heffect
    have hlisted : p.run.listed ≠ true := fun hlisted => hcreating (hinv.quiet hlisted).2
    refine ⟨hadmitted, haccounted, ?_, fun h => absurd h hlisted⟩
    dsimp only
    cases hrun : p.run with
    | serving | closing => trivial
    | canceling | cancelsTask | returned => exact absurd (by rw [hrun]; rfl) hlisted
  | ctxEnds => exact ⟨hinv.admitted, hinv.accounted, hinv.leaves, hinv.quiet⟩
  | shutsDown =>
    exact ⟨hinv.admitted, hinv.accounted, hinv.leaves, fun hlisted => ⟨rfl, (hinv.quiet hlisted).2⟩⟩
  | listenReturns hrun modes => exact ⟨hinv.admitted, hinv.accounted, trivial, nofun⟩
  | closesQueue hrun heffect =>
    obtain ⟨hadmitted, haccounted⟩ := hkeeps heffect
    exact ⟨hadmitted, haccounted, trivial, nofun⟩
  | lists hrun hids =>
    refine ⟨hinv.admitted, hinv.accounted, ⟨?_, ?_⟩, fun _ => hdrained⟩
    · intro id hid
      exact lt_of_mem_unfinished (hids.mem_iff.1 hid)
    · intro i hi
      exact hids.mem_iff.2 hi
  | returns hrun =>
    have hleaves := hinv.leaves
    rw [hrun] at hleaves
    refine ⟨hinv.admitted, hinv.accounted, ?_, fun _ => hinv.quiet (by rw [hrun]; rfl)⟩
    intro i hi
    cases hleaves.2 i hi
  | @begins id ids hrun =>
    have hleaves := hinv.leaves
    rw [hrun] at hleaves
    have hid : id < p.daemon.cells.length := hleaves.1 id mem_cons_self
    obtain ⟨hadmitted, haccounted⟩ := hkeeps (.request true hid : Effect cfg p.daemon .tick _)
    refine ⟨hadmitted, haccounted, ⟨?_, ⟨id, true, .cancel⟩, ?_, rfl, ?_⟩, fun _ =>
      hinv.quiet (by rw [hrun]; rfl)⟩
    · intro other hother
      exact hleaves.1 other (mem_cons_of_mem _ hother)
    · rw [getElem?_append_right le_rfl, Nat.sub_self]
      rfl
    · intro i hi
      rcases mem_cons.1 (hleaves.2 i hi) with rfl | hlater
      · exact .inr ⟨rfl, rfl⟩
      · exact .inl hlater
  | @ends ids k h hrun hhandler hpc =>
    have hleaves := hinv.leaves
    rw [hrun] at hleaves
    obtain ⟨hids, h', hhandler', _, hopen⟩ := hleaves
    rw [hhandler] at hhandler'
    cases hhandler'
    refine ⟨hinv.admitted, hinv.accounted, ⟨hids, fun i hi => ?_⟩, fun _ => hinv.quiet (by rw [hrun]; rfl)⟩
    rcases hopen i hi with hlisted | ⟨_, hcancel⟩
    · exact hlisted
    · rw [hpc] at hcancel
      cases hcancel
  | moves ha heffect =>
    obtain ⟨hadmitted, haccounted⟩ := hkeeps heffect
    exact ⟨hadmitted, haccounted, leaves_step hinv.accounted heffect ha hinv.leaves, hinv.quiet⟩

/-! ### Runs -/

theorem inv_start (addrs : List Pool.BuildkitAddr) (addrConcurrency : Nat) :
    (Process.start addrs addrConcurrency).Inv :=
  ⟨admitted_start addrs addrConcurrency, accounted_start addrs addrConcurrency, trivial, nofun⟩

theorem no_task_added {bs : List RunAction} {q : Process} (hclosed : p.closed = true) (hcreating : p.creating = 0)
    (hreturned : p.run = .returned) (hrun : Runs.exec (Process.step cfg) p bs = some q) :
    q.daemon.cells.length = p.daemon.cells.length := by
  have hkeep : ∀ (q : Process) (r : RunAction) (q' : Process),
      (q.closed = true ∧ q.creating = 0 ∧ q.run = .returned ∧
        q.daemon.cells.length = p.daemon.cells.length) → q.step cfg r = some q' →
      q'.closed = true ∧ q'.creating = 0 ∧ q'.run = .returned ∧
        q'.daemon.cells.length = p.daemon.cells.length := by
    rintro q r q' ⟨hclosed, hcreating, hreturned, hlength⟩ hstep
    cases run_effect hstep with
    | accepts hopen =>
      rw [hclosed] at hopen
      cases hopen
    | refuses hne | adds hne => exact absurd hcreating hne
    | ctxEnds => exact ⟨hclosed, hcreating, hreturned, hlength⟩
    | shutsDown => exact ⟨rfl, hcreating, hreturned, hlength⟩
    | moves ha heffect =>
      exact ⟨hclosed, hcreating, hreturned, (length_cells_step heffect ha).trans hlength⟩
    | listenReturns hother | closesQueue hother | lists hother | returns hother | begins hother | ends hother =>
      rw [hreturned] at hother
      cases hother
  exact (Runs.exec_invariant (Process.step cfg) hkeep ⟨hclosed, hcreating, hreturned, rfl⟩ hrun).2.2.2

/-- If the requests have drained, no task is open when `Run` returns. -/
theorem shutdown_leaves_nothing_open {addrs : List Pool.BuildkitAddr} {addrConcurrency : Nat}
    {as : List RunAction} (hdrained : Runs.Along (Process.step cfg) Drained (Process.start addrs addrConcurrency) as)
    (hrun : Runs.exec (Process.step cfg) (Process.start addrs addrConcurrency) as = some p)
    (hreturned : p.run = .returned) :
    (∀ (bs : List RunAction) (q : Process), Runs.exec (Process.step cfg) p bs = some q →
      q.daemon.cells.length = p.daemon.cells.length) ∧
    ∀ c ∈ p.daemon.cells, c.stored = true → c.record.status.terminal = true := by
  have hinv : p.Inv := Runs.exec_invariant_along (Process.step cfg)
    (fun p r p' hinv hdrained hstep => hinv.step hdrained (run_effect hstep))
    (inv_start addrs addrConcurrency) hdrained hrun
  obtain ⟨hclosed, hcreating⟩ := hinv.quiet (by rw [hreturned]; rfl)
  refine ⟨fun bs q hlater => no_task_added hclosed hcreating hreturned hlater, ?_⟩
  intro c hmem hstored
  have hleaves := hinv.leaves
  rw [hreturned] at hleaves
  obtain ⟨i, hcell⟩ := List.getElem?_of_mem hmem
  by_contra hopen
  exact hleaves i (mem_unfinished.2 ⟨c, hcell, hstored, eq_false_of_ne_true hopen⟩)

/-! ### Two shutdowns -/

def sampleProcess : Process := ⟨sampleStart, 0, false, false, .serving⟩

def sampleShutdown : List RunAction :=
  [.accept, .add sampleTask, .cancelCtx, .shutdown, .listenReturns false, .list [0], .cancelNext] ++
    List.replicate 6 .cancelStep ++ [.cancelNext]

theorem shutdown_leaves_nothing_open_sample : ∃ p,
    Runs.exec (Process.step sampleConfig) sampleProcess sampleShutdown = some p ∧ p.ctxDone = true ∧
    p.run = .returned ∧ p.daemon.cells.length = 1 ∧
    ∀ c ∈ p.daemon.cells, c.stored = true → c.record.status.terminal = true := by
  have hruns : (Runs.exec (Process.step sampleConfig) sampleProcess sampleShutdown).map
      (fun p => (p.ctxDone, p.run, p.daemon.cells.length)) = some (true, .returned, 1) := by decide +kernel
  have hdrained : Runs.Along (Process.step sampleConfig) Drained sampleProcess sampleShutdown := by
    decide +kernel
  obtain ⟨p, hrun, hp⟩ := Option.map_eq_some_iff.1 hruns
  simp only [Prod.mk.injEq] at hp
  obtain ⟨hctx, hreturned, hlength⟩ := hp
  exact ⟨p, hrun, hctx, hreturned, hlength, (shutdown_leaves_nothing_open hdrained hrun hreturned).2⟩

def lateRequests : List RunAction :=
  [.accept, .accept, .cancelCtx, .shutdown, .listenReturns false, .list [], .add sampleTask, .cancelNext]

theorem late_requests_add_tasks : ∃ p q,
    Runs.exec (Process.step sampleConfig) sampleProcess lateRequests = some p ∧ p.ctxDone = true ∧
    p.run = .returned ∧ (∃ c ∈ p.daemon.cells, c.stored = true ∧ c.record.status.terminal = false) ∧
    Runs.exec (Process.step sampleConfig) p [.add sampleTask] = some q ∧
    p.daemon.cells.length < q.daemon.cells.length := by
  have hruns : (Runs.exec (Process.step sampleConfig) sampleProcess lateRequests).bind (fun p =>
      (Runs.exec (Process.step sampleConfig) p [.add sampleTask]).map fun q =>
        decide (p.ctxDone = true ∧ p.run = .returned ∧
          (∃ c ∈ p.daemon.cells, c.stored = true ∧ c.record.status.terminal = false) ∧
          p.daemon.cells.length < q.daemon.cells.length)) = some true := by decide +kernel
  obtain ⟨p, hrun, hp⟩ := Option.bind_eq_some_iff.1 hruns
  obtain ⟨q, hlater, hvalues⟩ := Option.map_eq_some_iff.1 hp
  obtain ⟨hctx, hreturned, hopen, hlength⟩ := of_decide_eq_true hvalues
  exact ⟨p, q, hrun, hctx, hreturned, hopen, hlater, hlength⟩

end BuildkitService.Daemon
