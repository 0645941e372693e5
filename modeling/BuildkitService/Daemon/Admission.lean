import BuildkitService.Lib.Threads
import BuildkitService.Daemon.Control

/-!
# Who starts a task

A task is started by its create handler, or pushed by it and popped once by a worker of its mode.
-/

namespace BuildkitService.Daemon

open Pool Threads List

variable {cfg : Config} {sh : Shared} {c : Cell} {op : Op} {pc : TaskPc} {i : Nat} {s s' : State}
  {h : Handler}

def State.At (s : State) (i : Nat) (pc : TaskPc) : Prop := (s.cells[i]?).map Cell.pc = some pc

def HandlerPc.rejects : HandlerPc → Bool
  | .rejectCancel | .rejectFinish _ | .rejectClose | .rejectDelete => true
  | _ => false

structure Admitted (s : State) : Prop where
  enqueues : ∀ (k : Nat) (h : Handler), s.handlers[k]? = some h → h.pc = .enqueue → s.At h.id .created
  once : ∀ (k k' : Nat) (h h' : Handler), s.handlers[k]? = some h → s.handlers[k']? = some h' →
    h.pc = .enqueue → h'.pc = .enqueue → h.id = h'.id → k = k'
  rejects : ∀ (k : Nat) (h : Handler), s.handlers[k]? = some h → h.pc.rejects = true → s.At h.id .rejected
  nodup : s.queue.Nodup
  queued : ∀ i ∈ s.queue, s.At i .queued

theorem Next.running {pc' : TaskPc} (h : Next cfg sh c pc op pc') : pc.running = true := by
  cases h <;> rfl

theorem State.At.eq (hat : s.At i pc) (hcell : s.cells[i]? = some c) : c.pc = pc := by
  rw [State.At, hcell] at hat
  exact Option.some.inj hat

theorem at_set {j : Nat} {c' : Cell} (hcells : s'.cells = s.cells.set i c') (hcell : s.cells[i]? = some c)
    (hkeep : j = i → c.pc = pc → c'.pc = pc) (hat : s.At j pc) : s'.At j pc := by
  rw [State.At, hcells]
  by_cases hij : i = j
  · subst hij
    rw [getElem?_set_self (List.getElem?_eq_some_iff.1 hcell).1, Option.map_some,
      hkeep rfl (hat.eq hcell)]
  · rw [getElem?_set_ne hij]
    exact hat

theorem at_reap {now j : Nat} (hat : s.At j pc) :
    ({ s with cells := s.cells.map (Cell.reap cfg now) } : State).At j pc := by
  have hpc : Cell.pc ∘ Cell.reap cfg now = Cell.pc := by
    funext d
    simp only [Function.comp_apply, Cell.reap]
    split <;> rfl
  rw [State.At, getElem?_map, Option.map_map, hpc]
  exact hat

theorem Admitted.of_at (hadmitted : Admitted s)
    (hat : ∀ j pc, pc.running = false → pc ≠ .returned → s.At j pc → s'.At j pc)
    (hhandlers : ∀ (k : Nat) (h' : Handler), s'.handlers[k]? = some h' → (h'.pc = .enqueue → s.handlers[k]? = some h') ∧ (h'.pc.rejects = true → ∃ h, s.handlers[k]? = some h ∧ h.id = h'.id ∧ h.pc.rejects = true))
    (hqueue : s'.queue = s.queue) : Admitted s' := by
  refine ⟨?_, ?_, ?_, ?_, ?_⟩
  · intro k h hh hpc
    exact hat _ _ rfl (by simp) (hadmitted.enqueues k h ((hhandlers k h hh).1 hpc) hpc)
  · intro k k' h h' hh hh' hpc hpc' hid
    exact hadmitted.once k k' h h' ((hhandlers k h hh).1 hpc) ((hhandlers k' h' hh').1 hpc') hpc hpc' hid
  · intro k h' hh' hpc
    obtain ⟨h, hh, hid, hrejects⟩ := (hhandlers k h' hh').2 hpc
    exact hid ▸ hat _ _ rfl (by simp) (hadmitted.rejects k h hh hrejects)
  · rw [hqueue]
    exact hadmitted.nodup
  · intro i hi
    rw [hqueue] at hi
    exact hat _ _ rfl (by simp) (hadmitted.queued i hi)

theorem handlers_keep (h : s'.handlers = s.handlers) (k : Nat) (h' : Handler)
    (hh' : s'.handlers[k]? = some h') : (h'.pc = .enqueue → s.handlers[k]? = some h') ∧
      (h'.pc.rejects = true → ∃ h, s.handlers[k]? = some h ∧ h.id = h'.id ∧ h.pc.rejects = true) := by
  rw [h] at hh'
  exact ⟨fun _ => hh', fun hrejects => ⟨h', hh', rfl, hrejects⟩⟩

theorem HandlerNext.next_ne_enqueue {pc next : HandlerPc} (hnext : HandlerNext sh c h pc op next) :
    next ≠ .enqueue := by
  cases hnext <;> simp

theorem HandlerNext.rejects {pc next : HandlerPc} (hnext : HandlerNext sh c h pc op next)
    (hrejects : next.rejects = true) : pc.rejects = true := by
  cases hnext <;> first | rfl | exact hrejects

theorem at_append {handlers : List Handler} (hat : s.At i pc) :
    ({ s with cells := s.cells ++ [c], handlers := handlers } : State).At i pc := by
  obtain ⟨d, hd, _⟩ := Option.map_eq_some_iff.1 hat
  rw [State.At, getElem?_append_left (List.getElem?_eq_some_iff.1 hd).1]
  exact hat

theorem State.At.lt (hat : s.At i pc) : i < s.cells.length := by
  obtain ⟨d, hd, _⟩ := Option.map_eq_some_iff.1 hat
  exact (List.getElem?_eq_some_iff.1 hd).1

section

variable (hadmitted : Admitted s)

include hadmitted

theorem admitted_create (spec : TaskSpec) : Admitted { s with
      cells := s.cells ++ [.create spec s.shared.clock]
      handlers := s.handlers ++ [⟨s.cells.length, false, .enqueue⟩] } := by
  have hnew : ({ s with
      cells := s.cells ++ [.create spec s.shared.clock]
      handlers := s.handlers ++ [⟨s.cells.length, false, .enqueue⟩] } : State).At s.cells.length .created := by
    simp [State.At, Cell.create]
  refine ⟨?_, ?_, ?_, hadmitted.nodup, fun i hi => at_append (hadmitted.queued i hi)⟩
  · intro k h hh hpc
    rcases getElem?_snoc hh with hold | ⟨_, rfl⟩
    · exact at_append (hadmitted.enqueues k h hold hpc)
    · exact hnew
  · intro k k' h h' hh hh' hpc hpc' hid
    rcases getElem?_snoc hh with hold | ⟨hk, rfl⟩ <;> rcases getElem?_snoc hh' with hold' | ⟨hk', rfl⟩
    · exact hadmitted.once k k' h h' hold hold' hpc hpc' hid
    · exact absurd (hadmitted.enqueues k h hold hpc).lt (by simp [hid])
    · exact absurd (hadmitted.enqueues k' h' hold' hpc').lt (by simp [← hid])
    · rw [hk, hk']
  · intro k h hh hrejects
    rcases getElem?_snoc hh with hold | ⟨_, rfl⟩
    · exact at_append (hadmitted.rejects k h hold hrejects)
    · simp [HandlerPc.rejects] at hrejects

theorem admitted_enqueue {k : Nat} {outcome : Enqueued}
    (hhandler : s.handlers[k]? = some h) (hpc : h.pc = .enqueue) (hcell : s.cells[h.id]? = some c) :
    Admitted { s with
      cells := s.cells.set h.id { c with pc := outcome.pc }
      handlers := s.handlers.set k { h with pc := outcome.handlerPc c.spec.sync }
      queue := if outcome = .pushed then s.queue ++ [h.id] else s.queue } := by
  have hcreated : c.pc = .created := (hadmitted.enqueues k h hhandler hpc).eq hcell
  have hlt : h.id < s.cells.length := (List.getElem?_eq_some_iff.1 hcell).1
  have hfree : h.id ∉ s.queue := by
    intro hmem
    have := (hadmitted.queued h.id hmem).eq hcell
    rw [hcreated] at this
    cases this
  set s' : State := { s with
    cells := s.cells.set h.id { c with pc := outcome.pc }
    handlers := s.handlers.set k { h with pc := outcome.handlerPc c.spec.sync }
    queue := if outcome = .pushed then s.queue ++ [h.id] else s.queue } with hs'
  have hat : ∀ j pc, pc ≠ .created → s.At j pc → s'.At j pc := by
    intro j pc hne
    exact at_set rfl hcell fun _ hold => absurd (hold.symm.trans hcreated) hne
  have hother : ∀ j pc, j ≠ h.id → s.At j pc → s'.At j pc := fun j pc hne =>
    at_set rfl hcell fun heq => absurd heq hne
  have hself : s'.At h.id outcome.pc := by
    rw [State.At, hs', getElem?_set_self hlt]
    rfl
  have hhandlerPc : outcome.handlerPc c.spec.sync ≠ .enqueue := by
    cases outcome <;> simp only [Enqueued.handlerPc] <;> first | (split_ifs <;> simp) | simp
  refine ⟨?_, ?_, ?_, ?_, ?_⟩
  · intro j h' hh' hpc'
    rcases getElem?_set_cases hh' with ⟨_, rfl⟩ | ⟨hne, hold⟩
    · exact absurd hpc' hhandlerPc
    · apply hother _ _ ?_ (hadmitted.enqueues j h' hold hpc')
      intro hid
      exact hne (hadmitted.once j k h' h hold hhandler hpc' hpc hid)
  · intro j j' h' h'' hh' hh'' hpc' hpc'' hid
    rcases getElem?_set_cases hh' with ⟨_, rfl⟩ | ⟨_, hold⟩
    · exact absurd hpc' hhandlerPc
    · rcases getElem?_set_cases hh'' with ⟨_, rfl⟩ | ⟨_, hold'⟩
      · exact absurd hpc'' hhandlerPc
      · exact hadmitted.once j j' h' h'' hold hold' hpc' hpc'' hid
  · intro j h' hh' hrejects
    rcases getElem?_set_cases hh' with ⟨_, rfl⟩ | ⟨_, hold⟩
    · cases outcome with
      | refused => exact hself
      | started | pushed =>
        cases hsync : c.spec.sync <;> simp [Enqueued.handlerPc, hsync, HandlerPc.rejects] at hrejects
    · exact hat _ _ (by simp) (hadmitted.rejects j h' hold hrejects)
  · simp only [hs']
    split_ifs
    · exact nodup_append.2 ⟨hadmitted.nodup, nodup_singleton _, by
        intro i hi j hj hij
        rw [mem_singleton.1 hj] at hij
        exact hfree (hij ▸ hi)⟩
    · exact hadmitted.nodup
  · intro i hi
    simp only [hs'] at hi
    split_ifs at hi with hpushed
    · rcases mem_append.1 hi with hold | hnew
      · exact hat _ _ (by simp) (hadmitted.queued i hold)
      · rw [mem_singleton.1 hnew]
        rw [hpushed] at hself
        exact hself
    · exact hat _ _ (by simp) (hadmitted.queued i hi)

theorem admitted_pop (hqueue : i ∈ s.queue) (hcell : s.cells[i]? = some c) :
    Admitted { s with cells := s.cells.set i { c with pc := .get }, queue := s.queue.erase i } := by
  have hwaits : c.pc = .queued := (hadmitted.queued i hqueue).eq hcell
  set s' : State := { s with cells := s.cells.set i { c with pc := .get }, queue := s.queue.erase i } with hs'
  have hat : ∀ j pc, pc ≠ .queued → s.At j pc → s'.At j pc := by
    intro j pc hne
    exact at_set rfl hcell fun _ hold => absurd (hold.symm.trans hwaits) hne
  refine ⟨?_, hadmitted.once, ?_, hadmitted.nodup.erase i, ?_⟩
  · intro k h hh hpc
    exact hat _ _ (by simp) (hadmitted.enqueues k h hh hpc)
  · intro k h hh hrejects
    exact hat _ _ (by simp) (hadmitted.rejects k h hh hrejects)
  · intro j hj
    rw [hs', hadmitted.nodup.mem_erase_iff] at hj
    exact at_set rfl hcell (fun heq => absurd heq hj.1) (hadmitted.queued j hj.2)

theorem admitted_step {a : Action} (heffect : Effect cfg s a s') : Admitted s' := by
  cases heffect with
  | tick | refreshPool => exact hadmitted.of_at (fun _ _ _ _ => id) (handlers_keep rfl) rfl
  | create spec => exact admitted_create hadmitted spec
  | request shutdown hid =>
    refine hadmitted.of_at (fun _ _ _ _ => id) ?_ rfl
    intro k h' hh'
    rcases getElem?_snoc hh' with hold | ⟨_, rfl⟩
    · exact ⟨fun _ => hold, fun hrejects => ⟨h', hold, rfl, hrejects⟩⟩
    · simp [HandlerPc.rejects]
  | handler hhandler hcell hnext hshared =>
    refine hadmitted.of_at (fun j pc _ _ => at_set rfl hcell fun _ hpc => hpc) ?_ rfl
    intro k h' hh'
    rcases getElem?_set_cases hh' with ⟨rfl, rfl⟩ | ⟨_, hold⟩
    · exact ⟨fun hpc => absurd hpc hnext.next_ne_enqueue,
        fun hrejects => ⟨_, hhandler, rfl, hnext.rejects hrejects⟩⟩
    · exact ⟨fun _ => hold, fun hrejects => ⟨h', hold, rfl, hrejects⟩⟩
  | enqueue hhandler hpc hcell => exact admitted_enqueue hadmitted hhandler hpc hcell
  | pop hqueue hcell => exact admitted_pop hadmitted hqueue hcell
  | closeQueue mode =>
    exact ⟨hadmitted.enqueues, hadmitted.once, hadmitted.rejects, hadmitted.nodup.filter _,
      fun i hi => hadmitted.queued i (mem_filter.1 hi).1⟩
  | task hcell hcontrol hshared =>
    refine hadmitted.of_at (fun j pc hrunning _ => at_set rfl hcell ?_) (handlers_keep rfl) rfl
    intro _ hpc
    have := (control_next hcontrol).running
    rw [hpc, hrunning] at this
    cases this
  | ctxDone hcell | removeDir hcell =>
    exact hadmitted.of_at (fun j pc _ _ => at_set rfl hcell fun _ hpc => hpc) (handlers_keep rfl) rfl
  | reap hnow => exact hadmitted.of_at (fun j pc _ _ => at_reap) (handlers_keep rfl) rfl

end

theorem admitted_start (addrs : List BuildkitAddr) (addrConcurrency : Nat) :
    Admitted (start addrs addrConcurrency) := by
  constructor <;> simp [start]

end BuildkitService.Daemon
