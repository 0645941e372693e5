import BuildkitService.Daemon.Slots

/-!
# The workers during a run

A slot keeps the worker it was made for.
-/

namespace BuildkitService.Daemon

open Strings Pool List Option

variable {cfg : Config} {sh sh' : Shared} {c : Cell} {p p' : AddrPool} {addrs : List BuildkitAddr}
  {a : Action}

/-! ### The pool in a step -/

def workers (p : AddrPool) : List BuildkitAddr := p.objects.map AddrSlot.addr

def Action.installs : Action → Option (List BuildkitAddr)
  | .refreshPool addrs => some addrs
  | .task _ (.refreshed (.ok addrs)) => some addrs
  | _ => none

inductive PoolNext (a : Action) (p : AddrPool) : AddrPool → Prop
  | kept {p' : AddrPool} (hworkers : workers p' = workers p) (hslots : p'.slots = p.slots) : PoolNext a p p'
  | replaced {addrs : List BuildkitAddr} (haddrs : a.installs = some addrs) : PoolNext a p (p.replace addrs)

theorem workers_setSem {slot : Nat} {o : AddrSlot} (ho : p.objects[slot]? = some o) (sem : Nat) :
    workers { p with objects := p.objects.set slot { o with sem := sem } } = workers p := by
  rw [workers, map_set]
  exact set_same (by rw [getElem?_map, ho]; rfl)

theorem onShared_pool {op : Op} (hshared : op.onShared cfg sh = some sh') :
    (workers sh'.pool = workers sh.pool ∧ sh'.pool.slots = sh.pool.slots) ∨
      ∃ addrs, op = .replacePool addrs ∧ sh'.pool = sh.pool.replace addrs := by
  unfold Op.onShared at hshared
  split at hshared
  case h_1 =>
    split_ifs at hshared <;> cases hshared <;> exact .inl ⟨rfl, rfl⟩
  case h_2 =>
    split_ifs at hshared <;> cases hshared <;> exact .inl ⟨rfl, rfl⟩
  case h_3 slot =>
    obtain ⟨pool, hpool, rfl⟩ := map_eq_some_iff.1 hshared
    obtain ⟨o, ho, _, rfl⟩ := tryAcquireAddrSlot_eq_some hpool
    exact .inl ⟨workers_setSem ho _, rfl⟩
  case h_4 slot =>
    obtain ⟨pool, hpool, rfl⟩ := map_eq_some_iff.1 hshared
    obtain ⟨o, ho, _, rfl⟩ := releaseAddrSlot_eq_some hpool
    exact .inl ⟨workers_setSem ho _, rfl⟩
  case h_5 addrs =>
    cases hshared
    exact .inr ⟨addrs, rfl, rfl⟩
  case h_6 status =>
    cases hshared
    cases status <;> exact .inl ⟨rfl, rfl⟩
  case h_7 =>
    cases hshared
    exact .inl ⟨rfl, rfl⟩

theorem control_replaces {choice : Choice} {pc : TaskPc} {i : Nat}
    (hcontrol : control cfg sh c choice = some (.replacePool addrs, pc)) :
    (Action.task i choice).installs = some addrs := by
  have hnext := control_next hcontrol
  generalize hpc : c.pc = before at hnext
  cases hnext with
  | refreshed a =>
    cases choice with
    | refreshed result =>
      cases result with
      | ok list =>
        simp only [control, hpc, Option.some.injEq, Prod.mk.injEq, Op.replacePool.injEq] at hcontrol
        rw [← hcontrol.1]
        rfl
      | error err => simp [control, hpc] at hcontrol
    | _ => simp [control, hpc] at hcontrol
  | finishes hfinish | finished hfinish => cases hfinish

theorem HandlerNext.keeps_pool {h : Handler} {pc next : HandlerPc}
    (hnext : HandlerNext sh c h pc (.replacePool addrs) next) : False := by
  generalize hop : Op.replacePool addrs = op at hnext
  cases hnext with
  | rejectFinishes hfinish | rejectFinished hfinish | cancelFinishes hfinish | cancelFinished hfinish =>
    cases hop
    cases hfinish
  | @cancelsCtx cancels | @cancelReturns cancels => cases cancels <;> cases hop
  | _ => cases hop

theorem poolNext_of_effect {s s' : State} (heffect : Effect cfg s a s') :
    PoolNext a s.shared.pool s'.shared.pool := by
  cases heffect with
  | @handler k leaves h c op next sh hhandler hcell hnext hshared =>
    rcases onShared_pool hshared with ⟨hworkers, hslots⟩ | ⟨addrs, rfl, _⟩
    · exact .kept hworkers hslots
    · exact hnext.keeps_pool.elim
  | @task i choice c op pc sh hcell hcontrol hshared =>
    rcases onShared_pool hshared with ⟨hworkers, hslots⟩ | ⟨addrs, rfl, hpool⟩
    · exact .kept hworkers hslots
    · dsimp only
      rw [hpool]
      exact .replaced (control_replaces hcontrol)
  | refreshPool addrs => exact .replaced rfl
  | _ => exact .kept rfl rfl

theorem address_eq (p : AddrPool) (slot : Nat) : p.address slot = ((workers p)[slot]?).map BuildkitAddr.addr := by
  rw [AddrPool.address, workers, getElem?_map, Option.map_map]
  rfl

theorem PoolNext.worker (hnext : PoolNext a p p') {slot : Nat} {w : BuildkitAddr}
    (hworker : (workers p)[slot]? = some w) : (workers p')[slot]? = some w := by
  cases hnext with
  | kept hworkers _ =>
    rw [hworkers]
    exact hworker
  | replaced haddrs =>
    rw [workers, p.replace_objects, map_append, ← workers,
      getElem?_append_left (List.getElem?_eq_some_iff.1 hworker).1]
    exact hworker

theorem PoolNext.address (hnext : PoolNext a p p') (slot : Nat) (addr : Bytes)
    (haddr : p.address slot = some addr) : p'.address slot = some addr := by
  rw [address_eq] at haddr ⊢
  obtain ⟨w, hworker, hw⟩ := map_eq_some_iff.1 haddr
  rw [hnext.worker hworker, map_some, hw]

/-! ### Addresses -/

def ParsedAddrs (addrs : List BuildkitAddr) : Prop := ∃ net raw, parseBuildkitAddrs net raw = .ok addrs

theorem addr_ne_nil_of_parse {net : Net} {part : Bytes} {a : BuildkitAddr} (ha : a ∈ parseBuildkitAddr net part) :
    a.addr ≠ [] := by
  have htcp : ∀ rest : Bytes, ascii "tcp://" ++ rest ≠ [] := fun rest => nofun
  have hpart : (if contains part (ascii "://") then part else ascii "tcp://" ++ part) ≠ [] := by
    split_ifs with hscheme
    · rintro rfl
      exact absurd hscheme (by decide)
    · exact htcp part
  unfold parseBuildkitAddr at ha
  generalize (if contains part (ascii "://") then part else ascii "tcp://" ++ part) = addr at ha hpart
  dsimp only at ha
  split at ha
  · rw [mem_singleton.1 ha]
    exact hpart
  · split at ha
    · rw [mem_singleton.1 ha]
      exact hpart
    · split at ha
      · rw [mem_singleton.1 ha]
        exact hpart
      · obtain ⟨ip, _, rfl⟩ := List.mem_map.1 ha
        exact htcp _

theorem ParsedAddrs.addr_ne_nil (hparsed : ParsedAddrs addrs) : ∀ a ∈ addrs, a.addr ≠ [] := by
  obtain ⟨net, raw, hparse⟩ := hparsed
  intro a ha
  rw [parseBuildkitAddrs] at hparse
  dsimp only at hparse
  split_ifs at hparse
  cases hparse
  obtain ⟨part, _, hpart⟩ := mem_flatMap.1 ((perm_insertionSort _ _).mem_iff.1 ha)
  exact addr_ne_nil_of_parse hpart

def Action.Parsed (a : Action) : Prop := ∀ addrs, a.installs = some addrs → ParsedAddrs addrs

def Addressed (p : AddrPool) : Prop := ∀ o ∈ p.objects, o.addr.addr ≠ []

theorem addressed_iff : Addressed p ↔ ∀ worker ∈ workers p, worker.addr ≠ [] := by
  rw [Addressed, workers, List.forall_mem_map]

theorem Addressed.replace (haddressed : Addressed p) (haddrs : ∀ a ∈ addrs, a.addr ≠ []) :
    Addressed (p.replace addrs) := by
  intro o ho
  rw [p.replace_objects] at ho
  rcases mem_append.1 ho with hold | hnew
  · exact haddressed o hold
  · obtain ⟨a, ha, rfl⟩ := List.mem_map.1 hnew
    exact haddrs a (mem_filter.1 ha).1

theorem PoolNext.addressed (hnext : PoolNext a p p') (hparsed : a.Parsed) (haddressed : Addressed p) :
    Addressed p' := by
  cases hnext with
  | kept hworkers _ =>
    rw [addressed_iff, hworkers, ← addressed_iff]
    exact haddressed
  | replaced haddrs => exact haddressed.replace (hparsed _ haddrs).addr_ne_nil

theorem addressed_start (hparsed : ParsedAddrs addrs) (addrConcurrency : Nat) :
    Addressed (start addrs addrConcurrency).shared.pool :=
  Addressed.replace nofun hparsed.addr_ne_nil

end BuildkitService.Daemon
