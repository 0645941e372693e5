import BuildkitService.Daemon.Workers
import BuildkitService.Pool.Affinity

/-!
# Waiting for a worker

`acquireAddrSlot` takes one snapshot of the address pool.
-/

namespace BuildkitService.Daemon

open Strings Pool List Runs

variable {cfg : Config} {sh : Shared} {c : Cell} {snapshot : List Nat} {p : AddrPool} {a : Action}
  {s s' : State}

/-! ### Snapshots -/

def Covers (p : AddrPool) (excluded : List Bytes) (snapshot : List Nat) : Prop :=
  ∀ slot ∈ p.slots, ∀ addr, p.address slot = some addr → addr ∉ excluded → slot ∈ snapshot

theorem mem_orderedAddrSlots_of_mem {order : List Nat} {key : Bytes}
    (horder : orderedAddrSlots snapshot key = some order) {slot : Nat} (hslot : slot ∈ snapshot) :
    slot ∈ order := by
  rw [orderedAddrSlots] at horder
  split at horder
  · rename_i hempty
    rw [List.isEmpty_iff.1 hempty] at hslot
    cases hslot
  · obtain ⟨nodes, hnodes, rfl⟩ := Option.map_eq_some_iff.1 horder
    obtain ⟨i, hi⟩ := getElem?_of_mem hslot
    have hlt : i < snapshot.length := (List.getElem?_eq_some_iff.1 hi).1
    have hperm := getSlotOrder_perm (Nat.zero_lt_of_lt hlt) (by decide) hnodes
    exact mem_filterMap.2 ⟨i, hperm.mem_iff.2 (mem_range.2 hlt), hi⟩

theorem covers_snapshot {key : Bytes} {order : List Nat} (excluded : List Bytes)
    (horder : orderedAddrSlots p.slots key = some order) :
    Covers p excluded (p.filterExcludedAddrSlots order excluded) := by
  intro slot hslot addr haddr hallowed
  have hmem := mem_orderedAddrSlots_of_mem horder hslot
  rw [AddrPool.filterExcludedAddrSlots]
  split
  · exact hmem
  · refine mem_filter.2 ⟨hmem, ?_⟩
    simp [haddr, hallowed]

structure SameSlots (p p' : AddrPool) : Prop where
  slots : p'.slots = p.slots
  address : ∀ slot, p'.address slot = p.address slot

theorem Covers.of_same {p' : AddrPool} {excluded : List Bytes} (hcovers : Covers p excluded snapshot)
    (hsame : SameSlots p p') : Covers p' excluded snapshot := by
  intro slot hslot addr haddr
  rw [hsame.slots] at hslot
  rw [hsame.address] at haddr
  exact hcovers slot hslot addr haddr

theorem Covers.replace {excluded : List Bytes} {addrs : List BuildkitAddr}
    (hcovers : Covers p excluded snapshot) (hslots : ∀ slot ∈ p.slots, slot < p.objects.length)
    (hknown : ∀ addr ∈ addrs, (p.existing addr.addr).isSome = true ∨ addr.addr ∈ excluded) :
    Covers (p.replace addrs) excluded snapshot := by
  intro slot hslot addr haddr hallowed
  rcases p.mem_replace_slots addrs hslot with hold | ⟨hnew, _⟩
  · rw [p.replace_address addrs (hslots slot hold)] at haddr
    exact hcovers slot hold addr haddr hallowed
  · rw [p.replace_address_fresh addrs hnew] at haddr
    obtain ⟨entry, hentry, rfl⟩ := Option.map_eq_some_iff.1 haddr
    obtain ⟨hmem, hfresh⟩ := mem_filter.1 (mem_of_getElem? hentry)
    rcases hknown entry hmem with hsome | hexcluded
    · rw [← Option.not_isSome, hsome] at hfresh
      cases hfresh
    · exact absurd hexcluded hallowed

theorem pool_step (heffect : Effect cfg s a s') :
    (∃ addrs, a.installs = some addrs ∧ s'.shared.pool = s.shared.pool.replace addrs) ∨
      SameSlots s.shared.pool s'.shared.pool := by
  have hnext := poolNext_of_effect heffect
  generalize s'.shared.pool = p' at hnext ⊢
  cases hnext with
  | kept hworkers hslots =>
    refine .inr ⟨hslots, ?_⟩
    intro slot
    rw [address_eq, address_eq, hworkers]
  | replaced haddrs => exact .inl ⟨_, haddrs, rfl⟩

/-! ### Tasks with a snapshot -/

def TaskPc.waitsOn : TaskPc → Option (Attempt × List Nat)
  | .picking a _ slots | .selecting a slots => some (a, slots)
  | _ => none

def Cell.Blocked (p : AddrPool) (c : Cell) (a : Attempt) : Prop :=
  ∃ slots, c.pc = .selecting a slots ∧ c.ctx = none ∧ ∀ slot ∈ slots, p.tryAcquireAddrSlot slot = none

def Familiar (s : State) (a : Action) : Prop :=
  ∀ addr ∈ a.installs.getD [], ∀ c ∈ s.cells, ∀ w ∈ c.pc.waitsOn,
    (s.shared.pool.existing addr.addr).isSome = true ∨ addr.addr ∈ w.1.excluded

instance (s : State) (a : Action) : Decidable (Familiar s a) := by
  unfold Familiar
  infer_instance

def Covered (s : State) : Prop :=
  ∀ c ∈ s.cells, ∀ w ∈ c.pc.waitsOn, Covers s.shared.pool w.1.excluded w.2

theorem afterAttempt_waitsOn (c : Cell) (a : Attempt) (exporter : Exporter) (err : Option Bytes) :
    (c.afterAttempt a exporter err).waitsOn = none := by
  rw [Cell.afterAttempt.eq_def]
  split
  · rfl
  · split
    · rfl
    · split_ifs <;> rfl

theorem afterPrepare_waitsOn (c : Cell) (step : BuildStep) (rest : List BuildStep) (exporter : Exporter)
    (written : Except Bytes Unit) : (c.afterPrepare cfg step rest exporter written).waitsOn = none := by
  rw [Cell.afterPrepare]
  split <;> rfl

theorem Next.waitsOn {pc pc' : TaskPc} {op : Op} {w : Attempt × List Nat} (hnext : Next cfg sh c pc op pc')
    (hwaits : w ∈ pc'.waitsOn) :
    w ∈ pc.waitsOn ∨ (op = .snapshot w.1.excluded ∧ Covers sh.pool w.1.excluded w.2) := by
  cases hnext with
  | snapshotTaken horder =>
    cases hwaits
    exact .inr ⟨rfl, covers_snapshot _ horder⟩
  | pickedNot | allFull => exact .inl hwaits
  | prepared step rest exporter written =>
    rw [afterPrepare_waitsOn] at hwaits
    cases hwaits
  | attempted a exporter err =>
    rw [afterAttempt_waitsOn] at hwaits
    cases hwaits
  | _ => cases hwaits

theorem waitsOn_step (heffect : Effect cfg s a s') {c' : Cell} (hmem : c' ∈ s'.cells) {w : Attempt × List Nat}
    (hwaits : w ∈ c'.pc.waitsOn) :
    (∃ c ∈ s.cells, w ∈ c.pc.waitsOn) ∨ Covers s'.shared.pool w.1.excluded w.2 := by
  have hset : ∀ {i : Nat} {c d : Cell}, s.cells[i]? = some c → s'.cells = s.cells.set i d →
      (w ∈ d.pc.waitsOn → w ∈ c.pc.waitsOn ∨ Covers s'.shared.pool w.1.excluded w.2) →
      (∃ c ∈ s.cells, w ∈ c.pc.waitsOn) ∨ Covers s'.shared.pool w.1.excluded w.2 := by
    intro i c d hcell hcells hd
    rw [hcells] at hmem
    rcases mem_or_eq_of_mem_set hmem with hold | rfl
    · exact .inl ⟨c', hold, hwaits⟩
    · rcases hd hwaits with hbefore | hcovers
      · exact .inl ⟨c, mem_of_getElem? hcell, hbefore⟩
      · exact .inr hcovers
  cases heffect with
  | tick | request | closeQueue | refreshPool => exact .inl ⟨c', hmem, hwaits⟩
  | create spec =>
    rcases mem_append.1 hmem with hold | hnew
    · exact .inl ⟨c', hold, hwaits⟩
    · rw [mem_singleton.1 hnew] at hwaits
      cases hwaits
  | handler hhandler hcell | ctxDone hcell | removeDir hcell => exact hset hcell rfl .inl
  | @enqueue k leaves h c outcome hhandler hpc hcell =>
    refine hset hcell rfl fun hnew => ?_
    cases outcome <;> cases hnew
  | pop hqueue hcell => exact hset hcell rfl fun hnew => by cases hnew
  | task hcell hcontrol hshared =>
    refine hset hcell rfl fun hnew => ?_
    rcases (control_next hcontrol).waitsOn hnew with hbefore | ⟨rfl, hcovers⟩
    · exact .inl hbefore
    · cases hshared
      exact .inr hcovers
  | reap hnow =>
    obtain ⟨c, hc, rfl⟩ := List.mem_map.1 hmem
    rw [reap_pc] at hwaits
    exact .inl ⟨c, hc, hwaits⟩

theorem covered_step (hslots : ∀ slot ∈ s.shared.pool.slots, slot < s.shared.pool.objects.length)
    (hcovered : Covered s) (hfamiliar : Familiar s a) (heffect : Effect cfg s a s') : Covered s' := by
  intro c' hmem w hwaits
  rcases waitsOn_step heffect hmem hwaits with ⟨c, hc, hbefore⟩ | hcovers
  · have hcovers := hcovered c hc w hbefore
    rcases pool_step heffect with ⟨addrs, hinstalls, hpool⟩ | hsame
    · rw [hpool]
      refine hcovers.replace hslots fun addr haddr => ?_
      exact hfamiliar addr (by rw [hinstalls]; exact haddr) c hc w hbefore
    · exact hcovers.of_same hsame
  · exact hcovers

theorem le_sem_of_refused {slot : Nat} {o : AddrSlot} (ho : p.objects[slot]? = some o)
    (hrefused : p.tryAcquireAddrSlot slot = none) : p.concurrency ≤ o.sem := by
  simp only [AddrPool.tryAcquireAddrSlot, ho] at hrefused
  split at hrefused
  · cases hrefused
  · omega

structure Waiting (cfg : Config) (addrs : List BuildkitAddr) (addrConcurrency : Nat) (s : State) : Prop where
  run : ∃ as, Runs.exec (step cfg) (start addrs addrConcurrency) as = some s
  covered : Covered s

theorem waiting_run {addrs : List BuildkitAddr} {addrConcurrency : Nat} {as : List Action}
    (hfamiliar : Along (step cfg) Familiar (start addrs addrConcurrency) as)
    (hrun : exec (step cfg) (start addrs addrConcurrency) as = some s) :
    Waiting cfg addrs addrConcurrency s := by
  refine exec_invariant_along (step cfg) ?_ ⟨⟨[], rfl⟩, by simp [Covered, start]⟩ hfamiliar hrun
  intro s a s' hwaiting hfamiliar hstep
  obtain ⟨as, hbefore⟩ := hwaiting.run
  refine ⟨⟨as ++ [a], exec_append (step cfg) hbefore ?_⟩, ?_⟩
  · rw [exec_cons_eq_some]
    exact ⟨s', hstep, rfl⟩
  · exact covered_step (conserved_run hbefore).slots.slots_lt hwaiting.covered hfamiliar (step_effect hstep)

/-- With familiar refreshes, a task is blocked only while the pool is full. -/
theorem blocked_finds_pool_full {addrs : List BuildkitAddr} {addrConcurrency : Nat} {as : List Action}
    {s : State} (hfamiliar : Runs.Along (step cfg) Familiar (start addrs addrConcurrency) as)
    (hrun : Runs.exec (step cfg) (start addrs addrConcurrency) as = some s) (hcell : c ∈ s.cells) {a : Attempt}
    (hblocked : c.Blocked s.shared.pool a) :
    ∀ slot ∈ s.shared.pool.slots, ∃ o, s.shared.pool.objects[slot]? = some o ∧
      (o.addr.addr ∉ a.excluded → o.sem = s.shared.pool.concurrency) := by
  intro slot hslot
  obtain ⟨slots, hpc, _, hfull⟩ := hblocked
  have hcounted := (conserved_run hrun).slots
  have hlt : slot < s.shared.pool.objects.length := hcounted.slots_lt slot hslot
  refine ⟨s.shared.pool.objects[slot], List.getElem?_eq_getElem hlt, fun hallowed => ?_⟩
  have ho : s.shared.pool.objects[slot]? = some s.shared.pool.objects[slot] := List.getElem?_eq_getElem hlt
  have haddr : s.shared.pool.address slot = some s.shared.pool.objects[slot].addr.addr := by
    rw [AddrPool.address, ho]
    rfl
  have hwaits : (a, slots) ∈ c.pc.waitsOn := by
    rw [hpc]
    rfl
  have hmem : slot ∈ slots :=
    (waiting_run hfamiliar hrun).covered c hcell (a, slots) hwaits slot hslot _ haddr hallowed
  exact le_antisymm (hcounted.room slot _ ho) (le_sem_of_refused ho (hfull slot hmem))

/-! ### A refresh while a task waits -/

def waitingConfig : Config := { sampleConfig with maxConcurrency := 2 }

def sampleWaiting : List Action :=
  sampleBuild ++ [.create sampleTask, .handler 1 false] ++ List.replicate 8 (.task 1 .go)

def waitingAttempt : Attempt := .first ⟨ascii "registry/app:1", .oci, [], []⟩ [] []

theorem blocked_of_refused (hpc : c.pc = .selecting waitingAttempt [0]) (hctx : c.ctx = none)
    (hrefused : s.shared.pool.tryAcquireAddrSlot 0 = none) : c.Blocked s.shared.pool waitingAttempt := by
  refine ⟨[0], hpc, hctx, fun slot hslot => ?_⟩
  rw [mem_singleton.1 hslot]
  exact hrefused

theorem blocked_finds_pool_full_sample : ∃ s c,
    Runs.exec (step waitingConfig) sampleStart sampleWaiting = some s ∧ c ∈ s.cells ∧
    c.Blocked s.shared.pool waitingAttempt ∧ s.shared.pool.slots = [0] ∧
    ∀ slot ∈ s.shared.pool.slots, ∃ o, s.shared.pool.objects[slot]? = some o ∧
      (o.addr.addr ∉ waitingAttempt.excluded → o.sem = s.shared.pool.concurrency) := by
  have hruns : (Runs.exec (step waitingConfig) sampleStart sampleWaiting).bind (fun s =>
      (s.cells[1]?).map fun c => (c.pc, c.ctx, s.shared.pool.tryAcquireAddrSlot 0, s.shared.pool.slots)) =
      some (.selecting waitingAttempt [0], none, none, [0]) := by decide +kernel
  have hfamiliar : Runs.Along (step waitingConfig) Familiar sampleStart sampleWaiting := by decide +kernel
  obtain ⟨s, hrun, hs⟩ := Option.bind_eq_some_iff.1 hruns
  obtain ⟨c, hcell, hc⟩ := Option.map_eq_some_iff.1 hs
  simp only [Prod.mk.injEq] at hc
  obtain ⟨hpc, hctx, hrefused, hslots⟩ := hc
  have hblocked := blocked_of_refused hpc hctx hrefused
  have hmem : c ∈ s.cells := List.mem_of_getElem? hcell
  exact ⟨s, c, hrun, hmem, hblocked, hslots, blocked_finds_pool_full hfamiliar hrun hmem hblocked⟩

def refreshedAddrs : List BuildkitAddr :=
  [⟨ascii "10.0.0.1:9094", ascii "tcp://10.0.0.1:9094", ascii "10.0.0.1"⟩,
    ⟨ascii "10.0.0.2:9094", ascii "tcp://10.0.0.2:9094", ascii "10.0.0.2"⟩]

theorem blocked_misses_new_worker : ∃ s c o,
    Runs.exec (step waitingConfig) sampleStart (sampleWaiting ++ [.refreshPool refreshedAddrs]) = some s ∧
    c ∈ s.cells ∧ c.Blocked s.shared.pool waitingAttempt ∧ 1 ∈ s.shared.pool.slots ∧
    s.shared.pool.objects[1]? = some o ∧ o.addr.addr ∉ waitingAttempt.excluded ∧
    o.sem < s.shared.pool.concurrency := by
  have hruns : (Runs.exec (step waitingConfig) sampleStart
      (sampleWaiting ++ [.refreshPool refreshedAddrs])).bind (fun s => (s.cells[1]?).bind fun c =>
        (s.shared.pool.objects[1]?).map fun o => decide (c.pc = .selecting waitingAttempt [0] ∧ c.ctx = none ∧
          s.shared.pool.tryAcquireAddrSlot 0 = none ∧ 1 ∈ s.shared.pool.slots ∧
          o.sem < s.shared.pool.concurrency)) = some true := by decide +kernel
  obtain ⟨s, hrun, hs⟩ := Option.bind_eq_some_iff.1 hruns
  obtain ⟨c, hcell, hc⟩ := Option.bind_eq_some_iff.1 hs
  obtain ⟨o, ho, hvalues⟩ := Option.map_eq_some_iff.1 hc
  obtain ⟨hpc, hctx, hrefused, hslot, hroom⟩ := of_decide_eq_true hvalues
  exact ⟨s, c, o, hrun, List.mem_of_getElem? hcell, blocked_of_refused hpc hctx hrefused, hslot, ho,
    List.not_mem_nil, hroom⟩

end BuildkitService.Daemon
