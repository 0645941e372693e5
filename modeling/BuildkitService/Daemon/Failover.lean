import BuildkitService.Daemon.Stages
import BuildkitService.Daemon.Workers

/-!
# Failover between workers

The loop of `runBuildStepAttempt` has no bound: it goes on as long as workers refuse a build with an
error that speaks of their address.
-/

namespace BuildkitService.Daemon

open Strings Pool List

variable {cfg : Config} {sh : Shared} {c c' : Cell} {ok : Bytes → Prop} {p p' : AddrPool} {tried : List Bytes}
  {pc' pc : TaskPc} {b : Action} {i : Nat} {s : State}

/-! ### The points of a call -/

def TaskPc.seeking : TaskPc → Option (Attempt × List Nat)
  | .markQueued a | .acquireGlobal a | .snapshot a | .refresh a | .dropSlot a _ | .releaseGlobalOnly a _ =>
      some (a, [])
  | .picking a untried slots => some (a, untried ++ slots)
  | .selecting a slots => some (a, slots)
  | .assign a slot | .call a slot => some (a, [slot])
  | _ => none

def TaskPc.serving : TaskPc → Option (Attempt × Nat)
  | .building a slot | .releaseSlot a slot _ _ => some (a, slot)
  | _ => none

def TaskPc.served : TaskPc → Option (Attempt × Bytes)
  | .releaseGlobal a addr _ _ | .classify a addr _ _ => some (a, addr)
  | _ => none

def TaskPc.attempted : TaskPc → Bool
  | .attemptDone .. => true
  | _ => false

inductive Calling (ok : Bytes → Prop) (p : AddrPool) (tried : List Bytes) (pc : TaskPc) : Prop
  | seeking {a : Attempt} {slots : List Nat} (hpc : pc.seeking = some (a, slots)) (htried : tried = a.excluded)
      (hslots : ∀ slot ∈ slots, ∃ addr, p.address slot = some addr ∧ addr ∉ a.excluded ∧ ok addr)
  | serving {a : Attempt} {slot : Nat} {addr : Bytes} (hpc : pc.serving = some (a, slot))
      (haddr : p.address slot = some addr) (htried : tried = a.excluded ++ [addr])
  | served {a : Attempt} {addr : Bytes} (hpc : pc.served = some (a, addr)) (htried : tried = a.excluded ++ [addr])
  | returned (hpc : pc.attempted = true)

def addressesOf (builds : List BuildCall) : List Bytes := builds.map fun call => call.request.buildkitAddr

theorem addressesOf_finishCall (result : BuildResult) (builds : List BuildCall) :
    addressesOf (finishCall result builds) = addressesOf builds := by
  induction builds with
  | nil => rfl
  | cons call calls ih =>
    cases calls with
    | nil => rfl
    | cons next calls =>
      rw [finishCall, addressesOf, map_cons, ← addressesOf, ih]
      · rfl
      · intro hnil
        cases hnil

theorem request_addr (c : Cell) (a : Attempt) (addr : Bytes) : (c.request a addr).buildkitAddr = addr := by
  rw [Cell.request]
  split_ifs <;> rfl

theorem not_mem_excluded {slots : List Nat} {excluded : List Bytes} {slot : Nat} {addr : Bytes}
    (hslot : slot ∈ p.filterExcludedAddrSlots slots excluded) (haddr : p.address slot = some addr) :
    addr ∉ excluded := by
  rw [AddrPool.filterExcludedAddrSlots] at hslot
  split_ifs at hslot with hempty
  · rw [List.isEmpty_iff.1 hempty]
    exact not_mem_nil
  · have hkept := (mem_filter.1 hslot).2
    rw [haddr] at hkept
    simpa using hkept

theorem Calling.narrow {a : Attempt} {slots slots' : List Nat} (hpc' : pc'.seeking = some (a, slots'))
    (htried : tried = a.excluded) (hsub : slots' ⊆ slots)
    (hslots : ∀ slot ∈ slots, ∃ addr, p.address slot = some addr ∧ addr ∉ a.excluded ∧ ok addr) :
    Calling ok p tried pc' :=
  .seeking hpc' htried fun slot hslot => hslots slot (hsub hslot)

theorem Next.calling {op : Op} (hnext : Next cfg sh c pc op pc') (hcalling : Calling ok sh.pool tried pc)
    (hstays : pc.attempted = false) (hcall : ∀ a slot, pc ≠ .call a slot)
    (hpool : ∀ slot ∈ sh.pool.slots, ∃ addr, sh.pool.address slot = some addr ∧ ok addr) :
    addressesOf (op.onCell sh c).builds = addressesOf c.builds ∧ Calling ok sh.pool tried pc' := by
  cases hcalling with
  | @seeking a slots hpc htried hslots =>
    have hassigned : pc.assigned = false := by
      cases pc with
      | call a slot => exact absurd rfl (hcall a slot)
      | building a slot => cases hpc
      | _ => rfl
    rw [hnext.builds hassigned]
    refine ⟨rfl, ?_⟩
    cases hnext with
    | markedQueued | globalAcquired | refreshed | refreshFailed | dropped =>
      cases hpc
      exact .seeking rfl htried nofun
    | globalCanceled | globalReleasedOnly => exact .returned rfl
    | @snapshotTaken a order horder =>
      cases hpc
      refine .seeking rfl htried ?_
      intro slot hslot
      rw [mem_append, or_self] at hslot
      obtain ⟨addr, haddr, hok⟩ := hpool slot (mem_orderedAddrSlots horder slot (mem_filterExcludedAddrSlots hslot))
      exact ⟨addr, haddr, not_mem_excluded hslot haddr, hok⟩
    | picked | pickedNot | noAddress | allFull | selectCanceled | assigned | unassigned =>
      cases hpc
      exact .narrow rfl htried (by simp) hslots
    | selected hslot =>
      cases hpc
      exact .narrow rfl htried (by simpa using hslot) hslots
    | called a slot => exact absurd rfl (hcall a slot)
    | _ => cases hpc
  | @serving a slot addr hpc haddr htried =>
    cases hnext with
    | built =>
      cases hpc
      exact ⟨addressesOf_finishCall _ _, .serving rfl haddr htried⟩
    | slotReleased =>
      cases hpc
      rw [haddr]
      exact ⟨rfl, .served rfl htried⟩
    | _ => cases hpc
  | @served a addr hpc htried =>
    cases hnext with
    | globalReleased =>
      cases hpc
      exact ⟨rfl, .served rfl htried⟩
    | attemptReturns => exact ⟨rfl, .returned rfl⟩
    | failsOver =>
      cases hpc
      exact ⟨rfl, .seeking rfl htried nofun⟩
    | _ => cases hpc
  | returned hpc =>
    rw [hpc] at hstays
    cases hstays

theorem Calling.call {a : Attempt} {slot : Nat} (hcalling : Calling ok sh.pool tried (.call a slot)) :
    ∃ addr, sh.pool.address slot = some addr ∧ addr ∉ tried ∧ tried = a.excluded ∧ ok addr ∧
      Calling ok sh.pool (tried ++ [addr]) (.building a slot) := by
  cases hcalling with
  | seeking hpc htried hslots =>
    cases hpc
    obtain ⟨addr, haddr, hnew, hok⟩ := hslots slot mem_cons_self
    exact ⟨addr, haddr, htried ▸ hnew, htried, hok, .serving rfl haddr (by rw [htried])⟩
  | serving hpc | served hpc | returned hpc => cases hpc

theorem Calling.mono (hcalling : Calling ok p tried pc)
    (haddress : ∀ slot addr, p.address slot = some addr → p'.address slot = some addr) :
    Calling ok p' tried pc := by
  cases hcalling with
  | seeking hpc htried hslots =>
    refine .seeking hpc htried ?_
    intro slot hslot
    obtain ⟨addr, haddr, hnew, hok⟩ := hslots slot hslot
    exact ⟨addr, haddress slot addr haddr, hnew, hok⟩
  | serving hpc haddr htried => exact .serving hpc (haddress _ _ haddr) htried
  | served hpc htried => exact .served hpc htried
  | returned hpc => exact .returned hpc

/-! ### The call in a run -/

def leavesCall (i : Nat) (s : State) : Action → Bool
  | .task j _ => j == i && ((s.cells[i]?).map fun c => c.pc.attempted).getD false
  | _ => false

theorem Calling.step (hcalling : Calling ok s.shared.pool tried c.pc) (hnodup : tried.Nodup)
    (hcell : s.cells[i]? = some c) (hstep : CellStep cfg s b i c c') (hstays : leavesCall i s b = false)
    (hpool : ∀ slot ∈ s.shared.pool.slots, ∃ addr, s.shared.pool.address slot = some addr ∧ ok addr) :
    ∃ new, addressesOf c'.builds = addressesOf c.builds ++ new ∧ (tried ++ new).Nodup ∧ (∀ addr ∈ new, ok addr) ∧
      Calling ok s.shared.pool (tried ++ new) c'.pc := by
  have hquiet : addressesOf c'.builds = addressesOf c.builds ∧ Calling ok s.shared.pool tried c'.pc →
      ∃ new, addressesOf c'.builds = addressesOf c.builds ++ new ∧ (tried ++ new).Nodup ∧
        (∀ addr ∈ new, ok addr) ∧ Calling ok s.shared.pool (tried ++ new) c'.pc := by
    rintro ⟨hbuilds, hcalling'⟩
    exact ⟨[], by rw [hbuilds, append_nil], by rwa [append_nil], nofun, by rwa [append_nil]⟩
  cases hstep with
  | framed _ _ _ hpc hbuilds =>
    refine hquiet ⟨by rw [hbuilds], ?_⟩
    rw [hpc]
    exact hcalling
  | queued hbefore =>
    exfalso
    rcases hbefore with hpc | hpc <;> rw [hpc] at hcalling <;> cases hcalling <;> contradiction
  | handled _ _ hnext =>
    refine hquiet ⟨?_, hcalling⟩
    dsimp only
    rw [hnext.builds]
  | @moved choice op pc haction hcontrol =>
    subst haction
    have hnext := control_next hcontrol
    have hattempted : c.pc.attempted = false := by
      simpa [leavesCall, hcell] using hstays
    by_cases hcall : ∃ a slot, c.pc = .call a slot
    · obtain ⟨a, slot, hpc⟩ := hcall
      rw [hpc] at hcalling hnext
      obtain ⟨addr, haddr, hnew, _, hok, hbuilding⟩ := hcalling.call
      cases hnext
      refine ⟨[addr], ?_, ?_, by simpa using hok, hbuilding⟩
      · simp [Op.onCell, addressesOf, request_addr, haddr]
      · refine nodup_append.2 ⟨hnodup, nodup_singleton _, ?_⟩
        rintro x hx y hy rfl
        exact hnew (mem_singleton.1 hy ▸ hx)
    · exact hquiet (hnext.calling hcalling hattempted (fun a slot hpc => hcall ⟨a, slot, hpc⟩) hpool)
  | reaped => exact hquiet ⟨rfl, hcalling⟩

structure InCall (cfg : Config) (addrs : List BuildkitAddr) (addrConcurrency : Nat) (ok : Bytes → Prop) (i : Nat)
    (before tried : List Bytes) (s : State) : Prop where
  run : ∃ as, Runs.exec (step cfg) (start addrs addrConcurrency) as = some s
  cell : ∃ c, s.cells[i]? = some c ∧ addressesOf c.builds = before ++ tried ∧ Calling ok s.shared.pool tried c.pc
  nodup : tried.Nodup
  allowed : ∀ addr ∈ tried, ok addr

def Offers (ok : Bytes → Prop) (i : Nat) (s : State) (b : Action) : Prop :=
  leavesCall i s b = false ∧ ∀ addr ∈ s.shared.pool.addresses, ok addr

theorem Sound.offers {addrConcurrency : Nat} (hsound : Sound cfg addrConcurrency s)
    (hoffers : ∀ addr ∈ s.shared.pool.addresses, ok addr) :
    ∀ slot ∈ s.shared.pool.slots, ∃ addr, s.shared.pool.address slot = some addr ∧ ok addr := by
  intro slot hslot
  have hlt : slot < s.shared.pool.objects.length := hsound.conserved.slots.slots_lt slot hslot
  have haddr : s.shared.pool.address slot = some (s.shared.pool.objects[slot]).addr.addr := by
    rw [AddrPool.address, getElem?_eq_getElem hlt, Option.map_some]
  exact ⟨_, haddr, hoffers _ (mem_filterMap.2 ⟨slot, hslot, haddr⟩)⟩

theorem inCall_step {addrs : List BuildkitAddr} {addrConcurrency : Nat} {before : List Bytes} {s' : State}
    (hinv : ∃ tried, InCall cfg addrs addrConcurrency ok i before tried s) (hoffers : Offers ok i s b)
    (hstep : step cfg s b = some s') : ∃ tried, InCall cfg addrs addrConcurrency ok i before tried s' := by
  obtain ⟨tried, hrun, ⟨c, hcell, hbuilds, hcalling⟩, hnodup, hallowed⟩ := hinv
  obtain ⟨as, hexec⟩ := hrun
  have hsound := sound_run hexec
  have heffect := step_effect hstep
  obtain ⟨c', hcell', hcellstep⟩ := cellStep_forward hsound.admitted heffect hcell
  obtain ⟨new, hnew, hnodup', hok, hcalling'⟩ :=
    hcalling.step hnodup hcell hcellstep hoffers.1 (hsound.offers hoffers.2)
  refine ⟨tried ++ new, reached_step ⟨as, hexec⟩ hstep, ⟨c', hcell', ?_, ?_⟩, hnodup', ?_⟩
  · rw [hnew, hbuilds, append_assoc]
  · exact hcalling'.mono (poolNext_of_effect heffect).address
  · intro addr haddr
    rcases mem_append.1 haddr with hold | hlate
    · exact hallowed addr hold
    · exact hok addr hlate

/-! ### Passes of the loop -/

def beginsPass : TaskPc → TaskPc → Nat
  | .markQueued _, .acquireGlobal _ => 1
  | _, _ => 0

def TaskPc.inPass : TaskPc → Nat
  | .acquireGlobal _ | .snapshot _ | .picking .. | .selecting .. | .assign .. | .dropSlot .. | .call ..
  | .releaseGlobalOnly .. | .attemptDone .. => 1
  | _ => 0

theorem beginsPass_self (pc : TaskPc) : beginsPass pc pc = 0 := by
  cases pc <;> rfl

theorem Next.pays {op : Op} (hnext : Next cfg sh c pc op pc') (hstays : pc.attempted = false) :
    beginsPass pc pc' + (c.builds.length + pc.inPass) ≤ (op.onCell sh c).builds.length + pc'.inPass := by
  by_cases hcall : pc.assigned = true
  · cases hnext with
    | called a slot => simp [beginsPass, TaskPc.inPass, Op.onCell]
    | built a slot exporter err => simp [beginsPass, TaskPc.inPass, Op.onCell, length_finishCall]
    | finishes | finished => cases hcall
    | _ => cases hcall
  · rw [hnext.builds (eq_false_of_ne_true hcall)]
    cases hnext with
    | called => exact absurd rfl hcall
    | attempted => cases hstays
    | _ => simp [beginsPass, TaskPc.inPass, Nat.add_comm]

theorem CellStep.pays (hstep : CellStep cfg s b i c c') (hcell : s.cells[i]? = some c)
    (hstays : leavesCall i s b = false) :
    beginsPass c.pc c'.pc + (c.builds.length + c.pc.inPass) ≤ c'.builds.length + c'.pc.inPass := by
  cases hstep with
  | framed _ _ _ hpc hbuilds => rw [hpc, hbuilds, beginsPass_self, Nat.zero_add]
  | queued hbefore hafter =>
    rcases hbefore with hpc | hpc <;> rcases hafter with rfl | rfl | rfl <;> simp [hpc, beginsPass, TaskPc.inPass]
  | handled _ _ hnext =>
    dsimp only
    rw [hnext.builds, beginsPass_self, Nat.zero_add]
  | moved haction hcontrol =>
    subst haction
    exact (control_next hcontrol).pays (by simpa [leavesCall, hcell] using hstays)
  | reaped => exact Nat.le_of_eq (by rw [beginsPass_self, Nat.zero_add])

def passesOf (cfg : Config) (i : Nat) (s : State) (b : Action) : Nat :=
  match s.cells[i]?, (step cfg s b).bind fun s' => s'.cells[i]? with
  | some c, some c' => beginsPass c.pc c'.pc
  | _, _ => 0

def paidFor (i : Nat) (s : State) : Nat := ((s.cells[i]?).map fun c => c.builds.length + c.pc.inPass).getD 0

theorem passesOf_step {s' : State} (hadmitted : Admitted s) (hcell : s.cells[i]? = some c)
    (hstays : leavesCall i s b = false) (hstep : step cfg s b = some s') :
    passesOf cfg i s b + paidFor i s ≤ paidFor i s' := by
  obtain ⟨c', hcell', hcellstep⟩ := cellStep_forward hadmitted (step_effect hstep) hcell
  have hpays := hcellstep.pays hcell hstays
  rw [passesOf, paidFor, paidFor, hstep, Option.bind_some, hcell, hcell']
  exact hpays

/-- A call never builds twice on one address. -/
theorem failover_addresses {addrs : List BuildkitAddr} {addrConcurrency i : Nat} {as bs : List Action}
    {s t : State} {d : Cell} {a : Attempt}
    (hrun : Runs.exec (step cfg) (start addrs addrConcurrency) as = some s) (hcell : s.cells[i]? = some c)
    (hpc : c.pc = .markQueued a) (hfirst : a.excluded = []) (hlater : Runs.exec (step cfg) s bs = some t)
    (hcall : Runs.Along (step cfg) (fun s b => leavesCall i s b = false) s bs) (hd : t.cells[i]? = some d) :
    ∃ tried, addressesOf d.builds = addressesOf c.builds ++ tried ∧ tried.Nodup ∧
      (∀ a' slot, d.pc = .call a' slot → a'.excluded = tried ∧
        ∃ addr, t.shared.pool.address slot = some addr ∧ addr ∉ a'.excluded) ∧
      ∀ present : List Bytes,
        Runs.Along (step cfg) (fun s _ => ∀ addr ∈ s.shared.pool.addresses, addr ∈ present) s bs →
        tried.length ≤ present.length ∧ Runs.tally (step cfg) (passesOf cfg i) s bs ≤ present.length + 1 := by
  have hinit : ∀ ok, ∃ tried, InCall cfg addrs addrConcurrency ok i (addressesOf c.builds) tried s := by
    intro ok
    refine ⟨[], ⟨as, hrun⟩, ⟨c, hcell, (List.append_nil _).symm, ?_⟩, List.nodup_nil, nofun⟩
    rw [hpc]
    exact .seeking rfl hfirst.symm nofun
  have hends : ∀ ok, Runs.Along (step cfg) (fun s _ => ∀ addr ∈ s.shared.pool.addresses, ok addr) s bs →
      ∃ tried, InCall cfg addrs addrConcurrency ok i (addressesOf c.builds) tried t := by
    intro ok hok
    exact Runs.exec_invariant_along (step cfg) (fun s b s' hinv hoffers hstep => inCall_step hinv hoffers hstep)
      (hinit ok) (Runs.along_and (step cfg) hcall hok) hlater
  have hkeep : ∀ s b s', (Admitted s ∧ ∃ c, s.cells[i]? = some c) → leavesCall i s b = false →
      step cfg s b = some s' → Admitted s' ∧ ∃ c, s'.cells[i]? = some c := by
    rintro s b s' ⟨hadmitted, c, hcell⟩ _ hstep
    obtain ⟨c', hcell', _⟩ := cellStep_forward hadmitted (step_effect hstep) hcell
    exact ⟨admitted_step hadmitted (step_effect hstep), c', hcell'⟩
  have hpay : ∀ s b s', (Admitted s ∧ ∃ c, s.cells[i]? = some c) → leavesCall i s b = false →
      step cfg s b = some s' → passesOf cfg i s b + paidFor i s ≤ paidFor i s' := by
    rintro s b s' ⟨hadmitted, c, hcell⟩ hstays hstep
    exact passesOf_step hadmitted hcell hstays hstep
  have htally := Runs.tally_add_le (step cfg) hkeep hpay ⟨(sound_run hrun).admitted, c, hcell⟩ hcall hlater
  obtain ⟨tried, hin⟩ := hends (fun _ => True) (Runs.along_of_forall (step cfg) (fun _ _ _ _ _ => trivial) s)
  obtain ⟨e, he, hbuilds, hcalling⟩ := hin.cell
  rw [hd] at he
  cases he
  refine ⟨tried, hbuilds, hin.nodup, ?_, ?_⟩
  · intro a' slot hcallpc
    rw [hcallpc] at hcalling
    obtain ⟨addr, haddr, hnew, htried, _⟩ := hcalling.call
    exact ⟨htried.symm, addr, haddr, htried ▸ hnew⟩
  · intro present hpresent
    obtain ⟨tried', hin'⟩ := hends (· ∈ present) hpresent
    obtain ⟨e, he, hbuilds', _⟩ := hin'.cell
    rw [hd] at he
    cases he
    have hsame : tried = tried' := List.append_cancel_left (hbuilds.symm.trans hbuilds')
    subst hsame
    have hlength : tried.length ≤ present.length := (List.subperm_of_subset hin.nodup hin'.allowed).length_le
    refine ⟨hlength, ?_⟩
    have hcount := congrArg List.length hbuilds
    rw [List.length_append, addressesOf, addressesOf, List.length_map, List.length_map] at hcount
    rw [paidFor, paidFor, hcell, hd, Option.map_some, Option.map_some, Option.getD_some, Option.getD_some, hpc] at htally
    have hzero : (TaskPc.markQueued a).inPass = 0 := rfl
    have hone : d.pc.inPass ≤ 1 := by cases d.pc <;> simp [TaskPc.inPass]
    rw [hzero] at htally
    omega

def sampleFailover : List Action :=
  List.replicate 6 (.task 0 .go) ++
    [.task 0 (.result [] (some (ascii "dial tcp 10.0.0.1:9094: connect: connection refused")))] ++
    List.replicate 3 (.task 0 .go) ++ [.task 0 (.refreshed (.error []))] ++ List.replicate 5 (.task 0 .go)

theorem failover_addresses_single : ∃ s t,
    Runs.exec (step sampleConfig) sampleStart (sampleBuild.take 5) = some s ∧
    Runs.exec (step sampleConfig) s sampleFailover = some t ∧
    Runs.tally (step sampleConfig) (passesOf sampleConfig 0) s sampleFailover ≤ 2 := by
  have hfirst : ((Runs.exec (step sampleConfig) sampleStart (sampleBuild.take 5)).bind fun s =>
      s.cells[0]?).map Cell.pc = some (.markQueued (.first ⟨ascii "registry/app:1", .oci, [], []⟩ [] [])) := by
    decide +kernel
  obtain ⟨c, hc, hpc⟩ := Option.map_eq_some_iff.1 hfirst
  obtain ⟨s, hrun, hcell⟩ := Option.bind_eq_some_iff.1 hc
  have hrest : (Runs.exec (step sampleConfig) sampleStart (sampleBuild.take 5)).all (fun s =>
      (Runs.exec (step sampleConfig) s sampleFailover).any (fun t => (t.cells[0]?).isSome) &&
        decide (Runs.Along (step sampleConfig) (fun s b => leavesCall 0 s b = false) s sampleFailover) &&
        decide (Runs.Along (step sampleConfig) (fun s _ => ∀ addr ∈ s.shared.pool.addresses,
          addr ∈ [ascii "tcp://10.0.0.1:9094"]) s sampleFailover)) = true := by
    decide +kernel
  rw [hrun, Option.all_some, Bool.and_eq_true, Bool.and_eq_true, decide_eq_true_iff, decide_eq_true_iff,
    Option.any_eq_true] at hrest
  obtain ⟨⟨⟨t, hlater, hd⟩, hcall⟩, hpresent⟩ := hrest
  obtain ⟨d, hd⟩ := Option.isSome_iff_exists.1 hd
  obtain ⟨tried, _, _, _, hbound⟩ := failover_addresses hrun hcell hpc rfl hlater hcall hd
  exact ⟨s, t, hrun, hlater, (hbound _ hpresent).2⟩

end BuildkitService.Daemon
