import BuildkitService.Batch.Run
import BuildkitService.Pool.Affinity
import BuildkitService.Pool.Holders

/-!
# Refreshing the pool and picking a worker

`addrPool` of `internal/buildbatch/scheduler.go` with the parts that `AddrPool` leaves to its users:
the ring that `replace` makes, and until when the address of a slot object cools down.
-/

namespace BuildkitService.Batch

open Strings Pool List Option Runs

/-! ### The pool -/

structure BatchPool where
  pool : AddrPool
  hash : Option ConsistentHash
  cooldownUntil : List (Nat × Nat)
  deriving DecidableEq, Repr

structure AddrPoolSnapshot where
  slots : List Nat
  hash : Option ConsistentHash
  deriving DecidableEq, Repr

namespace BatchPool

def snapshot (p : BatchPool) : AddrPoolSnapshot := ⟨p.pool.slots, p.hash⟩

def replace (p : BatchPool) (addrs : List BuildkitAddr) : BatchPool :=
  let pool := p.pool.replace addrs
  { p with pool := pool, hash := if pool.slots.isEmpty then none else some (newConsistentHash pool.slots.length 150) }

def isInCooldown (p : BatchPool) (now slot : Nat) : Bool := now < (p.cooldownUntil.lookup slot).getD 0

def pickPass (p : BatchPool) (snapshot : AddrPoolSnapshot) (now : Nat → Nat) (requireReady : Bool) :
    Nat → List Nat → Option (Nat × BatchPool)
  | _, [] => none
  | reading, idx :: order =>
      match snapshot.slots[idx]? with
      | none => pickPass p snapshot now requireReady reading order
      | some slot =>
          if requireReady && p.isInCooldown (now reading) slot then
            pickPass p snapshot now requireReady (reading + 1) order
          else
            match p.pool.tryAcquireAddrSlot slot with
            | some pool => some (slot, { p with pool := pool })
            | none => pickPass p snapshot now requireReady (reading + 1) order

def pickAvailableAddrSlot (p : BatchPool) (snapshot : AddrPoolSnapshot) (key : Bytes) (now : Nat → Nat) :
    Option (Option Nat × BatchPool) :=
  match snapshot.slots, snapshot.hash with
  | [], _ => some (none, p)
  | _, none => some (none, p)
  | _, some hash =>
      (hash.getSlotOrder key).map fun order =>
        match p.pickPass snapshot now true 0 order with
        | some (slot, p') => (some slot, p')
        | none =>
            match p.pickPass snapshot now false 0 order with
            | some (slot, p') => (some slot, p')
            | none => (none, p)

end BatchPool

/-! ### What `replace` keeps and makes -/

theorem mem_newSlots_of_mem (p : AddrPool) (addrs : List BuildkitAddr) {objects : List AddrSlot} {slots : List Nat}
    {slot : Nat} (hslot : slot ∈ slots) : slot ∈ (p.newSlots addrs objects slots).2 := by
  induction addrs generalizing objects slots with
  | nil => exact hslot
  | cons a addrs ih =>
    rw [AddrPool.newSlots]
    split
    · exact ih (mem_append_left _ hslot)
    · exact ih (mem_append_left _ hslot)

variable {addrs : List BuildkitAddr}

theorem existing_mem_newSlots {p : AddrPool} {a : BuildkitAddr} {slot : Nat} (objects : List AddrSlot)
    (slots : List Nat) (ha : a ∈ addrs) (hexisting : p.existing a.addr = some slot) :
    slot ∈ (p.newSlots addrs objects slots).2 := by
  induction addrs generalizing objects slots with
  | nil => cases ha
  | cons b addrs ih =>
    rw [AddrPool.newSlots]
    rcases mem_cons.1 ha with rfl | hrest
    · rw [hexisting]
      exact mem_newSlots_of_mem p addrs (mem_append_right _ mem_cons_self)
    · split
      · exact ih _ _ hrest
      · exact ih _ _ hrest

theorem fresh_mem_newSlots {p : AddrPool} {a : BuildkitAddr} (objects : List AddrSlot) (slots : List Nat)
    (ha : a ∈ addrs) (hexisting : p.existing a.addr = none) :
    ∃ slot ∈ (p.newSlots addrs objects slots).2, objects.length ≤ slot ∧
      (p.newSlots addrs objects slots).1[slot]? = some ⟨a, 0⟩ := by
  induction addrs generalizing objects slots with
  | nil => cases ha
  | cons b addrs ih =>
    rw [AddrPool.newSlots]
    rcases mem_cons.1 ha with rfl | hrest
    · rw [hexisting]
      refine ⟨objects.length, mem_newSlots_of_mem p addrs (mem_append_right _ mem_cons_self), le_rfl, ?_⟩
      dsimp only
      rw [AddrPool.newSlots_objects, append_assoc, getElem?_append_right le_rfl, Nat.sub_self]
      rfl
    · split
      · exact ih _ _ hrest
      · obtain ⟨slot, hslot, hle, hobject⟩ := ih (objects ++ [⟨b, 0⟩]) _ hrest
        rw [length_append, length_singleton] at hle
        exact ⟨slot, hslot, by omega, hobject⟩

structure Refreshed (p : BatchPool) (addrs : List BuildkitAddr) (after : BatchPool) : Prop where
  nodup : after.pool.slots.Nodup
  one : (after.pool.slots.map after.pool.address).Perm (addrs.map fun a => some a.addr)
  sorted : after.pool.addresses.Pairwise fun a b => a < b
  kept : ∀ a ∈ addrs, (∃ slot ∈ p.pool.slots, p.pool.address slot = some a.addr) →
    ∃ slot ∈ p.pool.slots, slot ∈ after.pool.slots ∧ after.pool.address slot = some a.addr ∧
      after.pool.objects[slot]? = p.pool.objects[slot]? ∧
      after.cooldownUntil.lookup slot = p.cooldownUntil.lookup slot
  made : ∀ a ∈ addrs, (∀ slot ∈ p.pool.slots, p.pool.address slot ≠ some a.addr) →
    ∃ slot ∈ after.pool.slots, p.pool.objects.length ≤ slot ∧ after.pool.objects[slot]? = some ⟨a, 0⟩
  none_left : after.hash = none ↔ after.pool.slots = []
  nodes : ∀ hash, after.hash = some hash → hash.numNodes = after.pool.slots.length

theorem replace_refreshed (p : BatchPool) (hdistinct : (addrs.map BuildkitAddr.addr).Nodup) :
    Refreshed p addrs (p.replace addrs) := by
  obtain ⟨hmap, hvalid⟩ := replace_addresses p.pool addrs
  have haddress : (p.pool.replace addrs).slots.map (p.pool.replace addrs).address = (sortedAddrs addrs).map some := by
    rw [← hmap, List.map_map]
    refine map_congr_left ?_
    intro slot hslot
    rw [Function.comp_apply, heapAddress, AddrPool.address, getElem?_eq_getElem (hvalid slot hslot)]
    rfl
  have hslots : ∀ {slot}, slot ∈ (p.pool.newSlots addrs p.pool.objects []).2 → slot ∈ (p.pool.replace addrs).slots :=
    fun hslot => (perm_insertionSort _ _).mem_iff.2 hslot
  refine ⟨?_, ?_, ?_, ?_, ?_, ?_, ?_⟩
  · have hnodup : (sortedAddrs addrs).Nodup := (perm_insertionSort _ _).nodup_iff.2 hdistinct
    rw [← hmap] at hnodup
    exact hnodup.of_map
  · show ((p.pool.replace addrs).slots.map (p.pool.replace addrs).address).Perm _
    have hperm := (perm_insertionSort (fun a b => a ≤ b) (addrs.map BuildkitAddr.addr)).map some
    rw [List.map_map] at hperm
    rw [haddress]
    exact hperm
  · show (p.pool.replace addrs).addresses.Pairwise _
    have haddresses : (p.pool.replace addrs).addresses = sortedAddrs addrs := by
      calc (p.pool.replace addrs).addresses
          = ((p.pool.replace addrs).slots.map (p.pool.replace addrs).address).filterMap id := by
            rw [filterMap_map]
            rfl
        _ = sortedAddrs addrs := by
            rw [haddress, filterMap_map]
            exact filterMap_some
    rw [haddresses]
    exact sortedAddrs_pairwise hdistinct
  · rintro a ha ⟨old, hold, haddr⟩
    cases hexisting : p.pool.existing a.addr with
    | none => exact absurd haddr (AddrPool.existing_eq_none hexisting old hold)
    | some slot =>
      obtain ⟨hmem, hslotaddr⟩ := AddrPool.existing_eq_some hexisting
      have hlt := (existing_heapAddress hexisting).1
      refine ⟨slot, hmem, hslots (existing_mem_newSlots _ _ ha hexisting), ?_, ?_, rfl⟩
      · exact (p.pool.replace_address addrs hlt).trans hslotaddr
      · show (p.pool.replace addrs).objects[slot]? = _
        rw [AddrPool.replace_objects, getElem?_append_left hlt]
  · intro a ha hnone
    have hexisting : p.pool.existing a.addr = none := by
      by_contra hsome
      obtain ⟨slot, hslot⟩ := ne_none_iff_exists'.1 hsome
      obtain ⟨hmem, hslotaddr⟩ := AddrPool.existing_eq_some hslot
      exact hnone slot hmem hslotaddr
    obtain ⟨slot, hslot, hle, hobject⟩ := fresh_mem_newSlots p.pool.objects [] ha hexisting
    exact ⟨slot, hslots hslot, hle, hobject⟩
  · show (if (p.pool.replace addrs).slots.isEmpty then none else some _) = none ↔ (p.pool.replace addrs).slots = []
    rw [← List.isEmpty_iff, ite_eq_left_iff]
    constructor
    · intro hnone
      by_contra hsome
      cases hnone hsome
    · intro hempty hsome
      exact absurd hempty hsome
  · intro hash hhash
    have hring : (if (p.pool.replace addrs).slots.isEmpty then none
        else some (newConsistentHash (p.pool.replace addrs).slots.length 150)) = some hash := hhash
    split_ifs at hring
    rw [← Option.some.inj hring]
    rfl

/-! ### The order of a key -/

def AddrPoolSnapshot.order (snapshot : AddrPoolSnapshot) (key : Bytes) : Option (List Nat) :=
  match snapshot.hash with
  | none => some []
  | some hash => (hash.getSlotOrder key).map fun order => order.filterMap fun idx => snapshot.slots[idx]?

theorem filterMap_range_getElem? {α : Type} (xs : List α) :
    (range xs.length).filterMap (fun i => xs[i]?) = xs := by
  induction xs with
  | nil => rfl
  | cons x xs ih =>
    rw [length_cons, range_succ_eq_map, filterMap_cons_some (getElem?_cons_zero), filterMap_map]
    exact congrArg (x :: ·) ih

theorem replace_order (p : BatchPool) (addrs : List BuildkitAddr)
    (hpoints : ∀ i < addrs.length, ∃ point ∈ (newConsistentHash addrs.length 150).ring,
      (newConsistentHash addrs.length 150).nodeMap.lookup point = some i) (key : Bytes) :
    ∃ order, (p.replace addrs).snapshot.order key = some order ∧ order.Perm (p.replace addrs).pool.slots := by
  have hlength : (p.pool.replace addrs).slots.length = addrs.length := replace_slots_length p.pool addrs
  rw [← hlength] at hpoints
  show ∃ order, AddrPoolSnapshot.order ⟨(p.pool.replace addrs).slots, if (p.pool.replace addrs).slots.isEmpty then none
    else some (newConsistentHash (p.pool.replace addrs).slots.length 150)⟩ key = some order ∧
      order.Perm (p.pool.replace addrs).slots
  split_ifs with hempty
  · rw [List.isEmpty_iff.1 hempty]
    exact ⟨[], rfl, Perm.nil⟩
  · have hpos : 0 < (p.pool.replace addrs).slots.length := length_pos_iff.2 (mt List.isEmpty_iff.2 hempty)
    obtain ⟨order, horder⟩ := isSome_iff_exists.1 ((getSlotOrder_isSome hpos (by decide) key).2 hpoints)
    have hperm := (getSlotOrder_perm hpos (by decide) horder).filterMap fun idx => (p.pool.replace addrs).slots[idx]?
    rw [filterMap_range_getElem?] at hperm
    exact ⟨_, congrArg (Option.map _) horder, hperm⟩

/-! ### Picking -/

def hasRoom (p : AddrPool) (slot : Nat) : Bool := (p.objects[slot]?).any fun o => o.sem < p.concurrency

def addToken (p : AddrPool) (slot : Nat) : AddrPool :=
  { p with objects := p.objects.modify slot fun o => { o with sem := o.sem + 1 } }

theorem tryAcquireAddrSlot_eq (p : AddrPool) (slot : Nat) :
    p.tryAcquireAddrSlot slot = if hasRoom p slot then some (addToken p slot) else none := by
  rw [AddrPool.tryAcquireAddrSlot, hasRoom, addToken]
  cases ho : p.objects[slot]? with
  | none => rfl
  | some o =>
    rw [any_some, modify_eq_set_getElem?, ho]
    simp only [decide_eq_true_eq]
    rfl

theorem pickPass_eq (p : BatchPool) (snapshot : AddrPoolSnapshot) (now : Nat → Nat) (requireReady : Bool)
    (reading : Nat) (order : List Nat) : p.pickPass snapshot now requireReady reading order =
      (((order.filterMap fun idx => snapshot.slots[idx]?).zipIdx reading).find? fun entry =>
        !(requireReady && p.isInCooldown (now entry.2) entry.1) && hasRoom p.pool entry.1).map fun entry =>
          (entry.1, { p with pool := addToken p.pool entry.1 }) := by
  induction order generalizing reading with
  | nil => rfl
  | cons idx order ih =>
    rw [BatchPool.pickPass]
    cases hslot : snapshot.slots[idx]? with
    | none =>
      rw [filterMap_cons_none hslot]
      exact ih reading
    | some slot =>
      rw [filterMap_cons_some hslot, zipIdx_cons, find?_cons]
      dsimp only
      cases hcool : requireReady && p.isInCooldown (now reading) slot with
      | true => exact ih (reading + 1)
      | false =>
        rw [tryAcquireAddrSlot_eq]
        cases hasRoom p.pool slot with
        | false => exact ih (reading + 1)
        | true => rfl

def firstAvailable (p : BatchPool) (now : Nat → Nat) (order : List Nat) : Option Nat :=
  ((order.zipIdx.find? fun entry => !p.isInCooldown (now entry.2) entry.1 && hasRoom p.pool entry.1).map Prod.fst).or
    (order.find? (hasRoom p.pool))

theorem find?_zipIdx_fst (f : Nat → Bool) (xs : List Nat) :
    xs.find? f = (xs.zipIdx.find? fun entry => f entry.1).map Prod.fst := by
  conv_lhs => rw [← zipIdx_map_fst 0 xs, find?_map]
  rfl

theorem pickAvailableAddrSlot_eq (p : BatchPool) {snapshot : AddrPoolSnapshot} {key : Bytes} {order : List Nat}
    (horder : snapshot.order key = some order) (now : Nat → Nat) : p.pickAvailableAddrSlot snapshot key now =
      some (firstAvailable p now order,
        (firstAvailable p now order).elim p fun slot => { p with pool := addToken p.pool slot }) := by
  obtain ⟨slots, hash⟩ := snapshot
  cases hash with
  | none =>
    obtain rfl : [] = order := Option.some.inj horder
    cases slots with
    | nil | cons => rfl
  | some hash =>
    obtain ⟨idxs, hidxs, rfl⟩ := map_eq_some_iff.1 horder
    cases slots with
    | nil =>
      rw [show (idxs.filterMap fun idx => ([] : List Nat)[idx]?) = [] by simp]
      rfl
    | cons slot slots =>
      rw [BatchPool.pickAvailableAddrSlot]
      dsimp only
      rw [hidxs, map_some, pickPass_eq, pickPass_eq, firstAvailable]
      generalize (idxs.filterMap fun idx => (slot :: slots)[idx]?) = order
      simp only [Bool.true_and, Bool.false_and, Bool.not_false]
      rw [find?_zipIdx_fst (hasRoom p.pool) order]
      cases order.zipIdx.find? fun entry => !p.isInCooldown (now entry.2) entry.1 && hasRoom p.pool entry.1 with
      | some entry => rfl
      | none =>
        cases order.zipIdx.find? fun entry => hasRoom p.pool entry.1 with
        | some | none => rfl

theorem addToken_sem (p : AddrPool) (slot other : Nat) :
    ((addToken p slot).objects[other]?).map AddrSlot.sem =
      (p.objects[other]?).map fun o => if slot = other then o.sem + 1 else o.sem := by
  rw [addToken, getElem?_modify, Option.map_eq_map, Option.map_map]
  congr 1
  funext o
  rw [Function.comp_apply]
  split_ifs
  · rfl
  · rfl

/-- A refresh keeps the slots in use, and a pick takes the first that has room. -/
theorem refresh_and_pick (p : BatchPool) (addrs : List BuildkitAddr)
    (hdistinct : (addrs.map BuildkitAddr.addr).Nodup)
    (hpoints : ∀ i < addrs.length, ∃ point ∈ (newConsistentHash addrs.length 150).ring,
      (newConsistentHash addrs.length 150).nodeMap.lookup point = some i) :
    Refreshed p addrs (p.replace addrs) ∧
    ∀ key, ∃ order, (p.replace addrs).snapshot.order key = some order ∧
      order.Perm (p.replace addrs).pool.slots ∧
      ∀ (q : BatchPool) (now : Nat → Nat), ∃ q',
        q.pickAvailableAddrSlot (p.replace addrs).snapshot key now = some (firstAvailable q now order, q') ∧
        ∀ slot, (q'.pool.objects[slot]?).map AddrSlot.sem =
          (q.pool.objects[slot]?).map fun o => if firstAvailable q now order = some slot then o.sem + 1 else o.sem := by
  refine ⟨replace_refreshed p hdistinct, ?_⟩
  intro key
  obtain ⟨order, horder, hperm⟩ := replace_order p addrs hpoints key
  refine ⟨order, horder, hperm, ?_⟩
  intro q now
  refine ⟨_, pickAvailableAddrSlot_eq q horder now, ?_⟩
  intro slot
  cases firstAvailable q now order with
  | none =>
    simp only [Option.elim_none, reduceCtorEq, if_false]
  | some picked =>
    rw [Option.elim_some, addToken_sem]
    simp only [Option.some.injEq]

def busyPool : BatchPool where
  pool := ⟨2, [⟨⟨ascii "10.0.0.2", ascii "tcp://10.0.0.2:9094", ascii "10.0.0.2"⟩, 2⟩,
    ⟨⟨ascii "10.0.0.9", ascii "tcp://10.0.0.9:9094", ascii "10.0.0.9"⟩, 1⟩], [0, 1]⟩
  hash := some (newConsistentHash 2 150)
  cooldownUntil := [(0, 120)]

set_option maxRecDepth 100000 in
theorem refresh_and_pick_three : (busyPool.replace sampleAddrs).pool.slots = [2, 0, 3] ∧
    Refreshed busyPool sampleAddrs (busyPool.replace sampleAddrs) ∧
    ∃ order, (busyPool.replace sampleAddrs).snapshot.order (ascii "d") = some order ∧ order.Perm [2, 0, 3] := by
  have hslots : (busyPool.replace sampleAddrs).pool.slots = [2, 0, 3] := by decide +kernel
  have hpoints := (getSlotOrder_isSome (by decide) (by decide) (ascii "d")).1 (three_nodes (ascii "d"))
  obtain ⟨hrefreshed, horders⟩ := refresh_and_pick busyPool sampleAddrs (by decide +kernel) hpoints
  obtain ⟨order, horder, hperm, _⟩ := horders (ascii "d")
  rw [hslots] at hperm
  exact ⟨hslots, hrefreshed, order, horder, hperm⟩

/-! ### The steps of a batch run -/

def State.batchPool (s : State) : BatchPool :=
  ⟨s.pool, if s.pool.slots.isEmpty then none else some (newConsistentHash s.pool.slots.length 150), s.cooldownUntil⟩

theorem batchPool_order (s : State) (key : Bytes) : s.batchPool.snapshot.order key = orderedAddrSlots s.pool.slots key := by
  rw [State.batchPool, BatchPool.snapshot, AddrPoolSnapshot.order, orderedAddrSlots]
  dsimp only
  split_ifs
  · rfl
  · rfl

theorem pick_exec (cfg : Config) (s : State) (task : BuildTask) (site : Site) (requireReady : Bool)
    (untried order : List Nat) :
    ∃ n, exec (step cfg) { s with main := .schedule (.pick requireReady untried order) task site }
        (replicate n (.main .go)) =
      some (match untried.find? fun slot => !(requireReady && s.isInCooldown slot) && hasRoom s.pool slot with
        | some slot => { s with pool := addToken s.pool slot, main := .schedule (.global slot) task site }
        | none => { s with main := .schedule (.pick requireReady [] order) task site }) := by
  induction untried with
  | nil => exact ⟨0, rfl⟩
  | cons slot untried ih =>
    obtain ⟨n, hn⟩ := ih
    rw [find?_cons]
    cases hcool : requireReady && s.isInCooldown slot with
    | true =>
      refine ⟨n + 1, (exec_cons_eq_some _).2 ⟨_, ?_, hn⟩⟩
      exact if_pos (Bool.and_eq_true_iff.1 hcool)
    | false =>
      have hready : ¬ (requireReady = true ∧ s.isInCooldown slot = true) := by
        rw [← Bool.and_eq_true_iff, hcool]
        exact Bool.false_ne_true
      have hacquire := tryAcquireAddrSlot_eq s.pool slot
      cases hroom : hasRoom s.pool slot with
      | false =>
        rw [hroom] at hacquire
        refine ⟨n + 1, (exec_cons_eq_some _).2 ⟨_, ?_, hn⟩⟩
        show (if requireReady = true ∧ s.isInCooldown slot = true then _ else
          match s.pool.tryAcquireAddrSlot slot with | some pool => _ | none => _) = _
        rw [if_neg hready, hacquire]
        rfl
      | true =>
        rw [hroom] at hacquire
        refine ⟨1, (exec_cons_eq_some _).2 ⟨_, ?_, rfl⟩⟩
        show (if requireReady = true ∧ s.isInCooldown slot = true then _ else
          match s.pool.tryAcquireAddrSlot slot with | some pool => _ | none => _) = _
        rw [if_neg hready, hacquire]
        rfl

theorem exec_go {cfg : Config} {s t u : State} (hstep : step cfg s (.main .go) = some t)
    (hrun : ∃ n, exec (step cfg) t (replicate n (.main .go)) = some u) :
    ∃ n, exec (step cfg) s (replicate n (.main .go)) = some u := by
  obtain ⟨n, hn⟩ := hrun
  exact ⟨n + 1, (exec_cons_eq_some _).2 ⟨t, hstep, hn⟩⟩

theorem exec_go_trans {cfg : Config} {s t u : State}
    (hfirst : ∃ n, exec (step cfg) s (replicate n (.main .go)) = some t)
    (hsecond : ∃ n, exec (step cfg) t (replicate n (.main .go)) = some u) :
    ∃ n, exec (step cfg) s (replicate n (.main .go)) = some u := by
  obtain ⟨n, hn⟩ := hfirst
  obtain ⟨m, hm⟩ := hsecond
  refine ⟨n + m, ?_⟩
  rw [replicate_add]
  exact exec_append _ hn hm

/-- The steps of a scheduling call end where `pickAvailableAddrSlot` does. -/
theorem schedule_picks (cfg : Config) (s : State) (task : BuildTask) (site : Site) {order : List Nat}
    (horder : orderedAddrSlots s.pool.slots task.job.scheduleKey = some order) :
    ∃ picked p, s.batchPool.pickAvailableAddrSlot s.batchPool.snapshot task.job.scheduleKey (fun _ => s.clock) =
        some (picked, p) ∧
      ∃ n, exec (step cfg) { s with main := .schedule .snapshot task site } (replicate n (.main .go)) =
        some (picked.elim { s with main := .schedule .sleep task site } fun slot =>
          { s with pool := p.pool, main := .schedule (.global slot) task site }) := by
  refine ⟨_, _, pickAvailableAddrSlot_eq _ ((batchPool_order s _).trans horder) _, ?_⟩
  have hready : (order.zipIdx.find? fun entry =>
        !s.batchPool.isInCooldown s.clock entry.1 && hasRoom s.pool entry.1).map Prod.fst =
      order.find? fun slot => !(true && s.isInCooldown slot) && hasRoom s.pool slot :=
    (find?_zipIdx_fst (fun slot => !(true && s.isInCooldown slot) && hasRoom s.pool slot) order).symm
  have hfirst : firstAvailable s.batchPool (fun _ => s.clock) order =
      (order.find? fun slot => !(true && s.isInCooldown slot) && hasRoom s.pool slot).or
        (order.find? fun slot => !(false && s.isInCooldown slot) && hasRoom s.pool slot) := by
    rw [← hready]
    rfl
  rw [hfirst]
  have hsnapshot : step cfg { s with main := .schedule .snapshot task site } (.main .go) =
      some { s with main := .schedule (.pick true order order) task site } := by
    show (orderedAddrSlots s.pool.slots task.job.scheduleKey).map _ = _
    rw [horder]
    rfl
  have hone := pick_exec cfg s task site true order order
  have htwo := pick_exec cfg s task site false order order
  refine exec_go hsnapshot ?_
  cases hfound : order.find? fun slot => !(true && s.isInCooldown slot) && hasRoom s.pool slot with
  | some slot =>
    rw [hfound] at hone
    exact hone
  | none =>
    rw [hfound] at hone
    refine exec_go_trans hone (exec_go rfl ?_)
    cases hfree : order.find? fun slot => !(false && s.isInCooldown slot) && hasRoom s.pool slot with
    | some slot =>
      rw [hfree] at htwo
      exact htwo
    | none =>
      rw [hfree] at htwo
      exact exec_go_trans htwo (exec_go rfl ⟨0, rfl⟩)

def threeWorkers : State := initial (sampleConfig [false] []) sampleAddrs (.returned none) .exited 1

theorem schedule_picks_three : threeWorkers.pool.slots = [0, 1, 2] ∧ ∃ picked p n s,
    threeWorkers.batchPool.pickAvailableAddrSlot threeWorkers.batchPool.snapshot (ascii "d") (fun _ => 0) =
      some (picked, p) ∧
    exec (step (sampleConfig [false] [])) { threeWorkers with main := .schedule .snapshot ⟨⟨[], ascii "d", []⟩, 0⟩ .stream }
      (replicate n (.main .go)) = some s := by
  have hslots : threeWorkers.pool.slots = [0, 1, 2] := by decide +kernel
  obtain ⟨nodes, hnodes⟩ := Option.isSome_iff_exists.1 (three_nodes (ascii "d"))
  have horder : orderedAddrSlots threeWorkers.pool.slots (ascii "d") = some (nodes.filterMap fun node => [0, 1, 2][node]?) := by
    rw [hslots, orderedAddrSlots, if_neg (by decide), show [0, 1, 2].length = 3 from rfl, hnodes]
    rfl
  obtain ⟨picked, p, hpick, n, hrun⟩ :=
    schedule_picks (sampleConfig [false] []) threeWorkers ⟨⟨[], ascii "d", []⟩, 0⟩ .stream horder
  exact ⟨hslots, picked, p, n, _, hpick, hrun⟩

end BuildkitService.Batch
