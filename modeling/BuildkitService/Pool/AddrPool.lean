import BuildkitService.Lib.Strings
import Mathlib.Data.List.Sort

/-!
# The pool of build workers

`addrPool` in `internal/builddaemon/scheduler.go`, and its twin of the same name in
`internal/buildbatch/scheduler.go`, hold one slot per worker address.
-/

namespace BuildkitService.Pool

open Strings List

/-! ### Addresses -/

structure BuildkitAddr where
  original : Bytes
  addr : Bytes
  nodeIP : Bytes
  deriving DecidableEq, Repr

structure Net where
  splitHostPort : Bytes → Except Bytes (Bytes × Bytes)
  parseIP : Bytes → Option Bytes
  lookupHost : Bytes → Except Bytes (List Bytes)
  joinHostPort : Bytes → Bytes → Bytes

section Parse

variable (net : Net)

def nodeIPFromBuildkitAddr (addr : Bytes) : Bytes :=
  match net.splitHostPort (trimPrefix (trimSpace addr) (ascii "tcp://")) with
  | .error _ => []
  | .ok (host, _) => (net.parseIP host).getD []

def parseBuildkitAddr (part : Bytes) : List BuildkitAddr :=
  let addr := if contains part (ascii "://") then part else ascii "tcp://" ++ part
  match net.splitHostPort (trimPrefix addr (ascii "tcp://")) with
  | .error _ => [⟨part, addr, nodeIPFromBuildkitAddr net addr⟩]
  | .ok (host, port) =>
      match net.parseIP host with
      | some ip => [⟨part, addr, ip⟩]
      | none =>
          match net.lookupHost host with
          | .error _ => [⟨part, addr, nodeIPFromBuildkitAddr net addr⟩]
          | .ok ips => ips.map fun ip => ⟨part, ascii "tcp://" ++ net.joinHostPort ip port, ip⟩

def addrLe (a b : BuildkitAddr) : Bool := !less b.addr a.addr

def parseBuildkitAddrs (raw : Bytes) : Except Bytes (List BuildkitAddr) :=
  if (trimSpace raw).isEmpty then .error (ascii "--buildkitd-addr is required")
  else
    let parts := ((split 0x2C raw).map trimSpace).filter fun part => !part.isEmpty
    let addrs := parts.flatMap (parseBuildkitAddr net)
    if addrs.isEmpty then .error (ascii "no valid buildkitd addresses")
    else .ok (addrs.insertionSort fun a b => addrLe a b = true)

end Parse

/-! ### The hash ring -/

def fnv1a (s : Bytes) : UInt32 :=
  s.foldl (fun h b => (h ^^^ b.toUInt32) * 16777619) 2166136261

structure ConsistentHash where
  ring : List UInt32
  nodeMap : List (UInt32 × Nat)
  numNodes : Nat
  deriving DecidableEq, Repr

def replicaLabel (node replica : Nat) : Bytes :=
  ascii "node-" ++ decimal node ++ ascii "-replica-" ++ decimal replica

def newConsistentHash (numNodes replicas : Nat) : ConsistentHash :=
  let points := (List.range numNodes).flatMap fun node =>
    (List.range replicas).map fun replica => (fnv1a (replicaLabel node replica), node)
  ⟨(points.map Prod.fst).insertionSort (· ≤ ·), points.reverse, numNodes⟩

def ConsistentHash.node (ch : ConsistentHash) (point : UInt32) : Nat :=
  (ch.nodeMap.lookup point).getD 0

def ConsistentHash.walk (ch : ConsistentHash) : List UInt32 → List Nat → List Nat
  | [], order => order
  | point :: points, order =>
      if order.length < ch.numNodes then
        walk ch points (if ch.node point ∈ order then order else order ++ [ch.node point])
      else order

def ConsistentHash.getSlotOrder (ch : ConsistentHash) (key : Bytes) : Option (List Nat) :=
  match ch.ring with
  | [] => some []
  | ring =>
      let start := (ring.findIdx? fun point => fnv1a key ≤ point).getD 0
      let order := ch.walk (ring.drop start ++ ring.take start) []
      if order.length < ch.numNodes then none else some order

/-! ### Slots -/

structure AddrSlot where
  addr : BuildkitAddr
  sem : Nat
  deriving DecidableEq, Repr

structure AddrPool where
  concurrency : Nat
  objects : List AddrSlot
  slots : List Nat
  deriving DecidableEq, Repr

def AddrPool.address (p : AddrPool) (slot : Nat) : Option Bytes := (p.objects[slot]?).map fun o => o.addr.addr

def AddrPool.existing (p : AddrPool) (addr : Bytes) : Option Nat :=
  p.slots.reverse.find? fun slot => p.address slot == some addr

def AddrPool.newSlots (p : AddrPool) : List BuildkitAddr → List AddrSlot → List Nat →
    List AddrSlot × List Nat
  | [], objects, slots => (objects, slots)
  | addr :: addrs, objects, slots =>
      match p.existing addr.addr with
      | some slot => newSlots p addrs objects (slots ++ [slot])
      | none => newSlots p addrs (objects ++ [⟨addr, 0⟩]) (slots ++ [objects.length])

def slotLe (objects : List AddrSlot) (a b : Nat) : Bool :=
  match objects[a]?, objects[b]? with
  | some left, some right => addrLe left.addr right.addr
  | _, _ => true

def AddrPool.replace (p : AddrPool) (addrs : List BuildkitAddr) : AddrPool :=
  let (objects, slots) := p.newSlots addrs p.objects []
  { p with objects := objects, slots := slots.insertionSort fun a b => slotLe objects a b = true }

def newAddrPool (addrs : List BuildkitAddr) (concurrency : Nat) : AddrPool :=
  AddrPool.replace ⟨concurrency, [], []⟩ addrs

def AddrPool.addresses (p : AddrPool) : List Bytes := p.slots.filterMap p.address

def orderedAddrSlots (snapshot : List Nat) (key : Bytes) : Option (List Nat) :=
  if snapshot.isEmpty then some []
  else ((newConsistentHash snapshot.length 150).getSlotOrder key).map fun order =>
    order.filterMap fun node => snapshot[node]?

def AddrPool.filterExcludedAddrSlots (p : AddrPool) (slots : List Nat) (excluded : List Bytes) : List Nat :=
  if excluded.isEmpty then slots
  else slots.filter fun slot => match p.address slot with
    | some addr => !excluded.contains addr
    | none => false

def AddrPool.tryAcquireAddrSlot (p : AddrPool) (slot : Nat) : Option AddrPool :=
  match p.objects[slot]? with
  | some o => if o.sem < p.concurrency
      then some { p with objects := p.objects.set slot { o with sem := o.sem + 1 } } else none
  | none => none

def AddrPool.releaseAddrSlot (p : AddrPool) (slot : Nat) : Option AddrPool :=
  match p.objects[slot]? with
  | some o => if 0 < o.sem
      then some { p with objects := p.objects.set slot { o with sem := o.sem - 1 } } else none
  | none => none

/-! ### What `replace` does to the heap -/

def AddrPool.fresh (p : AddrPool) (addrs : List BuildkitAddr) : List BuildkitAddr :=
  addrs.filter fun a => (p.existing a.addr).isNone

variable {slot : Nat}

theorem AddrPool.existing_eq_some {p : AddrPool} {addr : Bytes} (h : p.existing addr = some slot) :
    slot ∈ p.slots ∧ p.address slot = some addr := by
  have hmem := mem_of_find?_eq_some h
  have haddr := find?_some h
  exact ⟨mem_reverse.1 hmem, by simpa using haddr⟩

theorem AddrPool.existing_eq_none {p : AddrPool} {addr : Bytes} (h : p.existing addr = none) :
    ∀ slot ∈ p.slots, p.address slot ≠ some addr := by
  intro slot hslot haddr
  have := find?_eq_none.1 h slot (mem_reverse.2 hslot)
  simp [haddr] at this

theorem AddrPool.newSlots_objects (p : AddrPool) : ∀ (addrs : List BuildkitAddr) (objects : List AddrSlot)
    (slots : List Nat), (p.newSlots addrs objects slots).1 = objects ++ (p.fresh addrs).map fun a => ⟨a, 0⟩
  | [], objects, slots => by simp [newSlots, fresh]
  | addr :: addrs, objects, slots => by
      rw [newSlots]
      cases hexisting : p.existing addr.addr with
      | some | none => simp [newSlots_objects p addrs, fresh, hexisting]

theorem AddrPool.mem_newSlots (p : AddrPool) : ∀ (addrs : List BuildkitAddr) (objects : List AddrSlot)
    (slots : List Nat), ∀ slot ∈ (p.newSlots addrs objects slots).2,
      slot ∈ slots ∨ slot ∈ p.slots ∨ (objects.length ≤ slot ∧ slot < (p.newSlots addrs objects slots).1.length)
  | [], objects, slots, slot, hslot => by
      rw [newSlots] at hslot
      exact .inl hslot
  | addr :: addrs, objects, slots, slot, hslot => by
      rw [newSlots] at hslot ⊢
      cases hexisting : p.existing addr.addr with
      | some old =>
        simp only [hexisting] at hslot ⊢
        rcases mem_newSlots p addrs objects _ slot hslot with hold | hrest
        · rcases mem_append.1 hold with hold | hnew
          · exact .inl hold
          · rw [mem_singleton.1 hnew]
            exact .inr (.inl (existing_eq_some hexisting).1)
        · exact .inr hrest
      | none =>
        simp only [hexisting] at hslot ⊢
        rcases mem_newSlots p addrs _ _ slot hslot with hold | hpool | hnew
        · rcases mem_append.1 hold with hold | hnew
          · exact .inl hold
          · rw [mem_singleton.1 hnew, newSlots_objects]
            simp
        · exact .inr (.inl hpool)
        · rw [length_append, length_singleton] at hnew
          exact .inr (.inr ⟨by omega, hnew.2⟩)

theorem AddrPool.replace_objects (p : AddrPool) (addrs : List BuildkitAddr) :
    (p.replace addrs).objects = p.objects ++ (p.fresh addrs).map fun a => ⟨a, 0⟩ :=
  p.newSlots_objects addrs p.objects []

theorem AddrPool.mem_replace_slots (p : AddrPool) (addrs : List BuildkitAddr)
    (hslot : slot ∈ (p.replace addrs).slots) :
    slot ∈ p.slots ∨ (p.objects.length ≤ slot ∧ slot < (p.replace addrs).objects.length) := by
  have hmem : slot ∈ (p.newSlots addrs p.objects []).2 :=
    (perm_insertionSort _ _).mem_iff.1 hslot
  rcases p.mem_newSlots addrs p.objects [] slot hmem with hnone | hcases
  · simp at hnone
  · exact hcases

theorem AddrPool.replace_address (p : AddrPool) (addrs : List BuildkitAddr) (hslot : slot < p.objects.length) :
    (p.replace addrs).address slot = p.address slot := by
  rw [address, address, replace_objects, getElem?_append_left hslot]

theorem AddrPool.replace_address_fresh (p : AddrPool) (addrs : List BuildkitAddr)
    (hslot : p.objects.length ≤ slot) : (p.replace addrs).address slot =
      ((p.fresh addrs)[slot - p.objects.length]?).map fun a => a.addr := by
  rw [address, replace_objects, getElem?_append_right hslot, getElem?_map, Option.map_map]
  rfl

end BuildkitService.Pool
