import BuildkitService.Pool.SlotOrder

/-!
# Affinity of keys to workers

The ring of a pool is made from the number of its slots: node `i` is whatever address sorts at
position `i`.
-/

namespace BuildkitService.Pool

open Strings HashRing List Option

/-! ### The ring -/

def nodePoints (node : Nat) : List (UInt32 × Nat) :=
  (List.range 150).map fun replica => (fnv1a (replicaLabel node replica), node)

def ringPoints (numNodes : Nat) : List (UInt32 × Nat) := (List.range numNodes).flatMap nodePoints

theorem ringPoints_succ (n : Nat) : ringPoints (n + 1) = ringPoints n ++ nodePoints n := by
  rw [ringPoints, range_succ, flatMap_append, flatMap_singleton]
  rfl

theorem node_of_mem_nodePoints {node : Nat} {entry : UInt32 × Nat} (hentry : entry ∈ nodePoints node) :
    entry.2 = node := by
  obtain ⟨replica, _, rfl⟩ := List.mem_map.1 hentry
  rfl

theorem node_lt_of_mem {n : Nat} {entry : UInt32 × Nat} (hentry : entry ∈ ringPoints n) : entry.2 < n := by
  obtain ⟨node, hnode, hpoint⟩ := mem_flatMap.1 hentry
  rw [node_of_mem_nodePoints hpoint]
  exact mem_range.1 hnode

theorem Owns.shrink {n node : Nat} {h : UInt32} (howns : Owns (ringPoints (n + 1)) h node) (hlt : node < n) :
    Owns (ringPoints n) h node := by
  rw [ringPoints_succ] at howns
  refine howns.of_append ?_
  intro entry hentry
  rw [node_of_mem_nodePoints hentry]
  omega

/-! ### The order of a key -/

variable {n slot : Nat} {key b : Bytes} {addrs : List BuildkitAddr} {objects : List AddrSlot}

theorem getSlotOrder_shrink (hn : 0 < n)
    (hsome : ((newConsistentHash (n + 1) 150).getSlotOrder key).isSome = true) :
    ((newConsistentHash n 150).getSlotOrder key).isSome = true := by
  rw [getSlotOrder_isSome (Nat.succ_pos n) (by decide)] at hsome
  rw [getSlotOrder_isSome hn (by decide)]
  intro i hi
  obtain ⟨point, _, hwriter⟩ := hsome i (by omega)
  have hlarge : writer (ringPoints n ++ nodePoints n) point = some i := by
    rw [← ringPoints_succ]
    exact hwriter
  have hkept : writer (ringPoints n) point = some i := by
    refine writer_of_append hlarge ?_
    intro entry hentry
    rw [node_of_mem_nodePoints hentry]
    omega
  exact ⟨point, mem_ring.2 (List.mem_map_of_mem (mem_of_writer hkept)), hkept⟩

theorem getSlotOrder_head (hn : 0 < n) {order : List Nat}
    (horder : (newConsistentHash n 150).getSlotOrder key = some order) :
    ∃ i rest, order = i :: rest ∧ i < n ∧ Owns (ringPoints n) (fnv1a key) i := by
  have hne : (newConsistentHash n 150).ring ≠ [] := ring_ne_nil hn (by decide)
  rw [getSlotOrder_eq hne] at horder
  split_ifs at horder
  rw [Option.some.injEq] at horder
  have hlt : ((newConsistentHash n 150).ring.findIdx? fun y => decide (fnv1a key ≤ y)).getD 0 <
      (newConsistentHash n 150).ring.length := by
    cases hfind : (newConsistentHash n 150).ring.findIdx? fun y => decide (fnv1a key ≤ y) with
    | none => exact length_pos_iff.2 hne
    | some start => exact (findIdx?_eq_some_iff_getElem.1 hfind).1
  have hnext := isNext_of_sorted ring_sorted (getElem?_eq_getElem hlt)
  have hring := hnext.1
  obtain ⟨rest, hlap⟩ : ∃ rest, lap (newConsistentHash n 150).ring key =
      (newConsistentHash n 150).ring[((newConsistentHash n 150).ring.findIdx?
        fun y => decide (fnv1a key ≤ y)).getD 0] :: rest := by
    rw [lap, drop_eq_getElem_cons hlt]
    exact ⟨_, rfl⟩
  generalize (newConsistentHash n 150).ring[((newConsistentHash n 150).ring.findIdx?
    fun y => decide (fnv1a key ≤ y)).getD 0] = point at hnext hring hlap
  have hstart : [(newConsistentHash n 150).node point] <+: order := by
    rw [← horder, hlap, ConsistentHash.walk, if_pos (show [].length < (newConsistentHash n 150).numNodes from hn),
      if_neg not_mem_nil]
    exact walk_append rest _
  obtain ⟨rest, hrest⟩ := hstart
  refine ⟨(newConsistentHash n 150).node point, rest, hrest.symm, node_lt hring, point, ?_, writer_node hring⟩
  exact hnext.subset (fun y hy => mem_ring.2 hy) (mem_ring.1 hring)

/-! ### Sorted addresses -/

def sortedAddrs (addrs : List BuildkitAddr) : List Bytes :=
  (addrs.map BuildkitAddr.addr).insertionSort fun a b => a ≤ b

theorem length_sortedAddrs (addrs : List BuildkitAddr) : (sortedAddrs addrs).length = addrs.length := by
  rw [sortedAddrs, length_insertionSort, length_map]

theorem mem_sortedAddrs : b ∈ sortedAddrs addrs ↔ ∃ c ∈ addrs, c.addr = b := by
  rw [sortedAddrs, (perm_insertionSort _ _).mem_iff, List.mem_map]

theorem sortedAddrs_pairwise (hdistinct : (addrs.map BuildkitAddr.addr).Nodup) :
    (sortedAddrs addrs).Pairwise fun a b => a < b := by
  have hle : (sortedAddrs addrs).Pairwise fun a b => a ≤ b := pairwise_insertionSort _ _
  have hne : (sortedAddrs addrs).Pairwise fun a b => a ≠ b :=
    (perm_insertionSort _ _).nodup_iff.2 hdistinct
  refine (hle.and hne).imp ?_
  intro a b hab
  by_contra hnot
  exact hab.2 (List.le_antisymm hab.1 (List.not_lt.1 hnot))

theorem sortedAddrs_erase {a : BuildkitAddr} (hdistinct : (addrs.map BuildkitAddr.addr).Nodup)
    (ha : a ∈ addrs) : ∃ lower upper, sortedAddrs addrs = lower ++ a.addr :: upper ∧
      sortedAddrs (addrs.erase a) = lower ++ upper := by
  obtain ⟨lower, upper, hsplit⟩ := append_of_mem (mem_sortedAddrs.2 ⟨a, ha, rfl⟩)
  refine ⟨lower, upper, hsplit, ?_⟩
  have hsub : (addrs.erase a).Sublist addrs := erase_sublist
  have hsorted := sortedAddrs_pairwise hdistinct
  rw [hsplit] at hsorted
  have hrest : (lower ++ upper).Pairwise fun x y => x < y :=
    hsorted.sublist (Sublist.append (Sublist.refl lower) (sublist_cons_self _ _))
  -- Both are the sorted list of the same addresses.
  have hperm : (a.addr :: sortedAddrs (addrs.erase a)).Perm (a.addr :: (lower ++ upper)) := by
    have hfull : (addrs.map BuildkitAddr.addr).Perm (lower ++ a.addr :: upper) := by
      rw [← hsplit]
      exact (perm_insertionSort _ _).symm
    have hhead : (addrs.map BuildkitAddr.addr).Perm (a.addr :: (addrs.erase a).map BuildkitAddr.addr) :=
      (perm_cons_erase ha).map BuildkitAddr.addr
    exact ((perm_insertionSort _ _).cons a.addr).trans
      (hhead.symm.trans (hfull.trans perm_middle))
  refine Perm.eq_of_pairwise ?_
    (sortedAddrs_pairwise ((hsub.map BuildkitAddr.addr).nodup hdistinct)) hrest (perm_cons _ |>.1 hperm)
  intro x y _ _ hxy hyx
  exact absurd hyx (asymm_of (· < ·) hxy)

/-! ### Slots of a refreshed pool -/

variable {p : AddrPool}

def heapAddress (objects : List AddrSlot) (slot : Nat) : Bytes :=
  ((objects[slot]?).map fun o => o.addr.addr).getD []

theorem heapAddress_append (more : List AddrSlot) (hslot : slot < objects.length) :
    heapAddress (objects ++ more) slot = heapAddress objects slot := by
  rw [heapAddress, heapAddress, getElem?_append_left hslot]

theorem existing_heapAddress {addr : Bytes} (hexisting : p.existing addr = some slot) :
    slot < p.objects.length ∧ heapAddress p.objects slot = addr := by
  obtain ⟨_, haddr⟩ := AddrPool.existing_eq_some hexisting
  obtain ⟨o, ho, hoaddr⟩ := map_eq_some_iff.1 haddr
  refine ⟨(List.getElem?_eq_some_iff.1 ho).1, ?_⟩
  rw [heapAddress, ho, map_some, getD_some, hoaddr]

theorem newSlots_addresses (addrs : List BuildkitAddr) {slots : List Nat} (hheap : p.objects <+: objects)
    (hslots : ∀ slot ∈ slots, slot < objects.length) :
    (∀ slot ∈ (p.newSlots addrs objects slots).2, slot < (p.newSlots addrs objects slots).1.length) ∧
    (p.newSlots addrs objects slots).2.map (heapAddress (p.newSlots addrs objects slots).1) =
      slots.map (heapAddress objects) ++ addrs.map BuildkitAddr.addr := by
  induction addrs generalizing objects slots with
  | nil =>
    rw [AddrPool.newSlots, map_nil, append_nil]
    exact ⟨hslots, rfl⟩
  | cons addr addrs ih =>
    rw [AddrPool.newSlots]
    cases hexisting : p.existing addr.addr with
    | some slot =>
      dsimp only
      obtain ⟨hlt, haddr⟩ := existing_heapAddress hexisting
      obtain ⟨more, rfl⟩ := hheap
      have hnew : ∀ s ∈ slots ++ [slot], s < (p.objects ++ more).length := by
        intro s hs
        rcases mem_append.1 hs with hs | hs
        · exact hslots s hs
        · rw [mem_singleton.1 hs, length_append]
          omega
      obtain ⟨hvalid, hmap⟩ := ih (prefix_append _ _) hnew
      refine ⟨hvalid, ?_⟩
      rw [hmap, map_append, map_singleton, heapAddress_append more hlt, haddr, append_assoc,
        singleton_append, map_cons]
    | none =>
      dsimp only
      have hnew : ∀ s ∈ slots ++ [objects.length], s < (objects ++ [(⟨addr, 0⟩ : AddrSlot)]).length := by
        intro s hs
        rw [length_append, length_singleton]
        rcases mem_append.1 hs with hs | hs
        · exact Nat.lt_succ_of_lt (hslots s hs)
        · rw [mem_singleton.1 hs]
          exact Nat.lt_succ_self _
      have hold : slots.map (heapAddress (objects ++ [⟨addr, 0⟩])) = slots.map (heapAddress objects) :=
        map_congr_left fun s hs => heapAddress_append _ (hslots s hs)
      have hlast : heapAddress (objects ++ [⟨addr, 0⟩]) objects.length = addr.addr := by
        simp [heapAddress]
      obtain ⟨hvalid, hmap⟩ := ih (hheap.trans (prefix_append _ _)) hnew
      refine ⟨hvalid, ?_⟩
      rw [hmap, map_append, map_singleton, hold, hlast, append_assoc, singleton_append,
        map_cons]

theorem slotLe_iff {a b : Nat} (ha : a < objects.length) (hb : b < objects.length) :
    slotLe objects a b = true ↔ heapAddress objects a ≤ heapAddress objects b := by
  rw [slotLe, heapAddress, heapAddress, getElem?_eq_getElem ha, getElem?_eq_getElem hb]
  simp only [addrLe, Bool.not_eq_true', map_some, getD_some]
  rw [← Bool.not_eq_true, less_iff, List.not_lt]

theorem replace_addresses (p : AddrPool) (addrs : List BuildkitAddr) :
    (p.replace addrs).slots.map (heapAddress (p.replace addrs).objects) = sortedAddrs addrs ∧
    ∀ slot ∈ (p.replace addrs).slots, slot < (p.replace addrs).objects.length := by
  obtain ⟨hvalid, hmap⟩ := newSlots_addresses (p := p) addrs (prefix_refl p.objects)
    (fun slot (hslot : slot ∈ []) => absurd hslot not_mem_nil)
  rw [map_nil, nil_append] at hmap
  constructor
  · rw [sortedAddrs, ← hmap]
    refine map_insertionSort (fun a b => slotLe (p.newSlots addrs p.objects []).1 a b = true)
      (fun a b => a ≤ b) _ _ ?_
    intro a ha b hb
    exact slotLe_iff (hvalid a ha) (hvalid b hb)
  · intro slot hslot
    exact hvalid slot ((perm_insertionSort _ _).mem_iff.1 hslot)

/-! ### The primary of a key -/

def AddrPool.primary (p : AddrPool) (key : Bytes) : Option Bytes :=
  (orderedAddrSlots p.slots key).bind fun order => order.head?.bind p.address

theorem replace_slots_length (p : AddrPool) (addrs : List BuildkitAddr) :
    (p.replace addrs).slots.length = addrs.length := by
  rw [← length_sortedAddrs, ← (replace_addresses p addrs).1, length_map]

theorem replace_address_at (p : AddrPool) (addrs : List BuildkitAddr) {i : Nat}
    (hslot : (p.replace addrs).slots[i]? = some slot) :
    (p.replace addrs).address slot = (sortedAddrs addrs)[i]? := by
  obtain ⟨hmap, hvalid⟩ := replace_addresses p addrs
  have hlt := hvalid slot (mem_of_getElem? hslot)
  rw [← hmap, getElem?_map, hslot, map_some, heapAddress, AddrPool.address,
    getElem?_eq_getElem hlt, map_some, getD_some]

theorem primary_eq_some : (p.replace addrs).primary key = some b ↔
      ((newConsistentHash addrs.length 150).getSlotOrder key).isSome = true ∧
      ∃ i, Owns (ringPoints addrs.length) (fnv1a key) i ∧ (sortedAddrs addrs)[i]? = some b := by
  have hlength := replace_slots_length p addrs
  rw [AddrPool.primary, orderedAddrSlots]
  split_ifs with hempty
  · -- Without addresses there is no ring, and nothing owns the key.
    rw [List.isEmpty_iff] at hempty
    rw [hempty, length_nil] at hlength
    rw [← hlength]
    constructor
    · exact nofun
    · rintro ⟨_, i, howns, _⟩
      obtain ⟨x, hx⟩ := howns.mem
      exact absurd (node_lt_of_mem hx) (Nat.not_lt_zero _)
  · rw [hlength]
    have hn : 0 < addrs.length := by
      rw [← hlength]
      exact length_pos_iff.2 (mt List.isEmpty_iff.2 hempty)
    cases horder : (newConsistentHash addrs.length 150).getSlotOrder key with
    | none => exact ⟨nofun, fun hright => nomatch hright.1⟩
    | some order =>
      obtain ⟨i, rest, rfl, hi, howns⟩ := getSlotOrder_head hn horder
      have hslot : (p.replace addrs).slots[i]? = some ((p.replace addrs).slots[i]) :=
        getElem?_eq_getElem (by omega)
      have hhead : ((i :: rest).filterMap fun node => (p.replace addrs).slots[node]?).head? =
          some ((p.replace addrs).slots[i]) := by
        rw [filterMap_cons_some hslot, head?_cons]
      rw [map_some, bind_some, hhead, bind_some, replace_address_at p addrs hslot]
      constructor
      · intro hb
        exact ⟨rfl, i, howns, hb⟩
      · rintro ⟨_, j, hother, hb⟩
        rw [howns.unique hother]
        exact hb

/-! ### Leaving and joining -/

theorem kept_iff {lower upper : List Bytes} {a : Bytes} {i m : Nat}
    (hsorted : (lower ++ a :: upper).Pairwise fun x y => x < y) (hm : lower.length + upper.length = m)
    (howns : Owns (ringPoints (m + 1)) (fnv1a key) i) (hb : (lower ++ a :: upper)[i]? = some b)
    (hother : b ≠ a) : (∃ j, Owns (ringPoints m) (fnv1a key) j ∧ (lower ++ upper)[j]? = some b) ↔
      b < a ∨ ((∀ c ∈ lower ++ a :: upper, c ≤ b) ∧ Owns (ringPoints m) (fnv1a key) (m - 1)) := by
  have hrest : (lower ++ upper).Nodup := by
    have hsub : (lower ++ upper).Sublist (lower ++ a :: upper) :=
      Sublist.append (Sublist.refl lower) (sublist_cons_self _ _)
    refine (hsorted.sublist hsub).imp ?_
    rintro x y hlt rfl
    exact irrefl_of (· < ·) x hlt
  -- In the shorter list the address is at one position only.
  have honly : ∀ {j k : Nat}, (lower ++ upper)[j]? = some b → (lower ++ upper)[k]? = some b → j = k := by
    intro j k hj hk
    exact (getElem?_inj (List.getElem?_eq_some_iff.1 hj).1 hrest).1 (hj.trans hk.symm)
  have horder := pairwise_append.1 hsorted
  rcases Nat.lt_trichotomy i lower.length with hlow | hat | hhigh
  · -- Lower addresses stay where they are.
    rw [getElem?_append_left hlow] at hb
    have hless : b < a := horder.2.2 b (mem_of_getElem? hb) a mem_cons_self
    refine ⟨fun _ => .inl hless, fun _ => ⟨i, Owns.shrink howns (by omega), ?_⟩⟩
    rw [getElem?_append_left hlow]
    exact hb
  · subst hat
    rw [getElem?_append_right (Nat.le_refl _), Nat.sub_self, getElem?_cons_zero,
      Option.some.injEq] at hb
    exact absurd hb.symm hother
  · -- A higher address moves down.
    obtain ⟨k, rfl⟩ : ∃ k, i = lower.length + (k + 1) := ⟨i - lower.length - 1, by omega⟩
    rw [getElem?_append_right (by omega), Nat.add_sub_cancel_left, getElem?_cons_succ] at hb
    have hk := (List.getElem?_eq_some_iff.1 hb).1
    have hmore : a < b := rel_of_pairwise_cons horder.2.1 (mem_of_getElem? hb)
    have hmoved : (lower ++ upper)[lower.length + k]? = some b := by
      rw [getElem?_append_right (by omega), Nat.add_sub_cancel_left]
      exact hb
    have hnot : ¬ b < a := asymm_of (· < ·) hmore
    rcases Nat.lt_or_ge (k + 1) upper.length with hinner | hlast
    · -- The node is the same, but another address is there now.
      have hnode : Owns (ringPoints m) (fnv1a key) (lower.length + (k + 1)) := Owns.shrink howns (by omega)
      constructor
      · rintro ⟨j, hj, hjb⟩
        have hsame := honly hjb hmoved
        have hnodes := hj.unique hnode
        omega
      · rintro (hless | ⟨hgreatest, _⟩)
        · exact absurd hless hnot
        · have hnext : b < upper[k + 1] :=
            (List.getElem?_eq_some_iff.1 hb).2 ▸
              pairwise_iff_getElem.1 (pairwise_cons.1 horder.2.1).2 k (k + 1) hk hinner (by omega)
          have hle := hgreatest upper[k + 1] (by simp)
          exact absurd hnext (List.not_lt.2 hle)
    · -- The greatest address is now at the last position.
      have hposition : lower.length + k = m - 1 := by omega
      have hgreatest : ∀ c ∈ lower ++ a :: upper, c ≤ b := by
        intro c hc
        obtain ⟨j, hj, rfl⟩ := getElem_of_mem hc
        have hbi : (lower ++ a :: upper)[lower.length + (k + 1)]? = some b := by
          rw [getElem?_append_right (by omega), Nat.add_sub_cancel_left, getElem?_cons_succ]
          exact hb
        obtain ⟨hlt, hget⟩ := List.getElem?_eq_some_iff.1 hbi
        rw [length_append, length_cons] at hj
        rcases Nat.lt_or_ge j (lower.length + (k + 1)) with hbefore | hlater
        · rw [← hget]
          exact List.le_of_lt (pairwise_iff_getElem.1 hsorted j _ (by simp; omega) hlt hbefore)
        · have heq : j = lower.length + (k + 1) := by omega
          subst heq
          rw [hget]
          exact List.le_refl _
      constructor
      · rintro ⟨j, hj, hjb⟩
        rw [honly hjb hmoved, hposition] at hj
        exact .inr ⟨hgreatest, hj⟩
      · rintro (hless | ⟨_, howner⟩)
        · exact absurd hless hnot
        · rw [← hposition] at howner
          exact ⟨_, howner, hmoved⟩

/-- Which keys keep their worker when an address leaves or joins. -/
theorem primary_kept_iff {p other : AddrPool} {addrs : List BuildkitAddr} {a : BuildkitAddr} {b : Bytes}
    (hdistinct : (addrs.map BuildkitAddr.addr).Nodup) (ha : a ∈ addrs)
    (hprimary : (p.replace addrs).primary key = some b) (hother : b ≠ a.addr) :
    (other.replace (addrs.erase a)).primary key = some b ↔
      b < a.addr ∨ ((∀ c ∈ addrs, c.addr ≤ b) ∧
        Owns (ringPoints (addrs.length - 1)) (fnv1a key) (addrs.length - 2)) := by
  obtain ⟨hsome, i, howns, hb⟩ := primary_eq_some.1 hprimary
  obtain ⟨lower, upper, hsplit, herase⟩ := sortedAddrs_erase hdistinct ha
  have hsorted := sortedAddrs_pairwise hdistinct
  have hlength := length_sortedAddrs addrs
  rw [hsplit] at hb hsorted hlength
  rw [List.length_append, List.length_cons] at hlength
  obtain ⟨m, hm⟩ : ∃ m, addrs.length = m + 1 := ⟨lower.length + upper.length, by omega⟩
  have hsmaller : (addrs.erase a).length = m := by rw [List.length_erase_of_mem ha, hm, Nat.add_sub_cancel]
  have hgreatest : (∀ c ∈ addrs, c.addr ≤ b) ↔ ∀ c ∈ lower ++ a.addr :: upper, c ≤ b := by
    rw [← hsplit]
    simp only [mem_sortedAddrs, forall_exists_index, and_imp, forall_apply_eq_imp_iff₂]
  rw [hm] at howns hsome
  rw [hm, Nat.add_sub_cancel, show m + 1 - 2 = m - 1 from rfl, primary_eq_some, hsmaller, herase, hgreatest,
    ← kept_iff hsorted (by omega) howns hb hother]
  constructor
  · exact fun hkept => hkept.2
  · intro hkept
    have hpos : 0 < m := by
      obtain ⟨j, hj, _⟩ := hkept
      obtain ⟨x, hx⟩ := hj.mem
      exact Nat.zero_lt_of_lt (node_lt_of_mem hx)
    exact ⟨getSlotOrder_shrink hpos hsome, hkept⟩

def sampleAddrs : List BuildkitAddr :=
  [⟨ascii "10.0.0.1", ascii "tcp://10.0.0.1:9094", ascii "10.0.0.1"⟩,
    ⟨ascii "10.0.0.2", ascii "tcp://10.0.0.2:9094", ascii "10.0.0.2"⟩,
    ⟨ascii "10.0.0.3", ascii "tcp://10.0.0.3:9094", ascii "10.0.0.3"⟩]

theorem three_nodes (key : Bytes) : ((newConsistentHash 3 150).getSlotOrder key).isSome = true := by
  have hwriter : ∀ i < 3, writer (ringPoints 3) (fnv1a (replicaLabel i 0)) = some i := by decide +kernel
  refine (getSlotOrder_isSome (by decide) (by decide) key).2 ?_
  intro i hi
  exact ⟨_, mem_ring.2 (List.mem_map_of_mem (mem_of_writer (hwriter i hi))), hwriter i hi⟩

theorem sample_owner_three : Owns (ringPoints 3) (fnv1a (ascii "d")) 2 := by
  have hwriter : writer (ringPoints 3) 3788883610 = some 2 := by decide +kernel
  have hle : fnv1a (ascii "d") ≤ 3788883610 := by decide +kernel
  have hall : ((ringPoints 3).map Prod.fst).all (fun y => decide (fnv1a (ascii "d") ≤ y → 3788883610 ≤ y)) = true := by
    decide +kernel
  have hleast : ∀ y ∈ (ringPoints 3).map Prod.fst, fnv1a (ascii "d") ≤ y → 3788883610 ≤ y :=
    fun y hy => of_decide_eq_true (List.all_eq_true.1 hall y hy)
  exact ⟨_, ⟨List.mem_map_of_mem (mem_of_writer hwriter), .inl ⟨hle, hleast⟩⟩, hwriter⟩

theorem sample_owner_two : Owns (ringPoints 2) (fnv1a (ascii "d")) 0 := by
  have hwriter : writer (ringPoints 2) 3834454632 = some 0 := by decide +kernel
  have hle : fnv1a (ascii "d") ≤ 3834454632 := by decide +kernel
  have hall : ((ringPoints 2).map Prod.fst).all (fun y => decide (fnv1a (ascii "d") ≤ y → 3834454632 ≤ y)) = true := by
    decide +kernel
  have hleast : ∀ y ∈ (ringPoints 2).map Prod.fst, fnv1a (ascii "d") ≤ y → 3834454632 ≤ y :=
    fun y hy => of_decide_eq_true (List.all_eq_true.1 hall y hy)
  exact ⟨_, ⟨List.mem_map_of_mem (mem_of_writer hwriter), .inl ⟨hle, hleast⟩⟩, hwriter⟩

theorem primary_kept_iff_greater :
    ((newAddrPool (sampleAddrs.take 2) 1).replace (sampleAddrs.take 1)).primary (ascii "d") =
      some (ascii "tcp://10.0.0.1:9094") := by
  have hprimary : (newAddrPool (sampleAddrs.take 2) 1).primary (ascii "d") =
      some (ascii "tcp://10.0.0.1:9094") :=
    primary_eq_some.2 ⟨getSlotOrder_shrink (by decide) (three_nodes _), 0, sample_owner_two, by decide⟩
  have hless : ascii "tcp://10.0.0.1:9094" < ascii "tcp://10.0.0.2:9094" := by decide
  exact (primary_kept_iff (a := ⟨ascii "10.0.0.2", ascii "tcp://10.0.0.2:9094", ascii "10.0.0.2"⟩) (by decide)
    (by decide) hprimary (by decide)).2 (Or.inl hless)

theorem primary_moves :
    ∃ p : AddrPool, p = newAddrPool sampleAddrs 1 ∧
      p.primary (ascii "d") = some (ascii "tcp://10.0.0.3:9094") ∧
      (p.replace (sampleAddrs.drop 1)).primary (ascii "d") = some (ascii "tcp://10.0.0.2:9094") ∧
      ((p.replace (sampleAddrs.drop 1)).replace sampleAddrs).primary (ascii "d") =
        some (ascii "tcp://10.0.0.3:9094") := by
  have hthree : ∀ p : AddrPool, (p.replace sampleAddrs).primary (ascii "d") =
      some (ascii "tcp://10.0.0.3:9094") :=
    fun p => primary_eq_some.2 ⟨three_nodes _, 2, sample_owner_three, by decide⟩
  have htwo : ∀ p : AddrPool, (p.replace (sampleAddrs.drop 1)).primary (ascii "d") =
      some (ascii "tcp://10.0.0.2:9094") :=
    fun p => primary_eq_some.2 ⟨getSlotOrder_shrink (by decide) (three_nodes _), 0, sample_owner_two, by decide⟩
  exact ⟨_, rfl, hthree _, htwo _, hthree _⟩

end BuildkitService.Pool
