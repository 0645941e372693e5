import BuildkitService.Lib.HashRing
import BuildkitService.Lib.Search
import BuildkitService.Pool.AddrPool
import Mathlib.Data.List.Perm.Subperm

/-!
# The walk along the ring

`getSlotOrder` has the same text in `internal/builddaemon/scheduler.go` and
`internal/buildbatch/consistent_hash.go`.
-/

namespace BuildkitService.Pool

open Strings HashRing List Option

/-! ### The loop -/

def ConsistentHash.point (ch : ConsistentHash) (idx : Nat) : UInt32 := (ch.ring[idx]?).getD 0

def ConsistentHash.first (ch : ConsistentHash) (key : Bytes) : Nat :=
  let idx := Search.search ch.ring.length fun i => decide (fnv1a key ≤ ch.point i)
  if ch.ring.length ≤ idx then 0 else idx

def ConsistentHash.loop (ch : ConsistentHash) (passes idx : Nat) (seen order : List Nat) : Option (List Nat) :=
  if order.length < ch.numNodes then
    match passes with
    | 0 => none
    | passes + 1 =>
        let nodeIdx := ch.node (ch.point (idx % ch.ring.length))
        if nodeIdx ∈ seen then ch.loop passes (idx + 1) seen order
        else ch.loop passes (idx + 1) (nodeIdx :: seen) (order ++ [nodeIdx])
  else some order

def ConsistentHash.slotOrder (ch : ConsistentHash) (passes : Nat) (key : Bytes) : Option (List Nat) :=
  if ch.ring.isEmpty then some [] else ch.loop passes (ch.first key) [] []

/-! ### Walks -/

variable {earlier points : List UInt32} {order : List Nat} {passes start : Nat}

section Walk

variable {ch : ConsistentHash}

theorem walk_append (points : List UInt32) (order : List Nat) : order <+: ch.walk points order := by
  induction points generalizing order with
  | nil => exact prefix_refl _
  | cons point points ih =>
    rw [ConsistentHash.walk]
    split_ifs with hlt hseen
    · exact ih order
    · exact (prefix_append _ _).trans (ih _)
    · exact prefix_refl _

theorem walk_nodup (points : List UInt32) (hnodup : order.Nodup) : (ch.walk points order).Nodup := by
  induction points generalizing order with
  | nil => exact hnodup
  | cons point points ih =>
    rw [ConsistentHash.walk]
    split_ifs with hlt hseen
    · exact ih hnodup
    · refine ih ?_
      rw [nodup_append]
      refine ⟨hnodup, nodup_singleton _, ?_⟩
      rintro a ha b hb rfl
      exact hseen (mem_singleton.1 hb ▸ ha)
    · exact hnodup

theorem mem_walk {i : Nat} (hi : i ∈ ch.walk points order) :
    i ∈ order ∨ ∃ point ∈ points, ch.node point = i := by
  induction points generalizing order with
  | nil => exact .inl hi
  | cons point points ih =>
    rw [ConsistentHash.walk] at hi
    split_ifs at hi with hlt hseen
    · rcases ih hi with hold | ⟨later, hlater, hnode⟩
      · exact .inl hold
      · exact .inr ⟨later, mem_cons_of_mem _ hlater, hnode⟩
    · rcases ih hi with hold | ⟨later, hlater, hnode⟩
      · rcases mem_append.1 hold with hold | hnew
        · exact .inl hold
        · exact .inr ⟨point, mem_cons_self, (mem_singleton.1 hnew).symm⟩
      · exact .inr ⟨later, mem_cons_of_mem _ hlater, hnode⟩
    · exact .inl hi

theorem node_mem_walk (hshort : (ch.walk points order).length < ch.numNodes) :
    ∀ point ∈ points, ch.node point ∈ ch.walk points order := by
  induction points generalizing order with
  | nil => exact nofun
  | cons first points ih =>
    rw [ConsistentHash.walk] at hshort ⊢
    by_cases hlt : order.length < ch.numNodes
    · rw [if_pos hlt] at hshort ⊢
      intro point hpoint
      rcases mem_cons.1 hpoint with rfl | hlater
      · refine (walk_append _ _).subset ?_
        split_ifs with hseen
        · exact hseen
        · simp
      · exact ih hshort point hlater
    · rw [if_neg hlt] at hshort
      exact absurd hshort hlt

theorem walk_of_full (points : List UInt32) (hfull : ¬ order.length < ch.numNodes) :
    ch.walk points order = order := by
  cases points with
  | nil => rfl
  | cons point points => rw [ConsistentHash.walk, if_neg hfull]

theorem walk_concat (points more : List UInt32) (order : List Nat) :
    ch.walk (points ++ more) order = ch.walk more (ch.walk points order) := by
  induction points generalizing order with
  | nil => rfl
  | cons point points ih =>
    rw [cons_append, ConsistentHash.walk, ConsistentHash.walk]
    by_cases hlt : order.length < ch.numNodes
    · rw [if_pos hlt, if_pos hlt, ih]
    · rw [if_neg hlt, if_neg hlt, walk_of_full more hlt]

theorem walk_of_seen (hseen : ∀ point ∈ points, ch.node point ∈ order) : ch.walk points order = order := by
  induction points with
  | nil => rfl
  | cons point points ih =>
    rw [ConsistentHash.walk, if_pos (hseen point mem_cons_self),
      ih fun later hlater => hseen later (mem_cons_of_mem _ hlater), ite_self]

def ConsistentHash.firstOf (ch : ConsistentHash) (points : List UInt32) (node : Nat) : Nat :=
  (points.map ch.node).idxOf node

theorem firstOf_append {node : Nat} (hnode : node ∈ earlier.map ch.node) :
    ch.firstOf (earlier ++ points) node = ch.firstOf earlier node := by
  rw [ConsistentHash.firstOf, map_append, idxOf_append_of_mem hnode]
  rfl

theorem pairwise_firstOf_append (hmem : ∀ i, i ∈ order ↔ i ∈ earlier.map ch.node)
    (hpairs : order.Pairwise fun i j => ch.firstOf earlier i < ch.firstOf earlier j) (more : List UInt32) :
    order.Pairwise fun i j => ch.firstOf (earlier ++ more) i < ch.firstOf (earlier ++ more) j := by
  refine hpairs.imp_of_mem ?_
  intro i j hi hj hlt
  rw [firstOf_append ((hmem i).1 hi), firstOf_append ((hmem j).1 hj)]
  exact hlt

theorem walk_pairwise (points : List UInt32) (hmem : ∀ i, i ∈ order ↔ i ∈ earlier.map ch.node)
    (hpairs : order.Pairwise fun i j => ch.firstOf earlier i < ch.firstOf earlier j) :
    (ch.walk points order).Pairwise fun i j =>
      ch.firstOf (earlier ++ points) i < ch.firstOf (earlier ++ points) j := by
  induction points generalizing earlier order with
  | nil => exact pairwise_firstOf_append hmem hpairs []
  | cons point points ih =>
    rw [ConsistentHash.walk]
    by_cases hlt : order.length < ch.numNodes
    · rw [if_pos hlt, append_cons]
      split_ifs with hseen
      · refine ih ?_ (pairwise_firstOf_append hmem hpairs [point])
        intro i
        rw [map_append, mem_append, hmem i]
        constructor
        · exact .inl
        · rintro (hold | hnew)
          · exact hold
          · rw [mem_singleton.1 hnew]
            exact (hmem _).1 hseen
      · refine ih ?_ ?_
        · intro i
          rw [map_append, mem_append, mem_append, hmem i]
          rfl
        · rw [pairwise_append]
          refine ⟨pairwise_firstOf_append hmem hpairs [point], pairwise_singleton _ _, ?_⟩
          intro i hi j hj
          rw [mem_singleton.1 hj, firstOf_append ((hmem i).1 hi)]
          have hfresh : ch.node point ∉ earlier.map ch.node := fun hold => hseen ((hmem _).2 hold)
          rw [ConsistentHash.firstOf, ConsistentHash.firstOf, map_append,
            idxOf_append_of_notMem hfresh]
          exact Nat.lt_add_right _ (idxOf_lt_length_of_mem ((hmem i).1 hi))
    · rw [if_neg hlt]
      exact pairwise_firstOf_append hmem hpairs (point :: points)

/-! ### Passes -/

def ConsistentHash.visited (ch : ConsistentHash) (idx : Nat) : Nat → List UInt32
  | 0 => []
  | passes + 1 => ch.point (idx % ch.ring.length) :: ch.visited (idx + 1) passes

theorem loop_eq (passes idx : Nat) {seen : List Nat} (hseen : ∀ i, i ∈ seen ↔ i ∈ order) :
    ch.loop passes idx seen order =
      if (ch.walk (ch.visited idx passes) order).length < ch.numNodes then none
      else some (ch.walk (ch.visited idx passes) order) := by
  induction passes generalizing idx seen order with
  | zero => rw [ConsistentHash.loop]; rfl
  | succ passes ih =>
    rw [ConsistentHash.loop, ConsistentHash.visited, ConsistentHash.walk]
    by_cases hlt : order.length < ch.numNodes
    · simp only [if_pos hlt]
      by_cases hnode : ch.node (ch.point (idx % ch.ring.length)) ∈ seen
      · rw [if_pos hnode, if_pos ((hseen _).1 hnode), ih (idx + 1) hseen]
      · rw [if_neg hnode, if_neg fun hold => hnode ((hseen _).2 hold)]
        refine ih (idx + 1) ?_
        intro i
        rw [mem_cons, mem_append, mem_singleton, hseen i, or_comm]
    · simp only [if_neg hlt]

theorem visited_add (idx passes more : Nat) :
    ch.visited idx (passes + more) = ch.visited idx passes ++ ch.visited (idx + passes) more := by
  induction passes generalizing idx with
  | zero => rw [Nat.zero_add, Nat.add_zero]; rfl
  | succ passes ih =>
    rw [Nat.add_right_comm, ConsistentHash.visited, ConsistentHash.visited, ih, cons_append]
    rw [show idx + (passes + 1) = idx + 1 + passes by omega]

theorem visited_mem {idx : Nat} (hring : ch.ring ≠ []) :
    ∀ point ∈ ch.visited idx passes, point ∈ ch.ring := by
  induction passes generalizing idx with
  | zero => exact nofun
  | succ passes ih =>
    intro point hpoint
    rcases mem_cons.1 hpoint with rfl | hlater
    · have hlt := Nat.mod_lt idx (length_pos_iff.2 hring)
      rw [ConsistentHash.point, getElem?_eq_getElem hlt]
      exact getElem_mem hlt
    · exact ih point hlater

theorem visited_take {idx : Nat} (hle : idx + passes ≤ ch.ring.length) :
    ch.visited idx passes = (ch.ring.drop idx).take passes := by
  induction passes generalizing idx with
  | zero => rfl
  | succ passes ih =>
    have hlt : idx < ch.ring.length := by omega
    rw [ConsistentHash.visited, ih (by omega), Nat.mod_eq_of_lt hlt, ConsistentHash.point,
      getElem?_eq_getElem hlt, drop_eq_getElem_cons hlt, take_succ_cons, getD_some]

theorem visited_wrap (passes : Nat) : ch.visited ch.ring.length passes = ch.visited 0 passes := by
  have hmod : ∀ idx, ch.visited (ch.ring.length + idx) passes = ch.visited idx passes := by
    induction passes with
    | zero => exact fun _ => rfl
    | succ passes ih =>
      intro idx
      rw [ConsistentHash.visited, ConsistentHash.visited, Nat.add_mod_left, Nat.add_assoc, ih]
  exact hmod 0

theorem visited_lap (hstart : start ≤ ch.ring.length) :
    ch.visited start ch.ring.length = ch.ring.drop start ++ ch.ring.take start := by
  obtain ⟨rest, hrest⟩ := Nat.exists_eq_add_of_le hstart
  have hlength : ch.visited start ch.ring.length = ch.visited start (rest + start) := by
    rw [hrest, Nat.add_comm]
  rw [hlength, visited_add, ← hrest, visited_wrap, visited_take (by omega), visited_take (by omega),
    drop_zero, take_of_length_le (by rw [length_drop]; omega)]

theorem walk_visited (hring : ch.ring ≠ []) (hstart : start ≤ ch.ring.length)
    (hfull : ¬ (ch.walk (ch.visited start passes) []).length < ch.numNodes) :
    ch.walk (ch.visited start ch.ring.length) [] = ch.walk (ch.visited start passes) [] := by
  rcases Nat.le_total passes ch.ring.length with hle | hle
  · obtain ⟨more, hmore⟩ := Nat.exists_eq_add_of_le hle
    rw [hmore, visited_add, walk_concat, walk_of_full _ hfull]
  · obtain ⟨more, rfl⟩ := Nat.exists_eq_add_of_le hle
    rw [visited_add, walk_concat] at hfull ⊢
    by_cases hshort : (ch.walk (ch.visited start ch.ring.length) []).length < ch.numNodes
    · -- A lap has every point, so later passes meet no new node.
      refine (walk_of_seen ?_).symm
      intro point hpoint
      refine node_mem_walk hshort point ?_
      rw [visited_lap hstart, mem_append, or_comm, ← mem_append, take_append_drop]
      exact visited_mem hring point hpoint
    · rw [walk_of_full _ hshort]

end Walk

/-! ### The lap of a key -/

section Lap

variable {ring : List UInt32} {key : Bytes}

def lap (ring : List UInt32) (key : Bytes) : List UInt32 :=
  let start := (ring.findIdx? fun point => decide (fnv1a key ≤ point)).getD 0
  ring.drop start ++ ring.take start

theorem mem_lap {point : UInt32} : point ∈ lap ring key ↔ point ∈ ring := by
  rw [lap, mem_append, or_comm, ← mem_append, take_append_drop]

def clockwise (h : UInt32) (ring : List UInt32) : List UInt32 :=
  ring.filter (fun point => decide (h ≤ point)) ++ ring.filter fun point => !decide (h ≤ point)

theorem le_of_findIdx {h : UInt32} (hsorted : ring.Pairwise fun a b => a ≤ b)
    (hfind : (ring.findIdx? fun point => decide (h ≤ point)) = some start) :
    ∀ point ∈ ring.drop start, h ≤ point := by
  obtain ⟨hlt, hle, _⟩ := findIdx?_eq_some_iff_getElem.1 hfind
  rw [drop_eq_getElem_cons hlt]
  have hafter := hsorted.sublist (drop_sublist start ring)
  rw [drop_eq_getElem_cons hlt, pairwise_cons] at hafter
  intro point hpoint
  rcases mem_cons.1 hpoint with rfl | hlater
  · exact of_decide_eq_true hle
  · exact UInt32.le_trans (of_decide_eq_true hle) (hafter.1 point hlater)

theorem lap_eq_clockwise (hsorted : ring.Pairwise fun a b => a ≤ b) :
    lap ring key = clockwise (fnv1a key) ring := by
  cases hfind : ring.findIdx? fun point => decide (fnv1a key ≤ point) with
  | none =>
    have hbelow := findIdx?_eq_none_iff.1 hfind
    rw [lap, hfind, getD_none, drop_zero, take_zero, append_nil, clockwise,
      filter_eq_nil_iff.2 fun point hpoint => by rw [hbelow point hpoint]; exact Bool.false_ne_true,
      filter_eq_self.2 fun point hpoint => by rw [hbelow point hpoint]; rfl, nil_append]
  | some start =>
    obtain ⟨hlt, _, hbelow⟩ := findIdx?_eq_some_iff_getElem.1 hfind
    have hlow : ∀ point ∈ ring.take start, decide (fnv1a key ≤ point) = false := by
      intro point hpoint
      obtain ⟨k, hk, rfl⟩ := getElem_of_mem hpoint
      rw [length_take] at hk
      rw [getElem_take]
      exact Bool.eq_false_of_not_eq_true (hbelow k (by omega))
    have hhigh : ∀ point ∈ ring.drop start, decide (fnv1a key ≤ point) = true :=
      fun point hpoint => decide_eq_true (le_of_findIdx hsorted hfind point hpoint)
    have hsplit : clockwise (fnv1a key) (ring.take start ++ ring.drop start) =
        ring.drop start ++ ring.take start := by
      rw [clockwise, filter_append, filter_append,
        filter_eq_nil_iff.2 fun point hpoint => by rw [hlow point hpoint]; exact Bool.false_ne_true,
        filter_eq_self.2 hhigh, nil_append,
        filter_eq_self.2 fun point hpoint => by rw [hlow point hpoint]; rfl,
        filter_eq_nil_iff.2 fun point hpoint => by rw [hhigh point hpoint]; exact Bool.false_ne_true,
        append_nil]
    rw [take_append_drop] at hsplit
    rw [lap, hfind, getD_some, hsplit]

theorem first_eq {ch : ConsistentHash} (hsorted : ch.ring.Pairwise fun a b => a ≤ b) :
    ch.first key = (ch.ring.findIdx? fun point => decide (fnv1a key ≤ point)).getD 0 := by
  have hmono : ∀ a b, a ≤ b → b < ch.ring.length → decide (fnv1a key ≤ ch.point a) = true →
      decide (fnv1a key ≤ ch.point b) = true := by
    intro a b hab hb hle
    have ha : a < ch.ring.length := by omega
    rw [ConsistentHash.point, getElem?_eq_getElem ha] at hle
    rw [ConsistentHash.point, getElem?_eq_getElem hb]
    rcases Nat.lt_or_eq_of_le hab with hlt | rfl
    · have hpoints := pairwise_iff_getElem.1 hsorted a b ha hb hlt
      exact decide_eq_true (UInt32.le_trans (of_decide_eq_true hle) hpoints)
    · exact hle
  obtain ⟨hle, hbelow, habove⟩ := Search.turns_search hmono
  unfold ConsistentHash.first
  generalize Search.search ch.ring.length (fun i => decide (fnv1a key ≤ ch.point i)) = idx at hle hbelow habove
  have hlow : ∀ (k : Nat) (hk : k < ch.ring.length), k < idx → decide (fnv1a key ≤ ch.ring[k]) = false := by
    intro k hk hlt
    have hpoint := hbelow k hlt
    rw [ConsistentHash.point, getElem?_eq_getElem hk] at hpoint
    exact hpoint
  by_cases hend : ch.ring.length ≤ idx
  · have hnone : (ch.ring.findIdx? fun point => decide (fnv1a key ≤ point)) = none := by
      rw [findIdx?_eq_none_iff]
      intro point hpoint
      obtain ⟨k, hk, rfl⟩ := getElem_of_mem hpoint
      exact hlow k hk (by omega)
    simp only [if_pos hend, hnone, getD_none]
  · have hlt : idx < ch.ring.length := by omega
    have hsome : (ch.ring.findIdx? fun point => decide (fnv1a key ≤ point)) = some idx := by
      rw [findIdx?_eq_some_iff_getElem]
      have hhigh := habove idx (Nat.le_refl idx) hlt
      rw [ConsistentHash.point, getElem?_eq_getElem hlt] at hhigh
      refine ⟨hlt, hhigh, ?_⟩
      intro k hk
      rw [hlow k (by omega) hk]
      exact Bool.false_ne_true
    simp only [if_neg hend, hsome, getD_some]

theorem first_le (ch : ConsistentHash) (key : Bytes) : ch.first key ≤ ch.ring.length := by
  unfold ConsistentHash.first
  by_cases hend : ch.ring.length ≤ Search.search ch.ring.length fun i => decide (fnv1a key ≤ ch.point i)
  · simp only [if_pos hend, Nat.zero_le]
  · simp only [if_neg hend]
    exact Nat.le_of_not_le hend

end Lap

/-! ### What the loop comes to -/

section Loop

variable {ch : ConsistentHash} {key : Bytes}

section

variable (hring : ch.ring ≠ [])

include hring

theorem getSlotOrder_eq : ch.getSlotOrder key =
    if (ch.walk (lap ch.ring key) []).length < ch.numNodes then none
    else some (ch.walk (lap ch.ring key) []) := by
  unfold ConsistentHash.getSlotOrder
  split
  · rename_i hnil
    exact absurd hnil hring
  · rfl

theorem slotOrder_eq (passes : Nat) : ch.slotOrder passes key =
    if (ch.walk (ch.visited (ch.first key) passes) []).length < ch.numNodes then none
    else some (ch.walk (ch.visited (ch.first key) passes) []) := by
  rw [ConsistentHash.slotOrder, if_neg (by rw [List.isEmpty_iff]; exact hring)]
  exact loop_eq _ _ fun _ => Iff.rfl

theorem slotOrder_lap (hsorted : ch.ring.Pairwise fun a b => a ≤ b) :
    ch.slotOrder ch.ring.length key = ch.getSlotOrder key := by
  rw [slotOrder_eq hring, getSlotOrder_eq hring, visited_lap (first_le ch key), first_eq hsorted]
  rfl

theorem slotOrder_ends (horder : ch.slotOrder passes key = some order) :
    ch.slotOrder ch.ring.length key = some order := by
  rw [slotOrder_eq hring] at horder ⊢
  split_ifs at horder with hshort
  rw [walk_visited hring (first_le ch key) hshort, if_neg hshort]
  exact horder

end

end Loop

/-! ### The order of a key -/

section Order

variable {numNodes replicas : Nat} {key : Bytes}

def writes (numNodes replicas : Nat) : List (UInt32 × Nat) :=
  (List.range numNodes).flatMap fun node =>
    (List.range replicas).map fun replica => (fnv1a (replicaLabel node replica), node)

theorem node_lt_of_writes {entry : UInt32 × Nat} (hentry : entry ∈ writes numNodes replicas) :
    entry.2 < numNodes := by
  obtain ⟨node, hnode, hpoint⟩ := mem_flatMap.1 hentry
  obtain ⟨replica, _, rfl⟩ := List.mem_map.1 hpoint
  exact mem_range.1 hnode

theorem mem_ring {point : UInt32} :
    point ∈ (newConsistentHash numNodes replicas).ring ↔ point ∈ (writes numNodes replicas).map Prod.fst :=
  (perm_insertionSort _ _).mem_iff

theorem ring_sorted : (newConsistentHash numNodes replicas).ring.Pairwise fun a b => a ≤ b :=
  pairwise_insertionSort _ _

theorem ring_ne_nil (hnodes : 0 < numNodes) (hreplicas : 0 < replicas) :
    (newConsistentHash numNodes replicas).ring ≠ [] := by
  have hfirst : fnv1a (replicaLabel 0 0) ∈ (newConsistentHash numNodes replicas).ring := by
    rw [mem_ring, List.mem_map]
    refine ⟨(fnv1a (replicaLabel 0 0), 0), ?_, rfl⟩
    rw [writes, mem_flatMap]
    exact ⟨0, mem_range.2 hnodes, List.mem_map.2 ⟨0, mem_range.2 hreplicas, rfl⟩⟩
  exact ne_nil_of_mem hfirst

theorem writer_node {point : UInt32} (hpoint : point ∈ (newConsistentHash numNodes replicas).ring) :
    writer (writes numNodes replicas) point = some ((newConsistentHash numNodes replicas).node point) := by
  obtain ⟨node, hwriter⟩ := exists_writer (mem_ring.1 hpoint)
  have hnode : (newConsistentHash numNodes replicas).node point = node := by
    show (writer (writes numNodes replicas) point).getD 0 = node
    rw [hwriter, getD_some]
  rw [hwriter, hnode]

theorem node_lt {point : UInt32} (hpoint : point ∈ (newConsistentHash numNodes replicas).ring) :
    (newConsistentHash numNodes replicas).node point < numNodes :=
  node_lt_of_writes (mem_of_writer (writer_node hpoint))

theorem exists_writer_of_walk {i : Nat}
    (hi : i ∈ (newConsistentHash numNodes replicas).walk (lap (newConsistentHash numNodes replicas).ring key) []) :
    ∃ point ∈ (newConsistentHash numNodes replicas).ring, writer (writes numNodes replicas) point = some i := by
  rcases mem_walk hi with hnone | ⟨point, hpoint, hnode⟩
  · cases hnone
  · exact ⟨point, mem_lap.1 hpoint, hnode ▸ writer_node (mem_lap.1 hpoint)⟩

theorem getSlotOrder_perm (hnodes : 0 < numNodes) (hreplicas : 0 < replicas)
    (horder : (newConsistentHash numNodes replicas).getSlotOrder key = some order) :
    order.Perm (range numNodes) := by
  rw [getSlotOrder_eq (ring_ne_nil hnodes hreplicas)] at horder
  split_ifs at horder with hshort
  cases horder
  have hlong : ¬ _ < numNodes := hshort
  have hnodup : ((newConsistentHash numNodes replicas).walk
      (lap (newConsistentHash numNodes replicas).ring key) []).Nodup := walk_nodup _ nodup_nil
  refine (subperm_of_subset hnodup ?_).perm_of_length_le (by rw [length_range]; omega)
  intro j hj
  obtain ⟨point, _, hwriter⟩ := exists_writer_of_walk hj
  exact mem_range.2 (node_lt_of_writes (mem_of_writer hwriter))

theorem getSlotOrder_isSome (hnodes : 0 < numNodes) (hreplicas : 0 < replicas) (key : Bytes) :
    ((newConsistentHash numNodes replicas).getSlotOrder key).isSome = true ↔
      ∀ i < numNodes, ∃ point ∈ (newConsistentHash numNodes replicas).ring,
        writer (writes numNodes replicas) point = some i := by
  constructor
  · intro hsome i hi
    obtain ⟨order, horder⟩ := isSome_iff_exists.1 hsome
    have hmem : i ∈ order := (getSlotOrder_perm hnodes hreplicas horder).mem_iff.2 (mem_range.2 hi)
    rw [getSlotOrder_eq (ring_ne_nil hnodes hreplicas)] at horder
    split_ifs at horder
    cases horder
    exact exists_writer_of_walk hmem
  · intro hall
    rw [getSlotOrder_eq (ring_ne_nil hnodes hreplicas)]
    split_ifs with hshort
    · have hsub : range numNodes ⊆ (newConsistentHash numNodes replicas).walk
          (lap (newConsistentHash numNodes replicas).ring key) [] := by
        intro i hi
        obtain ⟨point, hpoint, hwriter⟩ := hall i (mem_range.1 hi)
        have hnode := writer_node hpoint
        rw [hwriter, Option.some.injEq] at hnode
        rw [hnode]
        exact node_mem_walk hshort point (mem_lap.2 hpoint)
      have hle := (subperm_of_subset nodup_range hsub).length_le
      rw [length_range] at hle
      exact absurd hshort (Nat.not_lt.2 hle)
    · rfl

theorem getSlotOrder_pairwise (hnodes : 0 < numNodes) (hreplicas : 0 < replicas)
    (horder : (newConsistentHash numNodes replicas).getSlotOrder key = some order) : order.Pairwise fun i j =>
      (newConsistentHash numNodes replicas).firstOf (clockwise (fnv1a key) (newConsistentHash numNodes replicas).ring) i <
      (newConsistentHash numNodes replicas).firstOf (clockwise (fnv1a key) (newConsistentHash numNodes replicas).ring) j := by
  rw [getSlotOrder_eq (ring_ne_nil hnodes hreplicas)] at horder
  split_ifs at horder
  cases horder
  rw [← lap_eq_clockwise ring_sorted, ← nil_append (lap _ key)]
  exact walk_pairwise _ (fun _ => Iff.rfl) List.Pairwise.nil

/-- The walk lists every node once, clockwise. -/
theorem slotOrder_clockwise (numNodes replicas : Nat) (hnodes : 1 ≤ numNodes) (hreplicas : 1 ≤ replicas)
    (key : Bytes) :
    ((∃ passes order, (newConsistentHash numNodes replicas).slotOrder passes key = some order) ↔
      ∀ i < numNodes, ∃ point ∈ (newConsistentHash numNodes replicas).ring,
        (newConsistentHash numNodes replicas).nodeMap.lookup point = some i) ∧
    ∀ passes order, (newConsistentHash numNodes replicas).slotOrder passes key = some order →
      (newConsistentHash numNodes replicas).slotOrder (newConsistentHash numNodes replicas).ring.length key =
        some order ∧
      order.Perm (List.range numNodes) ∧
      order.Pairwise fun i j =>
        (newConsistentHash numNodes replicas).firstOf
          (clockwise (fnv1a key) (newConsistentHash numNodes replicas).ring) i <
        (newConsistentHash numNodes replicas).firstOf
          (clockwise (fnv1a key) (newConsistentHash numNodes replicas).ring) j := by
  have hring := ring_ne_nil hnodes hreplicas
  have hends : ∀ passes order, (newConsistentHash numNodes replicas).slotOrder passes key = some order →
      (newConsistentHash numNodes replicas).getSlotOrder key = some order := by
    intro passes order horder
    rw [← slotOrder_lap hring ring_sorted]
    exact slotOrder_ends hring horder
  refine ⟨Iff.trans ⟨?_, ?_⟩ (getSlotOrder_isSome hnodes hreplicas key), ?_⟩
  · rintro ⟨passes, order, horder⟩
    rw [hends passes order horder]
    rfl
  · intro hsome
    obtain ⟨order, horder⟩ := Option.isSome_iff_exists.1 hsome
    exact ⟨_, order, (slotOrder_lap hring ring_sorted).trans horder⟩
  · intro passes order horder
    have hlap := hends passes order horder
    exact ⟨slotOrder_ends hring horder, getSlotOrder_perm hnodes hreplicas hlap,
      getSlotOrder_pairwise hnodes hreplicas hlap⟩

theorem slotOrder_clockwise_three :
    (newConsistentHash 3 2).slotOrder 4 (ascii "app") = none ∧
    [1, 0, 2].Perm (List.range 3) := by
  have horder : (newConsistentHash 3 2).slotOrder 5 (ascii "app") = some [1, 0, 2] := by decide +kernel
  exact ⟨by decide +kernel, ((slotOrder_clockwise 3 2 (by decide) (by decide) (ascii "app")).2 _ _ horder).2.1⟩

end Order

end BuildkitService.Pool
