import BuildkitService.Daemon.SizeWalk
import Mathlib.Data.List.Dedup
import Mathlib.Data.List.Sort

/-!
# What `directorySize` measures while others remove

Every place is visited at most once, and every place that is still there was visited or is covered
by what the walk still has to visit.
-/

namespace BuildkitService.Daemon

open Strings Files DirTree List Ledger Runs

/-! ### What is still to be visited -/

def atOrAbove (entries : List Listed) (p : List Bytes) : Nat := entries.countP fun e => decide (e.path <+: p)

def above (entries : List Listed) (p : List Bytes) : Nat := entries.countP fun e => decide (Inside e.path p)

variable {e : Listed} {entries got pending : List Listed} {dir p q : List Bytes} {n size : Nat}
  {node : DirTree.Node}

theorem atOrAbove_cons : atOrAbove (e :: entries) p = atOrAbove entries p + if e.path <+: p then 1 else 0 := by
  rw [atOrAbove, countP_cons]
  simp only [decide_eq_true_eq]
  rfl

theorem above_cons : above (e :: entries) p = above entries p + if Inside e.path p then 1 else 0 := by
  rw [above, countP_cons]
  simp only [decide_eq_true_eq]
  rfl

theorem atOrAbove_append : atOrAbove (got ++ pending) p = atOrAbove got p + atOrAbove pending p := countP_append

theorem above_append : above (got ++ pending) p = above got p + above pending p := countP_append

theorem atOrAbove_sorted : atOrAbove (SizeWalk.sorted got) p = atOrAbove got p := (perm_insertionSort _ got).countP_eq _

theorem above_sorted : above (SizeWalk.sorted got) p = above got p := (perm_insertionSort _ got).countP_eq _

theorem one_le_atOrAbove (he : e ∈ entries) (hpre : e.path <+: p) : 1 ≤ atOrAbove entries p :=
  countP_pos_iff.2 ⟨e, he, decide_eq_true hpre⟩

theorem prefix_iff : q <+: p ↔ q = p ∨ Inside q p := by
  constructor
  · intro hpre
    by_cases heq : q = p
    · exact .inl heq
    · exact .inr ⟨hpre, heq⟩
  · rintro (rfl | hinside)
    · exact prefix_refl q
    · exact hinside.1

structure Siblings (dir : List Bytes) (got : List Listed) : Prop where
  nodup : (got.map Listed.path).Nodup
  child : ∀ e ∈ got, ∃ name, e.path = dir ++ [name]

theorem Siblings.tail (hgot : Siblings dir (e :: got)) : Siblings dir got :=
  ⟨(nodup_cons.1 hgot.nodup).2, fun e' he' => hgot.child e' (mem_cons_of_mem _ he')⟩

theorem Siblings.atOrAbove_le (hgot : Siblings dir got) : atOrAbove got p ≤ if Inside dir p then 1 else 0 := by
  induction got with
  | nil => exact Nat.zero_le _
  | cons e got ih =>
    have hrest := ih hgot.tail
    obtain ⟨name, hname⟩ := hgot.child e mem_cons_self
    rw [atOrAbove_cons]
    by_cases hpre : e.path <+: p
    · -- another entry above the place would have the same name
      have hothers : atOrAbove got p = 0 := by
        refine countP_eq_zero.2 ?_
        intro e' he' hpre'
        obtain ⟨name', hname'⟩ := hgot.child e' (mem_cons_of_mem _ he')
        have heq : e'.path = e.path := by
          refine (prefix_of_prefix_length_le (of_decide_eq_true hpre') hpre ?_).eq_of_length ?_
          · rw [hname, hname', length_append, length_append]
            rfl
          · rw [hname, hname', length_append, length_append]
            rfl
        exact (nodup_cons.1 hgot.nodup).1 (heq ▸ List.mem_map_of_mem he')
      have hinside : Inside dir p := by
        rw [hname] at hpre
        refine ⟨(prefix_append dir [name]).trans hpre, ?_⟩
        rintro rfl
        have hlength := hpre.length_le
        rw [length_append, length_singleton] at hlength
        omega
      rw [hothers, if_pos hpre, if_pos hinside]
    · rw [if_neg hpre]
      exact hrest

theorem Siblings.above_le (hgot : Siblings dir got) :
    above got p ≤ if Inside dir p ∧ p ∉ got.map Listed.path then 1 else 0 := by
  by_cases hmem : p ∈ got.map Listed.path
  · -- the entries of a directory are not inside each other
    have hnone : above got p = 0 := by
      refine countP_eq_zero.2 ?_
      intro e he hinside
      obtain ⟨e', he', rfl⟩ := List.mem_map.1 hmem
      obtain ⟨name, hname⟩ := hgot.child e he
      obtain ⟨name', hname'⟩ := hgot.child e' he'
      obtain ⟨hpre, hne⟩ := of_decide_eq_true hinside
      refine hne (hpre.eq_of_length ?_)
      rw [hname, hname', length_append, length_append]
      rfl
    rw [hnone]
    exact Nat.zero_le _
  · have hle : above got p ≤ atOrAbove got p := by
      refine countP_mono_left ?_
      intro e _ hinside
      exact decide_eq_true (of_decide_eq_true hinside).1
    simp only [hmem, not_false_eq_true, and_true]
    exact hle.trans hgot.atOrAbove_le

namespace WalkPhase

def items : WalkPhase → List Listed
  | .visiting pending => pending
  | .listing _ got pending => got ++ pending
  | .start | .done _ => []

def covers : WalkPhase → List Bytes → Nat
  | .start, _ => 1
  | .visiting pending, p => atOrAbove pending p
  | .listing dir _ pending, p => atOrAbove pending p + if Inside dir p then 1 else 0
  | .done _, _ => 0

end WalkPhase

namespace SizeWalk

variable {t₀ tree : DirTree Bytes} {phase : WalkPhase} {total : Nat} {visited : List (List Bytes)} {w w' : SizeWalk}
  {a : WalkAct}

def Truthful (t₀ : DirTree Bytes) (e : Listed) : Prop :=
  ∃ node, (e.path, node) ∈ t₀.entries ∧ e.isDir = node.isDir ∧ ∀ size, e.size = some size → size = node.size

structure Sound (t₀ tree : DirTree Bytes) (phase : WalkPhase) (total : Nat) (visited : List (List Bytes)) : Prop where
  subtree : ∀ e ∈ tree.entries, e ∈ t₀.entries
  truthful : ∀ e ∈ phase.items, Truthful t₀ e
  siblings : ∀ dir got pending, phase = .listing dir got pending → Siblings dir got
  once : ∀ p, visited.count p + phase.covers p ≤ 1
  reached : (∀ err, phase ≠ .done (.error err)) → ∀ e ∈ tree.entries, 1 ≤ visited.count e.1 + phase.covers e.1
  sum : total = Ledger.total t₀.sizeAt visited
  result : ∀ n, phase = .done (.ok n) → n = total

theorem truthful_entry (hmem : (p, node) ∈ t₀.entries) (typed : Bool) : Truthful t₀ (entry p node typed) := by
  refine ⟨node, hmem, rfl, ?_⟩
  intro size hsize
  cases typed with
  | true => cases hsize
  | false => exact (Option.some.inj hsize).symm

theorem Truthful.sizeAt_dir (htruthful : Truthful t₀ e) (hdir : e.isDir = true) : t₀.sizeAt e.path = 0 := by
  obtain ⟨node, hmem, hisDir, _⟩ := htruthful
  rw [sizeAt_of_mem hmem]
  cases node with
  | dir => rfl
  | file size =>
    rw [hdir] at hisDir
    cases hisDir

theorem Sound.stopped (hsound : Sound t₀ tree phase total visited) (err : GoError) :
    Sound t₀ tree (.done (.error err)) total visited where
  subtree := hsound.subtree
  truthful := nofun
  siblings := nofun
  once p := (Nat.add_le_add_left (Nat.zero_le _) _).trans (hsound.once p)
  reached hopen := absurd rfl (hopen err)
  sum := hsound.sum
  result := nofun

theorem Sound.visit (hsound : Sound t₀ tree (.visiting (e :: pending)) total visited) {next : WalkPhase}
    (hsize : t₀.sizeAt e.path = size) (hopen : ∀ r, next ≠ .done r) (hitems : ∀ e' ∈ next.items, e' ∈ pending)
    (hsiblings : ∀ dir got more, next = .listing dir got more → got = [])
    (honce : ∀ p, next.covers p ≤ atOrAbove pending p + if Inside e.path p then 1 else 0)
    (hreached : ∀ e' ∈ tree.entries, atOrAbove pending e'.1 + (if Inside e.path e'.1 then 1 else 0) ≤ next.covers e'.1) :
    Sound t₀ tree next (total + size) (e.path :: visited) := by
  -- a place at or below the entry is either the entry or below it
  have hsplit : ∀ p, (e.path :: visited).count p + (atOrAbove pending p + if Inside e.path p then 1 else 0) =
      visited.count p + atOrAbove (e :: pending) p := by
    intro p
    rw [atOrAbove_cons, count_cons]
    by_cases heq : e.path = p
    · have hnot : ¬ Inside e.path p := fun hinside => hinside.2 heq
      rw [if_pos (beq_iff_eq.2 heq), if_neg hnot, if_pos (prefix_iff.2 (.inl heq))]
      omega
    · have hiff : e.path <+: p ↔ Inside e.path p := ⟨fun hpre => ⟨hpre, heq⟩, fun hinside => hinside.1⟩
      rw [if_neg (fun hbeq => heq (beq_iff_eq.1 hbeq)), if_congr hiff rfl rfl]
      omega
  refine ⟨hsound.subtree, ?_, ?_, ?_, ?_, ?_, fun n hnext => absurd hnext (hopen _)⟩
  · intro e' he'
    exact hsound.truthful e' (mem_cons_of_mem _ (hitems e' he'))
  · intro dir got more hnext
    obtain rfl := hsiblings dir got more hnext
    exact ⟨nodup_nil, nofun⟩
  · intro p
    have hbefore : visited.count p + atOrAbove (e :: pending) p ≤ 1 := hsound.once p
    have hafter := honce p
    have heq := hsplit p
    omega
  · intro _ e' he'
    have hbefore : 1 ≤ visited.count e'.1 + atOrAbove (e :: pending) e'.1 := hsound.reached nofun e' he'
    have hafter := hreached e' he'
    have heq := hsplit e'.1
    omega
  · rw [total_cons, hsize, hsound.sum, Nat.add_comm]

theorem Sound.shrunk {tree' : DirTree Bytes} (hsound : Sound t₀ tree phase total visited)
    (hsub : ∀ e ∈ tree'.entries, e ∈ tree.entries) : Sound t₀ tree' phase total visited :=
  ⟨fun e he => hsound.subtree e (hsub e he), hsound.truthful, hsound.siblings, hsound.once,
    fun hopen e he => hsound.reached hopen e (hsub e he), hsound.sum, hsound.result⟩

theorem Sound.rootFound (hsound : Sound t₀ tree .start total visited) (hget : tree.get [] = some node) :
    Sound t₀ tree (.visiting [entry [] node false]) total visited := by
  have hcovers : ∀ p, atOrAbove [entry [] node false] p = 1 := by
    intro p
    have hroot : (entry [] node false).path <+: p := nil_prefix
    rw [atOrAbove_cons, if_pos hroot]
    rfl
  refine ⟨hsound.subtree, ?_, nofun, ?_, ?_, hsound.sum, nofun⟩
  · intro e he
    rw [mem_singleton.1 he]
    exact truthful_entry (hsound.subtree _ (get_eq_some_iff.1 hget)) false
  · intro p
    rw [WalkPhase.covers, hcovers]
    exact hsound.once p
  · intro _ e he
    rw [WalkPhase.covers, hcovers]
    exact Nat.le_add_left _ _

theorem Sound.rootMissing (hsound : Sound t₀ tree .start total visited) (hget : tree.get [] = none) :
    Sound t₀ tree (.visiting []) total visited := by
  refine ⟨hsound.subtree, nofun, nofun, ?_, ?_, hsound.sum, nofun⟩
  · intro p
    exact (Nat.add_le_add_left (Nat.zero_le _) _).trans (hsound.once p)
  · intro _ e he
    rw [get_eq_none_iff] at hget
    have hne : e.1 ≠ [] := hget e he
    exact absurd rfl (hget _ (dir_of_inside he ⟨List.nil_prefix, hne.symm⟩))

section

variable (hsound : Sound t₀ tree (.visiting (e :: pending)) total visited)

include hsound

theorem Sound.entered (hdir : e.isDir = true) :
    Sound t₀ tree (.listing e.path [] pending) total (e.path :: visited) := by
  have hsize := Truthful.sizeAt_dir (hsound.truthful e mem_cons_self) hdir
  refine hsound.visit hsize nofun (fun _ he' => he') ?_ (fun _ => le_rfl) (fun _ _ => le_rfl)
  rintro _ _ _ ⟨rfl⟩
  rfl

theorem Sound.leaf (hsize : t₀.sizeAt e.path = size) (hnone : ∀ e' ∈ tree.entries, ¬ Inside e.path e'.1) :
    Sound t₀ tree (.visiting pending) (total + size) (e.path :: visited) := by
  refine hsound.visit hsize nofun (fun _ he' => he') nofun (fun _ => Nat.le_add_right _ _) ?_
  intro e' he'
  rw [if_neg (hnone e' he')]
  exact le_rfl

theorem Sound.vanished (hdir : e.isDir = true)
    (hget : tree.get e.path = none) : Sound t₀ tree (.visiting pending) total (e.path :: visited) := by
  have hsize := Truthful.sizeAt_dir (hsound.truthful e mem_cons_self) hdir
  refine hsound.leaf hsize ?_
  intro e' he' hinside
  exact get_eq_none_iff.1 hget _ (dir_of_inside he' hinside) rfl

theorem Sound.counted (hfile : e.isDir = false)
    (hsize : e.size = some size ∨ e.size = none ∧ ∃ node, tree.get e.path = some node ∧ size = node.size) :
    Sound t₀ tree (.visiting pending) (total + size) (e.path :: visited) := by
  obtain ⟨node, hmem, hisDir, htold⟩ := hsound.truthful e mem_cons_self
  have hnode : t₀.sizeAt e.path = size := by
    rw [sizeAt_of_mem hmem]
    rcases hsize with hsize | ⟨_, now, hget, rfl⟩
    · exact (htold size hsize).symm
    · rw [node_unique hmem (hsound.subtree _ (get_eq_some_iff.1 hget))]
  refine hsound.leaf hnode ?_
  intro e' he' hinside
  have hdir := node_unique hmem (hsound.subtree _ (dir_of_inside he' hinside))
  rw [hdir, hfile] at hisDir
  cases hisDir

end

section

variable (hsound : Sound t₀ tree (.listing dir got pending) total visited)

include hsound

theorem Sound.listed {name : Bytes} {typed : Bool}
    (hget : tree.get (dir ++ [name]) = some node) (hnew : dir ++ [name] ∉ got.map Listed.path) :
    Sound t₀ tree (.listing dir (got ++ [entry (dir ++ [name]) node typed]) pending) total visited := by
  obtain ⟨hnodup, hchild⟩ := hsound.siblings dir got pending rfl
  refine ⟨hsound.subtree, ?_, ?_, hsound.once, fun _ => hsound.reached nofun, hsound.sum, nofun⟩
  · intro e he
    rcases mem_append.1 he with he | he
    · rcases mem_append.1 he with he | he
      · exact hsound.truthful e (mem_append_left _ he)
      · rw [mem_singleton.1 he]
        exact truthful_entry (hsound.subtree _ (get_eq_some_iff.1 hget)) typed
    · exact hsound.truthful e (mem_append_right _ he)
  · rintro _ _ _ ⟨rfl⟩
    refine ⟨?_, ?_⟩
    · rw [map_append, nodup_append]
      refine ⟨hnodup, nodup_singleton _, ?_⟩
      rintro p hp _ hq rfl
      rw [mem_singleton.1 hq] at hp
      exact hnew hp
    · intro e he
      rcases mem_append.1 he with he | he
      · exact hchild e he
      · exact ⟨name, by rw [mem_singleton.1 he]; rfl⟩

theorem Sound.ended (hend : tree.get dir = none ∨ Complete tree dir got) :
    Sound t₀ tree (.visiting (sorted got ++ pending)) total visited := by
  have hsiblings := hsound.siblings dir got pending rfl
  have hcovers : ∀ p, atOrAbove (sorted got ++ pending) p = atOrAbove got p + atOrAbove pending p := fun p => by
    rw [atOrAbove_append, atOrAbove_sorted]
  refine ⟨hsound.subtree, ?_, nofun, ?_, ?_, hsound.sum, nofun⟩
  · intro e he
    refine hsound.truthful e ?_
    rcases mem_append.1 he with he | he
    · exact mem_append_left _ ((perm_insertionSort _ got).mem_iff.1 he)
    · exact mem_append_right _ he
  · intro p
    have hbefore : visited.count p + (atOrAbove pending p + if Inside dir p then 1 else 0) ≤ 1 := hsound.once p
    have hle : atOrAbove got p ≤ if Inside dir p then 1 else 0 := hsiblings.atOrAbove_le
    rw [WalkPhase.covers, hcovers]
    omega
  · intro _ e he
    have hbefore : 1 ≤ visited.count e.1 + (atOrAbove pending e.1 + if Inside dir e.1 then 1 else 0) :=
      hsound.reached nofun e he
    rw [WalkPhase.covers, hcovers]
    by_cases hinside : Inside dir e.1
    · have hone : 1 ≤ atOrAbove got e.1 := by
        rcases hend with hgone | hcomplete
        · exact absurd rfl (get_eq_none_iff.1 hgone _ (dir_of_inside he hinside))
        · obtain ⟨name, node, hchild, hpre⟩ := child_of_inside he hinside
          obtain ⟨e', he', hpath⟩ := List.mem_map.1 (hcomplete _ hchild (by simp) (by simp))
          exact one_le_atOrAbove he' (hpath ▸ hpre)
      omega
    · rw [if_neg hinside] at hbefore
      omega

end

theorem Sound.moves (hsound : Sound t₀ w.tree w.phase w.total visited) (hmoves : Moves w a tree phase total) :
    ∃ visited', Sound t₀ tree phase total visited' := by
  cases hmoves with
  | removed hremove =>
    refine ⟨visited, hsound.shrunk ?_⟩
    intro e he
    exact (((remove_eq_some hremove).2 e).1 he).1
  | rootFound hphase hget => exact ⟨visited, Sound.rootFound (hphase ▸ hsound) hget⟩
  | rootMissing hphase hget => exact ⟨visited, Sound.rootMissing (hphase ▸ hsound) hget⟩
  | finished hphase =>
    rw [hphase] at hsound
    exact ⟨visited, hsound.subtree, nofun, nofun, hsound.once, fun _ => hsound.reached nofun, hsound.sum,
      fun n hn => by cases hn; rfl⟩
  | entered hphase hdir _ => exact ⟨_, Sound.entered (hphase ▸ hsound) hdir⟩
  | vanished hphase hdir hget => exact ⟨_, Sound.vanished (hphase ▸ hsound) hdir hget⟩
  | noDirectory hphase | lost hphase | failed => exact ⟨visited, hsound.stopped _⟩
  | counted hphase hfile hsize => exact ⟨_, Sound.counted (hphase ▸ hsound) hfile hsize⟩
  | listed hphase hget hnew => exact ⟨visited, Sound.listed (hphase ▸ hsound) hget hnew⟩
  | ended hphase hend => exact ⟨visited, Sound.ended (hphase ▸ hsound) hend⟩

theorem Sound.step (hsound : ∃ visited, Sound t₀ w.tree w.phase w.total visited) (hstep : w.step a = some w') :
    ∃ visited, Sound t₀ w'.tree w'.phase w'.total visited := by
  obtain ⟨visited, hsound⟩ := hsound
  exact hsound.moves (step_leads hstep)

theorem sound_init (root : Bytes) (t₀ : DirTree Bytes) :
    ∃ visited, Sound t₀ (init root t₀).tree (init root t₀).phase (init root t₀).total visited :=
  ⟨[], fun _ he => he, nofun, nofun, fun _ => le_rfl, fun _ _ _ => le_rfl, rfl, nofun⟩

theorem sound_run {root : Bytes} {actions : List WalkAct} (hrun : exec step (init root t₀) actions = some w) :
    ∃ visited, Sound t₀ w.tree w.phase w.total visited := by
  have hkeep : ∀ w a w', (∃ visited, Sound t₀ w.tree w.phase w.total visited) → step w a = some w' →
      ∃ visited, Sound t₀ w'.tree w'.phase w'.total visited := fun _ _ _ hsound hstep => Sound.step hsound hstep
  exact exec_invariant step hkeep (sound_init root t₀) hrun

/-! ### The size -/

def bytes (entries : List (List Bytes × DirTree.Node)) : Nat := Ledger.total (fun e => e.2.size) entries

def someTime (states : List SizeWalk) : List (List Bytes × DirTree.Node) :=
  (states.flatMap fun w => w.tree.entries).dedup

def allTime (t₀ : DirTree Bytes) (states : List SizeWalk) : List (List Bytes × DirTree.Node) :=
  t₀.entries.filter fun e => states.all fun w => decide (e ∈ w.tree.entries)

theorem Sound.sum_eq (hsound : Sound t₀ tree phase total visited) :
    total = Ledger.total (fun e => visited.count e.1 * e.2.size) t₀.entries := by
  rw [hsound.sum, ← total_keys (fun e => e.2.size) Prod.fst visited t₀.entries]
  exact total_congr _ fun p _ => t₀.sizeAt_eq_total p

theorem Sound.total_le (hsound : Sound t₀ tree phase total visited) : total ≤ bytes t₀.entries := by
  rw [hsound.sum_eq]
  refine total_le_total _ ?_
  intro e _
  have hone : visited.count e.1 ≤ 1 := (Nat.le_add_right _ _).trans (hsound.once e.1)
  exact (Nat.mul_le_mul_right _ hone).trans (Nat.le_of_eq (Nat.one_mul _))

theorem Sound.le_total (hsound : Sound t₀ tree (.done (.ok n)) total visited)
    {part : List (List Bytes × DirTree.Node)} (hnodup : part.Nodup) (hpart : ∀ e ∈ part, e ∈ tree.entries) :
    bytes part ≤ total := by
  rw [hsound.sum_eq]
  have hcounted : bytes part ≤ Ledger.total (fun e => visited.count e.1 * e.2.size) part := by
    refine total_le_total _ ?_
    intro e he
    have hone : 1 ≤ visited.count e.1 := hsound.reached nofun e (hpart e he)
    exact (Nat.le_of_eq (Nat.one_mul _).symm).trans (Nat.mul_le_mul_right _ hone)
  exact hcounted.trans (total_le_of_subset _ hnodup fun e he => hsound.subtree e (hpart e he))

section Run

variable {root : Bytes} {actions : List WalkAct} (hrun : Runs.exec step (init root t₀) actions = some w)

include hrun

theorem size_at_most (hdone : w.phase = .done (.ok n)) :
    n ≤ bytes (someTime (Runs.states step (init root t₀) actions)) := by
  obtain ⟨visited, hsound⟩ := sound_run hrun
  rw [hsound.result n hdone]
  refine hsound.total_le.trans (total_le_of_subset _ (Nodup.of_map _ t₀.nodup) ?_)
  intro e he
  exact mem_dedup.2 (mem_flatMap.2 ⟨_, start_mem_states step _ actions, he⟩)

theorem size_at_least (hdone : w.phase = .done (.ok n)) :
    bytes (allTime t₀ (Runs.states step (init root t₀) actions)) ≤ n := by
  obtain ⟨visited, hsound⟩ := sound_run hrun
  rw [hsound.result n hdone]
  rw [hdone] at hsound
  refine hsound.le_total ((Nodup.of_map _ t₀.nodup).filter _) ?_
  intro e he
  exact of_decide_eq_true (List.all_eq_true.1 (mem_filter.1 he).2 w (end_mem_states step hrun))

end Run

end SizeWalk

/-! ### The end of the walk -/

namespace WalkPhase

def ahead : WalkPhase → List Bytes → Nat
  | .start, _ => 1
  | .visiting pending, p => above pending p
  | .listing dir got pending, p => above pending p + if Inside dir p ∧ p ∉ got.map Listed.path then 1 else 0
  | .done _, _ => 0

def own : WalkPhase → Nat
  | .start => 4
  | .visiting _ => 1
  | .listing _ _ _ => 2
  | .done _ => 0

end WalkPhase

def WalkAct.ofWalk : WalkAct → Nat
  | .remove _ => 0
  | .next | .list _ _ | .fail _ => 1

namespace SizeWalk

variable {t₀ tree : DirTree Bytes} {phase : WalkPhase} {total : Nat} {visited : List (List Bytes)} {w w' : SizeWalk}
  {a : WalkAct}

def work (tree : DirTree Bytes) (phase : WalkPhase) : Nat :=
  phase.own + 2 * phase.items.length + 3 * Ledger.total (fun e => phase.ahead e.1) tree.entries

theorem work_lt_of_ahead_le {before after : WalkPhase}
    (hown : after.own + 2 * after.items.length < before.own + 2 * before.items.length)
    (hahead : ∀ e ∈ tree.entries, after.ahead e.1 ≤ before.ahead e.1) : 1 + work tree after ≤ work tree before := by
  have htotal := total_le_total (fun e : List Bytes × DirTree.Node => after.ahead e.1) hahead
  rw [work, work]
  omega

theorem work_done_lt (hopen : ∀ r, phase ≠ .done r) (r : Except GoError Nat) :
    1 + work tree (.done r) ≤ work tree phase := by
  refine work_lt_of_ahead_le ?_ (fun _ _ => Nat.zero_le _)
  cases phase with
  | start => exact (by decide : 0 < 4)
  | visiting pending => exact Nat.lt_add_right _ Nat.one_pos
  | listing dir got pending => exact Nat.lt_add_right _ Nat.two_pos
  | done r => exact absurd rfl (hopen r)

theorem work_listed {name : Bytes} {typed : Bool} (hget : tree.get (dir ++ [name]) = some node)
    (hnew : dir ++ [name] ∉ got.map Listed.path) :
    1 + work tree (.listing dir (got ++ [entry (dir ++ [name]) node typed]) pending) ≤
      work tree (.listing dir got pending) := by
  have hmap : (got ++ [entry (dir ++ [name]) node typed]).map Listed.path = got.map Listed.path ++ [dir ++ [name]] :=
    map_append
  have hinside : Inside dir (dir ++ [name]) := ⟨prefix_append _ _, by simp⟩
  have hlt : Ledger.total (fun e => (WalkPhase.listing dir (got ++ [entry (dir ++ [name]) node typed]) pending).ahead e.1)
      tree.entries < Ledger.total (fun e => (WalkPhase.listing dir got pending).ahead e.1) tree.entries := by
    refine total_lt_total _ ?_ (get_eq_some_iff.1 hget) ?_
    · intro e _
      rw [WalkPhase.ahead, WalkPhase.ahead, hmap]
      refine Nat.add_le_add_left ?_ _
      split_ifs with hafter hbefore
      · exact le_rfl
      · exact absurd ⟨hafter.1, fun hmem => hafter.2 (mem_append_left _ hmem)⟩ hbefore
      · exact Nat.zero_le _
      · exact le_rfl
    · have hafter : ¬ (Inside dir (dir ++ [name]) ∧ dir ++ [name] ∉ got.map Listed.path ++ [dir ++ [name]]) :=
        fun hnot => hnot.2 (mem_append_right _ (mem_singleton_self _))
      dsimp only
      rw [WalkPhase.ahead, hmap, if_neg hafter, WalkPhase.ahead, if_pos ⟨hinside, hnew⟩]
      exact Nat.lt_succ_self _
  have hlength : (WalkPhase.listing dir (got ++ [entry (dir ++ [name]) node typed]) pending).items.length =
      (WalkPhase.listing dir got pending).items.length + 1 := by
    simp only [WalkPhase.items, length_append, length_singleton]
    omega
  rw [work, work, hlength]
  show 1 + (2 + _ + _) ≤ 2 + _ + _
  omega

theorem work_ended (hgot : Siblings dir got) :
    1 + work tree (.visiting (sorted got ++ pending)) ≤ work tree (.listing dir got pending) := by
  have hlength : (sorted got).length = got.length := length_insertionSort _ got
  refine work_lt_of_ahead_le ?_ ?_
  · simp only [WalkPhase.items, WalkPhase.own, length_append, hlength]
    omega
  · intro e _
    have hle : above got e.1 ≤ if Inside dir e.1 ∧ e.1 ∉ got.map Listed.path then 1 else 0 := hgot.above_le
    rw [WalkPhase.ahead, WalkPhase.ahead, above_append, above_sorted]
    omega

theorem Sound.work_le (hsound : Sound t₀ w.tree w.phase w.total visited) (hmoves : Moves w a tree phase total) :
    a.ofWalk + work tree phase ≤ work w.tree w.phase := by
  cases hmoves with
  | removed hremove =>
    have hsub : tree.entries ⊆ w.tree.entries := fun e he => (((remove_eq_some hremove).2 e).1 he).1
    have hless := total_le_of_subset (fun e => w.phase.ahead e.1) (Nodup.of_map _ tree.nodup) hsub
    rw [work, work, WalkAct.ofWalk]
    omega
  | rootFound hphase _ =>
    rw [hphase]
    refine work_lt_of_ahead_le (by decide : 1 + 2 * 1 < 4 + 2 * 0) ?_
    intro e _
    exact countP_le_length
  | rootMissing hphase _ =>
    rw [hphase]
    exact work_lt_of_ahead_le (by decide) fun _ _ => Nat.zero_le _
  | finished hphase | noDirectory hphase | lost hphase => exact work_done_lt (by rw [hphase]; exact nofun) _
  | @entered e pending hphase _ _ =>
    rw [hphase]
    refine work_lt_of_ahead_le ?_ ?_
    · show 2 + 2 * pending.length < 1 + 2 * (pending.length + 1)
      omega
    · intro e' _
      rw [WalkPhase.ahead, WalkPhase.ahead, above_cons]
      simp
  | vanished hphase | counted hphase =>
    rw [hphase]
    refine work_lt_of_ahead_le ?_ ?_
    · exact Nat.add_lt_add_left (Nat.mul_lt_mul_of_pos_left (Nat.lt_succ_self _) Nat.two_pos) 1
    · intro e' _
      rw [WalkPhase.ahead, WalkPhase.ahead, above_cons]
      exact Nat.le_add_right _ _
  | listed hphase hget hnew =>
    rw [hphase]
    exact work_listed hget hnew
  | ended hphase _ =>
    rw [hphase] at hsound ⊢
    exact work_ended (hsound.siblings _ _ _ rfl)
  | failed hphase _ => exact work_done_lt hphase _

theorem walk_bounded {root : Bytes} {actions : List WalkAct} (hrun : exec step (init root t₀) actions = some w) :
    tally step (fun _ a => a.ofWalk) (init root t₀) actions ≤ 4 + 3 * t₀.entries.length := by
  have hkeep : ∀ w a w', (∃ visited, Sound t₀ w.tree w.phase w.total visited) → step w a = some w' →
      ∃ visited, Sound t₀ w'.tree w'.phase w'.total visited := fun _ _ _ hsound hstep => Sound.step hsound hstep
  have hpay : ∀ w a w', (∃ visited, Sound t₀ w.tree w.phase w.total visited) → step w a = some w' →
      a.ofWalk + work w'.tree w'.phase ≤ work w.tree w.phase := by
    rintro w a w' ⟨visited, hsound⟩ hstep
    exact hsound.work_le (step_leads hstep)
  have hle : tally step (fun _ a => a.ofWalk) (init root t₀) actions + work w.tree w.phase ≤
      work (init root t₀).tree (init root t₀).phase := tally_add_le_start step hkeep hpay (sound_init root t₀) hrun
  have hstart : work (init root t₀).tree (init root t₀).phase = 4 + 3 * t₀.entries.length := by
    show 4 + 2 * 0 + 3 * Ledger.total (fun _ => 1) t₀.entries = _
    rw [total_one]
  omega

theorem walk_goes_on (hopen : ∀ r, w.phase ≠ .done r) :
    ∃ a w', a.ofWalk = 1 ∧ (∀ err, a ≠ .fail err) ∧ step w a = some w' := by
  have hnext : (∃ w', w.next = some w') → ∃ a w', a.ofWalk = 1 ∧ (∀ err, a ≠ .fail err) ∧ step w a = some w' := by
    rintro ⟨w', hw'⟩
    exact ⟨.next, w', rfl, fun _ h => (by cases h), hw'⟩
  cases hphase : w.phase with
  | start =>
    refine hnext ?_
    rw [next, hphase]
    dsimp only
    split
    · exact ⟨_, rfl⟩
    · exact ⟨_, rfl⟩
  | visiting pending =>
    refine hnext ?_
    rw [next, hphase]
    cases pending with
    | nil | cons => exact ⟨_, rfl⟩
  | listing dir got pending =>
    by_cases hend : w.tree.get dir = none ∨ Complete w.tree dir got
    · refine hnext ?_
      rw [next, hphase]
      dsimp only
      split
      · next node hget =>
        rw [if_pos (hend.resolve_left (by rw [hget]; exact Option.some_ne_none _))]
        exact ⟨_, rfl⟩
      · exact ⟨_, rfl⟩
    · -- a name that is there and was not handed over
      rw [not_or, Complete] at hend
      push Not at hend
      obtain ⟨_, ⟨path, node⟩, hmem, hne, hdir, hnew⟩ := hend
      have hpath : dir ++ [path.getLast hne] = path := by
        rw [← hdir]
        exact dropLast_append_getLast hne
      have hlist : ∃ w', w.list (path.getLast hne) true = some w' := by
        rw [list, hphase]
        dsimp only
        rw [hpath, get_eq_some_iff.2 hmem]
        dsimp only
        rw [if_neg hnew]
        exact ⟨_, rfl⟩
      obtain ⟨w', hw'⟩ := hlist
      exact ⟨.list (path.getLast hne) true, w', rfl, fun _ h => (by cases h), hw'⟩
  | done r => exact absurd hphase (hopen r)

end SizeWalk

end BuildkitService.Daemon
