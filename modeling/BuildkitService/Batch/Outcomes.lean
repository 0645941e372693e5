import BuildkitService.Lib.Assoc
import BuildkitService.Lib.Strings

/-!
# Counting outcomes

`buildOutcomeCounters` of `internal/buildbatch/results.go`: the last known outcome of every target,
and how many targets there are of each.
-/

namespace BuildkitService.Batch

open List

inductive BuildOutcomeState
  | unknown
  | failed
  | succeeded
  deriving DecidableEq, Repr

structure OutcomeMap where
  entries : List (Bytes × BuildOutcomeState)
  nodup : (entries.map Prod.fst).Nodup

namespace OutcomeMap

def empty : OutcomeMap := ⟨[], List.nodup_nil⟩

def get (m : OutcomeMap) (target : Bytes) : BuildOutcomeState := (m.entries.lookup target).getD .unknown

def set (m : OutcomeMap) (target : Bytes) (state : BuildOutcomeState) : OutcomeMap :=
  ⟨Assoc.put target state m.entries, Assoc.nodup_put m.nodup⟩

def count (m : OutcomeMap) (state : BuildOutcomeState) : Nat := m.entries.countP (·.2 == state)

end OutcomeMap

structure BuildOutcomeCounters where
  total : Int
  succeeded : Int
  failed : Int
  states : OutcomeMap

namespace BuildOutcomeCounters

def leave (c : BuildOutcomeCounters) : BuildOutcomeState → BuildOutcomeCounters
  | .succeeded => { c with succeeded := c.succeeded - 1 }
  | .failed => { c with failed := c.failed - 1 }
  | .unknown => c

def enter (c : BuildOutcomeCounters) : BuildOutcomeState → BuildOutcomeCounters
  | .succeeded => { c with succeeded := c.succeeded + 1 }
  | .failed => { c with failed := c.failed + 1 }
  | .unknown => c

def move (c : BuildOutcomeCounters) (target : Bytes) (next : BuildOutcomeState) : BuildOutcomeCounters :=
  if c.states.get target = next then c
  else { (c.leave (c.states.get target)).enter next with states := c.states.set target next }

def apply (c : BuildOutcomeCounters) (target : Bytes) (success : Bool) : BuildOutcomeCounters :=
  c.move target (if success then .succeeded else .failed)

def applyExisting (c : BuildOutcomeCounters) (target : Bytes) (state : BuildOutcomeState) : BuildOutcomeCounters :=
  c.move target state

def decrementTotal (c : BuildOutcomeCounters) : BuildOutcomeCounters :=
  { c with total := if 0 < c.total then c.total - 1 else c.total }

def snapshot (c : BuildOutcomeCounters) : Int × Int × Int := (c.succeeded, c.total, c.failed)

end BuildOutcomeCounters

def newBuildOutcomeCounters (total : Int) (states : OutcomeMap) : BuildOutcomeCounters :=
  states.entries.foldl (fun c e => { c.enter e.2 with states := c.states.set e.1 e.2 }) ⟨total, 0, 0, .empty⟩

inductive OutcomeCall
  | apply (target : Bytes) (success : Bool)
  | applyExisting (target : Bytes) (state : BuildOutcomeState)
  | decrementTotal
  deriving DecidableEq, Repr

def OutcomeCall.run (c : BuildOutcomeCounters) : OutcomeCall → BuildOutcomeCounters
  | .apply target success => c.apply target success
  | .applyExisting target state => c.applyExisting target state
  | .decrementTotal => c.decrementTotal

def runCalls (c : BuildOutcomeCounters) (calls : List OutcomeCall) : BuildOutcomeCounters := calls.foldl OutcomeCall.run c

/-! ### Counts -/

variable {c : BuildOutcomeCounters} {m m' : OutcomeMap} {state : BuildOutcomeState}

theorem get_set (target other : Bytes) : (m.set target state).get other = if other = target then state else m.get other := by
  rw [OutcomeMap.get, OutcomeMap.set, Assoc.lookup_put, OutcomeMap.get]
  simp only [beq_iff_eq]
  split_ifs <;> rfl

theorem lookup_iff_get (hstate : state ≠ .unknown) (target : Bytes) : m.entries.lookup target = some state ↔ m.get target = state := by
  rw [OutcomeMap.get]
  cases m.entries.lookup target with
  | none => simp [hstate.symm]
  | some held => simp

theorem count_congr (hsame : ∀ target, m'.get target = m.get target) (hstate : state ≠ .unknown) :
    m'.count state = m.count state := by
  refine Assoc.countP_congr (· == state) m.nodup m'.nodup ?_
  intro target value hvalue
  rw [beq_iff_eq.1 hvalue, lookup_iff_get hstate, lookup_iff_get hstate, hsame]

theorem count_set (hstate : state ≠ .unknown) (target : Bytes) (next : BuildOutcomeState) :
    (m.set target next).count state + (if m.get target = state then 1 else 0) =
      m.count state + if next = state then 1 else 0 := by
  have hput := Assoc.countP_put (· == state) m.nodup target next
  have hheld : (m.entries.lookup target).any (· == state) = (m.get target == state) := by
    rw [OutcomeMap.get]
    cases m.entries.lookup target with
    | none => exact (beq_false_of_ne hstate.symm).symm
    | some held => rfl
  have htoNat (held : BuildOutcomeState) : (held == state).toNat = if held = state then 1 else 0 := by
    by_cases hsame : held = state <;> simp [hsame]
  rw [hheld, htoNat, htoNat] at hput
  exact hput

structure Counted (c : BuildOutcomeCounters) : Prop where
  succeeded : c.succeeded = c.states.count .succeeded
  failed : c.failed = c.states.count .failed

theorem leave_eq (c : BuildOutcomeCounters) (state : BuildOutcomeState) : c.leave state = { c with
    succeeded := c.succeeded - if state = .succeeded then 1 else 0,
    failed := c.failed - if state = .failed then 1 else 0 } := by
  cases state <;> simp [BuildOutcomeCounters.leave]

theorem enter_eq (c : BuildOutcomeCounters) (state : BuildOutcomeState) : c.enter state = { c with
    succeeded := c.succeeded + if state = .succeeded then 1 else 0,
    failed := c.failed + if state = .failed then 1 else 0 } := by
  cases state <;> simp [BuildOutcomeCounters.enter]

theorem Counted.replace (hcounted : Counted c) (target : Bytes) (next : BuildOutcomeState) :
    Counted { (c.leave (c.states.get target)).enter next with states := c.states.set target next } := by
  obtain ⟨hsucceeded, hfailed⟩ := hcounted
  have hset (state : BuildOutcomeState) (hstate : state ≠ .unknown) := count_set (m := c.states) hstate target next
  have hup := hset .succeeded (by decide)
  have hdown := hset .failed (by decide)
  rw [leave_eq, enter_eq]
  constructor
  · dsimp only
    split_ifs at hup ⊢ <;> omega
  · dsimp only
    split_ifs at hdown ⊢ <;> omega

theorem Counted.move (hcounted : Counted c) (target : Bytes) (next : BuildOutcomeState) : Counted (c.move target next) := by
  rw [BuildOutcomeCounters.move]
  split_ifs
  · exact hcounted
  · exact hcounted.replace target next

theorem counted_foldl {entries : List (Bytes × BuildOutcomeState)} (hnodup : (entries.map Prod.fst).Nodup)
    (hcounted : Counted c) (hnew : ∀ e ∈ entries, c.states.get e.1 = .unknown) :
    Counted (entries.foldl (fun c e => { c.enter e.2 with states := c.states.set e.1 e.2 }) c) ∧
      (∀ target, (entries.foldl (fun c e => { c.enter e.2 with states := c.states.set e.1 e.2 }) c).states.get target =
        (entries.lookup target).getD (c.states.get target)) ∧
      (entries.foldl (fun c e => { c.enter e.2 with states := c.states.set e.1 e.2 }) c).total = c.total := by
  induction entries generalizing c with
  | nil => exact ⟨hcounted, fun _ => rfl, rfl⟩
  | cons e entries ih =>
    obtain ⟨hother, hnodup⟩ := nodup_cons.1 hnodup
    obtain ⟨hfirst, hnew⟩ := forall_mem_cons.1 hnew
    have hne {e' : Bytes × BuildOutcomeState} (he' : e' ∈ entries) : e'.1 ≠ e.1 := by
      intro heq
      exact hother (List.mem_map.2 ⟨e', he', heq⟩)
    have hentered : Counted { c.enter e.2 with states := c.states.set e.1 e.2 } := by
      have hreplaced := hcounted.replace e.1 e.2
      rwa [hfirst] at hreplaced
    obtain ⟨hcounted, hget, htotal⟩ := ih hnodup hentered fun e' he' => by
      rw [get_set, if_neg (hne he'), hnew e' he']
    refine ⟨hcounted, fun target => ?_, htotal.trans ?_⟩
    · rw [foldl_cons, hget, get_set, lookup_cons]
      by_cases htarget : target = e.1
      · have hnone : entries.lookup target = none := by
          refine lookup_eq_none_iff.2 fun e' he' => bne_iff_ne.2 ?_
          rw [htarget]
          exact (hne he').symm
        rw [hnone, if_pos htarget, beq_iff_eq.2 htarget]
        rfl
      · rw [if_neg htarget, beq_false_of_ne htarget]
    · rw [enter_eq]

theorem counted_new (total : Int) (states : OutcomeMap) : Counted (newBuildOutcomeCounters total states) ∧
      (∀ target, (newBuildOutcomeCounters total states).states.get target = states.get target) ∧
      (newBuildOutcomeCounters total states).total = total :=
  counted_foldl states.nodup ⟨rfl, rfl⟩ fun _ _ => rfl

/-! ### Calls -/

def OutcomeCall.sets (target : Bytes) : OutcomeCall → Option BuildOutcomeState
  | .apply name success => if name = target then some (if success then .succeeded else .failed) else none
  | .applyExisting name state => if name = target then some state else none
  | .decrementTotal => none

def lastState (target : Bytes) (calls : List OutcomeCall) : Option BuildOutcomeState :=
  calls.reverse.findSome? (OutcomeCall.sets target)

def OutcomeCall.target : OutcomeCall → Option Bytes
  | .apply target _ | .applyExisting target _ => some target
  | .decrementTotal => none

theorem get_move (c : BuildOutcomeCounters) (target other : Bytes) (next : BuildOutcomeState) :
    (c.move target next).states.get other = if target = other then next else c.states.get other := by
  rw [BuildOutcomeCounters.move]
  split_ifs with hsame hother hother
  · rw [← hother, hsame]
  · rfl
  · exact (get_set target other).trans (if_pos hother.symm)
  · exact (get_set target other).trans (if_neg (Ne.symm hother))

theorem total_move (c : BuildOutcomeCounters) (target : Bytes) (next : BuildOutcomeState) :
    (c.move target next).total = c.total := by
  rw [BuildOutcomeCounters.move]
  split_ifs
  · rfl
  · rw [leave_eq, enter_eq]

theorem Counted.run (hcounted : Counted c) (call : OutcomeCall) : Counted (call.run c) := by
  cases call with
  | apply target success => exact hcounted.move target _
  | applyExisting target state => exact hcounted.move target state
  | decrementTotal => exact ⟨hcounted.succeeded, hcounted.failed⟩

theorem get_run (c : BuildOutcomeCounters) (call : OutcomeCall) (target : Bytes) :
    (call.run c).states.get target = (call.sets target).getD (c.states.get target) := by
  cases call with
  | apply name success =>
    refine (get_move c name target _).trans ?_
    rw [OutcomeCall.sets]
    split_ifs <;> rfl
  | applyExisting name state =>
    refine (get_move c name target state).trans ?_
    rw [OutcomeCall.sets]
    split_ifs <;> rfl
  | decrementTotal => rfl

def down (total : Int) : Int := if 0 < total then total - 1 else total

theorem runCalls_spec (hcounted : Counted c) (calls : List OutcomeCall) : Counted (runCalls c calls) ∧
      (∀ target, (runCalls c calls).states.get target = (lastState target calls).getD (c.states.get target)) ∧
      (runCalls c calls).total = down^[calls.count .decrementTotal] c.total := by
  induction calls using reverseRecOn with
  | nil => exact ⟨hcounted, fun _ => rfl, rfl⟩
  | append_singleton calls call ih =>
    obtain ⟨hcounted, hget, htotal⟩ := ih
    have hlast : runCalls c (calls ++ [call]) = call.run (runCalls c calls) := by
      rw [runCalls, foldl_append]
      rfl
    rw [hlast]
    refine ⟨hcounted.run call, fun target => ?_, ?_⟩
    · rw [get_run, hget, lastState, lastState, reverse_append, reverse_singleton, singleton_append,
        findSome?_cons]
      cases call.sets target with
      | none | some => rfl
    · rw [count_append, count_singleton]
      cases call with
      | apply target success => exact (total_move _ _ _).trans htotal
      | applyExisting target state => exact (total_move _ _ _).trans htotal
      | decrementTotal =>
        have honce : (runCalls c calls).decrementTotal.total = down (runCalls c calls).total := rfl
        rw [OutcomeCall.run, honce, htotal]
        exact (Function.iterate_succ_apply' down _ _).symm

theorem down_nonneg (n : Nat) {total : Int} (htotal : 0 ≤ total) : 0 ≤ down^[n] total := by
  induction n with
  | zero => exact htotal
  | succ n ih =>
    rw [Function.iterate_succ_apply', down]
    split_ifs
    · omega
    · exact ih

theorem lastState_swap {a b : OutcomeCall} (hdiffer : a.target ≠ b.target) (before after : List OutcomeCall) (target : Bytes) :
    lastState target (before ++ b :: a :: after) = lastState target (before ++ a :: b :: after) := by
  have hone : a.sets target = none ∨ b.sets target = none := by
    cases a <;> cases b <;> simp_all [OutcomeCall.sets, OutcomeCall.target] <;> grind
  simp only [lastState, reverse_append, reverse_cons, append_assoc, findSome?_append,
    singleton_append, findSome?_cons]
  rcases hone with hnone | hnone
  · rw [hnone]
  · rw [hnone]

/-- The counters after any calls. -/
theorem outcome_counters (total : Int) (states : OutcomeMap) (calls : List OutcomeCall) :
    let run := runCalls (newBuildOutcomeCounters total states)
    ((run calls).succeeded = (run calls).states.count .succeeded ∧ (run calls).failed = (run calls).states.count .failed) ∧
    (0 ≤ total → 0 ≤ (run calls).total) ∧
    (∀ target, (run calls).states.get target = (lastState target calls).getD (states.get target)) ∧
    (∀ calls', (∀ target, lastState target calls' = lastState target calls) →
      (∀ target, (run calls').states.get target = (run calls).states.get target) ∧
      (run calls').succeeded = (run calls).succeeded ∧ (run calls').failed = (run calls).failed) ∧
    ∀ before a b after, calls = before ++ a :: b :: after → a.target ≠ b.target →
      (∀ target, (run (before ++ b :: a :: after)).states.get target = (run calls).states.get target) ∧
      (run (before ++ b :: a :: after)).snapshot = (run calls).snapshot := by
  intro run
  obtain ⟨hnew, hstates, htotal⟩ := counted_new total states
  have hspec (calls : List OutcomeCall) := runCalls_spec hnew calls
  have hagree : ∀ calls', (∀ target, lastState target calls' = lastState target calls) →
      (∀ target, (run calls').states.get target = (run calls).states.get target) ∧
      (run calls').succeeded = (run calls).succeeded ∧ (run calls').failed = (run calls).failed := by
    intro calls' hlast
    have hget : ∀ target, (run calls').states.get target = (run calls).states.get target := by
      intro target
      rw [(hspec calls').2.1, (hspec calls).2.1, hlast]
    refine ⟨hget, ?_, ?_⟩
    · rw [(hspec calls').1.succeeded, (hspec calls).1.succeeded, count_congr hget (by decide)]
    · rw [(hspec calls').1.failed, (hspec calls).1.failed, count_congr hget (by decide)]
  refine ⟨⟨(hspec calls).1.succeeded, (hspec calls).1.failed⟩, ?_, ?_, hagree, ?_⟩
  · intro hnonneg
    rw [(hspec calls).2.2, htotal]
    exact down_nonneg _ hnonneg
  · intro target
    rw [(hspec calls).2.1, hstates]
  · rintro before a b after rfl hdiffer
    obtain ⟨hget, hsucceeded, hfailed⟩ := hagree (before ++ b :: a :: after) (lastState_swap hdiffer before after)
    have hcount : (before ++ b :: a :: after).count .decrementTotal = (before ++ a :: b :: after).count .decrementTotal :=
      ((List.Perm.swap a b after).append_left before).count_eq _
    refine ⟨hget, ?_⟩
    rw [BuildOutcomeCounters.snapshot, hsucceeded, hfailed, (hspec _).2.2, hcount, ← (hspec (before ++ a :: b :: after)).2.2]
    rfl

end BuildkitService.Batch
