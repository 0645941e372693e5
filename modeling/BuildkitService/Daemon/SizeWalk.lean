import BuildkitService.Daemon.Create
import BuildkitService.Lib.DirTree
import BuildkitService.Lib.Runs

/-!
# The walk of `directorySize`

`filepath.WalkDir` with the function of `directorySize`, system call by system call, in a tree from
which the reaper and other requests remove files and empty directories at any time.
-/

namespace BuildkitService.Daemon

open Strings Files

structure Listed where
  path : List Bytes
  isDir : Bool
  /-- The size, if the entry was asked for already. -/
  size : Option Nat
  deriving DecidableEq, Repr

inductive WalkPhase where
  /-- The root is to be asked for. -/
  | start
  /-- The entries that are still to be visited, in order. -/
  | visiting (pending : List Listed)
  /-- The names of a directory are being read. -/
  | listing (dir : List Bytes) (got pending : List Listed)
  | done (result : Except GoError Nat)

structure SizeWalk where
  /-- The path that the walk was given. -/
  root : Bytes
  tree : DirTree Bytes
  phase : WalkPhase
  total : Nat
  calls : List WalkEntry

inductive WalkAct where
  /-- Somebody else removes a file or an empty directory. -/
  | remove (path : List Bytes)
  /-- The next system call of the walk. -/
  | next
  /-- The listing hands over a name, with the type of its entry or without. -/
  | list (name : Bytes) (typed : Bool)
  /-- The next system call fails, and not because something is missing. -/
  | fail (err : GoError)
  deriving DecidableEq, Repr

variable {err : GoError} {e : Listed}

namespace SizeWalk

def init (root : Bytes) (tree : DirTree Bytes) : SizeWalk := ⟨root, tree, .start, 0, []⟩

def pathOf (w : SizeWalk) (path : List Bytes) : Bytes := path.foldl Path.join w.root

def rel (path : List Bytes) : Bytes := if path = [] then [] else Path.render false path

def infoPath (w : SizeWalk) (path : List Bytes) : Bytes :=
  w.pathOf path.dropLast ++ ascii "/" ++ path.getLastD []

def call (w : SizeWalk) (entry : WalkEntry) (next : WalkPhase) : SizeWalk :=
  match sumSizes [entry] w.total with
  | .error err => { w with phase := .done (.error err), calls := w.calls ++ [entry] }
  | .ok total => { w with phase := next, calls := w.calls ++ [entry], total := total }

def found (w : SizeWalk) (e : Listed) (info : Except GoError (Bool × Nat)) (next : WalkPhase) : SizeWalk :=
  w.call ⟨rel e.path, none, e.isDir, info⟩ next

def unread (w : SizeWalk) (dir : List Bytes) (err : GoError) (next : WalkPhase) : SizeWalk :=
  w.call ⟨rel dir, some err, true, .ok (false, 0)⟩ next

def entry (path : List Bytes) (node : DirTree.Node) (typed : Bool) : Listed :=
  ⟨path, node.isDir, if typed then none else some node.size⟩

def visit (w : SizeWalk) (e : Listed) (pending : List Listed) : SizeWalk :=
  if e.isDir then
    let w' := w.found e (.ok (false, 0)) (.listing e.path [] pending)
    match w.tree.get e.path with
    | some .dir => w'
    | some (.file _) =>
        w'.unread e.path (pathError (ascii "open") (w.pathOf e.path) (ascii "not a directory")) (.visiting pending)
    | none => w'.unread e.path (missing (ascii "open") (w.pathOf e.path)) (.visiting pending)
  else
    match e.size, w.tree.get e.path with
    | some size, _ => w.found e (.ok (true, size)) (.visiting pending)
    | none, some node => w.found e (.ok (true, node.size)) (.visiting pending)
    | none, none => w.found e (.error (missing (ascii "lstat") (w.infoPath e.path))) (.visiting pending)

def sorted (got : List Listed) : List Listed :=
  got.insertionSort fun a b => (!less (b.path.getLastD []) (a.path.getLastD [])) = true

def Complete (tree : DirTree Bytes) (dir : List Bytes) (got : List Listed) : Prop :=
  ∀ e ∈ tree.entries, e.1 ≠ [] → e.1.dropLast = dir → e.1 ∈ got.map Listed.path

instance (tree : DirTree Bytes) (dir : List Bytes) (got : List Listed) : Decidable (Complete tree dir got) :=
  inferInstanceAs (Decidable (∀ e ∈ tree.entries, e.1 ≠ [] → e.1.dropLast = dir → e.1 ∈ got.map Listed.path))

def next (w : SizeWalk) : Option SizeWalk :=
  match w.phase with
  | .start =>
      match w.tree.get [] with
      | some node => some { w with phase := .visiting [entry [] node false] }
      | none =>
          let err := missing (ascii "lstat") w.root
          some (w.call ⟨[], some err, false, .error err⟩ (.visiting []))
  | .visiting [] => some { w with phase := .done (.ok w.total) }
  | .visiting (e :: pending) => some (w.visit e pending)
  | .listing dir got pending =>
      match w.tree.get dir with
      | some _ =>
          if Complete w.tree dir got then some { w with phase := .visiting (sorted got ++ pending) } else none
      | none => some (w.unread dir (missing (ascii "readdirent") (w.pathOf dir)) (.visiting (sorted got ++ pending)))
  | .done _ => none

def list (w : SizeWalk) (name : Bytes) (typed : Bool) : Option SizeWalk :=
  match w.phase with
  | .listing dir got pending =>
      match w.tree.get (dir ++ [name]) with
      | some node =>
          if dir ++ [name] ∈ got.map Listed.path then none
          else some { w with phase := .listing dir (got ++ [entry (dir ++ [name]) node typed]) pending }
      | none => none
  | _ => none

def fail (w : SizeWalk) (err : GoError) : Option SizeWalk :=
  if err.is = some .notExist then none
  else
    match w.phase with
    | .start => some (w.call ⟨[], some err, false, .error err⟩ (.visiting []))
    | .visiting (e :: pending) =>
        if e.isDir then
          some ((w.found e (.ok (false, 0)) (.visiting pending)).unread e.path err (.visiting pending))
        else if e.size = none then some (w.found e (.error err) (.visiting pending))
        else none
    | .listing dir got pending => some (w.unread dir err (.visiting (sorted got ++ pending)))
    | .visiting [] | .done _ => none

def step (w : SizeWalk) : WalkAct → Option SizeWalk
  | .remove path => (w.tree.remove path).map fun tree => { w with tree := tree }
  | .next => w.next
  | .list name typed => w.list name typed
  | .fail err => w.fail err

/-! ### What a step does -/

inductive Moves (w : SizeWalk) : WalkAct → DirTree Bytes → WalkPhase → Nat → Prop
  | removed {path : List Bytes} {tree : DirTree Bytes} (hremove : w.tree.remove path = some tree) :
      Moves w (.remove path) tree w.phase w.total
  | rootFound {node : DirTree.Node} (hphase : w.phase = .start) (hget : w.tree.get [] = some node) :
      Moves w .next w.tree (.visiting [entry [] node false]) w.total
  | rootMissing (hphase : w.phase = .start) (hget : w.tree.get [] = none) : Moves w .next w.tree (.visiting []) w.total
  | finished (hphase : w.phase = .visiting []) : Moves w .next w.tree (.done (.ok w.total)) w.total
  | entered {e : Listed} {pending : List Listed} (hphase : w.phase = .visiting (e :: pending)) (hdir : e.isDir = true)
      (hget : w.tree.get e.path = some .dir) : Moves w .next w.tree (.listing e.path [] pending) w.total
  | vanished {e : Listed} {pending : List Listed} (hphase : w.phase = .visiting (e :: pending)) (hdir : e.isDir = true)
      (hget : w.tree.get e.path = none) : Moves w .next w.tree (.visiting pending) w.total
  | noDirectory {e : Listed} {pending : List Listed} {size : Nat} {err : GoError}
      (hphase : w.phase = .visiting (e :: pending)) (hdir : e.isDir = true)
      (hget : w.tree.get e.path = some (.file size)) (herr : err.is = none) :
      Moves w .next w.tree (.done (.error err)) w.total
  | counted {e : Listed} {pending : List Listed} {size : Nat} (hphase : w.phase = .visiting (e :: pending))
      (hfile : e.isDir = false)
      (hsize : e.size = some size ∨ e.size = none ∧ ∃ node, w.tree.get e.path = some node ∧ size = node.size) :
      Moves w .next w.tree (.visiting pending) (w.total + size)
  | lost {e : Listed} {pending : List Listed} {err : GoError} (hphase : w.phase = .visiting (e :: pending))
      (hfile : e.isDir = false) (hsize : e.size = none) (hget : w.tree.get e.path = none)
      (herr : err.is = some .notExist) : Moves w .next w.tree (.done (.error err)) w.total
  | listed {dir : List Bytes} {got pending : List Listed} {name : Bytes} {typed : Bool} {node : DirTree.Node}
      (hphase : w.phase = .listing dir got pending) (hget : w.tree.get (dir ++ [name]) = some node)
      (hnew : dir ++ [name] ∉ got.map Listed.path) :
      Moves w (.list name typed) w.tree (.listing dir (got ++ [entry (dir ++ [name]) node typed]) pending) w.total
  | ended {dir : List Bytes} {got pending : List Listed} (hphase : w.phase = .listing dir got pending)
      (hend : w.tree.get dir = none ∨ Complete w.tree dir got) :
      Moves w .next w.tree (.visiting (sorted got ++ pending)) w.total
  | failed {err : GoError} (hphase : ∀ r, w.phase ≠ .done r) (herr : err.is ≠ some .notExist) :
      Moves w (.fail err) w.tree (.done (.error err)) w.total

def Leads (w : SizeWalk) (a : WalkAct) (w' : SizeWalk) : Prop := Moves w a w'.tree w'.phase w'.total

variable {w w' : SizeWalk} {a : WalkAct}

theorem call_missing {e : WalkEntry} (herr : e.err = some err) (his : err.is = some .notExist)
    (next : WalkPhase) : w.call e next = { w with phase := next, calls := w.calls ++ [e] } := by
  have hsum : sumSizes [e] w.total = .ok w.total := by
    rw [sumSizes, herr]
    dsimp only
    rw [if_pos his, sumSizes]
  rw [call, hsum]

theorem call_error {e : WalkEntry} (herr : e.err = some err) (his : err.is ≠ some .notExist)
    (next : WalkPhase) : w.call e next = { w with phase := .done (.error err), calls := w.calls ++ [e] } := by
  have hsum : sumSizes [e] w.total = .error err := by
    rw [sumSizes, herr]
    dsimp only
    rw [if_neg his]
  rw [call, hsum]

theorem found_dir (hdir : e.isDir = true) (info : Except GoError (Bool × Nat)) (next : WalkPhase) :
    w.found e info next = { w with phase := next, calls := w.calls ++ [⟨rel e.path, none, e.isDir, info⟩] } := by
  have hsum : sumSizes [⟨rel e.path, none, e.isDir, info⟩] w.total = .ok w.total := by
    rw [sumSizes]
    dsimp only
    rw [if_pos hdir, sumSizes]
  rw [found, call, hsum]

theorem found_file (hfile : e.isDir = false) (regular : Bool) (size : Nat) (next : WalkPhase) :
    w.found e (.ok (regular, size)) next =
      { w with phase := next, calls := w.calls ++ [⟨rel e.path, none, e.isDir, .ok (regular, size)⟩],
               total := w.total + size } := by
  have hsum : sumSizes [⟨rel e.path, none, e.isDir, .ok (regular, size)⟩] w.total = .ok (w.total + size) := by
    rw [sumSizes]
    dsimp only
    rw [if_neg (by rw [hfile]; decide), sumSizes]
  rw [found, call, hsum]

theorem found_error (hfile : e.isDir = false) (err : GoError) (next : WalkPhase) :
    w.found e (.error err) next =
      { w with phase := .done (.error err), calls := w.calls ++ [⟨rel e.path, none, e.isDir, .error err⟩] } := by
  have hsum : sumSizes [⟨rel e.path, none, e.isDir, .error err⟩] w.total = .error err := by
    rw [sumSizes]
    dsimp only
    rw [if_neg (by rw [hfile]; decide)]
  rw [found, call, hsum]

/-! ### What the calls amount to -/

theorem sumSizes_concat (entries : List WalkEntry) (e : WalkEntry) (total : Nat) :
    sumSizes (entries ++ [e]) total = (sumSizes entries total).bind (sumSizes [e]) := by
  induction entries generalizing total with
  | nil => rfl
  | cons first entries ih =>
    rw [List.cons_append, sumSizes, sumSizes]
    split
    · split_ifs
      · exact ih total
      · rfl
    · split_ifs
      · exact ih total
      · split
        · rfl
        · exact ih _

def outcome (w : SizeWalk) : Except GoError Nat :=
  match w.phase with
  | .done result => result
  | _ => .ok w.total

def Recorded (w : SizeWalk) : Prop := sumSizes w.calls 0 = w.outcome

theorem outcome_of_open (hopen : ∀ r, w.phase ≠ .done r) : w.outcome = .ok w.total := by
  rw [outcome]
  split
  · next result hphase => exact absurd hphase (hopen result)
  · rfl

theorem Recorded.call (hrecorded : w.Recorded) (hopen : ∀ r, w.phase ≠ .done r) (e : WalkEntry) {next : WalkPhase}
    (hnext : ∀ r, next ≠ .done r) : (w.call e next).Recorded := by
  have hcalls : sumSizes (w.calls ++ [e]) 0 = sumSizes [e] w.total := by
    rw [sumSizes_concat, hrecorded, outcome_of_open hopen]
    rfl
  cases hsum : sumSizes [e] w.total with
  | error err =>
    rw [SizeWalk.call, hsum]
    exact hcalls.trans hsum
  | ok total =>
    rw [SizeWalk.call, hsum]
    have hgoes : ({ w with phase := next, calls := w.calls ++ [e], total := total } : SizeWalk).outcome = .ok total :=
      outcome_of_open hnext
    exact (hcalls.trans hsum).trans hgoes.symm

theorem Recorded.calls (hrecorded : w.Recorded) (hopen : ∀ r, w.phase ≠ .done r) (hdir : e.isDir = true)
    (info : Except GoError (Bool × Nat)) {next later : WalkPhase} (hnext : ∀ r, next ≠ .done r)
    (hlater : ∀ r, later ≠ .done r) : ((w.found e info next).unread e.path err later).Recorded := by
  have hfound : (w.found e info next).Recorded := hrecorded.call hopen _ hnext
  refine Recorded.call hfound ?_ _ hlater
  rw [found_dir hdir]
  exact hnext

/-! ### The steps -/

theorem open_visiting (pending : List Listed) (r : Except GoError Nat) : WalkPhase.visiting pending ≠ .done r := nofun

theorem open_listing (dir : List Bytes) (got pending : List Listed) (r : Except GoError Nat) :
    WalkPhase.listing dir got pending ≠ .done r := nofun

theorem open_of_step (hstep : w.step a = some w') (hact : ∀ path, a ≠ .remove path) (r : Except GoError Nat) :
    w.phase ≠ .done r := by
  intro hphase
  cases a with
  | remove path => exact hact path rfl
  | next =>
    rw [step, next, hphase] at hstep
    cases hstep
  | list name typed =>
    rw [step, list, hphase] at hstep
    cases hstep
  | fail err =>
    rw [step, fail, hphase] at hstep
    split_ifs at hstep

theorem visit_leads {pending : List Listed} (hphase : w.phase = .visiting (e :: pending)) :
    w.Leads .next (w.visit e pending) ∧ (w.Recorded → (w.visit e pending).Recorded) := by
  have hopen : ∀ r, w.phase ≠ .done r := hphase ▸ open_visiting (e :: pending)
  rw [visit]
  split
  · next hdir =>
    dsimp only
    split
    · next hget =>
      refine ⟨?_, fun hrecorded => hrecorded.call hopen _ (open_listing _ _ _)⟩
      rw [found_dir hdir]
      exact .entered hphase hdir hget
    · next hget =>
      refine ⟨?_, fun hrecorded => hrecorded.calls hopen hdir _ (open_listing _ _ _) (open_visiting _)⟩
      rw [found_dir hdir, unread, call_error rfl (Option.some_ne_none _).symm]
      exact .noDirectory hphase hdir hget rfl
    · next hget =>
      refine ⟨?_, fun hrecorded => hrecorded.calls hopen hdir _ (open_listing _ _ _) (open_visiting _)⟩
      rw [found_dir hdir, unread, call_missing rfl rfl]
      exact .vanished hphase hdir hget
  · next hdir =>
    have hfile : e.isDir = false := Bool.not_eq_true _ ▸ hdir
    split
    · next hsize =>
      refine ⟨?_, fun hrecorded => hrecorded.call hopen _ (open_visiting _)⟩
      rw [found_file hfile]
      exact .counted hphase hfile (.inl hsize)
    · next node hsize hget =>
      refine ⟨?_, fun hrecorded => hrecorded.call hopen _ (open_visiting _)⟩
      rw [found_file hfile]
      exact .counted hphase hfile (.inr ⟨hsize, node, hget, rfl⟩)
    · next hsize hget =>
      refine ⟨?_, fun hrecorded => hrecorded.call hopen _ (open_visiting _)⟩
      rw [found_error hfile]
      exact .lost hphase hfile hsize hget rfl

section

variable (hopen : ∀ r, w.phase ≠ .done r)

include hopen

theorem next_leads (hnext : w.next = some w') : w.Leads .next w' ∧ (w.Recorded → w'.Recorded) := by
  rw [next] at hnext
  split at hnext
  · next hphase =>
    split at hnext
    · next node hget =>
      rw [← Option.some.inj hnext]
      exact ⟨.rootFound hphase hget, fun hrecorded => hrecorded.trans (outcome_of_open hopen)⟩
    · next hget =>
      rw [← Option.some.inj hnext]
      refine ⟨?_, fun hrecorded => hrecorded.call hopen _ (open_visiting _)⟩
      rw [call_missing rfl rfl]
      exact .rootMissing hphase hget
  · next hphase =>
    rw [← Option.some.inj hnext]
    exact ⟨.finished hphase, fun hrecorded => hrecorded.trans (outcome_of_open hopen)⟩
  · next hphase =>
    rw [← Option.some.inj hnext]
    exact visit_leads hphase
  · next hphase =>
    split at hnext
    · split_ifs at hnext with hcomplete
      rw [← Option.some.inj hnext]
      exact ⟨.ended hphase (.inr hcomplete), fun hrecorded => hrecorded.trans (outcome_of_open hopen)⟩
    · next hget =>
      rw [← Option.some.inj hnext]
      refine ⟨?_, fun hrecorded => hrecorded.call hopen _ (open_visiting _)⟩
      rw [unread, call_missing rfl rfl]
      exact .ended hphase (.inl hget)
  · cases hnext

theorem list_leads {name : Bytes} {typed : Bool}
    (hlist : w.list name typed = some w') : w.Leads (.list name typed) w' ∧ (w.Recorded → w'.Recorded) := by
  rw [list] at hlist
  split at hlist
  · next hphase =>
    split at hlist
    · next hget =>
      split_ifs at hlist with hnew
      rw [← Option.some.inj hlist]
      exact ⟨.listed hphase hget hnew, fun hrecorded => hrecorded.trans (outcome_of_open hopen)⟩
    · cases hlist
  · cases hlist

theorem fail_leads (hfail : w.fail err = some w') : w.Leads (.fail err) w' ∧ (w.Recorded → w'.Recorded) := by
  rw [fail] at hfail
  split at hfail
  · cases hfail
  · next herr =>
    split at hfail
    · rw [← Option.some.inj hfail]
      refine ⟨?_, fun hrecorded => hrecorded.call hopen _ (open_visiting _)⟩
      rw [call_error rfl herr]
      exact .failed hopen herr
    · split_ifs at hfail with hdir hsize
      · rw [← Option.some.inj hfail]
        refine ⟨?_, fun hrecorded => hrecorded.calls hopen hdir _ (open_visiting _) (open_visiting _)⟩
        rw [found_dir hdir, unread, call_error rfl herr]
        exact .failed hopen herr
      · rw [← Option.some.inj hfail]
        refine ⟨?_, fun hrecorded => hrecorded.call hopen _ (open_visiting _)⟩
        rw [found_error (Bool.not_eq_true _ ▸ hdir)]
        exact .failed hopen herr
    · rw [← Option.some.inj hfail]
      refine ⟨?_, fun hrecorded => hrecorded.call hopen _ (open_visiting _)⟩
      rw [unread, call_error rfl herr]
      exact .failed hopen herr
    · cases hfail
    · cases hfail

end

theorem step_spec (hstep : w.step a = some w') : w.Leads a w' ∧ (w.Recorded → w'.Recorded) := by
  have hopen := open_of_step hstep
  cases a with
  | remove path =>
    obtain ⟨tree, hremove, rfl⟩ := Option.map_eq_some_iff.1 hstep
    exact ⟨.removed hremove, id⟩
  | next => exact next_leads (hopen nofun) hstep
  | list name typed => exact list_leads (hopen nofun) hstep
  | fail err => exact fail_leads (hopen nofun) hstep

theorem step_leads (hstep : w.step a = some w') : w.Leads a w' := (step_spec hstep).1

theorem step_of_done {r : Except GoError Nat} (hphase : w.phase = .done r) (hstep : w.step a = some w') :
    w'.phase = .done r := by
  have hopen := open_of_step hstep
  cases a with
  | remove path =>
    obtain ⟨tree, _, rfl⟩ := Option.map_eq_some_iff.1 hstep
    exact hphase
  | next | list | fail => exact absurd hphase (hopen nofun r)

theorem recorded_run {root : Bytes} {tree : DirTree Bytes} {actions : List WalkAct}
    (hrun : Runs.exec step (init root tree) actions = some w) : w.Recorded := by
  have hstart : (init root tree).Recorded := rfl
  exact Runs.exec_invariant step (fun _ _ _ hrecorded hstep => (step_spec hstep).2 hrecorded) hstart hrun

end SizeWalk

end BuildkitService.Daemon
