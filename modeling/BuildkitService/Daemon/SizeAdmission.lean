import BuildkitService.Daemon.SizeBounds

/-!
# Admission while others remove

The walk of `directorySize` ends with an error for something that is missing exactly if a file is
removed after it was listed and before its size was asked for: the function skips a root,
directories and listings that are gone, but returns the error of `Info` as it is.
-/

namespace BuildkitService.Daemon

open Strings Files DirTree List Prog Runs

variable {e : Listed} {got pending : List Listed} {dir p : List Bytes}

/-! ### Files that are listed and not asked for -/

def WalkPhase.awaited (phase : WalkPhase) : List (List Bytes) :=
  (phase.items.filter fun e => !e.isDir && e.size.isNone).map Listed.path

theorem WalkPhase.mem_awaited {phase : WalkPhase} :
    p ∈ phase.awaited ↔ ∃ e ∈ phase.items, e.isDir = false ∧ e.size = none ∧ e.path = p := by
  rw [awaited, List.mem_map]
  refine exists_congr ?_
  intro e
  rw [mem_filter, Bool.and_eq_true, Bool.not_eq_true', Option.isNone_iff_eq_none]
  tauto

namespace SizeWalk

variable {t₀ tree : DirTree Bytes} {phase : WalkPhase} {total : Nat} {visited : List (List Bytes)} {w w' : SizeWalk}
  {a : WalkAct}

def Undisturbed (w : SizeWalk) : WalkAct → Prop
  | .remove path => path ∉ w.phase.awaited
  | .next | .list _ _ | .fail _ => True

instance (w : SizeWalk) (a : WalkAct) : Decidable (w.Undisturbed a) :=
  match a with
  | .remove path => inferInstanceAs (Decidable (path ∉ w.phase.awaited))
  | .next | .list _ _ | .fail _ => isTrue trivial

structure Kept (tree : DirTree Bytes) (phase : WalkPhase) : Prop where
  there : ∀ p ∈ phase.awaited, ∃ node, (p, node) ∈ tree.entries
  error : ∀ err, phase = .done (.error err) → err.is ≠ some .notExist

theorem Kept.of_items {next : WalkPhase} (hkept : Kept tree phase) (hitems : ∀ e ∈ next.items, e ∈ phase.items)
    (hopen : ∀ err, next ≠ .done (.error err)) : Kept tree next := by
  refine ⟨?_, fun err herr => absurd herr (hopen err)⟩
  intro p hp
  obtain ⟨e, he, hfile, hsize, hpath⟩ := WalkPhase.mem_awaited.1 hp
  exact hkept.there p (WalkPhase.mem_awaited.2 ⟨e, hitems e he, hfile, hsize, hpath⟩)

theorem kept_error {err : GoError} (herr : err.is ≠ some .notExist) : Kept tree (.done (.error err)) := by
  refine ⟨nofun, ?_⟩
  rintro _ ⟨rfl⟩
  exact herr

theorem mem_ended :
    e ∈ (WalkPhase.visiting (sorted got ++ pending)).items ↔ e ∈ (WalkPhase.listing dir got pending).items := by
  simp only [WalkPhase.items, mem_append, sorted, mem_insertionSort]

theorem Kept.moves (hkept : Kept w.tree w.phase) (hundisturbed : w.Undisturbed a) (hmoves : Moves w a tree phase total) :
    Kept tree phase := by
  cases hmoves with
  | removed hremove =>
    refine ⟨?_, hkept.error⟩
    intro p hp
    obtain ⟨node, hnode⟩ := hkept.there p hp
    refine ⟨node, ((remove_eq_some hremove).2 _).2 ⟨hnode, ?_⟩⟩
    rintro rfl
    exact hundisturbed hp
  | @rootFound node hphase hget =>
    -- the root is asked for first
    refine ⟨?_, fun _ h => (by cases h)⟩
    intro p hp
    obtain ⟨e, he, _, hsize, _⟩ := WalkPhase.mem_awaited.1 hp
    rw [mem_singleton.1 he] at hsize
    cases hsize
  | rootMissing hphase | finished => exact hkept.of_items (fun _ h => by cases h) fun _ h => by cases h
  | entered hphase | vanished hphase | counted hphase =>
    rw [hphase] at hkept
    exact hkept.of_items (fun _ he => mem_cons_of_mem _ he) fun _ h => by cases h
  | noDirectory hphase _ _ herr => exact kept_error (by rw [herr]; exact fun h => by cases h)
  | @lost e pending _ hphase hfile hsize hget _ =>
    have hawaited : e.path ∈ w.phase.awaited := by
      rw [hphase]
      exact WalkPhase.mem_awaited.2 ⟨e, mem_cons_self, hfile, hsize, rfl⟩
    obtain ⟨node, hnode⟩ := hkept.there e.path hawaited
    exact absurd rfl (get_eq_none_iff.1 hget _ hnode)
  | @listed dir got pending name typed node hphase hget _ =>
    refine ⟨?_, fun _ h => (by cases h)⟩
    intro p hp
    obtain ⟨e, he, hfile, hsize, rfl⟩ := WalkPhase.mem_awaited.1 hp
    have hitems : e ∈ w.phase.items ∨ e = entry (dir ++ [name]) node typed := by
      simp only [WalkPhase.items, mem_append, mem_singleton] at he
      simp only [hphase, WalkPhase.items, mem_append]
      tauto
    rcases hitems with he | rfl
    · exact hkept.there _ (WalkPhase.mem_awaited.2 ⟨e, he, hfile, hsize, rfl⟩)
    · exact ⟨node, get_eq_some_iff.1 hget⟩
  | ended hphase _ =>
    rw [hphase] at hkept
    exact hkept.of_items (fun _ he => mem_ended.1 he) fun _ h => by cases h
  | failed _ herr => exact kept_error herr

def Doomed (tree : DirTree Bytes) (phase : WalkPhase) : Prop :=
  (∃ p ∈ phase.awaited, ∀ e ∈ tree.entries, e.1 ≠ p) ∨
    ∃ err, phase = .done (.error err) ∧ err.is = some .notExist

theorem doomed_of_items {next : WalkPhase} (hitem : e ∈ next.items) (hfile : e.isDir = false) (hsize : e.size = none)
    (hgone : ∀ e' ∈ tree.entries, e'.1 ≠ e.path) : Doomed tree next :=
  .inl ⟨e.path, WalkPhase.mem_awaited.2 ⟨e, hitem, hfile, hsize, rfl⟩, hgone⟩

theorem doomed_of_gone (hgone : ∃ p ∈ w.phase.awaited, ∀ e ∈ w.tree.entries, e.1 ≠ p)
    (hsound : Sound t₀ w.tree w.phase w.total visited) (hmoves : Moves w a tree phase total)
    (hworks : ∀ err, a ≠ .fail err) : Doomed tree phase := by
  obtain ⟨p, hp, hgone⟩ := hgone
  obtain ⟨e, he, hfile, hsize, rfl⟩ := WalkPhase.mem_awaited.1 hp
  cases hmoves with
  | removed hremove =>
    exact doomed_of_items he hfile hsize fun e' he' => hgone e' (((remove_eq_some hremove).2 e').1 he').1
  | rootFound hphase | rootMissing hphase | finished hphase =>
    rw [hphase] at he
    cases he
  | entered hphase hdir | vanished hphase hdir =>
    rw [hphase] at he
    rcases mem_cons.1 he with rfl | he
    · exact absurd (hdir.symm.trans hfile) (by decide)
    · exact doomed_of_items he hfile hsize hgone
  | @noDirectory first _ _ _ hphase hdir hget _ =>
    -- a directory does not become a file
    have hfirst : first ∈ w.phase.items := by
      rw [hphase]
      exact mem_cons_self
    obtain ⟨node, hmem, hisDir, _⟩ := hsound.truthful first hfirst
    rw [node_unique hmem (hsound.subtree _ (get_eq_some_iff.1 hget)), hdir] at hisDir
    cases hisDir
  | counted hphase _ hcounted =>
    rw [hphase] at he
    rcases mem_cons.1 he with rfl | he
    · rcases hcounted with hknown | ⟨_, node, hget, _⟩
      · rw [hsize] at hknown
        cases hknown
      · exact absurd rfl (hgone _ (get_eq_some_iff.1 hget))
    · exact doomed_of_items he hfile hsize hgone
  | lost hphase _ _ _ herr => exact .inr ⟨_, rfl, herr⟩
  | listed hphase _ _ =>
    refine doomed_of_items ?_ hfile hsize hgone
    rw [hphase] at he
    simp only [WalkPhase.items, mem_append] at he ⊢
    tauto
  | ended hphase _ =>
    rw [hphase] at he
    exact doomed_of_items (mem_ended.2 he) hfile hsize hgone
  | failed _ _ => exact absurd rfl (hworks _)

theorem Doomed.step (hdoomed : Doomed w.tree w.phase) (hsound : ∃ visited, Sound t₀ w.tree w.phase w.total visited)
    (hworks : ∀ err, a ≠ .fail err) (hstep : w.step a = some w') : Doomed w'.tree w'.phase := by
  obtain ⟨visited, hsound⟩ := hsound
  rcases hdoomed with hgone | ⟨err, hphase, herr⟩
  · exact doomed_of_gone hgone hsound (step_leads hstep) hworks
  · exact .inr ⟨err, step_of_done hphase hstep, herr⟩

theorem doomed_of_disturbed (hdisturbed : ¬ w.Undisturbed a) (hmoves : Moves w a tree phase total) :
    Doomed tree phase := by
  cases a with
  | remove path =>
    cases hmoves with
    | removed hremove =>
      refine .inl ⟨path, not_not.1 hdisturbed, ?_⟩
      intro e he
      exact (((remove_eq_some hremove).2 e).1 he).2
  | next | list | fail => exact absurd trivial hdisturbed

/-! ### The answer to the request -/

def Measures (tasks : Nat) (calls : List WalkEntry) : Unit → (o : ServerOp) → ServerRes o → Unit → Prop
  | _, .storeLen, r, _ => r = tasks
  | _, .walkDir .sizes _, r, _ => r = calls
  | _, _, _, _ => True

theorem refused_500 {cfg : CreateConfig} {tasks : Nat} {calls : List WalkEntry} {refusal : Refusal}
    (hexec : Exec (Measures tasks calls) (checkLimits cfg) () (.error refusal) ()) (hstatus : refusal.status = 500) :
    ∃ err, sumSizes calls 0 = .error err ∧ refusal.error = err.text := by
  rw [checkLimits] at hexec
  cases hexec with
  | call hcount hrest =>
    dsimp only [Prog.bind] at hrest
    split_ifs at hrest with hfull
    · cases hrest
      cases hstatus
    · cases hrest with
      | @call _ _ _ _ _ reported _ hwalk hrest =>
        have hcalls : calls = reported := hwalk.symm
        subst hcalls
        dsimp only [Prog.bind, pure] at hrest
        cases hsum : sumSizes calls 0 with
        | error err =>
          rw [hsum] at hrest
          cases hrest
          exact ⟨err, rfl, rfl⟩
        | ok total =>
          rw [hsum] at hrest
          dsimp only at hrest
          split_ifs at hrest
          · cases hrest
            cases hstatus
          · cases hrest

structure Survives (root : Bytes) (t₀ : DirTree Bytes) (actions : List WalkAct) (w : SizeWalk) : Prop where
  found : ∀ err, w.phase = .done (.error err) → err.is ≠ some .notExist
  atMost : ∀ n, w.phase = .done (.ok n) → n ≤ bytes (someTime (Runs.states step (init root t₀) actions))
  atLeast : ∀ n, w.phase = .done (.ok n) → bytes (allTime t₀ (Runs.states step (init root t₀) actions)) ≤ n
  admitted : ∀ r, w.phase = .done r → ∀ cfg tasks refusal,
    Prog.Exec (Measures tasks w.calls) (checkLimits cfg) () (.error refusal) () → refusal.status = 500 →
      ∃ err : GoError, err.is ≠ some .notExist ∧ refusal.error = err.text
  goesOn : (∀ r, w.phase ≠ .done r) → ∃ a w', a.ofWalk = 1 ∧ (∀ err, a ≠ .fail err) ∧ step w a = some w'
  ends : Runs.tally step (fun _ a => a.ofWalk) (init root t₀) actions ≤ 4 + 3 * t₀.entries.length

variable {root : Bytes} {actions : List WalkAct}

section

variable (hrun : exec step (init root t₀) actions = some w)

include hrun

theorem kept_run (hundisturbed : Along step Undisturbed (init root t₀) actions) : Kept w.tree w.phase := by
  have hkeep : ∀ w a w', Kept w.tree w.phase → Undisturbed w a → step w a = some w' → Kept w'.tree w'.phase :=
    fun _ _ _ hkept hstill hstep => hkept.moves hstill (step_leads hstep)
  have hstart : Kept (init root t₀).tree (init root t₀).phase := ⟨nofun, nofun⟩
  exact exec_invariant_along step hkeep hstart hundisturbed hrun

theorem doomed_run (hworks : ∀ err, .fail err ∉ actions)
    (hdisturbed : ¬ Along step Undisturbed (init root t₀) actions) : Doomed w.tree w.phase := by
  have hkeep : ∀ w a w', (∃ visited, Sound t₀ w.tree w.phase w.total visited) → step w a = some w' →
      ∃ visited, Sound t₀ w'.tree w'.phase w'.total visited := fun _ _ _ hsound hstep => Sound.step hsound hstep
  have hbreach : ∀ w a w', (∃ visited, Sound t₀ w.tree w.phase w.total visited) → ¬ Undisturbed w a →
      step w a = some w' → Doomed w'.tree w'.phase :=
    fun _ _ _ _ hbroken hstep => doomed_of_disturbed hbroken (step_leads hstep)
  have hstay : ∀ w a w', (∃ visited, Sound t₀ w.tree w.phase w.total visited) → (∀ err, a ≠ .fail err) →
      Doomed w.tree w.phase → step w a = some w' → Doomed w'.tree w'.phase :=
    fun _ _ _ hsound hworks hdoomed hstep => hdoomed.step hsound hworks hstep
  refine exec_breach step hkeep hbreach hstay (sound_init root t₀) ?_ hrun (.inr hdisturbed)
  rintro a ha err rfl
  exact hworks err ha

theorem survives_of_kept (hkept : Kept w.tree w.phase) : Survives root t₀ actions w where
  found := hkept.error
  atMost n hdone := size_at_most hrun hdone
  atLeast n hdone := size_at_least hrun hdone
  admitted r hdone cfg tasks refusal hexec hstatus := by
    obtain ⟨err, hsum, htext⟩ := refused_500 hexec hstatus
    have hresult : r = .error err := by
      rw [recorded_run hrun, outcome, hdone] at hsum
      exact hsum
    subst hresult
    exact ⟨err, hkept.error err hdone, htext⟩
  goesOn hopen := walk_goes_on hopen
  ends := walk_bounded hrun

end

/-- Which removals the walk survives. -/
theorem directory_size_survives {root : Bytes} {t₀ : DirTree Bytes} {actions : List WalkAct} {w : SizeWalk}
    (hrun : Runs.exec step (init root t₀) actions = some w) :
    (Runs.Along step Undisturbed (init root t₀) actions → Survives root t₀ actions w) ∧
      ((∀ err, .fail err ∉ actions) → ∀ r, w.phase = .done r →
        (Survives root t₀ actions w ↔ Runs.Along step Undisturbed (init root t₀) actions)) := by
  have hsufficient : Runs.Along step Undisturbed (init root t₀) actions → Survives root t₀ actions w :=
    fun hundisturbed => survives_of_kept hrun (kept_run hrun hundisturbed)
  refine ⟨hsufficient, ?_⟩
  intro hworks r hdone
  refine ⟨?_, hsufficient⟩
  intro hsurvives
  by_contra hdisturbed
  rcases doomed_run hrun hworks hdisturbed with ⟨p, hp, _⟩ | ⟨err, herror, hmissing⟩
  · rw [hdone] at hp
    cases hp
  · exact hsurvives.found err herror hmissing

def sampleTree : DirTree Bytes where
  entries := [([], .dir), ([ascii "t1"], .dir), ([ascii "t1", ascii "source.zip"], .file 5), ([ascii "old.log"], .file 7)]
  nodup := by decide +kernel
  closed := by decide +kernel

def disturbed : List WalkAct :=
  [.next, .next, .list (ascii "t1") true, .list (ascii "old.log") true, .next, .next, .next,
    .list (ascii "source.zip") true, .next, .remove [ascii "t1", ascii "source.zip"], .next]

def undisturbed : List WalkAct :=
  [.next, .next, .list (ascii "t1") true, .list (ascii "old.log") true, .next, .next, .next,
    .remove [ascii "t1", ascii "source.zip"], .remove [ascii "t1"], .next, .next]

theorem directory_size_survives_cleanup : ∃ w, Runs.exec step (init (ascii "/work") sampleTree) undisturbed = some w ∧
    w.phase = .done (.ok 7) ∧ Survives (ascii "/work") sampleTree undisturbed w :=
  ⟨_, rfl, rfl, (directory_size_survives rfl).1 (by decide +kernel)⟩

theorem exec_checkLimits_error {cfg : CreateConfig} {tasks : Nat} {calls : List WalkEntry} (err : GoError)
    (htasks : tasks < cfg.retainedTasks) (hsum : sumSizes calls 0 = .error err) :
    Exec (Measures tasks calls) (checkLimits cfg) () (.error ⟨500, err.text⟩) () := by
  have hcount : Measures tasks calls () .storeLen tasks () := rfl
  have hwalk : Measures tasks calls () (.walkDir .sizes cfg.workDir) calls () := rfl
  refine .call hcount ?_
  dsimp only [Prog.bind]
  rw [if_neg (Nat.not_le.2 htasks)]
  refine .call hwalk ?_
  dsimp only [Prog.bind, pure]
  rw [hsum]
  exact .done _ _

theorem directory_size_fails_on_cleanup : ∃ w, Runs.exec step (init (ascii "/work") sampleTree) disturbed = some w ∧
    w.phase = .done (.error (missing (ascii "lstat") (ascii "/work/t1/source.zip"))) ∧
      ¬ Survives (ascii "/work") sampleTree disturbed w ∧ ∀ cfg : CreateConfig, 0 < cfg.retainedTasks →
        Prog.Exec (Measures 0 w.calls) (checkLimits cfg) ()
          (.error ⟨500, ascii "lstat /work/t1/source.zip: no such file or directory"⟩) () := by
  refine ⟨_, rfl, rfl, ?_, ?_⟩
  · intro hsurvives
    exact hsurvives.found _ rfl rfl
  · intro cfg htasks
    exact exec_checkLimits_error (missing (ascii "lstat") (ascii "/work/t1/source.zip")) htasks rfl

end SizeWalk

end BuildkitService.Daemon
