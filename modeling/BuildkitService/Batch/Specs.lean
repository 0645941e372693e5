import BuildkitService.Targets
import Mathlib.Data.List.Sort
import Mathlib.Data.List.Dedup

/-!
# Jobs of the batch tool

`internal/buildbatch/build_specs.go`.
-/

namespace BuildkitService.Batch

open Strings List

structure BuildSpec where
  dir : Bytes
  target : Bytes
  scheduleKey : Bytes
  oci : Bool
  deriving DecidableEq, Repr

structure BuildJob where
  key : Bytes
  scheduleKey : Bytes
  specs : List BuildSpec
  deriving DecidableEq, Repr

/-! ### Build modes -/

def normalizeTargetForMode (target : Bytes) (oci : Bool) : Bytes :=
  if oci then stripNydusV3Suffix target else ensureNydusV3Suffix target

def targetMatchesMode (target : Bytes) (oci : Bool) : Bool :=
  if oci then !hasNydusV3Suffix target else hasNydusV3Suffix target

def resolveBuildModes (oci bothFormats : Bool) : Except Bytes (List Bool) :=
  if oci && bothFormats then .error (ascii "--oci and --both-formats are mutually exclusive")
  else if bothFormats then .ok [false, true]
  else if oci then .ok [true]
  else .ok [false]

/-! ### Specs -/

def targetLe (a b : BuildSpec) : Bool := !less b.target a.target

def loadBuildSpecs (target : Bytes) (buildModes : List Bool) : Except Bytes (List BuildSpec) :=
  if target.isEmpty then .error (ascii "either --image-dirs or a positional [target] is required")
  else if buildModes.isEmpty then .error (ascii "at least one build mode is required")
  else
    let specs := buildModes.map fun oci =>
      let normalizedTarget := normalizeTargetForMode target oci
      ⟨[], normalizedTarget, stripNydusV3Suffix normalizedTarget, oci⟩
    .ok (specs.insertionSort fun a b => targetLe a b = true)

def targetFilters (target : Bytes) (buildModes : List Bool) : List Bytes :=
  if (trimSpace target).isEmpty then [] else buildModes.map (normalizeTargetForMode target)

def dirSpecs (filters : List Bytes) (buildModes : List Bool) (dir target scheduleKey : Bytes) :
    List BuildSpec :=
  buildModes.filterMap fun oci =>
    let normalizedTarget := normalizeTargetForMode target oci
    if !filters.isEmpty && !filters.contains normalizedTarget then none
    else some ⟨dir, normalizedTarget, scheduleKey, oci⟩

/-! ### Grouping -/

def BuildSpec.key (spec : BuildSpec) : Bytes := stripNydusV3Suffix spec.target

def BuildSpec.le (a b : BuildSpec) : Bool := if a.oci != b.oci then !a.oci else targetLe a b

def keyLe (a b : Bytes) : Bool := !less b a

def groupKeys (specs : List BuildSpec) : List Bytes :=
  ((specs.map BuildSpec.key).dedup).insertionSort fun a b => keyLe a b = true

def buildJob (specs : List BuildSpec) (key : Bytes) : BuildJob :=
  let jobSpecs := (specs.filter fun spec => spec.key == key).insertionSort fun a b => a.le b = true
  let scheduleKey := match jobSpecs with
    | first :: _ => if (trimSpace first.scheduleKey).isEmpty then key else first.scheduleKey
    | [] => key
  ⟨key, scheduleKey, jobSpecs⟩

def groupBuildSpecs (specs : List BuildSpec) : List BuildJob := (groupKeys specs).map (buildJob specs)

/-! ### The filter -/

inductive OutcomeState where
  | failed
  | succeeded
  deriving DecidableEq, Repr

abbrev ResultReader := Bytes → Except Bytes (Option Bool)

def scanSpecs (results : ResultReader) (skipFail : Bool) :
    List BuildSpec → List BuildSpec × Bool × Bool → Except Bytes (List BuildSpec × Bool × Bool)
  | [], scan => .ok scan
  | spec :: specs, (pending, allSucceeded, anyFailed) =>
      match results spec.target with
      | .error err => .error err
      | .ok none => scanSpecs results skipFail specs (pending ++ [spec], false, anyFailed)
      | .ok (some true) => scanSpecs results skipFail specs (pending, allSucceeded, anyFailed)
      | .ok (some false) =>
          scanSpecs results skipFail specs (if skipFail then pending else pending ++ [spec], false, true)

structure Filtered where
  jobs : List BuildJob
  existingOutcomes : List (Bytes × OutcomeState)
  skippedSucceeded : Nat
  skippedFailed : Nat
  deriving DecidableEq, Repr

def filterJobs (results : ResultReader) (skipFail : Bool) :
    List BuildJob → Filtered → Except Bytes Filtered
  | [], filtered => .ok filtered
  | job :: jobs, filtered =>
      match scanSpecs results skipFail job.specs ([], !job.specs.isEmpty, false) with
      | .error err => .error err
      | .ok (pending, allSucceeded, anyFailed) =>
          if allSucceeded then
            filterJobs results skipFail jobs { filtered with
              existingOutcomes := filtered.existingOutcomes ++ [(job.key, .succeeded)]
              skippedSucceeded := filtered.skippedSucceeded + 1 }
          else if anyFailed && skipFail then
            filterJobs results skipFail jobs { filtered with
              existingOutcomes := filtered.existingOutcomes ++ [(job.key, .failed)]
              skippedFailed := filtered.skippedFailed + 1 }
          else filterJobs results skipFail jobs { filtered with
            jobs := filtered.jobs ++ [{ job with specs := pending }] }

def filterBuildJobs (results : ResultReader) (skipFail : Bool) (jobs : List BuildJob) :
    Except Bytes Filtered :=
  filterJobs results skipFail jobs ⟨[], [], 0, 0⟩

def settled (results : ResultReader) (skipFail : Bool) (job : BuildJob) (spec : BuildSpec) : Bool :=
  (match results spec.target with
    | .ok (some true) => true
    | _ => false) ||
  (skipFail && job.specs.any fun other => match results other.target with
    | .ok (some false) => true
    | _ => false)

def settledSpecs (results : ResultReader) (skipFail : Bool) (jobs : List BuildJob) : List BuildSpec :=
  jobs.flatMap fun job => job.specs.filter (settled results skipFail job)

/-! ### What grouping and filtering keep -/

variable {specs : List BuildSpec} {spec : BuildSpec} {job : BuildJob} {jobs : List BuildJob}
  {filtered : Filtered}

theorem mem_groupKeys {key : Bytes} : key ∈ groupKeys specs ↔ ∃ spec ∈ specs, spec.key = key := by
  rw [groupKeys, (perm_insertionSort _ _).mem_iff, mem_dedup, List.mem_map]

theorem mem_buildJob {key : Bytes} : spec ∈ (buildJob specs key).specs ↔ spec ∈ specs ∧ spec.key = key := by
  rw [buildJob, (perm_insertionSort _ _).mem_iff, mem_filter, beq_iff_eq]

theorem mem_groupBuildSpecs (hspec : spec ∈ specs) : ∃ job ∈ groupBuildSpecs specs, spec ∈ job.specs := by
  refine ⟨buildJob specs spec.key, ?_, mem_buildJob.2 ⟨hspec, rfl⟩⟩
  exact List.mem_map.2 ⟨spec.key, mem_groupKeys.2 ⟨spec, hspec, rfl⟩, rfl⟩

section Filter

variable {results : ResultReader} {skipFail : Bool}

structure Scanned (results : ResultReader) (skipFail : Bool) (specs before pending : List BuildSpec)
    (allBefore allSucceeded anyBefore anyFailed : Bool) : Prop where
  kept : ∀ spec ∈ before, spec ∈ pending
  spec : ∀ spec ∈ specs, results spec.target = .ok (some true) ∨ spec ∈ pending ∨
    (skipFail = true ∧ results spec.target = .ok (some false))
  all : allSucceeded = true → allBefore = true ∧ ∀ spec ∈ specs, results spec.target = .ok (some true)
  any : anyFailed = true ↔ anyBefore = true ∨ ∃ spec ∈ specs, results spec.target = .ok (some false)

theorem scanSpecs_scanned {before pending : List BuildSpec}
    {allBefore allSucceeded anyBefore anyFailed : Bool}
    (hscan : scanSpecs results skipFail specs (before, allBefore, anyBefore) = .ok (pending, allSucceeded, anyFailed)) :
    Scanned results skipFail specs before pending allBefore allSucceeded anyBefore anyFailed := by
  induction specs generalizing before allBefore anyBefore with
  | nil =>
    cases hscan
    exact ⟨fun _ h => h, by simp, by simp, by simp⟩
  | cons spec specs ih =>
    rw [scanSpecs] at hscan
    split at hscan
    · cases hscan
    · rename_i hget
      obtain ⟨hkept, hspec, hall, hany⟩ := ih hscan
      refine ⟨fun other hother => hkept other (by simp [hother]), ?_, ?_, ?_⟩
      · simp only [forall_mem_cons]
        exact ⟨.inr (.inl (hkept spec (by simp))), hspec⟩
      · intro hsucceeded
        cases (hall hsucceeded).1
      · rw [hany]
        simp [hget]
    · rename_i hget
      obtain ⟨hkept, hspec, hall, hany⟩ := ih hscan
      refine ⟨hkept, ?_, ?_, ?_⟩
      · simp only [forall_mem_cons]
        exact ⟨.inl hget, hspec⟩
      · intro hsucceeded
        simp only [forall_mem_cons]
        exact ⟨(hall hsucceeded).1, hget, (hall hsucceeded).2⟩
      · rw [hany]
        simp [hget]
    · rename_i hget
      obtain ⟨hkept, hspec, hall, hany⟩ := ih hscan
      refine ⟨fun other hother => hkept other (by split <;> simp [hother]), ?_, ?_, ?_⟩
      · simp only [forall_mem_cons]
        refine ⟨?_, hspec⟩
        by_cases hskip : skipFail = true
        · exact .inr (.inr ⟨hskip, hget⟩)
        · exact .inr (.inl (hkept spec (by rw [if_neg hskip]; simp)))
      · intro hsucceeded
        cases (hall hsucceeded).1
      · rw [hany]
        simp [hget]

theorem settled_of_success (hget : results spec.target = .ok (some true)) :
    settled results skipFail job spec = true := by
  simp [settled, hget]

theorem settled_of_failure {other : BuildSpec} (hskip : skipFail = true) (hother : other ∈ job.specs)
    (hget : results other.target = .ok (some false)) : settled results skipFail job spec = true := by
  rw [settled, Bool.or_eq_true, Bool.and_eq_true, List.any_eq_true]
  exact .inr ⟨hskip, other, hother, by rw [hget]⟩

theorem filterJobs_keeps {before : Filtered}
    (hfilter : filterJobs results skipFail jobs before = .ok filtered) :
    (∀ job ∈ before.jobs, job ∈ filtered.jobs) ∧ filtered.jobs.length ≤ before.jobs.length + jobs.length ∧
    ∀ job ∈ jobs, ∀ spec ∈ job.specs, settled results skipFail job spec = true ∨
      ∃ kept ∈ filtered.jobs, spec ∈ kept.specs := by
  induction jobs generalizing before with
  | nil =>
    cases hfilter
    exact ⟨fun _ h => h, by simp, by simp⟩
  | cons job jobs ih =>
    rw [filterJobs] at hfilter
    split at hfilter
    · cases hfilter
    · rename_i pending allSucceeded anyFailed hscan
      obtain ⟨_, hspec, hall, hany⟩ := scanSpecs_scanned hscan
      split_ifs at hfilter with hsucceeded hfailed
      · obtain ⟨hkept, hlength, hrest⟩ := ih hfilter
        refine ⟨hkept, by simp only [length_cons] at hlength ⊢; omega, ?_⟩
        simp only [forall_mem_cons]
        exact ⟨fun spec hmem => .inl (settled_of_success ((hall hsucceeded).2 spec hmem)), hrest⟩
      · obtain ⟨hkept, hlength, hrest⟩ := ih hfilter
        rw [Bool.and_eq_true] at hfailed
        obtain ⟨other, hother, hget⟩ := (hany.1 hfailed.1).resolve_left (by simp)
        refine ⟨hkept, by simp only [length_cons] at hlength ⊢; omega, ?_⟩
        simp only [forall_mem_cons]
        exact ⟨fun spec _ => .inl (settled_of_failure hfailed.2 hother hget), hrest⟩
      · obtain ⟨hkept, hlength, hrest⟩ := ih hfilter
        refine ⟨fun other hother => hkept other (by simp [hother]), ?_, ?_⟩
        · simp only [length_append, length_cons, length_nil] at hlength ⊢
          omega
        · simp only [forall_mem_cons]
          refine ⟨fun spec hmem => ?_, hrest⟩
          rcases hspec spec hmem with hget | hpending | ⟨hskip, hget⟩
          · exact .inl (settled_of_success hget)
          · exact .inr ⟨{ job with specs := pending }, hkept _ (by simp), hpending⟩
          · exact .inl (settled_of_failure hskip hmem hget)

theorem mem_settledSpecs (hjob : job ∈ jobs) (hspec : spec ∈ job.specs)
    (hsettled : settled results skipFail job spec = true) : spec ∈ settledSpecs results skipFail jobs :=
  mem_flatMap.2 ⟨job, hjob, mem_filter.2 ⟨hspec, hsettled⟩⟩

section

variable (hfilter : filterBuildJobs results skipFail jobs = .ok filtered)

include hfilter

theorem filterBuildJobs_covers (hspec : spec ∈ jobs.flatMap BuildJob.specs) :
    spec ∈ settledSpecs results skipFail jobs ∨ spec ∈ filtered.jobs.flatMap BuildJob.specs := by
  obtain ⟨job, hjob, hmem⟩ := mem_flatMap.1 hspec
  rcases (filterJobs_keeps hfilter).2.2 job hjob spec hmem with hsettled | hkept
  · exact .inl (mem_settledSpecs hjob hmem hsettled)
  · exact .inr (mem_flatMap.2 hkept)

theorem filterBuildJobs_length : filtered.jobs.length ≤ jobs.length := by
  simpa using (filterJobs_keeps hfilter).2.1

end

end Filter

end BuildkitService.Batch
