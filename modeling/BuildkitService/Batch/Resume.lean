import BuildkitService.Batch.Specs

/-!
# Resuming a run

The jobs that earlier runs have left, as `filterBuildJobs` divides them: each job of the list is
pending or skipped, one way or the other, and the flags that the loop over its specs accumulates say
which.
-/

namespace BuildkitService.Batch

open Strings List

/-! ### What is stored -/

def storedSuccess (results : ResultReader) (spec : BuildSpec) : Bool :=
  match results spec.target with
  | .ok (some success) => success
  | _ => false

def storedFailure (results : ResultReader) (spec : BuildSpec) : Bool :=
  match results spec.target with
  | .ok (some success) => !success
  | _ => false

inductive Group where
  | pending
  | succeeded
  | failed
  deriving DecidableEq, Repr

def BuildJob.group (results : ResultReader) (skipFail : Bool) (job : BuildJob) : Group :=
  if job.specs.all (storedSuccess results) then .succeeded
  else if skipFail && job.specs.any (storedFailure results) then .failed
  else .pending

def Group.outcome : Group → Option OutcomeState
  | .pending => none
  | .succeeded => some .succeeded
  | .failed => some .failed

def BuildJob.unfinished (results : ResultReader) (job : BuildJob) : BuildJob :=
  { job with specs := job.specs.filter fun spec => !storedSuccess results spec }

variable {results : ResultReader} {skipFail : Bool} {job : BuildJob} {jobs : List BuildJob}

/-! ### The loops -/

theorem scanSpecs_eq {specs before pending : List BuildSpec} {allBefore allSucceeded anyBefore anyFailed : Bool}
    (hscan : scanSpecs results skipFail specs (before, allBefore, anyBefore) = .ok (pending, allSucceeded, anyFailed)) :
    allSucceeded = (allBefore && specs.all (storedSuccess results)) ∧
      anyFailed = (anyBefore || specs.any (storedFailure results)) ∧
      pending = before ++ specs.filter fun spec =>
        !storedSuccess results spec && !(skipFail && storedFailure results spec) := by
  induction specs generalizing before allBefore anyBefore with
  | nil =>
    cases hscan
    simp
  | cons spec specs ih =>
    rw [scanSpecs] at hscan
    rw [all_cons, any_cons, filter_cons]
    split at hscan
    · cases hscan
    · rename_i hget
      obtain ⟨rfl, rfl, rfl⟩ := ih hscan
      simp [storedSuccess, storedFailure, hget]
    · rename_i hget
      obtain ⟨rfl, rfl, rfl⟩ := ih hscan
      simp [storedSuccess, storedFailure, hget]
    · rename_i hget
      obtain ⟨rfl, rfl, rfl⟩ := ih hscan
      cases skipFail <;> simp [storedSuccess, storedFailure, hget]

theorem filter_unfinished (hfailed : (skipFail && job.specs.any (storedFailure results)) = false) :
    (job.specs.filter fun spec => !storedSuccess results spec && !(skipFail && storedFailure results spec)) =
      job.specs.filter fun spec => !storedSuccess results spec := by
  refine filter_congr fun spec hspec => ?_
  have hnot : (skipFail && storedFailure results spec) = false := by
    rw [Bool.and_eq_false_iff] at hfailed ⊢
    rcases hfailed with hskip | hany
    · exact .inl hskip
    · exact .inr (eq_false_of_ne_true (List.any_eq_false.1 hany spec hspec))
  rw [hnot, Bool.not_false, Bool.and_true]

def divided (results : ResultReader) (skipFail : Bool) (jobs : List BuildJob) : Filtered where
  jobs := (jobs.filter fun job => job.group results skipFail = .pending).map (BuildJob.unfinished results)
  existingOutcomes := jobs.filterMap fun job => (job.group results skipFail).outcome.map (job.key, ·)
  skippedSucceeded := (jobs.filter fun job => job.group results skipFail = .succeeded).length
  skippedFailed := (jobs.filter fun job => job.group results skipFail = .failed).length

def Filtered.append (a b : Filtered) : Filtered :=
  ⟨a.jobs ++ b.jobs, a.existingOutcomes ++ b.existingOutcomes, a.skippedSucceeded + b.skippedSucceeded,
    a.skippedFailed + b.skippedFailed⟩

theorem divided_append (jobs others : List BuildJob) :
    divided results skipFail (jobs ++ others) = (divided results skipFail jobs).append (divided results skipFail others) := by
  simp only [divided, Filtered.append, filter_append, map_append, filterMap_append, length_append]

theorem Filtered.append_assoc (a b c : Filtered) : (a.append b).append c = a.append (b.append c) := by
  simp only [Filtered.append, List.append_assoc, Nat.add_assoc]

theorem filterJobs_cons {before filtered : Filtered} (hspecs : job.specs ≠ [])
    (hfilter : filterJobs results skipFail (job :: jobs) before = .ok filtered) :
    filterJobs results skipFail jobs (before.append (divided results skipFail [job])) = .ok filtered := by
  rw [filterJobs] at hfilter
  split at hfilter
  · cases hfilter
  · rename_i pending allSucceeded anyFailed hscan
    obtain ⟨hall, hany, hpending⟩ := scanSpecs_eq hscan
    have hne : (!job.specs.isEmpty) = true := by simpa using hspecs
    rw [hne, Bool.true_and] at hall
    rw [Bool.false_or] at hany
    rw [nil_append] at hpending
    rw [hall, hany, Bool.and_comm] at hfilter
    split_ifs at hfilter with hsucceeded hfailed
    · have hgroup : job.group results skipFail = .succeeded := if_pos hsucceeded
      simpa [divided, Filtered.append, Group.outcome, hgroup] using hfilter
    · have hgroup : job.group results skipFail = .failed := by
        rw [BuildJob.group, if_neg hsucceeded, if_pos hfailed]
      simpa [divided, Filtered.append, Group.outcome, hgroup] using hfilter
    · have hgroup : job.group results skipFail = .pending := by
        rw [BuildJob.group, if_neg hsucceeded, if_neg hfailed]
      have hunfinished : ({ job with specs := pending } : BuildJob) = job.unfinished results := by
        rw [BuildJob.unfinished, hpending, filter_unfinished (eq_false_of_ne_true hfailed)]
      simpa [divided, Filtered.append, Group.outcome, hgroup, hunfinished] using hfilter

theorem filterJobs_eq {before filtered : Filtered} (hspecs : ∀ job ∈ jobs, job.specs ≠ [])
    (hfilter : filterJobs results skipFail jobs before = .ok filtered) :
    filtered = before.append (divided results skipFail jobs) := by
  induction jobs generalizing before with
  | nil =>
    cases hfilter
    simp [Filtered.append, divided]
  | cons job jobs ih =>
    obtain ⟨hjob, hrest⟩ := forall_mem_cons.1 hspecs
    rw [ih hrest (filterJobs_cons hjob hfilter), Filtered.append_assoc, ← divided_append, singleton_append]

/-! ### The jobs of a run -/

theorem groupBuildSpecs_specs {specs : List BuildSpec} (hjob : job ∈ groupBuildSpecs specs) :
    job.specs ≠ [] := by
  obtain ⟨key, hkey, rfl⟩ := List.mem_map.1 hjob
  obtain ⟨spec, hspec, hof⟩ := mem_groupKeys.1 hkey
  exact ne_nil_of_mem (mem_buildJob.2 ⟨hspec, hof⟩)

theorem groupBuildSpecs_keys (specs : List BuildSpec) : ((groupBuildSpecs specs).map BuildJob.key).Nodup := by
  have hkeys : (groupBuildSpecs specs).map BuildJob.key = groupKeys specs := by
    rw [groupBuildSpecs, List.map_map]
    exact List.map_id _
  rw [hkeys, groupKeys, (perm_insertionSort _ _).nodup_iff]
  exact nodup_dedup _

theorem group_succeeded_iff :
    job.group results skipFail = .succeeded ↔ ∀ spec ∈ job.specs, storedSuccess results spec = true := by
  rw [BuildJob.group, ← List.all_eq_true]
  split_ifs with hall hfailed
  · exact iff_of_true rfl hall
  · exact iff_of_false (by decide) hall
  · exact iff_of_false (by decide) hall

theorem storedFailure_not_success {spec : BuildSpec} (hfailure : storedFailure results spec = true) :
    storedSuccess results spec = false := by
  rw [storedFailure] at hfailure
  rw [storedSuccess]
  split at hfailure
  · rwa [Bool.not_eq_true'] at hfailure
  · cases hfailure

theorem group_failed_iff : job.group results skipFail = .failed ↔
      skipFail = true ∧ ∃ spec ∈ job.specs, storedFailure results spec = true := by
  rw [BuildJob.group, ← List.any_eq_true, ← Bool.and_eq_true]
  split_ifs with hall hfailed
  · refine iff_of_false (by decide) fun hboth => ?_
    obtain ⟨spec, hspec, hfailure⟩ := List.any_eq_true.1 (Bool.and_eq_true_iff.1 hboth).2
    have hsuccess := List.all_eq_true.1 hall spec hspec
    rw [storedFailure_not_success hfailure] at hsuccess
    cases hsuccess
  · exact iff_of_true rfl hfailed
  · exact iff_of_false (by decide) hfailed

theorem mem_outcomes (hkeys : (jobs.map BuildJob.key).Nodup) (hjob : job ∈ jobs) (outcome : OutcomeState) :
    (job.key, outcome) ∈ (divided results skipFail jobs).existingOutcomes ↔
      (job.group results skipFail).outcome = some outcome := by
  rw [divided, mem_filterMap]
  constructor
  · rintro ⟨other, hother, hmap⟩
    obtain ⟨found, hfound, hpair⟩ := Option.map_eq_some_iff.1 hmap
    obtain ⟨hkey, rfl⟩ := Prod.mk.inj hpair
    rwa [← inj_on_of_nodup_map hkeys hother hjob hkey]
  · intro houtcome
    exact ⟨job, hjob, by rw [houtcome, Option.map_some]⟩

theorem outcomes_nodup (hkeys : (jobs.map BuildJob.key).Nodup) :
    ((divided results skipFail jobs).existingOutcomes.map Prod.fst).Nodup := by
  have hsublist : ((divided results skipFail jobs).existingOutcomes.map Prod.fst).Sublist (jobs.map BuildJob.key) := by
    rw [divided]
    induction jobs with
    | nil => exact Sublist.slnil
    | cons job jobs ih =>
      have hrest := ih (nodup_cons.1 hkeys).2
      rw [filterMap_cons]
      cases (job.group results skipFail).outcome with
      | none => exact hrest.cons _
      | some outcome => exact hrest.cons_cons _
  exact hkeys.sublist hsublist

/-- The jobs of a run are those that are pending or skipped. -/
theorem resume_filter {specs : List BuildSpec} {filtered : Filtered}
    (hfilter : filterBuildJobs results skipFail (groupBuildSpecs specs) = .ok filtered) :
    filtered.jobs = ((groupBuildSpecs specs).filter fun job => job.group results skipFail = .pending).map
        (BuildJob.unfinished results) ∧
      filtered.skippedSucceeded =
        ((groupBuildSpecs specs).filter fun job => job.group results skipFail = .succeeded).length ∧
      filtered.skippedFailed = ((groupBuildSpecs specs).filter fun job => job.group results skipFail = .failed).length ∧
      ((groupBuildSpecs specs).map BuildJob.key).Nodup ∧ (filtered.existingOutcomes.map Prod.fst).Nodup ∧
      (∀ entry ∈ filtered.existingOutcomes, ∃ job ∈ groupBuildSpecs specs, entry.1 = job.key) ∧
      (∀ job ∈ groupBuildSpecs specs,
        (job.group results skipFail = .succeeded ↔ ∀ spec ∈ job.specs, storedSuccess results spec = true) ∧
        (job.group results skipFail = .failed ↔
          skipFail = true ∧ ∃ spec ∈ job.specs, storedFailure results spec = true) ∧
        ∀ outcome, (job.key, outcome) ∈ filtered.existingOutcomes ↔
          (job.group results skipFail).outcome = some outcome) ∧
      ∀ job ∈ filtered.jobs, job.specs ≠ [] := by
  have hkeys := groupBuildSpecs_keys specs
  have hdivided := filterJobs_eq (fun job hjob => groupBuildSpecs_specs hjob) hfilter
  obtain rfl : filtered = divided results skipFail (groupBuildSpecs specs) := by
    rw [hdivided]
    simp only [Filtered.append, List.nil_append, Nat.zero_add]
  refine ⟨rfl, rfl, rfl, hkeys, outcomes_nodup hkeys, ?_, fun job hjob => ?_, fun job hjob => ?_⟩
  · intro entry hentry
    obtain ⟨job, hjob, hmap⟩ := List.mem_filterMap.1 hentry
    obtain ⟨outcome, _, rfl⟩ := Option.map_eq_some_iff.1 hmap
    exact ⟨job, hjob, rfl⟩
  · exact ⟨group_succeeded_iff, group_failed_iff, mem_outcomes hkeys hjob⟩
  · obtain ⟨pending, hpending, rfl⟩ := List.mem_map.1 hjob
    obtain ⟨hmem, hgroup⟩ := List.mem_filter.1 hpending
    -- a job with nothing left would have succeeded
    intro hnil
    have hsucceeded : pending.group results skipFail = .succeeded := by
      rw [group_succeeded_iff]
      intro spec hspec
      have hdone := List.filter_eq_nil_iff.1 hnil spec hspec
      rwa [Bool.not_eq_true', Bool.not_eq_false] at hdone
    rw [hsucceeded] at hgroup
    cases hgroup

def sampleSpecs : List BuildSpec :=
  [⟨[], ascii "a", ascii "a", true⟩, ⟨[], ascii "a_nydus_v3", ascii "a", false⟩, ⟨[], ascii "b", ascii "b", true⟩,
    ⟨[], ascii "b_nydus_v3", ascii "b", false⟩, ⟨[], ascii "c", ascii "c", true⟩]

def sampleResults : ResultReader := fun target =>
  .ok (if target = ascii "a" || target = ascii "c" then some true
    else if target = ascii "b_nydus_v3" then some false else none)

def sampleSkipped : Filtered :=
  ⟨[⟨ascii "a", ascii "a", [⟨[], ascii "a_nydus_v3", ascii "a", false⟩]⟩],
    [(ascii "b", .failed), (ascii "c", .succeeded)], 1, 1⟩

theorem resume_filter_three :
    filterBuildJobs sampleResults true (groupBuildSpecs sampleSpecs) = .ok sampleSkipped ∧
      (∀ job ∈ sampleSkipped.jobs, job.specs ≠ []) ∧
      ∀ job ∈ groupBuildSpecs sampleSpecs, job.group sampleResults true = .failed →
        ∃ spec ∈ job.specs, storedFailure sampleResults spec = true := by
  have hfilter : filterBuildJobs sampleResults true (groupBuildSpecs sampleSpecs) = .ok sampleSkipped := by
    decide +kernel
  obtain ⟨_, _, _, _, _, _, hgroups, hnonempty⟩ := resume_filter hfilter
  exact ⟨hfilter, hnonempty, fun job hjob hfailed => ((hgroups job hjob).2.1.1 hfailed).2⟩

end BuildkitService.Batch
