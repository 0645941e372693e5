import BuildkitService.Batch.Specs

/-!
# The two formats of one target

A run of the batch tool in one mode records its results under the target normalised for that mode.
-/

namespace BuildkitService.Batch

open Strings

/-! ### Export and preheat -/

structure ResultEntry where
  target : Bytes
  success : Bool
  deriving DecidableEq, Repr

def runExport (oci withFail : Bool) (entries : List ResultEntry) : List ResultEntry :=
  entries.filter fun entry => targetMatchesMode entry.target oci && (entry.success || withFail)

def runPreheat (oci : Bool) (entries : List ResultEntry) : List ResultEntry :=
  entries.filter fun entry => entry.success && targetMatchesMode entry.target oci

theorem targetMatchesMode_not (target : Bytes) (oci : Bool) :
    targetMatchesMode target (!oci) = !targetMatchesMode target oci := by
  cases oci with
  | true => exact (Bool.not_not _).symm
  | false => rfl

theorem targetMatchesMode_iff {target : Bytes} {built : Bool} (hbuilt : targetMatchesMode target built = true)
    (oci : Bool) : targetMatchesMode target oci = true ↔ oci = built := by
  refine ⟨fun hoci => ?_, fun h => h ▸ hbuilt⟩
  by_contra hne
  rw [Bool.eq_not_of_ne hne, targetMatchesMode_not, hbuilt] at hoci
  cases hoci

def SeenByMode (target : Bytes) : Prop :=
  ∀ built (entries : List ResultEntry), ∀ entry ∈ entries,
    entry.target = normalizeTargetForMode target built → ∀ oci withFail,
      (entry ∈ runExport oci withFail entries ↔ oci = built ∧ (entry.success || withFail) = true) ∧
      (entry ∈ runPreheat oci entries ↔ oci = built ∧ entry.success = true)

theorem seenByMode_of_matches {target : Bytes}
    (hmatches : ∀ oci, targetMatchesMode (normalizeTargetForMode target oci) oci = true) :
    SeenByMode target := by
  intro built entries entry hmem htarget oci withFail
  have hmode : targetMatchesMode entry.target oci = true ↔ oci = built := by
    rw [htarget]
    exact targetMatchesMode_iff (hmatches built) oci
  constructor
  · rw [runExport, List.mem_filter, Bool.and_eq_true, hmode]
    exact and_iff_right hmem
  · rw [runPreheat, List.mem_filter, Bool.and_eq_true, hmode, and_comm (b := oci = built)]
    exact and_iff_right hmem

/-! ### Nydus first -/

theorem targetLe_iff {a b : BuildSpec} : targetLe a b = true ↔ ¬ b.target < a.target := by
  rw [targetLe, Bool.not_eq_true', ← less_iff, Bool.not_eq_true]

theorem BuildSpec.le_iff {a b : BuildSpec} :
    a.le b = true ↔ (a.oci = b.oci ∧ ¬ b.target < a.target) ∨ (a.oci = false ∧ b.oci = true) := by
  rw [BuildSpec.le]
  cases ha : a.oci <;> cases hb : b.oci <;> simp [targetLe_iff]

theorem BuildSpec.le_total (a b : BuildSpec) : a.le b = true ∨ b.le a = true := by
  rw [BuildSpec.le_iff, BuildSpec.le_iff]
  cases ha : a.oci <;> cases hb : b.oci <;> simp [List.le_total]

theorem BuildSpec.le_trans (a b c : BuildSpec) (hab : a.le b = true) (hbc : b.le c = true) :
    a.le c = true := by
  rw [BuildSpec.le_iff] at hab hbc ⊢
  rcases hab with ⟨hab, hle⟩ | ⟨ha, hb⟩
  · rcases hbc with ⟨hbc, hle'⟩ | ⟨hb, hc⟩
    · exact .inl ⟨hab.trans hbc, List.not_lt.2 (List.le_trans (List.not_lt.1 hle) (List.not_lt.1 hle'))⟩
    · exact .inr ⟨hab.trans hb, hc⟩
  · rcases hbc with ⟨hbc, _⟩ | ⟨hb', _⟩
    · exact .inr ⟨ha, hbc ▸ hb⟩
    · rw [hb] at hb'
      cases hb'

def NydusFirst (specs : List BuildSpec) : Prop := specs.Pairwise fun a b => a.oci = true → b.oci = true

theorem nydusFirst_buildJob (specs : List BuildSpec) (key : Bytes) :
    NydusFirst (buildJob specs key).specs := by
  have htotal : Std.Total fun a b : BuildSpec => a.le b = true := ⟨BuildSpec.le_total⟩
  have htrans : IsTrans BuildSpec fun a b => a.le b = true := ⟨BuildSpec.le_trans⟩
  refine (List.pairwise_insertionSort (fun a b : BuildSpec => a.le b = true) _).imp ?_
  intro a b hle ha
  rcases BuildSpec.le_iff.1 hle with ⟨heq, _⟩ | ⟨ha', _⟩
  · exact heq ▸ ha
  · rw [ha] at ha'
    cases ha'

/-! ### One job for both formats -/

def GroupedTogether (target : Bytes) : Prop :=
  ∀ (filters : List Bytes) (buildModes : List Bool) (dir scheduleKey : Bytes) (specs : List BuildSpec),
    dirSpecs filters buildModes dir target scheduleKey ⊆ specs →
    ∀ nydus ∈ dirSpecs filters buildModes dir target scheduleKey,
    ∀ other ∈ dirSpecs filters buildModes dir target scheduleKey, nydus.oci = false → other.oci = true →
      ∃ job ∈ groupBuildSpecs specs, nydus ∈ job.specs ∧ other ∈ job.specs ∧ NydusFirst job.specs

theorem target_of_dirSpecs {filters : List Bytes} {buildModes : List Bool} {dir target scheduleKey : Bytes}
    {spec : BuildSpec} (hspec : spec ∈ dirSpecs filters buildModes dir target scheduleKey) :
    spec.target = normalizeTargetForMode target spec.oci := by
  obtain ⟨oci, _, hsome⟩ := List.mem_filterMap.1 hspec
  dsimp only at hsome
  split at hsome
  · cases hsome
  · cases hsome
    rfl

theorem groupedTogether_of_key {target : Bytes}
    (hkey : stripNydusV3Suffix (normalizeTargetForMode target false) =
      stripNydusV3Suffix (normalizeTargetForMode target true)) : GroupedTogether target := by
  intro filters buildModes dir scheduleKey specs hsub nydus hnydus other hother hfalse htrue
  have hnydusKey : nydus.key = stripNydusV3Suffix (normalizeTargetForMode target false) := by
    rw [BuildSpec.key, target_of_dirSpecs hnydus, hfalse]
  have hotherKey : other.key = nydus.key := by
    rw [BuildSpec.key, target_of_dirSpecs hother, htrue, hnydusKey, hkey]
  refine ⟨buildJob specs nydus.key, ?_, mem_buildJob.2 ⟨hsub hnydus, rfl⟩,
    mem_buildJob.2 ⟨hsub hother, hotherKey⟩, nydusFirst_buildJob specs _⟩
  exact List.mem_map.2 ⟨nydus.key, mem_groupKeys.2 ⟨nydus, hsub hnydus, rfl⟩, rfl⟩

/-! ### Agreement -/

section Agreement

variable {target stem : Bytes} (htrim : trimSpace target = target)

include htrim

theorem keys_of_plain (hne : target ≠ []) (hsuf : hasSuffix target nydusV3TargetSuffix = false) :
    stripNydusV3Suffix (normalizeTargetForMode target false) = target ∧
      normalizeTargetForMode target true = target ∧ stripNydusV3Suffix target = target := by
  have hstrip : stripNydusV3Suffix target = target := by
    rw [stripNydusV3Suffix_of_trimmed htrim, trimSuffix_of_not hsuf]
  have hensure : normalizeTargetForMode target false = target ++ nydusV3TargetSuffix :=
    ensureNydusV3Suffix_of_not htrim hne hsuf
  refine ⟨?_, hstrip, hstrip⟩
  rw [hensure, stripNydusV3Suffix_of_trimmed (trimSpace_append_suffix htrim hne), trimSuffix_append]

theorem keys_of_suffix (htarget : target = stem ++ nydusV3TargetSuffix) :
    stripNydusV3Suffix (normalizeTargetForMode target false) = stem ∧
      normalizeTargetForMode target true = stem := by
  have hstrip : stripNydusV3Suffix target = stem := by
    rw [stripNydusV3Suffix_of_trimmed htrim, htarget, trimSuffix_append]
  have hensure : normalizeTargetForMode target false = target :=
    ensureNydusV3Suffix_of_suffix htrim (hasSuffix_iff.2 ⟨stem, htarget⟩)
  refine ⟨?_, hstrip⟩
  rw [hensure, hstrip]

theorem nydus_matches (hne : target ≠ []) :
    targetMatchesMode (normalizeTargetForMode target false) false = true := by
  show hasNydusV3Suffix (ensureNydusV3Suffix target) = true
  cases hsuf : hasSuffix target nydusV3TargetSuffix with
  | true => rw [ensureNydusV3Suffix_of_suffix htrim hsuf, hasNydusV3Suffix_of_trimmed htrim, hsuf]
  | false =>
    rw [ensureNydusV3Suffix_of_not htrim hne hsuf,
      hasNydusV3Suffix_of_trimmed (trimSpace_append_suffix htrim hne)]
    exact hasSuffix_iff.2 ⟨target, rfl⟩

/-- Both modes and the grouping agree on these targets and no others. -/
theorem formats_agree_iff (hne : target ≠ []) :
    ((∀ oci, targetMatchesMode (normalizeTargetForMode target oci) oci = true) ∧ SeenByMode target ∧
      stripNydusV3Suffix (normalizeTargetForMode target false) =
        stripNydusV3Suffix (normalizeTargetForMode target true) ∧ GroupedTogether target) ↔
    ∀ stem, target = stem ++ nydusV3TargetSuffix →
      trimSpace stem = stem ∧ hasSuffix stem nydusV3TargetSuffix = false := by
  constructor
  · rintro ⟨hmatches, _, hkey, _⟩ stem htarget
    obtain ⟨hnydus, hoci⟩ := keys_of_suffix htrim htarget
    have hmatch : hasSuffix (trimSpace stem) nydusV3TargetSuffix = false := by
      have htrue := hmatches true
      rw [hoci, targetMatchesMode, if_pos rfl] at htrue
      exact eq_false_of_ne_true fun hhas => by rw [hasNydusV3Suffix, hhas] at htrue; cases htrue
    have htrimmed : stem = trimSpace stem := by
      rw [hnydus, hoci, stripNydusV3Suffix, trimSuffix_of_not hmatch] at hkey
      exact hkey
    exact ⟨htrimmed.symm, htrimmed ▸ hmatch⟩
  · intro hstem
    have hboth : targetMatchesMode (normalizeTargetForMode target true) true = true ∧
        stripNydusV3Suffix (normalizeTargetForMode target false) =
          stripNydusV3Suffix (normalizeTargetForMode target true) := by
      cases hsuf : hasSuffix target nydusV3TargetSuffix with
      | false =>
        obtain ⟨hnydus, hoci, hkey⟩ := keys_of_plain htrim hne hsuf
        rw [hnydus, hoci, hkey]
        refine ⟨?_, rfl⟩
        show (!hasNydusV3Suffix target) = true
        rw [hasNydusV3Suffix_of_trimmed htrim, hsuf]
        rfl
      | true =>
        obtain ⟨stem, htarget⟩ := hasSuffix_iff.1 hsuf
        obtain ⟨htrimmed, hnot⟩ := hstem stem htarget
        obtain ⟨hnydus, hoci⟩ := keys_of_suffix htrim htarget
        rw [hnydus, hoci, stripNydusV3Suffix_of_trimmed htrimmed, trimSuffix_of_not hnot]
        refine ⟨?_, rfl⟩
        show (!hasNydusV3Suffix stem) = true
        rw [hasNydusV3Suffix_of_trimmed htrimmed, hnot]
        rfl
    have hmatches : ∀ oci, targetMatchesMode (normalizeTargetForMode target oci) oci = true := by
      intro oci
      cases oci with
      | true => exact hboth.1
      | false => exact nydus_matches htrim hne
    exact ⟨hmatches, seenByMode_of_matches hmatches, hboth.2, groupedTogether_of_key hboth.2⟩

end Agreement

def taggedTarget : Bytes := ascii "example.com/ns/repo:tag_nydus_v3"

theorem formats_agree_iff_tag :
    (∀ oci, targetMatchesMode (normalizeTargetForMode taggedTarget oci) oci = true) ∧
      GroupedTogether taggedTarget := by
  have htrim : trimSpace taggedTarget = taggedTarget := by decide
  have hstem : ∀ stem, taggedTarget = stem ++ nydusV3TargetSuffix →
      trimSpace stem = stem ∧ hasSuffix stem nydusV3TargetSuffix = false := by
    intro stem htarget
    have htag : stem = ascii "example.com/ns/repo:tag" := by
      rw [← trimSuffix_append stem nydusV3TargetSuffix, ← htarget]
      decide
    rw [htag]
    decide
  have hagree := (formats_agree_iff htrim (by decide)).2 hstem
  exact ⟨hagree.1, hagree.2.2.2⟩

theorem repeated_suffix_disagrees :
    let target := ascii "r.io/a:b_nydus_v3_nydus_v3"
    targetMatchesMode (normalizeTargetForMode target true) true = false ∧
      stripNydusV3Suffix (normalizeTargetForMode target false) = ascii "r.io/a:b_nydus_v3" ∧
      stripNydusV3Suffix (normalizeTargetForMode target true) = ascii "r.io/a:b" := by
  decide

end BuildkitService.Batch
