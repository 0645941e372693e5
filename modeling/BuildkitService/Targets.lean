import BuildkitService.Lib.Strings

/-!
# Image targets

The target of a Nydus image ends in `_nydus_v3`, and the OCI image of the same build has the target
without it.
-/

namespace BuildkitService

open Strings

def nydusV3TargetSuffix : Bytes := ascii "_nydus_v3"

def hasNydusV3Suffix (target : Bytes) : Bool := hasSuffix (trimSpace target) nydusV3TargetSuffix

def ensureNydusV3Suffix (target : Bytes) : Bytes :=
  let trimmed := trimSpace target
  if trimmed.isEmpty || hasNydusV3Suffix trimmed then trimmed else trimmed ++ nydusV3TargetSuffix

def stripNydusV3Suffix (target : Bytes) : Bytes := trimSuffix (trimSpace target) nydusV3TargetSuffix

/-! ### Trimmed targets -/

variable {target : Bytes}

section

variable (htrim : trimSpace target = target)

include htrim

theorem hasNydusV3Suffix_of_trimmed : hasNydusV3Suffix target = hasSuffix target nydusV3TargetSuffix := by
  rw [hasNydusV3Suffix, htrim]

theorem stripNydusV3Suffix_of_trimmed :
    stripNydusV3Suffix target = trimSuffix target nydusV3TargetSuffix := by
  rw [stripNydusV3Suffix, htrim]

theorem ensureNydusV3Suffix_of_suffix
    (hsuf : hasSuffix target nydusV3TargetSuffix = true) : ensureNydusV3Suffix target = target := by
  have hhas : hasNydusV3Suffix (trimSpace target) = true := by
    rw [htrim, hasNydusV3Suffix_of_trimmed htrim, hsuf]
  rw [ensureNydusV3Suffix, hhas, Bool.or_true, if_pos rfl, htrim]

theorem ensureNydusV3Suffix_of_not (hne : target ≠ []) (hsuf : hasSuffix target nydusV3TargetSuffix = false) :
    ensureNydusV3Suffix target = target ++ nydusV3TargetSuffix := by
  have hhas : hasNydusV3Suffix (trimSpace target) = false := by
    rw [htrim, hasNydusV3Suffix_of_trimmed htrim, hsuf]
  have hempty : (trimSpace target).isEmpty = false := by
    rw [htrim, List.isEmpty_eq_false_iff]
    exact hne
  rw [ensureNydusV3Suffix, hhas, hempty, htrim]
  rfl

end

theorem trimSpace_append_suffix {stem : Bytes} (htrim : trimSpace stem = stem) (hne : stem ≠ []) :
    trimSpace (stem ++ nydusV3TargetSuffix) = stem ++ nydusV3TargetSuffix := by
  have hfirst : nydusV3TargetSuffix = 0x5F :: ascii "nydus_v3" := by decide
  have hlast : nydusV3TargetSuffix = ascii "_nydus_v" ++ [0x33] := by decide
  have hleft : trimLeftSpace (stem ++ nydusV3TargetSuffix) = stem ++ nydusV3TargetSuffix := by
    rw [hfirst]
    exact trimLeftSpace_append (by decide) _ (trimLeftSpace_of_trimmed htrim) hne
  rw [trimSpace, hleft, hlast, ← List.append_assoc]
  exact trimRightSpace_concat (by decide) (by decide) _

end BuildkitService
